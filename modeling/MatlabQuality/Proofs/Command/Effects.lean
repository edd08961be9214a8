import MatlabQuality.Proofs.Files.Resolution
import MatlabQuality.Proofs.Report.Saved
import MatlabQuality.Proofs.Thresholds.Commented
import MatlabQuality.Proofs.Thresholds.Formats

/-!
# What commands change

A command makes everything ready before it writes: what it cannot use is refused, and then the files
are as they were.  When it writes, it writes to one path, and only a report brings along the
directories it goes to.  A file of thresholds that was written holds the defaults from then on, and
is not written again.

## Main definitions

* `Failure.isWriting` — the failures of the last step, when all was ready.
* `Refused` — a command that fails with the files as they were.
* `CommandLine.target?` — the path that a command line writes to.
* `MadeAbove`, `MayChange` — the places of directories made above a path, and all places that a
  command line may change.
* `Unready` — why a command line is refused.
* `Configurable`, `configured` — a directory without a file of thresholds, and with it.

## Main statements

* `analyze_cases`, `writePage_cases`, `writeConfig_cases` — each command is refused, or all was
  ready and it writes.
* `project_configured`, `writeConfig_configured` — what a file of thresholds that was written does.
* `execute_confined` — commands write their own output only, and leave nothing behind when they are
  refused.
-/

namespace MatlabQuality.Command

open MatlabQuality.Files MatlabQuality.Text

/-! ## Refusals -/

/-- Whether a failure comes from the last step, when all was ready and something was to be
written. -/
def Failure.isWriting : Failure → Bool
  | .directoryNotMade _ => true
  | .reportNotWritten _ => true
  | .pageNotWritten _ => true
  | .configNotWritten _ => true
  | _ => false

/-- A command that fails before it writes, with the files as they were. -/
def Refused (v : View) (ending : Ending) : Prop :=
  ∃ e : Failure, e.isWriting = false ∧ ending = (v, .error e)

/-- A command that goes on to write, and changes only some places. -/
structure Writes (v : View) (ending : Ending) (changed : Place → Prop) : Prop where
  keepsBut : v.KeepsBut ending.1 changed
  isWriting : ∀ e, ending.2 = .error e → e.isWriting = true

theorem Writes.mono {v : View} {ending : Ending} {changed wider : Place → Prop}
    (h : Writes v ending changed) (hwider : ∀ place, changed place → wider place) :
    Writes v ending wider :=
  ⟨h.keepsBut.mono hwider, h.isWriting⟩

variable {v v' : View} {path : String} {place : Place}

/-! ## Reports -/

/-- A place at which a directory is made above a path. -/
def MadeAbove (v v' : View) (path : String) (place : Place) : Prop :=
  ∃ parent, Path.HasParent path parent ∧ v.IsMade v' parent place

/-- The places that a report may change: its own, and those of directories made above it. -/
def IsSaved (v v' : View) (path : String) (place : Place) : Prop :=
  place = v.resolve path ∨ MadeAbove v v' path place

/-- Directories made above a path, and then a file written there. -/
theorem keepsBut_write?_of_made {above : View} {bytes : List UInt8}
    (h : v.KeepsBut above (MadeAbove v above path))
    (hwrite : above.write? path bytes = some v') : v.KeepsBut v' (IsSaved v v' path) := by
  have hwritten := View.keepsBut_write? h.linkFree hwrite
  refine ⟨hwritten.workingDirectory.trans h.workingDirectory, hwritten.linkFree,
    fun place hplace => ?_⟩
  by_cases hat : place = v.resolve path
  · exact .inl hat
  · have hkept : v'.tree.get? place = above.tree.get? place := by
      by_contra hne
      exact hat ((hwritten.get?_ne place hne).trans (View.resolve_eq h.workingDirectory path))
    obtain ⟨parent, hparent, hmissing, hdirectory, hspelled⟩ :=
      h.get?_ne place fun heq => hplace (hkept.trans heq)
    exact .inr ⟨parent, hparent, hmissing, hkept.trans hdirectory, hspelled⟩

/-- The directories that a report goes to are those above its path. -/
theorem keepsBut_makeDirectory_parent (hlinks : v.tree.LinkFree) (path : String) :
    let above := (v.makeDirectory ((Path.parent? path).getD "")).1
    v.KeepsBut above (MadeAbove v above path) := by
  intro above
  cases hparent : Path.parent? path with
  | none =>
    have hsame : above = v := by
      simp [above, hparent, View.makeDirectory, View.makeDirectoryWithin]
    rw [hsame]
    exact View.keepsBut_refl hlinks _
  | some parent =>
    have habove : above = (v.makeDirectory parent).1 := by simp [above, hparent]
    rw [habove]
    exact (View.keepsBut_makeDirectoryWithin hlinks _ parent).mono
      fun place hplace => ⟨parent, hparent, hplace⟩

/-- **A report that is saved** changes its own place, and makes directories above it. -/
theorem keepsBut_saveReport (hlinks : v.tree.LinkFree) (path text : String) :
    v.KeepsBut (saveReport v path text).1 (IsSaved v (saveReport v path text).1 path) ∧
      ∀ e, (saveReport v path text).2 = .error e → e.isWriting = true := by
  have habove := keepsBut_makeDirectory_parent hlinks path
  unfold saveReport
  dsimp only at habove ⊢
  split
  · next above hmade =>
    rw [hmade] at habove
    refine ⟨habove.mono fun place hplace => .inr hplace, fun e he => ?_⟩
    rw [← Except.error.inj he]
    rfl
  · next above hmade =>
    rw [hmade] at habove
    split
    · next written hwrite =>
      exact ⟨keepsBut_write?_of_made habove hwrite, fun e he => by cases he⟩
    · refine ⟨habove.mono fun place hplace => .inr hplace, fun e he => ?_⟩
      rw [← Except.error.inj he]
      rfl

/-- What is there before sources can be analyzed. -/
structure Analyzable (v : View) (path : String) (options : AnalyzeOptions)
    (format : ReportFormat) : Prop where
  format : ReportFormat.parse options.format = .ok format
  pathExists : v.pathExists path = true
  thresholds : ∃ t, thresholdsFor v path options.config = .ok t

theorem thresholdsFor_error {config : Option String} {e : Failure}
    (h : thresholdsFor v path config = .error e) : e.isWriting = false := by
  unfold thresholdsFor at h
  split at h
  · split at h
    · cases h
    · rw [← Except.error.inj h]
      rfl
  · cases h

/-- A report is made ready, or refused. -/
theorem prepareReport_cases (v : View) (now : Timestamp) (path : String) (workers : ℕ)
    (options : AnalyzeOptions) :
    (∃ e : Failure, e.isWriting = false ∧
      prepareReport v now path workers options = .error e) ∨
      ∃ format report, Analyzable v path options format ∧
        prepareReport v now path workers options = .ok (format, report) := by
  unfold prepareReport
  cases hformat : ReportFormat.parse options.format with
  | error cause => exact .inl ⟨_, rfl, rfl⟩
  | ok format =>
    cases hexists : v.pathExists path with
    | false => exact .inl ⟨_, rfl, rfl⟩
    | true =>
      cases hthresholds : thresholdsFor v path options.config with
      | error e => exact .inl ⟨e, thresholdsFor_error hthresholds, rfl⟩
      | ok t =>
        cases hrun : v.analyzeBelow t workers (!options.noIgnore) path with
        | error missing =>
          refine .inl ⟨.missingPath missing.path, rfl, ?_⟩
          simp only [bind, Except.bind, hrun]
          rfl
        | ok run =>
          refine .inr ⟨format, Report.ofRun run now, ⟨hformat, hexists, t, hthresholds⟩, ?_⟩
          simp only [bind, Except.bind, hrun]
          rfl

/-- Where the report of an analysis goes. -/
def reportTarget? (options : AnalyzeOptions) : Option String :=
  (ReportFormat.parse options.format).toOption.map fun format =>
    options.output.getD (defaultOutput format)

/-- **An analysis is refused, or all was ready and its report is saved.** -/
theorem analyze_cases (hlinks : v.tree.LinkFree) (now : Timestamp) (path : String) (workers : ℕ)
    (options : AnalyzeOptions) :
    Refused v (analyze v now path workers options) ∨
      ∃ format target, Analyzable v path options format ∧ reportTarget? options = some target ∧
        Writes v (analyze v now path workers options)
          (IsSaved v (analyze v now path workers options).1 target) := by
  obtain ⟨e, he, hrefused⟩ | ⟨format, report, hready, hreport⟩ :=
    prepareReport_cases v now path workers options
  · exact .inl ⟨e, he, by rw [analyze, hrefused]⟩
  · let target := options.output.getD (defaultOutput format)
    have htarget : reportTarget? options = some target := by
      rw [reportTarget?, hready.format]
      rfl
    obtain ⟨hkeeps, hwriting⟩ := keepsBut_saveReport hlinks target (report.render format)
    refine .inr ⟨format, target, hready, htarget, ?_⟩
    unfold analyze
    rw [hreport]
    dsimp only
    split
    · next above e hsave =>
      rw [hsave] at hkeeps hwriting
      refine ⟨hkeeps, fun failure hfailure => hwriting failure ?_⟩
      exact congrArg Except.error (Except.error.inj hfailure)
    · next written hsave =>
      rw [hsave] at hkeeps
      exact ⟨hkeeps, fun e he => by cases he⟩

/-! ## Pages -/

/-- **A page is refused, or it is written.** -/
theorem writePage_cases (hlinks : v.tree.LinkFree) (path : String) (output : Option String) :
    Refused v (writePage v path output) ∨
      (∃ r, HoldsReport v path r) ∧ Path.samePath (pageTarget path output) path = false ∧
        Writes v (writePage v path output) (· = v.resolve (pageTarget path output)) := by
  by_cases hholds : ∃ r, HoldsReport v path r
  · obtain ⟨r, hr⟩ := hholds
    have hpage := preparePage_of_holdsReport hr output
    by_cases hsame : Path.samePath (pageTarget path output) path = true
    · rw [if_pos hsame] at hpage
      exact .inl ⟨.wouldOverwrite path, rfl, by rw [writePage, hpage]⟩
    · rw [if_neg hsame] at hpage
      refine .inr ⟨⟨r, hr⟩, Bool.eq_false_of_not_eq_true hsame, ?_⟩
      rw [writePage_of_ok hpage]
      split
      · next written hwrite => exact ⟨View.keepsBut_write? hlinks hwrite, fun e he => by cases he⟩
      · refine ⟨View.keepsBut_refl hlinks _, fun e he => ?_⟩
        rw [← Except.error.inj he]
        rfl
  · obtain ⟨e, hmem, hpage⟩ := preparePage_of_not_holdsReport (not_exists.1 hholds) output
    have hwriting : ∀ e ∈ [Failure.reportNotFound path, .reportUnreadable path, .notReport path],
        e.isWriting = false := by simp [Failure.isWriting]
    exact .inl ⟨e, hwriting e hmem, by rw [writePage, hpage]⟩

/-! ## Files of thresholds -/

theorem isName_projectFileName : Path.IsName Thresholds.projectFileName := by decide

/-- A path leads to a directory without a file of thresholds. -/
structure Configurable (v : View) (path : String) (place : Place) : Prop where
  place? : v.place? path = some place
  /-- The directory is found by its absolute path too. -/
  absolute : v.place? (View.absolutePath place) = some place
  directory : v.tree.get? place = some .directory
  missing : v.tree.get? (place ++ [Thresholds.projectFileName]) = none

/-- The view with a file of thresholds in a directory. -/
def configured (v : View) (place : Place) : View :=
  { v with
    tree := v.tree.put (place ++ [Thresholds.projectFileName])
      (.file (bytesOf Thresholds.default.commentedToml)) }

theorem linkFree_configured (hlinks : v.tree.LinkFree) (place : Place) :
    (configured v place).tree.LinkFree :=
  hlinks.put _ (by simp)

/-- The file of thresholds of a directory. -/
def configFile (place : Place) : String :=
  Path.join (View.absolutePath place) Thresholds.projectFileName

theorem prepareConfig_of_place? (hplace : v.place? path = some place) :
    prepareConfig v path =
      if !v.isDirectory (View.absolutePath place) then
        .error (.notDirectory (View.absolutePath place))
      else if v.pathExists (configFile place) then .error (.alreadyExists (configFile place))
      else .ok (configFile place) := by
  unfold prepareConfig configFile
  simp only [hplace]
  cases v.isDirectory (View.absolutePath place) with
  | false => rfl
  | true =>
    cases v.pathExists (Path.join (View.absolutePath place) Thresholds.projectFileName) with
    | false => rfl
    | true => rfl

/-- What stands where the file of thresholds of a directory is. -/
theorem entry?_configFile (hlinks : v.tree.LinkFree)
    (habsolute : v.place? (View.absolutePath place) = some place)
    (hdirectory : v.tree.get? place = some .directory) :
    v.entry? (configFile place) = v.tree.get? (place ++ [Thresholds.projectFileName]) :=
  View.entry?_of_follow (View.follow_join hlinks habsolute hdirectory isName_projectFileName)

/-- A directory without a file of thresholds gets one. -/
theorem Configurable.writeConfig_eq (h : Configurable v path place) (hlinks : v.tree.LinkFree) :
    writeConfig v path =
      (configured v place, .ok ⟨configNotice (configFile place), none⟩) := by
  have hisDirectory := View.isDirectory_of_place? h.absolute h.directory
  have hexists : v.pathExists (configFile place) = false := by
    rw [View.pathExists, entry?_configFile hlinks h.absolute h.directory, h.missing]
    rfl
  have hfollow := View.follow_join hlinks h.absolute h.directory isName_projectFileName
  rw [← configFile] at hfollow
  have hwrite : v.write? (configFile place) (bytesOf Thresholds.default.commentedToml) =
      some (configured v place) := by
    rw [View.write?, hfollow]
    simp only [h.missing]
    rfl
  rw [writeConfig, prepareConfig_of_place? h.place?, hisDirectory, hexists]
  simp [hwrite]

/-- **A file of thresholds is refused, or it is written.** -/
theorem writeConfig_cases (hnames : IsNames v.workingDirectory) (hlinks : v.tree.LinkFree)
    (path : String) :
    Refused v (writeConfig v path) ∨
      ∃ place, Configurable v path place ∧
        writeConfig v path = (configured v place, .ok ⟨configNotice (configFile place), none⟩) := by
  cases hplace : v.place? path with
  | none =>
    refine .inl ⟨.missingPath path, rfl, ?_⟩
    rw [writeConfig, prepareConfig, hplace]
    rfl
  | some place =>
    have hconfig := prepareConfig_of_place? hplace
    cases hisDirectory : v.isDirectory (View.absolutePath place) with
    | false =>
      rw [hisDirectory] at hconfig
      exact .inl ⟨.notDirectory _, rfl, by rw [writeConfig, hconfig]; rfl⟩
    | true =>
      have hplaceNames := Tree.isNames_of_follow hnames (View.follow_of_place? hplace)
      obtain ⟨habsolute, hdirectory⟩ := View.place?_absolutePath hlinks hplaceNames hisDirectory
      have hentry := entry?_configFile hlinks habsolute hdirectory
      cases hget : v.tree.get? (place ++ [Thresholds.projectFileName]) with
      | some e =>
        rw [hisDirectory, View.pathExists, hentry, hget] at hconfig
        exact .inl ⟨.alreadyExists _, rfl, by rw [writeConfig, hconfig]; rfl⟩
      | none =>
        have hready : Configurable v path place := ⟨hplace, habsolute, hdirectory, hget⟩
        exact .inr ⟨place, hready, hready.writeConfig_eq hlinks⟩

/-! ## Directories with their file of thresholds -/

/-- The commented file of the defaults holds the defaults. -/
theorem ofTomlText?_default :
    Thresholds.ofTomlText? Thresholds.default.commentedToml.toList = some .default := by
  have hshare : Thresholds.isShare Thresholds.default.minCommentRatio = true := by decide +kernel
  obtain ⟨negative, a, hratio⟩ := Thresholds.exists_eq_finite_of_isShare hshare
  exact Thresholds.ofTomlText?_commentedToml_of_fits hratio (by decide)

theorem isTomlPath_join {directory : String} (h : directory ≠ "") :
    Thresholds.isTomlPath (Path.join directory Thresholds.projectFileName) = true := by
  have hextension : Path.extension? (Path.join directory Thresholds.projectFileName) =
      some "toml" := by
    have hnone : ∀ name ∈ ([] : List String), Path.IsName name := by simp
    exact (Path.extension?_foldl_join_eq_some_iff h hnone isName_projectFileName (by decide)).2
      ⟨"mlquality", by decide, by decide⟩
  rw [Thresholds.isTomlPath, hextension]
  decide

namespace Configurable

variable (h : Configurable v path place) (hlinks : v.tree.LinkFree)

include h

/-- The paths of all that stood there before lead where they led. -/
theorem place?_configured {other : String} {p : Place} (hother : v.place? other = some p) :
    (configured v place).place? other = some p :=
  View.place?_put_of_missing h.missing _ hother

theorem get?_configured : (configured v place).tree.get? place = some .directory :=
  (Tree.get?_put_of_ne (by simp) _ _).trans h.directory

include hlinks

/-- The directory shows its file of thresholds by every path that leads to the directory. -/
theorem bytes?_configured {directory : String}
    (hdirectory : (configured v place).place? directory = some place) :
    (configured v place).bytes? (Path.join directory Thresholds.projectFileName) =
      some (bytesOf Thresholds.default.commentedToml) := by
  have hfollow := View.follow_join (linkFree_configured hlinks place) hdirectory h.get?_configured
    isName_projectFileName
  have hfile : (configured v place).tree.get? (place ++ [Thresholds.projectFileName]) =
      some (.file (bytesOf Thresholds.default.commentedToml)) :=
    Tree.get?_put_self (by simp) _ _
  rw [View.bytes?, View.entry?_of_follow hfollow, hfile]

/-- **The file of thresholds holds the defaults.** -/
theorem load_configured {directory : String}
    (hdirectory : (configured v place).place? directory = some place) :
    Thresholds.load (configured v place) (Path.join directory Thresholds.projectFileName) =
      .ok .default := by
  have htext : Thresholds.ofFileText (Path.join directory Thresholds.projectFileName)
      Thresholds.default.commentedToml.toList = .ok .default := by
    rw [Thresholds.ofFileText, isTomlPath_join (View.ne_empty_of_place? hdirectory), if_pos rfl,
      ofTomlText?_default]
  have hvalid : Thresholds.default.validate = .ok () := by decide +kernel
  rw [Thresholds.load_eq (h.bytes?_configured hlinks hdirectory) htext, hvalid]

/-- **The defaults hold below the directory**, whatever other file it has. -/
theorem project_configured {directory : String}
    (hdirectory : (configured v place).place? directory = some place) :
    Thresholds.project (configured v place) directory = .default := by
  have hfile : (configured v place).isFile (Path.join directory Thresholds.projectFileName) =
      true := by
    rw [View.isFile, h.bytes?_configured hlinks hdirectory, Option.isSome_some]
  have hproject : Thresholds.projectFile? (configured v place) directory =
      some (Path.join directory Thresholds.projectFileName) := by
    rw [Thresholds.projectFile?, Thresholds.projectFileNames, List.map_cons,
      List.find?_cons_of_pos hfile]
  rw [Thresholds.project, hproject]
  simp only [h.load_configured hlinks hdirectory]

/-- **A second file of thresholds is refused.** -/
theorem writeConfig_configured {again : String}
    (hagain : (configured v place).place? again = some place) :
    writeConfig (configured v place) again =
      (configured v place, .error (.alreadyExists (configFile place))) := by
  have habsolute := h.place?_configured h.absolute
  have hisDirectory := View.isDirectory_of_place? habsolute h.get?_configured
  have hexists : (configured v place).pathExists (configFile place) = true := by
    have hfile := h.bytes?_configured hlinks habsolute
    rw [View.pathExists, configFile, View.entry?_of_bytes? hfile, Option.isSome_some]
  rw [writeConfig, prepareConfig_of_place? hagain, hisDirectory, hexists]
  rfl

end Configurable

/-! ## Command lines -/

/-- How sources are to be analyzed, if they are. -/
def CommandLine.options? (line : CommandLine) : Option AnalyzeOptions :=
  match line.command with
  | none => some {}
  | some (.analyze options) => some options
  | some .init => none
  | some (.html _) => none

/-- The path that a command line writes to. -/
def CommandLine.target? (line : CommandLine) : Option String :=
  match line.command with
  | none => reportTarget? {}
  | some (.analyze options) => reportTarget? options
  | some .init => some (Path.join line.path Thresholds.projectFileName)
  | some (.html output) => some (pageTarget line.path output)

/-- The places that a command line may change: the one that its target spells and, where sources are
analyzed, those of the directories that were missing above it. -/
def MayChange (v v' : View) (line : CommandLine) (place : Place) : Prop :=
  ∃ target, line.target? = some target ∧
    (place = v.resolve target ∨ line.options?.isSome ∧ MadeAbove v v' target place)

/-- Why sources cannot be analyzed. -/
inductive Unanalyzable (v : View) (path : String) (options : AnalyzeOptions) : Prop
  | format {cause : ReportFormat.Unknown} (h : ReportFormat.parse options.format = .error cause)
  | missing (h : v.place? path = none)
  | config {file : String} {cause : Thresholds.LoadError} (hfile : options.config = some file)
      (h : Thresholds.load v file = .error cause)

/-- Why a page cannot be made. -/
inductive Unshowable (v : View) (path : String) (output : Option String) : Prop
  | noReport (h : ∀ r, ¬ HoldsReport v path r)
  | samePath (h : Path.samePath (pageTarget path output) path = true)

/-- Why a file of thresholds cannot be made. -/
inductive Unconfigurable (v : View) (path : String) : Prop
  | missing (h : v.place? path = none)
  | notDirectory {place : Place} (hplace : v.place? path = some place)
      (h : v.tree.get? place ≠ some .directory)
  | alreadyExists {place : Place} (hplace : v.place? path = some place)
      (h : (v.tree.get? (place ++ [Thresholds.projectFileName])).isSome = true)

/-- Why a command line is refused. -/
def Unready (v : View) (line : CommandLine) : Prop :=
  match line.command with
  | none => looksLikeCommand v line.path = true ∨ Unanalyzable v line.path {}
  | some (.analyze options) => Unanalyzable v line.path options
  | some .init => Unconfigurable v line.path
  | some (.html output) => Unshowable v line.path output

theorem Analyzable.not_unanalyzable {options : AnalyzeOptions} {format : ReportFormat}
    (h : Analyzable v path options format) : ¬ Unanalyzable v path options := by
  intro hunanalyzable
  cases hunanalyzable with
  | format hformat =>
    rw [h.format] at hformat
    cases hformat
  | missing hmissing =>
    have hexists := h.pathExists
    rw [pathExists_eq_isSome, hmissing] at hexists
    cases hexists
  | config hfile hload =>
    obtain ⟨t, ht⟩ := h.thresholds
    simp only [thresholdsFor, hfile, hload] at ht
    cases ht

theorem Configurable.not_unconfigurable (h : Configurable v path place) :
    ¬ Unconfigurable v path := by
  intro hunconfigurable
  cases hunconfigurable with
  | missing hmissing =>
    rw [h.place?] at hmissing
    cases hmissing
  | notDirectory hplace hdirectory =>
    rw [h.place?, Option.some_inj] at hplace
    exact hdirectory (hplace ▸ h.directory)
  | alreadyExists hplace hexists =>
    rw [h.place?, Option.some_inj] at hplace
    rw [← hplace, h.missing] at hexists
    cases hexists

/-- **A command line is refused, or nothing stood in its way and it writes.** -/
theorem execute_cases (hnames : IsNames v.workingDirectory) (hlinks : v.tree.LinkFree)
    (now : Timestamp) (line : CommandLine) :
    Refused v (execute v now line) ∨
      ¬ Unready v line ∧
        Writes v (execute v now line) (MayChange v (execute v now line).1 line) := by
  unfold execute Unready MayChange CommandLine.target? CommandLine.options?
  cases line.command with
  | none =>
    dsimp only
    by_cases hlooks : looksLikeCommand v line.path = true
    · rw [if_pos hlooks]
      exact .inl ⟨.unknownCommand line.path, rfl, rfl⟩
    · rw [if_neg hlooks]
      obtain hrefused | ⟨format, target, hready, htarget, hwrites⟩ :=
        analyze_cases hlinks now line.path line.workers {}
      · exact .inl hrefused
      · refine .inr ⟨not_or.2 ⟨hlooks, hready.not_unanalyzable⟩,
          hwrites.mono fun place hplace => ?_⟩
        exact ⟨target, htarget, hplace.imp_right fun hmade => ⟨rfl, hmade⟩⟩
  | some action =>
    cases action with
    | init =>
      obtain hrefused | ⟨place, hready, hwrites⟩ := writeConfig_cases hnames hlinks line.path
      · exact .inl hrefused
      · have hspelled : v.resolve (Path.join line.path Thresholds.projectFileName) =
            place ++ [Thresholds.projectFileName] := by
          rw [View.resolve_join v (View.ne_empty_of_place? hready.place?) isName_projectFileName,
            ← View.follow_eq_resolve hlinks (View.follow_of_place? hready.place?)]
        refine .inr ⟨hready.not_unconfigurable, ?_⟩
        rw [hwrites]
        refine ⟨⟨rfl, linkFree_configured hlinks place, fun p hp => ⟨_, rfl, .inl ?_⟩⟩,
          fun e he => by cases he⟩
        rw [hspelled]
        by_contra hne
        exact hp (Tree.get?_put_of_ne hne _ _)
    | analyze options =>
      obtain hrefused | ⟨format, target, hready, htarget, hwrites⟩ :=
        analyze_cases hlinks now line.path line.workers options
      · exact .inl hrefused
      · refine .inr ⟨hready.not_unanalyzable, hwrites.mono fun place hplace => ?_⟩
        exact ⟨target, htarget, hplace.imp_right fun hmade => ⟨rfl, hmade⟩⟩
    | html output =>
      obtain hrefused | ⟨hholds, hsame, hwrites⟩ := writePage_cases hlinks line.path output
      · exact .inl hrefused
      · refine .inr ⟨?_, hwrites.mono fun place hplace => ⟨_, rfl, .inl hplace⟩⟩
        rintro (hnone | hpath)
        · obtain ⟨r, hr⟩ := hholds
          exact hnone r hr
        · rw [hsame] at hpath
          cases hpath

theorem execute_init (v : View) (now : Timestamp) {line : CommandLine}
    (hcommand : line.command = some .init) : execute v now line = writeConfig v line.path := by
  rw [execute, hcommand]

/-- What a file of thresholds that was written leaves behind. -/
theorem exists_configured_of_execute (hnames : IsNames v.workingDirectory)
    (hlinks : v.tree.LinkFree) {now : Timestamp} {line : CommandLine}
    (hcommand : line.command = some .init) {done : Finished}
    (hdone : (execute v now line).2 = .ok done) :
    ∃ place, Configurable v line.path place ∧ (execute v now line).1 = configured v place := by
  rw [execute_init v now hcommand] at hdone ⊢
  obtain ⟨e, -, hrefused⟩ | ⟨place, hready, hwritten⟩ :=
    writeConfig_cases hnames hlinks line.path
  · rw [hrefused] at hdone
    cases hdone
  · exact ⟨place, hready, congrArg Prod.fst hwritten⟩

/-- **Commands write their own output only.**  In a tree without links, what a command line changes
is what stands where its target says, and a report makes directories above it where there were none.
Where something stands in its way, or whenever it fails before its last step, the files are as they
were.  After a file of thresholds has been written, the directory has the defaults, whatever other
file it holds, and a second one is refused. -/
theorem execute_confined (hnames : IsNames v.workingDirectory) (hlinks : v.tree.LinkFree)
    (now : Timestamp) (line : CommandLine) :
    let v' := (execute v now line).1
    v.KeepsBut v' (MayChange v v' line) ∧
    (∀ e, (execute v now line).2 = .error e → e.isWriting = false → v' = v) ∧
    (Unready v line → ∃ e : Failure, e.isWriting = false ∧ execute v now line = (v, .error e)) ∧
    (line.command = some .init → ∀ done, (execute v now line).2 = .ok done →
      ∃ place, v.place? line.path = some place ∧ v'.place? line.path = some place ∧
        (∀ directory, v'.place? directory = some place →
          Thresholds.load v' (Path.join directory Thresholds.projectFileName) = .ok .default ∧
            Thresholds.project v' directory = .default) ∧
        ∀ later again, again.command = some .init → v'.place? again.path = some place →
          execute v' later again = (v', .error (.alreadyExists (configFile place)))) := by
  intro v'
  have hcases := execute_cases hnames hlinks now line
  refine ⟨?_, ?_, ?_, ?_⟩
  · obtain ⟨e, -, hrefused⟩ | ⟨-, hwrites⟩ := hcases
    · have hsame : v' = v := congrArg Prod.fst hrefused
      rw [hsame]
      exact View.keepsBut_refl hlinks _
    · exact hwrites.keepsBut
  · intro e he hearly
    obtain ⟨_, _, hrefused⟩ | ⟨-, hwrites⟩ := hcases
    · exact congrArg Prod.fst hrefused
    · rw [hwrites.isWriting e he] at hearly
      cases hearly
  · intro hunready
    obtain hrefused | ⟨hready, -⟩ := hcases
    · exact hrefused
    · exact absurd hunready hready
  · intro hcommand done hdone
    obtain ⟨place, hready, hconfigured⟩ :=
      exists_configured_of_execute hnames hlinks hcommand hdone
    have hv' : v' = configured v place := hconfigured
    rw [hv']
    refine ⟨place, hready.place?, hready.place?_configured hready.place?, ?_, ?_⟩
    · intro directory hdirectory
      exact ⟨hready.load_configured hlinks hdirectory, hready.project_configured hlinks hdirectory⟩
    · intro later again hagain hplace
      rw [execute_init _ later hagain]
      exact hready.writeConfig_configured hlinks hplace

/-- A directory with limits in the other file that is looked for. -/
def limitedView : View :=
  ⟨⟨[(["w"], .directory),
    (["w", ".mlqualityrc.json"], .file (bytesOf "\x7b\"max_parameters\": 1\x7d"))]⟩, []⟩

theorem linkFree_limitedView : limitedView.tree.LinkFree := by
  intro place target
  simp only [limitedView, Tree.get?, List.lookup_cons, List.lookup_nil]
  split_ifs
  · simp
  · split
    · simp
    · split <;> simp

theorem configurable_limitedView : Configurable limitedView "w" ["w"] := by
  have hpieces : Path.pieces "w" = ["w"] ∧ Path.pieces (View.absolutePath ["w"]) = ["", "w"] := by
    decide
  have habsolute : Path.isAbsolute "w" = false ∧
      Path.isAbsolute (View.absolutePath ["w"]) = true := by decide
  have hne : View.absolutePath ["w"] ≠ "" := by decide
  have hname : (Thresholds.projectFileName == ".mlqualityrc.json") = false := by decide
  constructor <;>
    simp [limitedView, View.place?, Tree.follow, Tree.walk, Tree.get?, List.lookup_cons, hpieces,
      habsolute, hne, hname]

/-- The limits of the directory give way to the defaults once they are written, and are not written
over. -/
theorem execute_confined_limitedView :
    let line : CommandLine := ⟨"w", "info", 1, some .init⟩
    let now : Timestamp := ⟨2024, 2, 29, 12, 0, 0, 0⟩
    IsNames limitedView.workingDirectory ∧ limitedView.tree.LinkFree ∧
      ∃ v' done, execute limitedView now line = (v', .ok done) ∧
        Thresholds.project v' "w" = .default ∧
        execute v' now line = (v', .error (.alreadyExists (configFile ["w"]))) := by
  intro line now
  have hnames : IsNames limitedView.workingDirectory := by decide
  have hexecute : execute limitedView now line =
      (configured limitedView ["w"], .ok ⟨configNotice (configFile ["w"]), none⟩) :=
    configurable_limitedView.writeConfig_eq linkFree_limitedView
  have hconfined := execute_confined hnames linkFree_limitedView now line
  rw [hexecute] at hconfined
  obtain ⟨-, -, -, hinit⟩ := hconfined
  obtain ⟨place, hbefore, hafter, hproject, hagain⟩ := hinit rfl _ rfl
  obtain rfl : place = ["w"] :=
    Option.some.inj (hbefore.symm.trans configurable_limitedView.place?)
  exact ⟨hnames, linkFree_limitedView, _, _, hexecute, (hproject "w" hafter).2,
    hagain now line rfl hafter⟩

end MatlabQuality.Command
