import MatlabQuality.Command.Outcome
import MatlabQuality.Proofs.Command.Parsing
import MatlabQuality.Proofs.Files.Resolution
import MatlabQuality.Proofs.Report.Saved
import MatlabQuality.Proofs.Smell.Counting
import MatlabQuality.Proofs.Thresholds.Loading

/-!
# Analyses as a gate

An analysis writes its report first and decides its exit status after that, by the findings of the
run it reports on.  So a report is there whether the analysis passes or fails, and it fails exactly
when a severity was given that some finding reaches.

## Main definitions

* `CommandLine.analysis?` — the analysis that a command line asks for.
* `Writable` — a report can be written to a path.

## Main statements

* `exists_saveReport_iff_writable` — a report is written exactly where one can be.
* `reaches_ofRun_iff` — a severity is reached exactly when some finding has it or a higher one.
* `gateStatus_eq_zero_of_le` — a higher severity never makes an analysis fail that passes.
* `runLine_gates` — what an analysis leaves behind, and its exit status.
-/

namespace MatlabQuality.Command

open MatlabQuality.Files

/-- How sources are to be analyzed, if a command line asks for that.  Without a command it does, and
leaves everything to the defaults. -/
def CommandLine.analysis? (line : CommandLine) : Option AnalyzeOptions :=
  match line.command with
  | none => some {}
  | some (.analyze options) => some options
  | some _ => none

/-- A report can be written to a path: the directories above it can be made, and then the path leads
to a place at which no directory stands. -/
def Writable (v : View) (path : String) : Prop :=
  ∃ above, v.makeDirectory ((Path.parent? path).getD "") = (above, true) ∧
    ∃ place, above.tree.follow above.workingDirectory path = .ok place ∧
      above.tree.get? place ≠ some .directory

variable {v : View} {now : Timestamp} {path : String} {workers : ℕ} {options : AnalyzeOptions}

/-! ## Reports -/

theorem exists_write?_iff (v : View) (path : String) (bytes : List UInt8) :
    (∃ w, v.write? path bytes = some w) ↔
      ∃ place, v.tree.follow v.workingDirectory path = .ok place ∧
        v.tree.get? place ≠ some .directory := by
  unfold View.write?
  cases v.tree.follow v.workingDirectory path with
  | error fault => simp
  | ok place =>
    dsimp only
    split
    · next hdirectory => simp [hdirectory]
    · next hfree => exact ⟨fun _ => ⟨place, rfl, hfree⟩, fun _ => ⟨_, rfl⟩⟩

/-- **A report is written** exactly where one can be, whatever it says. -/
theorem exists_saveReport_iff_writable (text : String) :
    (∃ w, saveReport v path text = (w, .ok ())) ↔ Writable v path := by
  unfold saveReport Writable
  rcases hmade : v.makeDirectory ((Path.parent? path).getD "") with ⟨above, made⟩
  cases made with
  | false => simp [hmade]
  | true =>
    have hwrite := exists_write?_iff above path (bytesOf text)
    cases hview : above.write? path (bytesOf text) with
    | none => simpa [hmade, hview] using hwrite
    | some w => simpa [hmade, hview] using hwrite

theorem exists_analyzeBelow (h : v.pathExists path = true) (t : Thresholds)
    (respectIgnores : Bool) : ∃ run, v.analyzeBelow t workers respectIgnores path = .ok run := by
  rcases sources_cases v path respectIgnores with ⟨hmissing, -⟩ | ⟨-, files, hfiles⟩
  · rw [h] at hmissing
    cases hmissing
  · exact ⟨_, by rw [View.analyzeBelow, hfiles]; rfl⟩

/-! ## Severities -/

/-- **A severity is reached** exactly when some finding has it or a higher one. -/
theorem reaches_ofRun_iff (now : Timestamp) {run : Run} {s : Severity} :
    reaches (Report.ofRun run now) s = true ↔ ∃ f ∈ run.findings, s ≤ f.severity := by
  have hcount : (Report.ofRun run now).codeSmells.bySeverity.atLeast s =
      run.findings.countP (s ≤ ·.severity) := Tally.atLeast_ofFindings run.findings s
  rw [reaches, hcount, decide_eq_true_eq, List.countP_pos_iff]
  simp only [decide_eq_true_eq]

theorem status_outcome_ok (done : Finished) :
    (outcome (.ok done)).status = if done.reached.isSome then 1 else 0 := by
  obtain ⟨printed, reached⟩ := done
  cases reached with
  | none => rfl
  | some s => rfl

theorem isSome_filter_reaches_iff (now : Timestamp) {run : Run} {failOn : Option Severity} :
    (failOn.filter (reaches (Report.ofRun run now))).isSome = true ↔
      ∃ s, failOn = some s ∧ ∃ f ∈ run.findings, s ≤ f.severity := by
  cases failOn with
  | none => simp
  | some s => simp [Option.filter, reaches_ofRun_iff]

/-- **How an analysis ends** whose report has been made ready and written. -/
theorem analyze_of_saved {format : ReportFormat} {report : Report} {w : View}
    (hreport : prepareReport v now path workers options = .ok (format, report))
    (hsave : saveReport v (options.output.getD (defaultOutput format)) (report.render format) =
      (w, .ok ())) :
    analyze v now path workers options =
      (w, .ok ⟨analysisNotice report (options.output.getD (defaultOutput format)),
        options.failOn.filter (reaches report)⟩) := by
  simp only [analyze, hreport, hsave]

/-- An analysis passes when its report is written and the severity it may fail on is not reached. -/
theorem exists_of_status_analyze_eq_zero
    (h : (outcome (analyze v now path workers options).2).status = 0) :
    ∃ format report w, prepareReport v now path workers options = .ok (format, report) ∧
      saveReport v (options.output.getD (defaultOutput format)) (report.render format) =
        (w, .ok ()) ∧ options.failOn.filter (reaches report) = none := by
  cases hreport : prepareReport v now path workers options with
  | error e => simp [analyze, hreport, outcome] at h
  | ok ready =>
    obtain ⟨format, report⟩ := ready
    cases hsave : saveReport v (options.output.getD (defaultOutput format))
        (report.render format) with
    | mk w saved =>
      cases saved with
      | error e => simp [analyze, hreport, hsave, outcome] at h
      | ok =>
        rw [analyze_of_saved hreport hsave, status_outcome_ok, ite_eq_right_iff] at h
        refine ⟨format, report, w, rfl, hsave, ?_⟩
        rw [← Option.not_isSome_iff_eq_none]
        exact fun hreached => Nat.one_ne_zero (h hreached)

/-- The exit status of an analysis that is to fail from a severity on. -/
def gateStatus (v : View) (now : Timestamp) (line : CommandLine) (options : AnalyzeOptions)
    (s : Severity) : ℕ :=
  (outcome (execute v now
    { line with command := some (.analyze { options with failOn := some s }) }).2).status

/-- **A higher severity never makes an analysis fail that passes.** -/
theorem gateStatus_eq_zero_of_le {line : CommandLine} {s s' : Severity} (hle : s ≤ s')
    (h : gateStatus v now line options s = 0) : gateStatus v now line options s' = 0 := by
  obtain ⟨format, report, w, hreport, hsave, hreached⟩ := exists_of_status_analyze_eq_zero h
  have hready : prepareReport v now line.path line.workers { options with failOn := some s' } =
      .ok (format, report) := hreport
  obtain ⟨-, -, -, run, -, -, rfl⟩ := prepareReport_eq_ok_iff.1 hready
  have hpasses : ¬ ∃ f ∈ run.findings, s ≤ f.severity := by
    rw [← reaches_ofRun_iff now]
    simpa using hreached
  have hreached' : reaches (Report.ofRun run now) s' = false := by
    rw [Bool.eq_false_iff, Ne, reaches_ofRun_iff]
    rintro ⟨f, hf, hsevere⟩
    exact hpasses ⟨f, hf, Nat.le_trans hle hsevere⟩
  change (outcome (analyze v now line.path line.workers
    { options with failOn := some s' }).2).status = 0
  rw [analyze_of_saved hready hsave, status_outcome_ok]
  simp [hreached']

/-! ## Command lines -/

theorem execute_of_analysis? {line : CommandLine} (h : line.analysis? = some options)
    (hexists : v.pathExists line.path = true) :
    execute v now line = analyze v now line.path line.workers options := by
  unfold CommandLine.analysis? at h
  unfold execute
  split at h
  · next hcommand =>
    obtain rfl := Option.some.inj h
    rw [hcommand]
    simp [looksLikeCommand, hexists]
  · next chosen hcommand =>
    obtain rfl := Option.some.inj h
    rw [hcommand]
  · cases h

theorem runLine_of_analysis? (now : Timestamp) {words : List String} {line : CommandLine}
    (hparse : parse words = .ok line) (h : line.analysis? = some options)
    (hexists : v.pathExists line.path = true) :
    runLine v now words = ((analyze v now line.path line.workers options).1,
      outcome (analyze v now line.path line.workers options).2) := by
  rw [runLine, hparse]
  dsimp only
  rw [execute_of_analysis? h hexists]

theorem exists_format_of_mem {name : String} (h : name ∈ formatNames) :
    ∃ format, ReportFormat.parse name = .ok format := by
  have hall : ∀ name ∈ formatNames,
      (ReportFormat.parse name).toOption.isSome = true := by decide
  cases hformat : ReportFormat.parse name with
  | ok format => exact ⟨format, rfl⟩
  | error cause =>
    have hsome := hall name h
    rw [hformat] at hsome
    cases hsome

theorem exists_format_of_parse {words : List String} {line : CommandLine}
    (hparse : parse words = .ok line) (h : line.analysis? = some options) :
    ∃ format, ReportFormat.parse options.format = .ok format := by
  refine exists_format_of_mem ?_
  unfold CommandLine.analysis? at h
  split at h
  · obtain rfl := Option.some.inj h
    simp [formatNames]
  · next chosen hcommand =>
    obtain rfl := Option.some.inj h
    exact mem_formatNames_of_parse hparse hcommand
  · cases h

/-- **An analysis is a faithful gate.**  Where its path exists, there are limits and the report can
be written, the report of the run is found where it was to go, and the exit status tells whether a
severity was given that some finding of the run reaches: 1 if so, and 0 otherwise.  Findings are
counted from a severity upwards as they are, so that a higher severity never makes an analysis fail
that passes. -/
theorem runLine_gates {words : List String} {line : CommandLine} (hparse : parse words = .ok line)
    (hanalysis : line.analysis? = some options) (hexists : v.pathExists line.path = true)
    (hlimits : ∃ t, thresholdsFor v line.path options.config = .ok t)
    (hwritable : ∀ format, ReportFormat.parse options.format = .ok format →
      Writable v (options.output.getD (defaultOutput format))) :
    (∃ t format run, thresholdsFor v line.path options.config = .ok t ∧
      ReportFormat.parse options.format = .ok format ∧
      v.analyzeBelow t line.workers (!options.noIgnore) line.path = .ok run ∧
      (runLine v now words).1.bytes? (options.output.getD (defaultOutput format)) =
        some (bytesOf ((Report.ofRun run now).render format)) ∧
      ((runLine v now words).2.status = 1 ↔
        ∃ s, options.failOn = some s ∧ ∃ f ∈ run.findings, s ≤ f.severity) ∧
      ((runLine v now words).2.status = 0 ↔
        ¬ ∃ s, options.failOn = some s ∧ ∃ f ∈ run.findings, s ≤ f.severity)) ∧
    (∀ findings s, (Tally.ofFindings findings).atLeast s =
      findings.countP fun f => s ≤ f.severity) ∧
    ∀ (w : View) (line : CommandLine) (options : AnalyzeOptions) (s s' : Severity), s ≤ s' →
      gateStatus w now line options s = 0 → gateStatus w now line options s' = 0 := by
  refine ⟨?_, Tally.atLeast_ofFindings, fun _ _ _ _ _ => gateStatus_eq_zero_of_le⟩
  obtain ⟨t, ht⟩ := hlimits
  obtain ⟨format, hformat⟩ := exists_format_of_parse hparse hanalysis
  obtain ⟨run, hrun⟩ := exists_analyzeBelow hexists t (!options.noIgnore)
  have hreport : prepareReport v now line.path line.workers options =
      .ok (format, Report.ofRun run now) :=
    prepareReport_eq_ok_iff.2 ⟨hformat, hexists, t, run, ht, hrun, rfl⟩
  obtain ⟨w, hsave⟩ := (exists_saveReport_iff_writable ((Report.ofRun run now).render format)).2
    (hwritable format hformat)
  have hrunLine := runLine_of_analysis? now hparse hanalysis hexists
  rw [analyze_of_saved hreport hsave] at hrunLine
  refine ⟨t, format, run, ht, hformat, hrun, ?_, ?_, ?_⟩
  · rw [hrunLine]
    exact bytes?_of_saveReport hsave
  · rw [hrunLine, status_outcome_ok, ← isSome_filter_reaches_iff now]
    simp
  · rw [hrunLine, status_outcome_ok, ← isSome_filter_reaches_iff now]
    simp

/-- A directory that holds one source, which has no comments. -/
def bareView : View :=
  ⟨Tree.empty.put ["a.m"] (.file (bytesOf "x = 1;")), []⟩

theorem linkFree_bareView : bareView.tree.LinkFree := by
  refine Tree.LinkFree.put (fun place target hget => ?_) _ (by simp)
  rw [Tree.get?] at hget
  split_ifs at hget
  · cases hget
  · cases hget

theorem follow_bareView {name : String} (h : Path.IsName name) :
    bareView.tree.follow bareView.workingDirectory name = .ok [name] :=
  View.follow_name linkFree_bareView rfl h

theorem bytes?_bareView : bareView.bytes? "a.m" = some (bytesOf "x = 1;") := by
  rw [View.bytes?, View.entry?_of_follow (follow_bareView (by decide)), bareView,
    Tree.get?_put_self (List.cons_ne_nil _ _)]

theorem isFile_source_bareView : bareView.isFile "a.m" = true := by
  rw [View.isFile, bytes?_bareView]
  rfl

theorem get?_bareView {name : String} (h : name ≠ "a.m") : bareView.tree.get? [name] = none := by
  rw [bareView, Tree.get?_put_of_ne (by simpa using h)]
  rfl

theorem isFile_bareView {name : String} (hname : Path.IsName name) (h : name ≠ "a.m") :
    bareView.isFile name = false := by
  rw [View.isFile, View.bytes?, View.entry?_of_follow (follow_bareView hname), get?_bareView h]
  rfl

theorem thresholdsFor_bareView :
    thresholdsFor bareView "a.m" none = .ok Thresholds.default := by
  have hparent : Path.parent? "a.m" = some "" := by decide
  have hjoin : ∀ name, Path.join "" name = name := by simp [Path.join]
  rw [thresholdsFor, projectDirectory, if_pos isFile_source_bareView, hparent, Option.getD_some,
    Thresholds.project_eq, hjoin, hjoin, isFile_bareView (by decide) (by decide),
    isFile_bareView (by decide) (by decide)]
  rfl

/-- Its only source has a finding. -/
theorem exists_finding_bareView {run : Run}
    (h : bareView.analyzeBelow Thresholds.default 8 true "a.m" = .ok run) :
    ∃ f ∈ run.findings, Severity.low ≤ f.severity := by
  have hsource : isSource "a.m" = true := by decide
  have htext : Text.ofSourceBytes (bytesOf "x = 1;") = "x = 1;".toList := by decide +kernel
  have hfinding : ∃ f ∈ (analyzeSource "a.m" "x = 1;".toList Thresholds.default).findings,
      Severity.low ≤ f.severity := by decide +kernel
  rw [View.analyzeBelow, sources_of_isFile isFile_source_bareView, if_pos hsource] at h
  obtain rfl := Except.ok.inj h
  simpa [View.analyzeFiles, analyzeAll, runOfOutcomes, analyzeRead, bytes?_bareView, htext,
    Run.ofAnalyses, Except.toOption] using hfinding

theorem writable_bareView : Writable bareView "r.txt" := by
  have hparent : Path.parent? "r.txt" = some "" := by decide
  refine ⟨bareView, ?_, ["r.txt"], follow_bareView (by decide), ?_⟩
  · rw [hparent, Option.getD_some, View.makeDirectory]
    simp [View.makeDirectoryWithin]
  · rw [get?_bareView (by decide)]
    simp

/-- A source without comments fails an analysis from the lowest severity on, and is reported on. -/
theorem runLine_gates_bareView :
    let words := ["analyze", "a.m", "--fail-on", "low", "-ftext", "-o", "r.txt"]
    let options : AnalyzeOptions :=
      { format := "text", output := some "r.txt", failOn := some .low }
    let now : Timestamp := ⟨2024, 2, 29, 12, 0, 0, 0⟩
    parse words = .ok ⟨"a.m", "warn", 8, some (.analyze options)⟩ ∧
      bareView.pathExists "a.m" = true ∧ Writable bareView "r.txt" ∧
      ∃ t run, thresholdsFor bareView "a.m" none = .ok t ∧
        bareView.analyzeBelow t 8 true "a.m" = .ok run ∧
        (runLine bareView now words).1.bytes? "r.txt" =
          some (bytesOf ((Report.ofRun run now).render .text)) ∧
        (runLine bareView now words).2.status = 1 := by
  intro words options now
  have hparse : parse words = .ok ⟨"a.m", "warn", 8, some (.analyze options)⟩ := by rfl
  have hexists : bareView.pathExists "a.m" = true := by
    rw [View.pathExists, View.entry?_of_bytes? bytes?_bareView]
    rfl
  have hformat : ReportFormat.parse options.format = .ok .text := by decide
  obtain ⟨⟨t, format, run, ht, hparsed, hrun, hsaved, hstatus, -⟩, -⟩ :=
    runLine_gates (v := bareView) hparse rfl hexists ⟨_, thresholdsFor_bareView⟩
      fun _ _ => writable_bareView
  obtain rfl : ReportFormat.text = format := Except.ok.inj (hformat.symm.trans hparsed)
  obtain rfl : Thresholds.default = t := Except.ok.inj (thresholdsFor_bareView.symm.trans ht)
  refine ⟨hparse, hexists, writable_bareView, _, run, ht, hrun, hsaved, hstatus.2 ?_⟩
  exact ⟨.low, rfl, exists_finding_bareView hrun⟩

end MatlabQuality.Command
