import MatlabQuality.Command.Execution
import MatlabQuality.Proofs.Files.Parent
import MatlabQuality.Proofs.Text.Encoding

/-!
# The limits that are used

Limits are used only after they have been validated, wherever they come from.  A file that was asked
for has to hold limits that make sense, in the format that its name calls for.  Otherwise the
directory of the sources is looked into: the first of two files that is there decides alone, and
where it cannot be used the defaults hold.

## Main definitions

* `SpellsToml`, `NamesToml` — the extension of TOML files, and the paths that have it.
* `HoldsLimits` — what a file must hold for its limits to be used.
* `Settles` — the limits that a file of a directory comes to.
* `Command.IsSearched` — the directory that files of limits are looked for in.

## Main statements

* `isTomlPath_iff` — which files are read as TOML.
* `load_eq_ok_iff` — which files are loaded, and as what.
* `Command.prepareReport_eq_ok_iff` — what a report is made from.
* `Command.thresholdsFor_settled` — which limits are used, and that they are valid.
-/

namespace MatlabQuality.Thresholds

open MatlabQuality.Files MatlabQuality.Text

/-! ## Formats -/

/-- The extension of TOML files, each letter in upper or lower case. -/
def SpellsToml (extension : String) : Prop :=
  ∃ t ∈ ['t', 'T'], ∃ o ∈ ['o', 'O'], ∃ m ∈ ['m', 'M'], ∃ l ∈ ['l', 'L'],
    extension = String.ofList [t, o, m, l]

/-- A path ends in an entry whose name has the extension of TOML files after a dot, and something
before the dot. -/
def NamesToml (path : String) : Prop :=
  ∃ stem extension, stem ≠ "" ∧ SpellsToml extension ∧
    Path.fileName? path = some (stem ++ "." ++ extension)

theorem toNat_toLower (c : Char) :
    c.toLower.toNat = if 65 ≤ c.toNat ∧ c.toNat ≤ 90 then c.toNat + 32 else c.toNat := by
  have hrange : (c.val ≥ 'A'.val ∧ c.val ≤ 'Z'.val) ↔ 65 ≤ c.toNat ∧ c.toNat ≤ 90 := by
    simp only [ge_iff_le, UInt32.le_iff_toNat_le]
    rfl
  unfold Char.toLower
  split_ifs with h h' h'
  · have hsum : (c.val + ('a'.val - 'A'.val)).toNat = (c.val.toNat + 32) % 2 ^ 32 := rfl
    change (c.val + ('a'.val - 'A'.val)).toNat = _
    rw [hsum, Char.toNat_val]
    omega
  · exact absurd (hrange.1 h) h'
  · exact absurd (hrange.2 h') h
  · rfl

/-- A letter has two cases. -/
theorem toLower_eq_iff (lower upper : Char) (hupper : 65 ≤ upper.toNat ∧ upper.toNat ≤ 90)
    (hlower : lower.toNat = upper.toNat + 32) {c : Char} :
    c.toLower = lower ↔ c ∈ [lower, upper] := by
  rw [List.mem_cons, List.mem_singleton, ← Char.toNat_inj, ← Char.toNat_inj, ← Char.toNat_inj,
    toNat_toLower]
  split_ifs
  all_goals omega

theorem equalsIgnoringCase_toml_iff {extension : String} :
    equalsIgnoringCase extension.toList "toml".toList = true ↔ SpellsToml extension := by
  have hname : "toml".toList.map Char.toLower = ['t', 'o', 'm', 'l'] := by decide
  have ht {c : Char} := toLower_eq_iff 't' 'T' (by decide) (by decide) (c := c)
  have ho {c : Char} := toLower_eq_iff 'o' 'O' (by decide) (by decide) (c := c)
  have hm {c : Char} := toLower_eq_iff 'm' 'M' (by decide) (by decide) (c := c)
  have hl {c : Char} := toLower_eq_iff 'l' 'L' (by decide) (by decide) (c := c)
  rw [equalsIgnoringCase, beq_iff_eq, hname]
  constructor
  · intro h
    obtain ⟨t, _, hcs, ht', h⟩ := List.map_eq_cons_iff.1 h
    obtain ⟨o, _, rfl, ho', h⟩ := List.map_eq_cons_iff.1 h
    obtain ⟨m, _, rfl, hm', h⟩ := List.map_eq_cons_iff.1 h
    obtain ⟨l, _, rfl, hl', h⟩ := List.map_eq_cons_iff.1 h
    rw [List.map_eq_nil_iff.1 h] at hcs
    refine ⟨t, ht.1 ht', o, ho.1 ho', m, hm.1 hm', l, hl.1 hl', ?_⟩
    rw [← hcs, String.ofList_toList]
  · rintro ⟨t, ht', o, ho', m, hm', l, hl', rfl⟩
    rw [String.toList_ofList, List.map_cons, List.map_cons, List.map_cons, List.map_cons, ht.2 ht',
      ho.2 ho', hm.2 hm', hl.2 hl']
    rfl

theorem dot_notMem_of_spellsToml {extension : String} (h : SpellsToml extension) :
    '.' ∉ extension.toList := by
  have hne {a b c : Char} (hc : c ∈ [a, b]) (ha : '.' ≠ a) (hb : '.' ≠ b) : '.' ≠ c := by
    rcases List.mem_cons.1 hc with rfl | hc
    · exact ha
    · exact List.mem_singleton.1 hc ▸ hb
  obtain ⟨t, ht, o, ho, m, hm, l, hl, rfl⟩ := h
  simp only [String.toList_ofList, List.mem_cons, List.not_mem_nil, or_false, not_or]
  exact ⟨hne ht (by decide) (by decide), hne ho (by decide) (by decide),
    hne hm (by decide) (by decide), hne hl (by decide) (by decide)⟩

/-- **The files that are read as TOML.** -/
theorem isTomlPath_iff {path : String} : isTomlPath path = true ↔ NamesToml path := by
  have hextension : isTomlPath path = true ↔
      ∃ extension, Path.extension? path = some extension ∧ SpellsToml extension := by
    unfold isTomlPath
    cases Path.extension? path with
    | none => simp
    | some extension => simpa using equalsIgnoringCase_toml_iff
  rw [hextension]
  simp only [Path.extension?, Option.bind_eq_some_iff, Path.splitName_snd_eq_some_iff]
  constructor
  · rintro ⟨extension, ⟨name, hname, -, stem, hstem, rfl⟩, hspells⟩
    exact ⟨stem, extension, hstem, hspells, hname⟩
  · rintro ⟨stem, extension, hstem, hspells, hname⟩
    exact ⟨extension, ⟨_, hname, dot_notMem_of_spellsToml hspells, stem, hstem, rfl⟩, hspells⟩

/-! ## Files -/

/-- A file holds limits: its bytes are those of a text, the text says the limits in the format that
the name of the file calls for, and the limits make sense. -/
def HoldsLimits (v : View) (file : String) (t : Thresholds) : Prop :=
  ∃ text, v.bytes? file = some (Utf8.encode text) ∧ (NamesToml file → ofTomlText? text = some t) ∧
    (¬ NamesToml file → ofJsonText? text = some t) ∧ t.validate = .ok ()

variable {v : View} {file : String} {t : Thresholds}

theorem ofFileText_eq_ok_iff {text : List Char} :
    ofFileText file text = .ok t ↔
      (NamesToml file → ofTomlText? text = some t) ∧
        (¬ NamesToml file → ofJsonText? text = some t) := by
  unfold ofFileText
  rw [← isTomlPath_iff]
  cases isTomlPath file with
  | true => cases ofTomlText? text <;> simp
  | false => cases ofJsonText? text <;> simp

theorem bind_decode?_eq_some_iff {text : List Char} :
    (v.bytes? file).bind Utf8.decode? = some text ↔ v.bytes? file = some (Utf8.encode text) := by
  rw [Option.bind_eq_some_iff]
  simp only [Utf8.decode?_eq_some_iff]
  constructor
  · rintro ⟨bytes, hbytes, rfl⟩
    exact hbytes
  · exact fun h => ⟨_, h, rfl⟩

/-- **A file is loaded as the limits that it holds.** -/
theorem load_eq_ok_iff : load v file = .ok t ↔ HoldsLimits v file t := by
  constructor
  · intro h
    unfold load at h
    split at h
    · cases h
    · next text htext =>
      split at h
      · cases h
      · next limits hlimits =>
        split at h
        · next hvalid =>
          obtain rfl := Except.ok.inj h
          obtain ⟨htoml, hjson⟩ := ofFileText_eq_ok_iff.1 hlimits
          exact ⟨text, bind_decode?_eq_some_iff.1 htext, htoml, hjson, hvalid⟩
        · cases h
  · rintro ⟨text, hbytes, htoml, hjson, hvalid⟩
    rw [load, bind_decode?_eq_some_iff.2 hbytes]
    simp only [ofFileText_eq_ok_iff.2 ⟨htoml, hjson⟩, hvalid]

/-! ## Directories -/

theorem validate_default : default.validate = .ok () := by
  decide +kernel

/-- What a file of a directory comes to: the limits that it holds, or else the defaults. -/
def Settles (v : View) (file : String) (t : Thresholds) : Prop :=
  HoldsLimits v file t ∨ (∀ t', ¬ HoldsLimits v file t') ∧ t = default

theorem Settles.validate_eq (h : Settles v file t) : t.validate = .ok () := by
  obtain ⟨-, -, -, -, hvalid⟩ | ⟨-, rfl⟩ := h
  · exact hvalid
  · exact validate_default

/-- The limits of a file, or the defaults if it cannot be used. -/
def loadOrDefault (v : View) (file : String) : Thresholds :=
  match load v file with
  | .ok t => t
  | .error _ => default

theorem settles_loadOrDefault (v : View) (file : String) :
    Settles v file (loadOrDefault v file) := by
  unfold loadOrDefault
  cases hload : load v file with
  | ok t => exact .inl (load_eq_ok_iff.1 hload)
  | error e =>
    refine .inr ⟨fun t' h => ?_, rfl⟩
    rw [load_eq_ok_iff.2 h] at hload
    cases hload

/-- **The first file that is there decides alone.** -/
theorem project_eq (v : View) (directory : String) :
    project v directory =
      if v.isFile (Path.join directory "mlquality.toml") then
        loadOrDefault v (Path.join directory "mlquality.toml")
      else if v.isFile (Path.join directory ".mlqualityrc.json") then
        loadOrDefault v (Path.join directory ".mlqualityrc.json")
      else default := by
  unfold project projectFile? projectFileNames projectFileName
  rw [List.map_cons, List.map_cons, List.map_nil, List.find?_cons, List.find?_cons]
  cases v.isFile (Path.join directory "mlquality.toml") with
  | true => rfl
  | false =>
    cases v.isFile (Path.join directory ".mlqualityrc.json") with
    | true => rfl
    | false => rfl

/-- A file is loaded from its bytes alone. -/
theorem loadOrDefault_congr {w : View} (h : w.bytes? file = v.bytes? file) :
    loadOrDefault w file = loadOrDefault v file := by
  rw [loadOrDefault, loadOrDefault, load, load, h]

end MatlabQuality.Thresholds

namespace MatlabQuality.Command

open MatlabQuality.Files MatlabQuality.Thresholds

/-! ## Runs -/

/-- The directory that files of limits are looked for in: a path that leads to no file is that
directory, and a file is the last component of a path in it. -/
structure IsSearched (v : View) (path directory : String) : Prop where
  of_not_isFile : v.isFile path = false → directory = path
  of_isFile : v.isFile path = true →
    ∃ last, Path.components path = Path.components directory ++ [last]

theorem isSearched_projectDirectory (v : View) (path : String) :
    IsSearched v path (projectDirectory v path) := by
  constructor
  · intro h
    rw [projectDirectory, h]
    rfl
  · intro h
    obtain ⟨parent, hparent⟩ := View.exists_parent?_of_isFile h
    rw [projectDirectory, if_pos h, hparent, Option.getD_some]
    exact Path.components_of_parent? hparent

theorem thresholdsFor_some_eq_ok_iff {v : View} {path file : String} {t : Thresholds} :
    thresholdsFor v path (some file) = .ok t ↔ HoldsLimits v file t := by
  rw [← load_eq_ok_iff, thresholdsFor]
  cases load v file with
  | ok limits => simp
  | error e => simp

theorem validate_of_thresholdsFor {v : View} {path : String} {config : Option String}
    {t : Thresholds} (h : thresholdsFor v path config = .ok t) : t.validate = .ok () := by
  cases config with
  | some file => exact Settles.validate_eq (.inl (thresholdsFor_some_eq_ok_iff.1 h))
  | none =>
    rw [← Except.ok.inj h, project_eq]
    split_ifs
    · exact (settles_loadOrDefault v _).validate_eq
    · exact (settles_loadOrDefault v _).validate_eq
    · exact validate_default

/-- **What a report is made from**: an existing path, limits for it, and a run with these limits. -/
theorem prepareReport_eq_ok_iff {v : View} {now : Timestamp} {path : String} {workers : ℕ}
    {options : AnalyzeOptions} {format : ReportFormat} {report : Report} :
    prepareReport v now path workers options = .ok (format, report) ↔
      ReportFormat.parse options.format = .ok format ∧ v.pathExists path = true ∧
        ∃ t run, thresholdsFor v path options.config = .ok t ∧
          v.analyzeBelow t workers (!options.noIgnore) path = .ok run ∧
          report = Report.ofRun run now := by
  unfold prepareReport
  cases ReportFormat.parse options.format with
  | error cause => simp [bind, Except.bind]
  | ok chosen =>
    cases v.pathExists path with
    | false => simp [bind, Except.bind]
    | true =>
      cases thresholdsFor v path options.config with
      | error e => simp [bind, Except.bind]
      | ok t =>
        cases hrun : v.analyzeBelow t workers (!options.noIgnore) path with
        | error missing => simp [bind, Except.bind, hrun]
        | ok run => simp [bind, Except.bind, pure, Except.pure, hrun, eq_comm]

/-- **Only valid limits are used.**  A file that was asked for is used exactly when it holds limits.
Without one there are always limits: those of the first file that the directory of the sources has,
or the defaults if it holds none, and the defaults if there is no file.  The second file is not
looked at where the first is there. -/
theorem thresholdsFor_settled (v : View) (path : String) :
    (∀ config t, thresholdsFor v path config = .ok t → t.validate = .ok ()) ∧
    (∀ now workers options format report,
      prepareReport v now path workers options = .ok (format, report) →
        ∃ t run, t.validate = .ok () ∧
          v.analyzeBelow t workers (!options.noIgnore) path = .ok run ∧
          report = Report.ofRun run now) ∧
    (∀ file t, thresholdsFor v path (some file) = .ok t ↔ HoldsLimits v file t) ∧
    ∃ directory, IsSearched v path directory ∧
      let first := Path.join directory "mlquality.toml"
      let second := Path.join directory ".mlqualityrc.json"
      (∃ t, thresholdsFor v path none = .ok t ∧
        (v.isFile first = true → Settles v first t) ∧
        (v.isFile first = false → v.isFile second = true → Settles v second t) ∧
        (v.isFile first = false → v.isFile second = false → t = Thresholds.default)) ∧
      ∀ w : View, v.isFile first = true → w.bytes? first = v.bytes? first →
        w.isFile path = v.isFile path → thresholdsFor w path none = thresholdsFor v path none := by
  refine ⟨fun _ _ => validate_of_thresholdsFor, ?_, fun _ _ => thresholdsFor_some_eq_ok_iff,
    projectDirectory v path, isSearched_projectDirectory v path, ⟨_, rfl, ?_, ?_, ?_⟩, ?_⟩
  · intro now workers options format report h
    obtain ⟨-, -, t, run, ht, hrun, hreport⟩ := prepareReport_eq_ok_iff.1 h
    exact ⟨t, run, validate_of_thresholdsFor ht, hrun, hreport⟩
  · intro hfirst
    rw [project_eq, if_pos hfirst]
    exact settles_loadOrDefault v _
  · intro hfirst hsecond
    rw [project_eq, hfirst, hsecond]
    exact settles_loadOrDefault v _
  · intro hfirst hsecond
    rw [project_eq, hfirst, hsecond]
    rfl
  · intro w hfirst hbytes hpath
    have hdirectory : projectDirectory w path = projectDirectory v path := by
      rw [projectDirectory, projectDirectory, hpath]
    have hfirst' : w.isFile (Path.join (projectDirectory v path) "mlquality.toml") = true := by
      rw [View.isFile, hbytes]
      exact hfirst
    rw [thresholdsFor, thresholdsFor, hdirectory, project_eq, project_eq, if_pos hfirst,
      if_pos hfirst', loadOrDefault_congr hbytes]

end MatlabQuality.Command
