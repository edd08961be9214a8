import Mathlib.Data.List.Sort
import MatlabQuality.Proofs.Files.Below

/-!
# What is found below a directory

Without ignore rules, the source files below a directory are found exactly; with them, some are left
out.  Either way they come in strictly increasing order of their paths, so none comes twice.  An
entry whose name is hidden is left out with all below it, unless an ignore file re-includes it.

## Main definitions

* `View.IsSourceBelow` — a path of a source file below a directory.
* `Search.Reincludes` — an ignore file re-includes an entry.
* `Discovered` — what holds of the source files found with and without ignore rules.

## Main statements

* `mem_sourcesBelow_false_iff` — which source files are found without ignore rules.
* `pairwise_sourcesBelow` — source files are found in strictly increasing order.
* `sourcesBelow_sublist` — ignore rules only leave files out.
* `mem_sourcesBelow_true` — what is neither hidden nor ignored is found with ignore rules too.
* `reincludes_of_mem_sourcesBelow` — no hidden entry is on the way of a file that is found, unless
  it is re-included.
* `sources_exact` — what is found by a path.
-/

namespace MatlabQuality.Ignore.Search

open MatlabQuality.Files MatlabQuality.Text

/-! ## Hidden entries -/

/-- An ignore file that is asked about an entry re-includes it. -/
def Reincludes (s : Search) (names : List String) : Prop :=
  ∃ file ∈ ignoreFiles, ∃ scope ∈ s.scopes names, ∃ bytes,
    View.bytes? ⟨s.tree, scope.place⟩ file = some bytes ∧
      judge (rulesOfBytes bytes) (Utf8.encode (relativeTo scope.directory scope.path).toList)
        (s.isDirectory names) = some .included

theorem reincludes_of_verdict? {s : Search} {names : List String}
    (h : s.verdict? names = some .included) : Reincludes s names := by
  obtain ⟨file, hfile, hscopes⟩ := List.exists_of_findSome?_eq_some h
  obtain ⟨scope, hscope, hverdict⟩ := List.exists_of_findSome?_eq_some hscopes
  unfold Scope.verdict? at hverdict
  split at hverdict
  · cases hverdict
  · next bytes hbytes => exact ⟨file, hfile, scope, hscope, bytes, hbytes, hverdict⟩

/-- **A hidden entry that is not passed over is re-included.** -/
theorem reincludes_of_not_skips {s : Search} {ways : List String} {name : String}
    (h : s.skips (ways ++ [name]) = false) (hname : isHidden name = true) :
    Reincludes s (ways ++ [name]) := by
  unfold skips at h
  split at h
  · cases h
  · next hverdict => exact reincludes_of_verdict? hverdict
  · simp [hname] at h

theorem not_skips {s : Search} {ways : List String} {name : String} (hname : isHidden name = false)
    (hverdict : s.verdict? (ways ++ [name]) ≠ some .ignored) :
    s.skips (ways ++ [name]) = false := by
  unfold skips
  split
  · contradiction
  · rfl
  · simp [hname]

end MatlabQuality.Ignore.Search

namespace MatlabQuality.Files

open MatlabQuality.Ignore

/-! ## The order of paths -/

theorem notAfter_eq_isLE (a b : String) : notAfter a b = (Path.compare a b).isLE := by
  unfold notAfter
  cases Path.compare a b <;> rfl

theorem notAfter_trans (a b c : String) (hab : notAfter a b = true) (hbc : notAfter b c = true) :
    notAfter a c = true := by
  rw [notAfter_eq_isLE] at *
  exact Std.TransCmp.isLE_trans hab hbc

theorem notAfter_total (a b : String) : (notAfter a b || notAfter b a) = true := by
  have hswap : Path.compare a b = (Path.compare b a).swap := Std.OrientedCmp.eq_swap
  rw [notAfter_eq_isLE, notAfter_eq_isLE, hswap]
  cases Path.compare b a <;> rfl

/-- Whether one path comes before another. -/
def Before (a b : String) : Prop :=
  Path.compare a b = .lt

theorem before_of_notAfter {a b : String} (h : notAfter a b = true)
    (hne : Path.components a ≠ Path.components b) : Before a b := by
  have heq : Path.compare a b ≠ .eq := fun heq => hne (Path.compare_eq_eq_iff.1 heq)
  unfold Before
  unfold notAfter at h
  cases hcompare : Path.compare a b with
  | lt => rfl
  | eq => exact absurd hcompare heq
  | gt => simp [hcompare] at h

theorem Before.asymm {a b : String} (hab : Before a b) (hba : Before b a) : False := by
  have hswap : Path.compare a b = (Path.compare b a).swap := Std.OrientedCmp.eq_swap
  rw [hab, hba] at hswap
  cases hswap

instance : Std.Antisymm Before :=
  ⟨fun _ _ hab hba => (hab.asymm hba).elim⟩

theorem Before.ne {a b : String} (h : Before a b) : a ≠ b := by
  rintro rfl
  exact h.asymm h

/-! ## Paths of entries -/

theorem mem_beginnings_iff {names way : List String} :
    way ∈ beginnings names ↔
      ∃ before name after, names = before ++ name :: after ∧ way = before ++ [name] := by
  unfold beginnings
  rw [List.mem_map]
  constructor
  · rintro ⟨n, hn, rfl⟩
    rw [List.mem_range] at hn
    refine ⟨names.take n, names[n], names.drop (n + 1), ?_, ?_⟩
    · rw [List.getElem_cons_drop, List.take_append_drop]
    · rw [List.take_append_getElem hn]
  · rintro ⟨before, name, after, rfl, rfl⟩
    refine ⟨before.length, by simp, ?_⟩
    rw [List.take_append, List.take_of_length_le (by omega)]
    simp

/-- **An entry is listed** when none on its way is passed over. -/
theorem mem_listed_true_iff {s : Search} {names : List String} :
    names ∈ listed s true ↔
      names ∈ s.tree.below s.top ∧ ∀ before name after, names = before ++ name :: after →
        s.skips (before ++ [name]) = false := by
  rw [listed, List.mem_filter, Bool.not_true, Bool.false_or, List.all_eq_true]
  refine and_congr_right fun _ => ?_
  constructor
  · intro h before name after hnames
    simpa using h _ (mem_beginnings_iff.2 ⟨before, name, after, hnames, rfl⟩)
  · intro h way hway
    obtain ⟨before, name, after, hnames, rfl⟩ := mem_beginnings_iff.1 hway
    simpa using h before name after hnames

theorem mem_below_of_mem_listed {s : Search} {respectIgnores : Bool} {names : List String}
    (h : names ∈ listed s respectIgnores) : names ∈ s.tree.below s.top :=
  (List.mem_filter.1 h).1

theorem listed_false (s : Search) : listed s false = s.tree.below s.top := by
  simp [listed]

theorem isNames_of_mem_below {t : Tree} (ht : t.WellFormed) {top : Place} {names : List String}
    (h : names ∈ t.below top) : IsNames names := by
  obtain ⟨ways, name, rfl, -, hsome⟩ := Tree.mem_below_iff.1 h
  exact Tree.isNames_of_get? ht hsome (by simp)

/-- The search of a directory, by a path that leads to it. -/
abbrev View.search (v : View) (root : String) (top : Place) : Search :=
  ⟨v.tree, root, top⟩

section Found

variable {v : View} {root : String} {top : Place}

theorem components_path (hv : v.tree.WellFormed) (hroot : root ≠ "") {names : List String}
    (h : names ∈ v.tree.below top) :
    Path.components ((v.search root top).path names) =
      Path.components root ++ names.map .name :=
  Path.components_foldl_join hroot (isNames_of_mem_below hv h)

/-- The names of an entry can be read off its path. -/
theorem eq_of_components_path (hv : v.tree.WellFormed) (hroot : root ≠ "")
    {names names' : List String} (h : names ∈ v.tree.below top)
    (hcomponents : Path.components ((v.search root top).path names) =
      Path.components root ++ names'.map .name) : names = names' := by
  rw [components_path hv hroot h] at hcomponents
  exact List.map_injective_iff.2 (fun _ _ => Path.Component.name.inj)
    (List.append_cancel_left hcomponents)

/-- The paths of different entries have different components. -/
theorem pairwise_paths (hv : v.tree.WellFormed) (hroot : root ≠ "") (top : Place)
    (respectIgnores : Bool) :
    ((listed (v.search root top) respectIgnores).map (v.search root top).path).Pairwise
      fun a b => Path.components a ≠ Path.components b := by
  have hnodup : (listed (v.search root top) respectIgnores).Nodup :=
    (Tree.nodup_below hv top).filter _
  rw [List.pairwise_map]
  refine hnodup.imp_of_mem fun ha hb hne heq => hne ?_
  rw [components_path hv hroot (mem_below_of_mem_listed hb)] at heq
  exact eq_of_components_path hv hroot (mem_below_of_mem_listed ha) heq

/-- **Source files are found in strictly increasing order.** -/
theorem pairwise_sourcesBelow (hv : v.tree.WellFormed) (hroot : root ≠ "") (top : Place)
    (respectIgnores : Bool) : (v.sourcesBelow root top respectIgnores).Pairwise Before := by
  have hsorted := List.pairwise_mergeSort notAfter_trans notAfter_total
    (((listed (v.search root top) respectIgnores).map (v.search root top).path).filter
      fun path => v.isFile path && isSource path)
  have hdistinct := (pairwise_paths hv hroot top respectIgnores).filter
    fun path => v.isFile path && isSource path
  have hdistinct' := ((List.mergeSort_perm _ notAfter).pairwise_iff Ne.symm).2 hdistinct
  exact hsorted.imp₂ (fun _ _ => before_of_notAfter) hdistinct'

theorem mem_sourcesBelow {respectIgnores : Bool} {path : String} :
    path ∈ v.sourcesBelow root top respectIgnores ↔
      (∃ names ∈ listed (v.search root top) respectIgnores,
        path = (v.search root top).path names) ∧
        v.isFile path = true ∧ isSource path = true := by
  rw [View.sourcesBelow, List.mem_mergeSort, List.mem_filter, List.mem_map, Bool.and_eq_true]
  refine and_congr_left fun _ => exists_congr fun names => and_congr_right fun _ => eq_comm

/-- **Ignore rules only leave files out.** -/
theorem sourcesBelow_sublist (hv : v.tree.WellFormed) (hroot : root ≠ "") (top : Place) :
    (v.sourcesBelow root top true).Sublist (v.sourcesBelow root top false) := by
  have hkept := pairwise_sourcesBelow hv hroot top true
  refine List.sublist_of_subperm_of_pairwise (List.subperm_of_subset ?_ ?_) hkept
    (pairwise_sourcesBelow hv hroot top false)
  · exact hkept.imp Before.ne
  · intro path hpath
    obtain ⟨⟨names, hnames, hpath⟩, hsource⟩ := mem_sourcesBelow.1 hpath
    refine mem_sourcesBelow.2 ⟨⟨names, ?_, hpath⟩, hsource⟩
    rw [listed_false]
    exact mem_below_of_mem_listed hnames

/-- **No hidden entry is on the way of a file that is found**, unless it is re-included. -/
theorem reincludes_of_mem_sourcesBelow (hv : v.tree.WellFormed) (hroot : root ≠ "") {path : String}
    (hpath : path ∈ v.sourcesBelow root top true) {before after : List String} {name : String}
    (hcomponents : Path.components path =
      Path.components root ++ (before ++ name :: after).map .name)
    (hname : Search.isHidden name = true) :
    (v.search root top).Reincludes (before ++ [name]) := by
  obtain ⟨⟨names, hnames, rfl⟩, -⟩ := mem_sourcesBelow.1 hpath
  obtain ⟨hbelow, hshown⟩ := mem_listed_true_iff.1 hnames
  have heq := eq_of_components_path hv hroot hbelow hcomponents
  exact Search.reincludes_of_not_skips (hshown before name after heq) hname

/-- **A file is kept** when no entry on its way is hidden or ignored. -/
theorem mem_sourcesBelow_true (hv : v.tree.WellFormed) (hroot : root ≠ "") {path : String}
    (hpath : path ∈ v.sourcesBelow root top false) {names : List String}
    (hcomponents : Path.components path = Path.components root ++ names.map .name)
    (hshown : ∀ before name after, names = before ++ name :: after →
      Search.isHidden name = false ∧
        (v.search root top).verdict? (before ++ [name]) ≠ some .ignored) :
    path ∈ v.sourcesBelow root top true := by
  obtain ⟨⟨names', hnames, rfl⟩, hsource⟩ := mem_sourcesBelow.1 hpath
  have hbelow := mem_below_of_mem_listed hnames
  obtain rfl := eq_of_components_path hv hroot hbelow hcomponents
  refine mem_sourcesBelow.2 ⟨⟨names', mem_listed_true_iff.2 ⟨hbelow, ?_⟩, rfl⟩, hsource⟩
  intro before name after heq
  obtain ⟨hname, hverdict⟩ := hshown before name after heq
  exact Search.not_skips hname hverdict

/-! ## Source files -/

/-- A path of a source file below a directory: in one of the directories entered from it there is a
file, or a link that leads to a file, whose name has something before the extension. -/
inductive View.IsSourceBelow (v : View) (root : String) (top : Place) : String → Prop
  | file {ways : List String} {stem : String} {bytes : List UInt8}
      (hways : v.tree.Enters top ways) (hstem : stem ≠ "")
      (h : v.tree.get? (top ++ (ways ++ [stem ++ ".m"])) = some (.file bytes)) :
      IsSourceBelow v root top ((ways ++ [stem ++ ".m"]).foldl Path.join root)
  | link {ways : List String} {stem target : String}
      (hways : v.tree.Enters top ways) (hstem : stem ≠ "")
      (h : v.tree.get? (top ++ (ways ++ [stem ++ ".m"])) = some (.link target))
      (hfile : v.isFile ((ways ++ [stem ++ ".m"]).foldl Path.join root) = true) :
      IsSourceBelow v root top ((ways ++ [stem ++ ".m"]).foldl Path.join root)

/-- The path of a file is that of a source file when something stands before the extension. -/
theorem isSource_foldl_join_iff (hroot : root ≠ "") {ways : List String} {name : String}
    (h : IsNames (ways ++ [name])) :
    isSource ((ways ++ [name]).foldl Path.join root) = true ↔
      ∃ stem, stem ≠ "" ∧ name = stem ++ ".m" := by
  have hways : ∀ other ∈ ways, Path.IsName other := fun other hmem => h other (by simp [hmem])
  have hdot : '.' ∉ sourceExtension.toList := by decide
  rw [isSource, decide_eq_true_iff,
    Path.extension?_foldl_join_eq_some_iff hroot hways (h name (by simp)) hdot]
  refine exists_congr fun stem => and_congr_right fun _ => ?_
  rw [String.append_assoc]
  rfl

/-- What a path shows that leads to an entry below a directory. -/
theorem isFile_foldl_join (hplace : v.place? root = some top) {ways : List String} {name : String}
    {e : Entry} (hways : v.tree.Enters top ways) (hnames : IsNames (ways ++ [name]))
    (he : v.tree.get? (top ++ (ways ++ [name])) = some e) (hlink : ∀ target, e ≠ .link target) :
    v.isFile ((ways ++ [name]).foldl Path.join root) = true ↔ e ≠ .directory := by
  rw [View.isFile, View.bytes?, View.entry?_foldl_join hplace hways hnames he hlink]
  cases e with
  | link target => exact absurd rfl (hlink target)
  | file bytes => simp
  | directory => simp

/-- A file or a link to one, its path shows a file. -/
theorem View.IsSourceBelow.exists_entry (hv : v.tree.WellFormed) (hplace : v.place? root = some top)
    {path : String} (h : v.IsSourceBelow root top path) :
    ∃ ways stem e, v.tree.Enters top ways ∧ stem ≠ "" ∧
      v.tree.get? (top ++ (ways ++ [stem ++ ".m"])) = some e ∧ v.isFile path = true ∧
        path = (ways ++ [stem ++ ".m"]).foldl Path.join root := by
  cases h with
  | @file ways stem bytes hways hstem he =>
    have hnames : IsNames (ways ++ [stem ++ ".m"]) :=
      Tree.isNames_of_get? hv (by rw [he]; rfl) (by simp)
    refine ⟨ways, stem, _, hways, hstem, he, ?_, rfl⟩
    exact (isFile_foldl_join hplace hways hnames he (by simp)).2 (by simp)
  | @link ways stem target hways hstem he hfile =>
    exact ⟨ways, stem, _, hways, hstem, he, hfile, rfl⟩

/-- **Without ignore rules, the source files below a directory are found.** -/
theorem mem_sourcesBelow_false_iff (hv : v.tree.WellFormed) (hplace : v.place? root = some top)
    {path : String} :
    path ∈ v.sourcesBelow root top false ↔ v.IsSourceBelow root top path := by
  have hroot := View.ne_empty_of_place? hplace
  rw [mem_sourcesBelow, listed_false]
  constructor
  · rintro ⟨⟨names, hbelow, rfl⟩, hfile, hsource⟩
    have hnames := isNames_of_mem_below hv hbelow
    obtain ⟨ways, name, rfl, hways, hsome⟩ := Tree.mem_below_iff.1 hbelow
    obtain ⟨e, he⟩ := Option.isSome_iff_exists.1 hsome
    obtain ⟨stem, hstem, rfl⟩ := (isSource_foldl_join_iff hroot hnames).1 hsource
    cases e with
    | file bytes => exact .file hways hstem he
    | directory =>
      exact absurd rfl ((isFile_foldl_join hplace hways hnames he (by simp)).1 hfile)
    | link target => exact .link hways hstem he hfile
  · intro hsource
    obtain ⟨ways, stem, e, hways, hstem, he, hfile, rfl⟩ := hsource.exists_entry hv hplace
    have hsome : (v.tree.get? (top ++ (ways ++ [stem ++ ".m"]))).isSome = true := by rw [he]; rfl
    have hnames : IsNames (ways ++ [stem ++ ".m"]) := Tree.isNames_of_get? hv hsome (by simp)
    refine ⟨⟨_, Tree.mem_below_iff.2 ⟨ways, _, rfl, hways, hsome⟩, rfl⟩, hfile, ?_⟩
    exact (isSource_foldl_join_iff hroot hnames).2 ⟨stem, hstem, rfl⟩

end Found

/-! ## What is found by a path -/

/-- What holds of all the source files below a directory, and of those that are kept by ignore
rules. -/
structure Discovered (v : View) (root : String) (top : Place) (all kept : List String) : Prop where
  mem_all_iff : ∀ path, path ∈ all ↔ v.IsSourceBelow root top path
  kept_sublist : kept.Sublist all
  mem_kept : ∀ path ∈ all, ∀ names,
    Path.components path = Path.components root ++ names.map .name →
      (∀ before name after, names = before ++ name :: after → Search.isHidden name = false ∧
        (v.search root top).verdict? (before ++ [name]) ≠ some .ignored) → path ∈ kept
  increasing_all : all.Pairwise fun a b => Path.compare a b = .lt
  increasing_kept : kept.Pairwise fun a b => Path.compare a b = .lt
  reincluded : ∀ path ∈ kept, ∀ before name after,
    Path.components path = Path.components root ++ (before ++ name :: after).map .name →
      Search.isHidden name = true → (v.search root top).Reincludes (before ++ [name])

theorem discovered_sourcesBelow {v : View} (hv : v.tree.WellFormed) {root : String} {top : Place}
    (hplace : v.place? root = some top) :
    Discovered v root top (v.sourcesBelow root top false) (v.sourcesBelow root top true) := by
  have hroot := View.ne_empty_of_place? hplace
  exact
    { mem_all_iff := fun _ => mem_sourcesBelow_false_iff hv hplace
      kept_sublist := sourcesBelow_sublist hv hroot top
      mem_kept := fun _ hpath _ => mem_sourcesBelow_true hv hroot hpath
      increasing_all := pairwise_sourcesBelow hv hroot top false
      increasing_kept := pairwise_sourcesBelow hv hroot top true
      reincluded := fun _ hpath _ _ _ => reincludes_of_mem_sourcesBelow hv hroot hpath }

/-- Whether the entries below a path are visited.  Those below the path that stands for the standard
input are not. -/
def IsWalked (root : String) : Prop :=
  Path.samePath root standardInput = false

instance (root : String) : Decidable (IsWalked root) :=
  inferInstanceAs (Decidable (Path.samePath root standardInput = false))

theorem isSome_get?_of_place? {v : View} {path : String} {place : Place}
    (h : v.place? path = some place) : (v.tree.get? place).isSome = true := by
  unfold View.place? at h
  split at h
  · split_ifs at h with hsome
    exact Option.some.inj h ▸ hsome
  · cases h

theorem pathExists_eq_isSome (v : View) (path : String) :
    v.pathExists path = (v.place? path).isSome := by
  rw [View.pathExists, View.entry?]
  cases hplace : v.place? path with
  | none => rfl
  | some place => rw [Option.bind_some, isSome_get?_of_place? hplace, Option.isSome_some]

/-- Finding fails for one reason only. -/
theorem sources_cases (v : View) (root : String) (respectIgnores : Bool) :
    (v.pathExists root = false ∧ v.sources root respectIgnores = .error ⟨root⟩) ∨
      (v.pathExists root = true ∧ ∃ files, v.sources root respectIgnores = .ok files) := by
  rw [pathExists_eq_isSome, View.sources]
  cases v.place? root with
  | none => exact .inl ⟨rfl, rfl⟩
  | some top =>
    refine .inr ⟨rfl, ?_⟩
    dsimp only
    split_ifs
    all_goals exact ⟨_, rfl⟩

theorem sources_of_isFile {v : View} {root : String} (h : v.isFile root = true)
    (respectIgnores : Bool) :
    v.sources root respectIgnores = .ok (if isSource root then [root] else []) := by
  rw [View.sources]
  cases hplace : v.place? root with
  | none => simp [View.isFile, View.bytes?, View.entry?, hplace] at h
  | some top => exact if_pos h

theorem exists_place?_of_isDirectory {v : View} {root : String} (h : v.isDirectory root = true) :
    ∃ top, v.place? root = some top ∧ v.tree.get? top = some .directory :=
  Option.bind_eq_some_iff.1 (of_decide_eq_true h)

theorem sources_of_isDirectory {v : View} {root : String} {top : Place}
    (h : v.isDirectory root = true) (hplace : v.place? root = some top) (respectIgnores : Bool) :
    v.sources root respectIgnores =
      .ok (if IsWalked root then v.sourcesBelow root top respectIgnores else []) := by
  have hfile : v.isFile root = false := by
    rw [View.isFile, View.bytes?, of_decide_eq_true h]
    rfl
  rw [View.sources, hplace, hfile]
  by_cases hwalked : IsWalked root
  · have hpath : Path.samePath root standardInput = false := hwalked
    simp [hwalked, hpath]
  · have hpath : Path.samePath root standardInput = true := Bool.eq_true_of_not_eq_false hwalked
    simp [hwalked, hpath]

/-- **What is found by a path.**  Finding fails just where the path leads nowhere.  The path of a
file is found if it has the extension, and that of a directory shows the source files below it. -/
theorem sources_exact {v : View} (hv : v.tree.WellFormed) (root : String) :
    (∀ respectIgnores,
      v.sources root respectIgnores = .error ⟨root⟩ ↔ v.pathExists root = false) ∧
    (∀ respectIgnores,
      (∃ files, v.sources root respectIgnores = .ok files) ↔ v.pathExists root = true) ∧
    (v.isFile root = true → ∀ respectIgnores, v.sources root respectIgnores =
      .ok (if Path.extension? root = some "m" then [root] else [])) ∧
    (v.isDirectory root = true → IsWalked root →
      ∃ top all kept, v.place? root = some top ∧ v.tree.get? top = some .directory ∧
        v.sources root false = .ok all ∧ v.sources root true = .ok kept ∧
          Discovered v root top all kept) ∧
    (v.isDirectory root = true → ¬ IsWalked root → ∀ respectIgnores,
      v.sources root respectIgnores = .ok []) := by
  refine ⟨fun respectIgnores => ?_, fun respectIgnores => ?_, ?_, ?_, ?_⟩
  · rcases sources_cases v root respectIgnores with ⟨hroot, hs⟩ | ⟨hroot, files, hs⟩
    all_goals simp [hroot, hs]
  · rcases sources_cases v root respectIgnores with ⟨hroot, hs⟩ | ⟨hroot, files, hs⟩
    all_goals simp [hroot, hs]
  · intro hfile respectIgnores
    have hsource : isSource root = true ↔ Path.extension? root = some "m" := decide_eq_true_iff
    simp only [sources_of_isFile hfile, hsource]
  · intro hdirectory hwalked
    obtain ⟨top, hplace, htop⟩ := exists_place?_of_isDirectory hdirectory
    refine ⟨top, _, _, hplace, htop, ?_, ?_, discovered_sourcesBelow hv hplace⟩
    · rw [sources_of_isDirectory hdirectory hplace, if_pos hwalked]
    · rw [sources_of_isDirectory hdirectory hplace, if_pos hwalked]
  · intro hdirectory hwalked respectIgnores
    obtain ⟨top, hplace, -⟩ := exists_place?_of_isDirectory hdirectory
    rw [sources_of_isDirectory hdirectory hplace, if_neg hwalked]

/-- A directory with a source file, a link to it and a hidden directory with another. -/
def searchedView : View :=
  ⟨⟨[(["w"], .directory), (["w", "a.m"], .file []), (["w", "b.m"], .link "a.m"),
    (["w", ".h"], .directory), (["w", ".h", "c.m"], .file [])]⟩, []⟩

theorem place?_searchedView : searchedView.place? "w" = some ["w"] := by
  have hpieces : Path.pieces "w" = ["w"] := by decide
  have hrelative : Path.isAbsolute "w" = false := by decide
  simp [searchedView, View.place?, Tree.follow, Tree.walk, Tree.get?, hpieces, hrelative]

theorem isFile_searchedView : searchedView.isFile "w/b.m" = true := by
  have hpieces : Path.pieces "w/b.m" = ["w", "b.m"] := by decide
  have htarget : Path.pieces "a.m" = ["a.m"] := by decide
  have hrelative : Path.isAbsolute "w/b.m" = false := by decide
  have hrelative' : Path.isAbsolute "a.m" = false := by decide
  simp [searchedView, View.isFile, View.bytes?, View.entry?, View.place?, Tree.follow, Tree.walk,
    Tree.get?, Tree.maxLinks, hpieces, htarget, hrelative, hrelative', List.lookup_cons]

theorem wellFormed_searchedView : searchedView.tree.WellFormed where
  nodup := by decide
  names := by decide

/-- A path of which the first name is missing shows no bytes. -/
theorem bytes?_of_missing {v : View} {path piece : String} {rest : List String}
    (hrelative : Path.isAbsolute path = false) (hpieces : Path.pieces path = piece :: rest)
    (hpiece : Path.IsName piece) (hmissing : v.tree.get? (v.workingDirectory ++ [piece]) = none) :
    v.bytes? path = none := by
  have hskip : ¬ (piece = "" ∨ piece = ".") := not_or.2 ⟨hpiece.ne_empty, hpiece.ne_dot⟩
  have hplace : v.place? path = none := by
    rw [View.place?, Tree.follow, hrelative, hpieces, Tree.walk, if_neg hskip,
      if_neg hpiece.ne_dots]
    simp only [Bool.false_eq_true, if_false, hmissing]
    split_ifs
    all_goals simp [hmissing]
  rw [View.bytes?, View.entry?, hplace]
  rfl

/-- There is no ignore file. -/
theorem not_reincludes_searchedView :
    ¬ (searchedView.search "w" ["w"]).Reincludes [".h"] := by
  rintro ⟨file, hfile, scope, hscope, bytes, hbytes, -⟩
  have hplace : scope.place ∈ [["w"], []] := by
    have hmem : scope.place ∈ ((searchedView.search "w" ["w"]).scopes [".h"]).map (·.place) :=
      List.mem_map_of_mem hscope
    exact hmem
  have hnone : View.bytes? ⟨searchedView.tree, scope.place⟩ file = none := by
    have hfirst : ∀ file ∈ ignoreFiles, Path.isAbsolute file = false ∧
        ∃ piece ∈ [".ignore", ".gitignore", ".git"],
          ∃ rest ∈ [[], ["info", "exclude"]], Path.pieces file = piece :: rest := by decide
    have hmissing : ∀ place ∈ [["w"], []], ∀ piece ∈ [".ignore", ".gitignore", ".git"],
        Path.IsName piece ∧ searchedView.tree.get? (place ++ [piece]) = none := by decide
    obtain ⟨hrelative, piece, hpiece, rest, -, hpieces⟩ := hfirst file hfile
    obtain ⟨hname, hget⟩ := hmissing _ hplace piece hpiece
    exact bytes?_of_missing hrelative hpieces hname hget
  rw [hnone] at hbytes
  cases hbytes

theorem sources_exact_searchedView :
    searchedView.tree.WellFormed ∧ searchedView.isDirectory "w" = true ∧ IsWalked "w" ∧
      ∃ all kept, searchedView.sources "w" false = .ok all ∧
        searchedView.sources "w" true = .ok kept ∧ kept.Sublist all ∧
          "w/b.m" ∈ all ∧ "w/.h/c.m" ∈ all ∧ "w/.h/c.m" ∉ kept := by
  have hdirectory : searchedView.isDirectory "w" = true := by
    rw [View.isDirectory, View.entry?, place?_searchedView]
    decide
  have hwalked : IsWalked "w" := by decide
  obtain ⟨-, -, -, hfound, -⟩ := sources_exact wellFormed_searchedView "w"
  obtain ⟨top, all, kept, hplace, -, hall, hkept, h⟩ := hfound hdirectory hwalked
  obtain rfl : ["w"] = top := Option.some.inj (place?_searchedView.symm.trans hplace)
  have htop : searchedView.tree.Enters ["w"] [] := .top (by decide)
  have hhidden : searchedView.tree.Enters ["w"] ([] ++ [".h"]) := .step htop (by decide)
  have hb : searchedView.tree.get? (["w"] ++ ([] ++ ["b" ++ ".m"])) = some (.link "a.m") := by
    decide
  have hc : searchedView.tree.get? (["w"] ++ ([] ++ [".h"] ++ ["c" ++ ".m"])) =
      some (.file []) := by
    decide
  refine ⟨wellFormed_searchedView, hdirectory, hwalked, all, kept, hall, hkept, h.kept_sublist,
    ?_, ?_, ?_⟩
  · exact (h.mem_all_iff _).2 (.link htop (by decide) hb isFile_searchedView)
  · exact (h.mem_all_iff _).2 (.file hhidden (by decide) hc)
  · intro hmem
    refine not_reincludes_searchedView (h.reincluded _ hmem [] ".h" ["c.m"] ?_ (by decide))
    decide

end MatlabQuality.Files
