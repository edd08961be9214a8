import Mathlib.Data.List.Induction
import Mathlib.Data.List.TakeWhile
import Mathlib.Order.Compare
import MatlabQuality.Files.Path
import MatlabQuality.Proofs.Text.Lines

/-!
# Paths made of names

A name joined to a path is one more component, whatever the path ends in, so names can be read off
the path they are joined to.  The order of paths, component by component, is a linear order of their
components.

## Main definitions

* `IsName` — a text that names an entry of a directory.

## Main statements

* `components_foldl_join`, `exists_pieces_foldl_join` — the components and the pieces of a path with
  names joined to it.
* `compare_eq_eq_iff` — paths that are not told apart by their order have the same components.
* `extension?_foldl_join_eq_some_iff` — which paths have an extension.
-/

namespace MatlabQuality.Path

open MatlabQuality.Text

/-! ## Names -/

/-- A text that names an entry of a directory: it is not empty, is neither of the two texts made of
dots that lead elsewhere, and has no slash. -/
structure IsName (s : String) : Prop where
  ne_empty : s ≠ ""
  ne_dot : s ≠ "."
  ne_dots : s ≠ ".."
  slash_notMem : '/' ∉ s.toList

theorem isName_iff (s : String) :
    IsName s ↔ s ≠ "" ∧ s ≠ "." ∧ s ≠ ".." ∧ '/' ∉ s.toList :=
  ⟨fun h => ⟨h.ne_empty, h.ne_dot, h.ne_dots, h.slash_notMem⟩,
    fun ⟨h₁, h₂, h₃, h₄⟩ => ⟨h₁, h₂, h₃, h₄⟩⟩

instance (s : String) : Decidable (IsName s) :=
  decidable_of_iff _ (isName_iff s).symm

namespace IsName

variable {name : String} (h : IsName name)

include h

theorem component?_eq : component? name = some (.name name) := by
  unfold component?
  split
  · exact absurd rfl h.ne_empty
  · exact absurd rfl h.ne_dot
  · exact absurd rfl h.ne_dots
  · rfl

theorem isAbsolute_eq : isAbsolute name = false := by
  rw [isAbsolute, decide_eq_false_iff_not]
  intro hhead
  exact h.slash_notMem (List.mem_of_mem_head? hhead)

theorem pieces_eq : pieces name = [name] := by
  rw [pieces, splitOn_of_notMem h.slash_notMem, List.map_singleton, String.ofList_toList]

end IsName

/-! ## Joined names -/

theorem pieces_append_slash (a b : String) : pieces (a ++ "/" ++ b) = pieces a ++ pieces b := by
  have hslash : ("/" : String).toList = ['/'] := rfl
  simp only [pieces, String.toList_append, hslash, List.append_assoc, List.singleton_append,
    splitOn_append_sep, List.map_append]

theorem pieces_ne_nil (path : String) : pieces path ≠ [] := by
  simpa [pieces] using splitOn_ne_nil '/' path.toList

theorem slash_notMem_of_mem_pieces {piece path : String} (h : piece ∈ pieces path) :
    '/' ∉ piece.toList := by
  obtain ⟨cs, hcs, rfl⟩ := List.mem_map.1 h
  rw [String.toList_ofList]
  exact sep_notMem_of_mem_splitOn hcs

/-- A path that ends in a slash, without it. -/
theorem exists_eq_append_slash {path : String} (h : path.toList.getLast? = some '/') :
    ∃ start, path = start ++ "/" := by
  obtain ⟨cs, hcs⟩ := List.getLast?_eq_some_iff.1 h
  refine ⟨String.ofList cs, ?_⟩
  rw [← String.toList_inj, String.toList_append, String.toList_ofList, hcs]
  rfl

/-- The two ways in which a name is joined to a path. -/
theorem join_cases {directory name : String} (hdirectory : directory ≠ "") (h : IsName name) :
    (∃ start, directory = start ++ "/" ∧ join directory name = start ++ "/" ++ name) ∨
      join directory name = directory ++ "/" ++ name := by
  unfold join
  rw [h.isAbsolute_eq]
  simp only [Bool.false_or, decide_eq_true_eq, if_neg hdirectory]
  split_ifs with hslash
  · obtain ⟨start, rfl⟩ := exists_eq_append_slash hslash
    exact .inl ⟨start, rfl, rfl⟩
  · exact .inr rfl

/-- **A name joined to a path** is one more piece; an empty piece at the end of the path gives way
to it. -/
theorem exists_pieces_join {directory name : String} (hdirectory : directory ≠ "")
    (h : IsName name) :
    ∃ before, before ≠ [] ∧ pieces (join directory name) = before ++ [name] ∧
      (pieces directory = before ∨ pieces directory = before ++ [""]) := by
  rcases join_cases hdirectory h with ⟨start, rfl, hjoin⟩ | hjoin
  · refine ⟨pieces start, pieces_ne_nil start, ?_, .inr ?_⟩
    · rw [hjoin, pieces_append_slash, h.pieces_eq]
    · rw [← String.append_empty (s := start ++ "/"), pieces_append_slash]
      rfl
  · refine ⟨pieces directory, pieces_ne_nil directory, ?_, .inl rfl⟩
    rw [hjoin, pieces_append_slash, h.pieces_eq]

theorem isAbsolute_append {a : String} (ha : a ≠ "") (b : String) :
    isAbsolute (a ++ b) = isAbsolute a := by
  have hne : a.toList ≠ [] := by simpa using ha
  obtain ⟨c, cs, hcs⟩ := List.exists_cons_of_ne_nil hne
  rw [isAbsolute, isAbsolute, String.toList_append, hcs]
  rfl

theorem isAbsolute_join {directory name : String} (hdirectory : directory ≠ "") (h : IsName name) :
    isAbsolute (join directory name) = isAbsolute directory := by
  rcases join_cases hdirectory h with ⟨start, rfl, hjoin⟩ | hjoin
  · rw [hjoin, isAbsolute_append hdirectory]
  · rw [hjoin, String.append_assoc, isAbsolute_append hdirectory]

theorem join_ne_empty {directory name : String} (hdirectory : directory ≠ "") (h : IsName name) :
    join directory name ≠ "" := by
  rcases join_cases hdirectory h with ⟨start, -, hjoin⟩ | hjoin
  all_goals
    rw [hjoin]
    intro hempty
    have hlength := congrArg String.length hempty
    simp [String.length_append] at hlength

/-! ## Components -/

/-- The component that the first piece of a path names. -/
def firstComponent? (absolute : Bool) : String → Option Component
  | "" => if absolute then some .root else none
  | "." => some .here
  | s => component? s

/-- The components of a path by its pieces.  The first alone is read in a way of its own. -/
theorem components_of_pieces {path first : String} {rest : List String}
    (h : pieces path = first :: rest) :
    components path =
      (firstComponent? (isAbsolute path) first).toList ++ rest.filterMap component? := by
  unfold components firstComponent?
  rw [h]
  split
  · next heq =>
    obtain ⟨rfl, rfl⟩ := List.cons.inj heq
    split_ifs
    all_goals rfl
  · next heq =>
    obtain ⟨rfl, rfl⟩ := List.cons.inj heq
    rfl
  · next hempty hdot =>
    have hfirst : first ≠ "" := by rintro rfl; exact hempty rest rfl
    have hfirst' : first ≠ "." := by rintro rfl; exact hdot rest rfl
    split
    · exact absurd rfl hfirst
    · exact absurd rfl hfirst'
    · rw [List.filterMap_cons]
      cases component? first with
      | none => rfl
      | some c => rfl

/-- **A name joined to a path** is one more component. -/
theorem components_join {directory name : String} (hdirectory : directory ≠ "") (h : IsName name) :
    components (join directory name) = components directory ++ [.name name] := by
  obtain ⟨before, hbefore, hjoin, hpieces⟩ := exists_pieces_join hdirectory h
  obtain ⟨first, before, rfl⟩ := List.exists_cons_of_ne_nil hbefore
  rw [List.cons_append] at hjoin
  rw [components_of_pieces hjoin, isAbsolute_join hdirectory h, List.filterMap_append,
    ← List.append_assoc]
  congr 1
  · rcases hpieces with hpieces | hpieces
    · rw [components_of_pieces hpieces]
    · rw [List.cons_append] at hpieces
      rw [components_of_pieces hpieces, List.filterMap_append]
      simp [component?]
  · simp [h.component?_eq]

theorem foldl_join_ne_empty {root : String} (hroot : root ≠ "") {names : List String}
    (h : ∀ name ∈ names, IsName name) : names.foldl join root ≠ "" := by
  induction names generalizing root with
  | nil => exact hroot
  | cons name names ih =>
    obtain ⟨hname, hnames⟩ := List.forall_mem_cons.1 h
    exact ih (join_ne_empty hroot hname) hnames

theorem isAbsolute_foldl_join {root : String} (hroot : root ≠ "") {names : List String}
    (h : ∀ name ∈ names, IsName name) : isAbsolute (names.foldl join root) = isAbsolute root := by
  induction names generalizing root with
  | nil => rfl
  | cons name names ih =>
    obtain ⟨hname, hnames⟩ := List.forall_mem_cons.1 h
    rw [List.foldl_cons, ih (join_ne_empty hroot hname) hnames, isAbsolute_join hroot hname]

/-- **Names joined to a path** are its further components. -/
theorem components_foldl_join {root : String} (hroot : root ≠ "") {names : List String}
    (h : ∀ name ∈ names, IsName name) :
    components (names.foldl join root) = components root ++ names.map .name := by
  induction names generalizing root with
  | nil => simp
  | cons name names ih =>
    obtain ⟨hname, hnames⟩ := List.forall_mem_cons.1 h
    rw [List.foldl_cons, ih (join_ne_empty hroot hname) hnames, components_join hroot hname]
    simp

/-- **Names joined to a path** are its further pieces; an empty piece at the end of the path gives
way to them. -/
theorem exists_pieces_foldl_join {root : String} (hroot : root ≠ "") {names : List String}
    (hne : names ≠ []) (h : ∀ name ∈ names, IsName name) :
    ∃ before, pieces (names.foldl join root) = before ++ names ∧
      (pieces root = before ∨ pieces root = before ++ [""]) := by
  induction names using List.reverseRecOn with
  | nil => exact absurd rfl hne
  | append_singleton names name ih =>
    have hnames : ∀ other ∈ names, IsName other := fun other hmem => h other (by simp [hmem])
    have hname : IsName name := h name (by simp)
    rw [List.foldl_append, List.foldl_cons, List.foldl_nil]
    obtain ⟨before, -, hjoin, hpieces⟩ :=
      exists_pieces_join (foldl_join_ne_empty hroot hnames) hname
    by_cases hnil : names = []
    · subst hnil
      exact ⟨before, hjoin, hpieces⟩
    · obtain ⟨start, hstart, hroot'⟩ := ih hnil hnames
      refine ⟨start, ?_, hroot'⟩
      have hbefore : before = start ++ names := by
        rcases hpieces with hpieces | hpieces
        · rw [← hpieces, hstart]
        · -- The last of the names is not empty.
          have hmem : "" ∈ names := by
            have hlast := congrArg List.getLast? (hpieces.symm.trans hstart)
            rw [List.getLast?_concat, List.getLast?_append, Option.or_of_isSome] at hlast
            · exact List.mem_of_getLast? hlast.symm
            · simpa using hnil
          exact absurd rfl (hnames "" hmem).ne_empty
      rw [hjoin, hbefore, List.append_assoc]

/-! ## Order -/

namespace Component

/-- What a name says, among components of the same sort. -/
def text : Component → String
  | .name s => s
  | _ => ""

theorem compare_eq_compareLex (a b : Component) :
    a.compare b = compareLex (compareOn rank) (compareOn text) a b := by
  cases a <;> cases b <;> simp [Component.compare, compareLex, compareOn, rank, text] <;> rfl

theorem rank_text_injective : Function.Injective fun c : Component => (c.rank, c.text) := by
  intro a b h
  cases a <;> cases b <;> simp_all [rank, text]

instance : Std.TransCmp Component.compare := by
  have h : Component.compare = compareLex (compareOn rank) (compareOn text) := by
    funext a b
    exact compare_eq_compareLex a b
  rw [h]
  infer_instance

instance : Std.LawfulEqCmp Component.compare where
  eq_of_compare {a b} h := by
    rw [compare_eq_compareLex, compareLex_eq_eq] at h
    refine rank_text_injective (Prod.ext ?_ ?_)
    · exact Std.LawfulEqCmp.eq_of_compare h.1
    · exact Std.LawfulEqCmp.eq_of_compare h.2

end Component

theorem compareComponents_eq_compareLex (as bs : List Component) :
    compareComponents as bs = List.compareLex Component.compare as bs := by
  induction as generalizing bs with
  | nil => cases bs <;> rfl
  | cons a as ih =>
    cases bs with
    | nil => rfl
    | cons b bs =>
      rw [compareComponents, List.compareLex_cons_cons, ih]
      cases a.compare b <;> rfl

theorem compare_eq_compareLex (a b : String) :
    compare a b = List.compareLex Component.compare (components a) (components b) :=
  compareComponents_eq_compareLex _ _

instance : Std.TransCmp Path.compare where
  eq_swap := by
    intro a b
    rw [compare_eq_compareLex, compare_eq_compareLex]
    exact Std.OrientedCmp.eq_swap
  isLE_trans := by
    intro a b c
    simp only [compare_eq_compareLex]
    exact Std.TransCmp.isLE_trans

theorem compare_eq_eq_iff {a b : String} : compare a b = .eq ↔ components a = components b := by
  rw [compare_eq_compareLex]
  exact Std.LawfulEqCmp.compare_eq_iff_eq

/-! ## Extensions -/

theorem fileName?_foldl_join {root : String} (hroot : root ≠ "") {names : List String}
    (h : ∀ name ∈ names, IsName name) {name : String} (hname : IsName name) :
    fileName? ((names ++ [name]).foldl join root) = some name := by
  have hall : ∀ other ∈ names ++ [name], IsName other :=
    List.forall_mem_append.2 ⟨h, List.forall_mem_singleton.2 hname⟩
  rw [fileName?, components_foldl_join hroot hall]
  simp

/-- A name cut at its last dot, from its end. -/
theorem splitName_snd_eq_some {name extension : String} (h : (splitName name).2 = some extension) :
    ∃ c before, '.' ∉ extension.toList ∧
      name.toList.reverse = extension.toList.reverse ++ '.' :: c :: before := by
  unfold splitName at h
  dsimp only at h
  split at h
  · next d c before hrest =>
    have hparts := List.takeWhile_append_dropWhile (p := (· ≠ '.')) (l := name.toList.reverse)
    have hdot : d = '.' := by
      have hstop := List.head?_dropWhile_not (fun c => decide (c ≠ '.')) name.toList.reverse
      rw [hrest] at hstop
      simpa using hstop
    rw [hrest, hdot] at hparts
    obtain rfl := Option.some.inj h
    refine ⟨c, before, ?_, ?_⟩
    · intro hmem
      have hne := List.mem_takeWhile_imp (List.mem_reverse.1 (String.toList_ofList ▸ hmem))
      simp at hne
    · rw [String.toList_ofList, List.reverse_reverse]
      exact hparts.symm
  · cases h

/-- **A name with an extension** is something before a dot and the extension after it. -/
theorem splitName_snd_eq_some_iff {name extension : String} :
    (splitName name).2 = some extension ↔
      '.' ∉ extension.toList ∧ ∃ stem, stem ≠ "" ∧ name = stem ++ "." ++ extension := by
  have hdot : ".".toList = ['.'] := rfl
  constructor
  · intro h
    obtain ⟨c, before, hnot, hname⟩ := splitName_snd_eq_some h
    refine ⟨hnot, String.ofList (c :: before).reverse, by simp, ?_⟩
    rw [← String.toList_inj, ← List.reverse_inj, hname]
    simp [hdot]
  · rintro ⟨hnot, stem, hstem, rfl⟩
    have hne : stem.toList.reverse ≠ [] := by simpa using hstem
    obtain ⟨c, before, hcs⟩ := List.exists_cons_of_ne_nil hne
    have hreversed : (stem ++ "." ++ extension).toList.reverse =
        extension.toList.reverse ++ '.' :: c :: before := by
      simp [hdot, hcs]
    have hpass : ∀ c ∈ extension.toList.reverse, decide (c ≠ '.') = true := by
      intro c hc
      have hne : c ≠ '.' := fun heq => hnot (heq ▸ List.mem_reverse.1 hc)
      simp [hne]
    unfold splitName
    dsimp only
    rw [hreversed, List.dropWhile_append_of_pos hpass, List.takeWhile_append_of_pos hpass]
    simp

/-- **A path with an extension** ends in something before a dot and the extension after it. -/
theorem extension?_foldl_join_eq_some_iff {root : String} (hroot : root ≠ "") {names : List String}
    (h : ∀ name ∈ names, IsName name) {name extension : String} (hname : IsName name)
    (hextension : '.' ∉ extension.toList) :
    extension? ((names ++ [name]).foldl join root) = some extension ↔
      ∃ stem, stem ≠ "" ∧ name = stem ++ "." ++ extension := by
  rw [extension?, fileName?_foldl_join hroot h hname, Option.bind_some, splitName_snd_eq_some_iff]
  exact and_iff_right hextension

end MatlabQuality.Path
