import MatlabQuality.Files.Tree
import MatlabQuality.Proofs.Files.Path

/-!
# Parents of paths

A parent is found by taking pieces off a path, those that name nothing along with the last one that
names something.  It is the path without its last component, whatever slashes and dots stand
between.

## Main statements

* `components_of_parent?` — a parent has all components of a path but the last.
* `parent?_eq_none_iff` — the empty path and the root are the paths without a parent.
-/

namespace MatlabQuality.Path

open MatlabQuality.Text

/-! ## Pieces and texts -/

theorem component?_eq_none_iff {piece : String} :
    component? piece = none ↔ piece = "" ∨ piece = "." := by
  unfold component?
  split
  · simp
  · simp
  · simp
  · next hempty hdot _ => simpa using ⟨hempty, hdot⟩

/-- A path is absolute when something empty stands before its first slash. -/
theorem isAbsolute_of_pieces {path first : String} {rest : List String}
    (h : pieces path = first :: rest) : isAbsolute path = decide (first = "" ∧ rest ≠ []) := by
  unfold pieces at h
  rw [isAbsolute, decide_eq_decide]
  cases hpath : path.toList with
  | nil =>
    rw [hpath] at h
    obtain ⟨rfl, rfl⟩ := List.cons.inj h
    simp
  | cons c cs =>
    rw [hpath] at h
    by_cases hc : c = '/'
    · subst hc
      rw [splitOn_cons_sep] at h
      obtain ⟨rfl, rfl⟩ := List.cons.inj h
      simpa using splitOn_ne_nil '/' cs
    · obtain ⟨piece, more, hcs⟩ := exists_splitOn_eq_cons '/' cs
      rw [splitOn_cons_of_ne hc hcs] at h
      obtain ⟨rfl, rfl⟩ := List.cons.inj h
      simp [hc]

theorem eq_empty_of_pieces {path : String} (h : pieces path = [""]) : path = "" := by
  have hjoin := joinWith_splitOn '/' path.toList
  have hpieces : splitOn '/' path.toList = [[]] := by
    simpa [pieces, List.map_eq_cons_iff] using h
  rw [hpieces] at hjoin
  simpa using hjoin.symm

/-- Texts without slashes are the pieces of the path that they make up. -/
theorem pieces_ofPieces_of_notMem {texts : List String} (hne : texts ≠ [])
    (h : ∀ text ∈ texts, '/' ∉ text.toList) : pieces (ofPieces texts) = texts := by
  induction texts with
  | nil => exact absurd rfl hne
  | cons text texts ih =>
    obtain ⟨htext, htexts⟩ := List.forall_mem_cons.1 h
    have hpiece : pieces text = [text] := by
      rw [pieces, splitOn_of_notMem htext, List.map_singleton, String.ofList_toList]
    cases texts with
    | nil => exact hpiece
    | cons next texts =>
      rw [ofPieces, String.intercalate_cons_cons, pieces_append_slash, hpiece, ← ofPieces,
        ih (List.cons_ne_nil next texts) htexts, List.singleton_append]

/-! ## Trimmed pieces -/

/-- **Only pieces that name nothing are trimmed**, and what is left ends in one that names
something, if more than the first piece is left. -/
theorem exists_trimPieces (first : String) (rest : List String) :
    ∃ kept, trimPieces (first :: rest) = first :: kept ∧ kept <+: rest ∧
      kept.filterMap component? = rest.filterMap component? ∧
      ∀ last ∈ kept.getLast?, (component? last).isSome = true := by
  let p : String → Bool := fun s => s = "" || s = "."
  have hsplit :
      (rest.reverse.dropWhile p).reverse ++ (rest.reverse.takeWhile p).reverse = rest := by
    rw [← List.reverse_append, List.takeWhile_append_dropWhile, List.reverse_reverse]
  have hidle : (rest.reverse.takeWhile p).reverse.filterMap component? = [] := by
    refine List.filterMap_eq_nil_iff.2 fun piece hmem => component?_eq_none_iff.2 ?_
    have htaken := List.mem_takeWhile_imp (List.mem_reverse.1 hmem)
    simpa [p] using htaken
  refine ⟨(rest.reverse.dropWhile p).reverse, rfl, ⟨_, hsplit⟩, ?_, ?_⟩
  · conv_rhs => rw [← hsplit, List.filterMap_append, hidle, List.append_nil]
  · intro last hlast
    have hnot := List.head?_dropWhile_not p rest.reverse
    rw [List.getLast?_reverse] at hlast
    rw [Option.mem_def.1 hlast] at hnot
    rw [Option.isSome_iff_ne_none, Ne, component?_eq_none_iff]
    simpa [p] using hnot

/-! ## Parents -/

theorem components_empty : components "" = [] := by decide

theorem firstComponent?_eq_none_iff {absolute : Bool} {piece : String} :
    firstComponent? absolute piece = none ↔ piece = "" ∧ absolute = false := by
  unfold firstComponent?
  split
  · cases absolute with
    | false => simp
    | true => simp
  · simp
  · next hempty hdot =>
    exact component?_eq_none_iff.trans
      (iff_of_false (not_or.2 ⟨hempty, hdot⟩) fun h => hempty h.1)

/-- The pieces of a parent. -/
def parentPieces (path : String) : List String :=
  trimPieces (trimPieces (pieces path)).dropLast

theorem parent?_eq_none_iff {path : String} :
    parent? path = none ↔ components path = [] ∨ components path = [.root] := by
  unfold parent?
  split
  · next h => simp [h]
  · next h => simp [h]
  · next hnil hroot =>
    dsimp only
    split_ifs
    all_goals simpa using ⟨hnil, hroot⟩

theorem eq_of_parent? {path parent : String} (h : parent? path = some parent) :
    parent = if isAbsolute path = true ∧ parentPieces path = [""] then "/"
      else ofPieces (parentPieces path) := by
  unfold parent? at h
  split at h
  · cases h
  · cases h
  · dsimp only at h
    rw [← parentPieces] at h
    split_ifs at h with hroot
    · rw [if_pos (by simpa using hroot), Option.some.inj h]
    · rw [if_neg (by simpa using hroot), Option.some.inj h]

/-- Pieces that a path starts with make up a path with the components of these pieces, unless they
are an empty piece alone. -/
theorem components_ofPieces {path first : String} {kept rest : List String}
    (hpieces : pieces path = first :: rest) (hkept : kept <+: rest)
    (hroot : ¬(isAbsolute path = true ∧ first :: kept = [""])) (hrest : rest ≠ []) :
    components (ofPieces (first :: kept)) =
      (firstComponent? (isAbsolute path) first).toList ++ kept.filterMap component? := by
  have hslash : ∀ text ∈ first :: kept, '/' ∉ text.toList := by
    intro text hmem
    have hpiece : text ∈ pieces path := by
      rw [hpieces]
      exact List.cons_subset_cons first hkept.subset hmem
    exact slash_notMem_of_mem_pieces hpiece
  have hpieces' := pieces_ofPieces_of_notMem (List.cons_ne_nil first kept) hslash
  have habsolute : isAbsolute path = decide (first = "") := by
    rw [isAbsolute_of_pieces hpieces]
    simp [hrest]
  have hsame : isAbsolute (ofPieces (first :: kept)) = isAbsolute path := by
    rw [isAbsolute_of_pieces hpieces', habsolute, decide_eq_decide, and_iff_left_iff_imp]
    rintro rfl rfl
    exact hroot ⟨by simpa using habsolute, rfl⟩
  rw [components_of_pieces hpieces', hsame]

/-- **A parent has all components of a path but the last.** -/
theorem components_of_parent? {path parent : String} (h : parent? path = some parent) :
    ∃ last, components path = components parent ++ [last] := by
  have hne : components path ≠ [] := by
    intro hnil
    rw [parent?_eq_none_iff.2 (.inl hnil)] at h
    cases h
  obtain ⟨first, rest, hpieces⟩ := List.exists_cons_of_ne_nil (pieces_ne_nil path)
  obtain ⟨kept, htrim, hkept, hfilter, hlast⟩ := exists_trimPieces first rest
  have hcomponents := components_of_pieces hpieces
  have hparent := eq_of_parent? h
  rw [parentPieces, hpieces, htrim] at hparent
  rw [← hfilter] at hcomponents
  rcases List.eq_nil_or_concat kept with rfl | ⟨init, piece, rfl⟩
  · -- The first piece names the only component.
    have hempty : parent = "" := by simpa [trimPieces, ofPieces] using hparent
    rw [List.filterMap_nil, List.append_nil] at hcomponents
    cases hfirst : firstComponent? (isAbsolute path) first with
    | none =>
      rw [hfirst] at hcomponents
      exact absurd hcomponents hne
    | some last => exact ⟨last, by rw [hcomponents, hfirst, hempty, components_empty]; rfl⟩
  · rw [List.concat_eq_append] at hcomponents hparent hlast hkept
    obtain ⟨last, hpiece⟩ := Option.isSome_iff_exists.1 (hlast piece (by simp))
    obtain ⟨kept, htrim', hkept', hfilter', -⟩ := exists_trimPieces first init
    rw [← List.cons_append, List.dropLast_concat, htrim'] at hparent
    have hall : components path = ((firstComponent? (isAbsolute path) first).toList ++
        kept.filterMap component?) ++ [last] := by
      rw [hcomponents, hfilter', List.filterMap_append, List.append_assoc]
      simp [hpiece]
    refine ⟨last, ?_⟩
    rw [hall, hparent]
    congr 1
    split_ifs with hroot
    · obtain ⟨rfl, rfl⟩ := List.cons.inj hroot.2
      rw [hroot.1]
      decide
    · have hstart : kept <+: rest := (hkept'.trans (List.prefix_append _ _)).trans hkept
      have hrest : rest ≠ [] := by
        rintro rfl
        simp at hkept
      exact (components_ofPieces hpieces hstart hroot hrest).symm

/-- The empty path is the only one without components. -/
theorem eq_empty_of_components {path : String} (h : components path = []) : path = "" := by
  obtain ⟨first, rest, hpieces⟩ := List.exists_cons_of_ne_nil (pieces_ne_nil path)
  rw [components_of_pieces hpieces, List.append_eq_nil_iff, Option.toList_eq_nil_iff,
    firstComponent?_eq_none_iff] at h
  obtain ⟨⟨rfl, habsolute⟩, -⟩ := h
  rw [isAbsolute_of_pieces hpieces] at habsolute
  have hrest : rest = [] := by simpa using habsolute
  exact eq_empty_of_pieces (by rw [hpieces, hrest])

theorem component?_ne_root (piece : String) : component? piece ≠ some .root := by
  unfold component?
  split
  all_goals simp

theorem eq_of_firstComponent?_root {absolute : Bool} {piece : String}
    (h : firstComponent? absolute piece = some .root) : piece = "" ∧ absolute = true := by
  unfold firstComponent? at h
  split at h
  · cases absolute with
    | false => cases h
    | true => exact ⟨rfl, rfl⟩
  · cases h
  · exact absurd h (component?_ne_root piece)

/-- A path of the root alone is made of pieces that name nothing. -/
theorem pieces_of_components_root {path : String} (h : components path = [.root]) :
    isAbsolute path = true ∧ (pieces path).filterMap component? = [] := by
  obtain ⟨first, rest, hpieces⟩ := List.exists_cons_of_ne_nil (pieces_ne_nil path)
  rw [components_of_pieces hpieces] at h
  cases hfirst : firstComponent? (isAbsolute path) first with
  | none =>
    have hmem : Component.root ∈ rest.filterMap component? := by
      rw [hfirst, Option.toList_none, List.nil_append] at h
      rw [h]
      exact List.mem_singleton_self _
    obtain ⟨piece, -, hpiece⟩ := List.mem_filterMap.1 hmem
    exact absurd hpiece (component?_ne_root piece)
  | some c =>
    rw [hfirst, Option.toList_some, List.singleton_append] at h
    obtain ⟨rfl, hrest⟩ := List.cons.inj h
    obtain ⟨rfl, habsolute⟩ := eq_of_firstComponent?_root hfirst
    exact ⟨habsolute, by rw [hpieces]; exact hrest⟩

end MatlabQuality.Path

namespace MatlabQuality.Files

/-- Pieces that name nothing lead nowhere else. -/
theorem Tree.walk_of_idle (t : Tree) (links : ℕ) {pieces : List String}
    (h : pieces.filterMap Path.component? = []) : t.walk links [] pieces = .ok [] := by
  induction pieces with
  | nil => rw [walk]
  | cons piece pieces ih =>
    have hidle : piece = "" ∨ piece = "." :=
      Path.component?_eq_none_iff.1 (List.filterMap_eq_nil_iff.1 h piece List.mem_cons_self)
    have hrest : pieces.filterMap Path.component? = [] :=
      List.filterMap_eq_nil_iff.2 fun other hmem =>
        List.filterMap_eq_nil_iff.1 h other (List.mem_cons_of_mem _ hmem)
    rw [walk, if_neg (by simp [get?]), if_pos hidle, ih hrest]

/-- **A path that leads to a file has a parent.** -/
theorem View.exists_parent?_of_isFile {v : View} {path : String} (h : v.isFile path = true) :
    ∃ parent, Path.parent? path = some parent := by
  rw [← Option.isSome_iff_exists, Option.isSome_iff_ne_none]
  intro hnone
  rcases Path.parent?_eq_none_iff.1 hnone with hnil | hroot
  · rw [Path.eq_empty_of_components hnil] at h
    simp [isFile, bytes?, entry?, place?, Tree.follow] at h
  · obtain ⟨habsolute, hpieces⟩ := Path.pieces_of_components_root hroot
    have hfollow : v.tree.follow v.workingDirectory path = .ok [] := by
      rw [Tree.follow, if_neg (by rintro rfl; cases habsolute), habsolute]
      exact v.tree.walk_of_idle Tree.maxLinks hpieces
    simp [isFile, bytes?, entry?, place?, hfollow, Tree.get?] at h

end MatlabQuality.Files
