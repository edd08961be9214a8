import Mathlib.Logic.Relation
import MatlabQuality.Proofs.Files.Path
import MatlabQuality.Proofs.Files.Writing

/-!
# Well-formed trees

In a tree that is made by changes, no place has two entries, and every name on the way to an entry
is one that a path can spell: what a walk over the pieces of a path arrives at is made of names.

## Main definitions

* `Tree.WellFormed`, `View.WellFormed` — what holds of every tree and view made by changes.
* `View.Changes` — a single change of a view.

## Main statements

* `Tree.isNames_of_walk` — a walk arrives at names.
* `View.WellFormed.changes` — a change keeps a view well formed.
* `View.wellFormed_of_history` — every view made by changes is well formed.
-/

namespace MatlabQuality.Files

open MatlabQuality.Text

/-- Whether a place is made of names. -/
def IsNames (place : Place) : Prop :=
  ∀ name ∈ place, Path.IsName name

instance (place : Place) : Decidable (IsNames place) :=
  inferInstanceAs (Decidable (∀ name ∈ place, Path.IsName name))

theorem IsNames.concat {place : Place} {name : String} (h : IsNames place)
    (hname : Path.IsName name) : IsNames (place ++ [name]) :=
  List.forall_mem_append.2 ⟨h, List.forall_mem_singleton.2 hname⟩

/-- A walk starts at names, by a path from the top or from a working directory. -/
theorem IsNames.start {here : Place} (h : IsNames here) (absolute : Bool) :
    IsNames (if absolute then [] else here) := by
  cases absolute with
  | false => exact h
  | true => exact fun _ hmem => absurd hmem List.not_mem_nil

namespace Tree

/-- A tree as changes make it: no place has two entries, and every place is made of names. -/
structure WellFormed (t : Tree) : Prop where
  nodup : (t.entries.map Prod.fst).Nodup
  names : ∀ entry ∈ t.entries, IsNames entry.1

theorem wellFormed_empty : empty.WellFormed :=
  ⟨List.nodup_nil, fun _ h => absurd h List.not_mem_nil⟩

/-- A part of a well-formed tree is well formed. -/
theorem WellFormed.filter {t : Tree} (h : t.WellFormed) (p : Place × Entry → Bool) :
    WellFormed ⟨t.entries.filter p⟩ where
  nodup := h.nodup.sublist (List.filter_sublist.map Prod.fst)
  names entry hmem := h.names entry (List.mem_of_mem_filter hmem)

theorem WellFormed.put {t : Tree} (h : t.WellFormed) {place : Place} (hplace : IsNames place)
    (e : Entry) : (t.put place e).WellFormed where
  nodup := by
    rw [entries_put, List.map_append, List.map_singleton, List.nodup_append]
    refine ⟨(h.filter _).nodup, by simp, ?_⟩
    intro p hp q hq
    obtain ⟨old, hold, rfl⟩ := List.mem_map.1 hp
    obtain rfl := List.mem_singleton.1 hq
    simpa using (List.mem_filter.1 hold).2
  names entry hmem := by
    rw [entries_put] at hmem
    rcases List.mem_append.1 hmem with hmem | hmem
    · exact (h.filter _).names entry hmem
    · exact List.mem_singleton.1 hmem ▸ hplace

theorem WellFormed.drop {t : Tree} (h : t.WellFormed) (place : Place) :
    (t.drop place).WellFormed :=
  h.filter _

/-- **A walk arrives at names.**  Its pieces come from several paths where links lead it on, so all
that is known of them is that they have no slash. -/
theorem isNames_of_walk {t : Tree} {links : Nat} {here : Place} {pieces : List String}
    {place : Place} (hhere : IsNames here) (hpieces : ∀ piece ∈ pieces, '/' ∉ piece.toList)
    (hwalk : t.walk links here pieces = .ok place) : IsNames place := by
  have hname : ∀ {piece : String}, '/' ∉ piece.toList → ¬ (piece = "" ∨ piece = ".") →
      piece ≠ ".." → Path.IsName piece :=
    fun hslash hskip hup => ⟨fun h => hskip (.inl h), fun h => hskip (.inr h), hup, hslash⟩
  fun_induction t.walk links here pieces with
  | case1 links here =>
    obtain rfl := Except.ok.inj hwalk
    exact hhere
  | case2 => cases hwalk
  | case3 links here piece rest hdirectory hskip ih =>
    exact ih hhere (List.forall_mem_cons.1 hpieces).2 hwalk
  | case4 links here rest hdirectory hskip ih =>
    refine ih (fun name hmem => hhere name ?_) (List.forall_mem_cons.1 hpieces).2 hwalk
    exact (List.dropLast_prefix here).subset hmem
  | case5 links here piece hdirectory hskip hup hmissing =>
    obtain rfl := Except.ok.inj hwalk
    exact hhere.concat (hname (List.forall_mem_cons.1 hpieces).1 hskip hup)
  | case6 => cases hwalk
  | case7 => cases hwalk
  | case8 here piece rest hdirectory hskip hup next hget links start ih =>
    refine ih (hhere.start _) ?_ hwalk
    intro other hmem
    rcases List.mem_append.1 hmem with hmem | hmem
    · exact Path.slash_notMem_of_mem_pieces hmem
    · exact (List.forall_mem_cons.1 hpieces).2 other hmem
  | case9 links here piece rest hdirectory hskip hup e hother hget ih =>
    obtain ⟨hpiece, hrest⟩ := List.forall_mem_cons.1 hpieces
    exact ih (hhere.concat (hname hpiece hskip hup)) hrest hwalk

theorem isNames_of_follow {t : Tree} {here : Place} {path : String} {place : Place}
    (hhere : IsNames here) (hfollow : t.follow here path = .ok place) : IsNames place := by
  rw [follow, ite_eq_iff] at hfollow
  rcases hfollow with ⟨-, hfollow⟩ | ⟨-, hfollow⟩
  · cases hfollow
  · exact isNames_of_walk (hhere.start _) (fun _ => Path.slash_notMem_of_mem_pieces) hfollow

end Tree

namespace View

/-- A view as changes make it. -/
structure WellFormed (v : View) : Prop where
  tree : v.tree.WellFormed
  workingDirectory : IsNames v.workingDirectory

/-- The pieces of a path without the empty ones at its end. -/
def namedPieces (path : String) : List String :=
  ((Path.pieces path).reverse.dropWhile (· = "")).reverse

theorem slash_notMem_of_mem_namedPieces {piece path : String} (h : piece ∈ namedPieces path) :
    '/' ∉ piece.toList := by
  have hkept := (List.dropWhile_sublist _).subset (List.mem_reverse.1 h)
  exact Path.slash_notMem_of_mem_pieces (List.mem_reverse.1 hkept)

theorem ne_empty_of_getLast?_namedPieces {piece path : String}
    (h : (namedPieces path).getLast? = some piece) : piece ≠ "" := by
  have hstop := List.head?_dropWhile_not (· = "") (Path.pieces path).reverse
  rw [namedPieces, List.getLast?_reverse] at h
  rw [h] at hstop
  simpa using hstop

/-- What the place of a new entry is: where the whole path leads, if no name is left to be made, and
else one step below a directory. -/
theorem newPlace_cases {v : View} {path : String} {place : Place}
    (hplace : v.newPlace path = .ok place) :
    v.tree.follow v.workingDirectory path = .ok place ∨
      ∃ directory name, Path.IsName name ∧
        namedPieces path = (namedPieces path).dropLast ++ [name] ∧
        v.tree.walk Tree.maxLinks (if Path.isAbsolute path then [] else v.workingDirectory)
          (namedPieces path).dropLast = .ok directory ∧
        place = directory ++ [name] := by
  unfold newPlace at hplace
  rw [← namedPieces] at hplace
  dsimp only at hplace
  split at hplace
  · exact .inl hplace
  · exact .inl hplace
  · exact .inl hplace
  · next name hdot hdots hlast =>
    have hname : Path.IsName name :=
      ⟨ne_empty_of_getLast?_namedPieces hlast, hdot, hdots,
        slash_notMem_of_mem_namedPieces (List.mem_of_getLast? hlast)⟩
    cases hwalk : v.tree.walk Tree.maxLinks
        (if Path.isAbsolute path then [] else v.workingDirectory) (namedPieces path).dropLast with
    | error fault =>
      rw [hwalk] at hplace
      cases hplace
    | ok directory =>
      simp only [hwalk, bind, Except.bind] at hplace
      split at hplace
      · cases hplace
      · refine .inr ⟨directory, name, hname, ?_, rfl, (Except.ok.inj hplace).symm⟩
        exact (List.dropLast_append_getLast? name hlast).symm
      · cases hplace

/-- The place of a new entry is made of names. -/
theorem isNames_of_newPlace {v : View} (h : v.WellFormed) {path : String} {place : Place}
    (hplace : v.newPlace path = .ok place) : IsNames place := by
  obtain hfollow | ⟨directory, name, hname, -, hwalk, rfl⟩ := newPlace_cases hplace
  · exact Tree.isNames_of_follow h.workingDirectory hfollow
  · have hdirectory : IsNames directory := by
      refine Tree.isNames_of_walk (h.workingDirectory.start _) (fun piece hmem => ?_) hwalk
      exact slash_notMem_of_mem_namedPieces ((List.dropLast_sublist _).subset hmem)
    exact hdirectory.concat hname

theorem WellFormed.makeOne {v v' : View} (h : v.WellFormed) {path : String}
    (hmade : v.makeOne path = .made v') : v'.WellFormed := by
  unfold View.makeOne at hmade
  split at hmade
  · next place hplace =>
    split_ifs at hmade
    obtain rfl := Made.made.inj hmade
    exact ⟨h.tree.put (isNames_of_newPlace h hplace) _, h.workingDirectory⟩
  · cases hmade
  · cases hmade

theorem WellFormed.makeDirectoryWithin {v : View} (h : v.WellFormed) (depth : Nat)
    (path : String) : (v.makeDirectoryWithin depth path).1.WellFormed := by
  induction depth generalizing v path with
  | zero => exact h
  | succ depth ih =>
    unfold View.makeDirectoryWithin
    split_ifs
    · exact h
    split
    · next hmade => exact h.makeOne hmade
    · exact h
    · split
      · exact h
      · next parent hparent =>
        have hinner := ih h parent
        split
        · next hwithin => exact hwithin ▸ hinner
        · next hwithin =>
          rw [hwithin] at hinner
          split
          · next hmade => exact hinner.makeOne hmade
          · exact hinner

/-- A single change of a view. -/
inductive Changes : View → View → Prop
  | write {v v' : View} {path : String} {bytes : List UInt8} (h : v.write? path bytes = some v') :
    Changes v v'
  | makeDirectory (v : View) (path : String) : Changes v (v.makeDirectory path).1
  | remove {v v' : View} {path : String} (h : v.remove? path = some v') : Changes v v'
  | link {v v' : View} {path target : String} (h : v.link? path target = some v') : Changes v v'

/-- **A change keeps a view well formed.** -/
theorem WellFormed.changes {v v' : View} (hv : v.WellFormed) (h : Changes v v') :
    v'.WellFormed := by
  cases h with
  | write h =>
    obtain ⟨place, hfollow, -, rfl⟩ := write?_eq_some h
    exact ⟨hv.tree.put (Tree.isNames_of_follow hv.workingDirectory hfollow) _, hv.workingDirectory⟩
  | makeDirectory path => exact hv.makeDirectoryWithin _ path
  | remove h =>
    unfold remove? at h
    split at h
    · split_ifs at h
      obtain rfl := Option.some.inj h
      exact ⟨hv.tree.drop _, hv.workingDirectory⟩
    · cases h
  | link h =>
    unfold link? at h
    split at h
    · next place hplace =>
      split_ifs at h
      obtain rfl := Option.some.inj h
      exact ⟨hv.tree.put (isNames_of_newPlace hv hplace) _, hv.workingDirectory⟩
    · cases h

/-- **Every view that changes make of an empty one is well formed.** -/
theorem wellFormed_of_history {here : Place} (hhere : IsNames here) {v : View}
    (h : Relation.ReflTransGen Changes ⟨.empty, here⟩ v) : v.WellFormed := by
  induction h with
  | refl => exact ⟨Tree.wellFormed_empty, hhere⟩
  | tail _ hstep ih => exact ih.changes hstep

end View

end MatlabQuality.Files
