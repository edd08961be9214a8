import Mathlib.Data.List.TakeWhile
import MatlabQuality.Proofs.Text.Trim

/-!
# Cuts that are forced

A text is cut in one way into a run of characters of a class and a rest that does not start with
one.  Where each part of a text is followed by a character that cannot belong to it, the parts can
be read off.

## Main definitions

* `IsSpan` — a text cut where a class of characters ends.

## Main statements

* `IsSpan.takeWhile_eq`, `IsSpan.dropWhile_eq` — both parts of a cut are found again.
* `IsSpan.inj` — a text is cut in one way.
* `trimStart_append` — blanks before a text are skipped.
-/

namespace MatlabQuality.Text

/-! ## Cuts -/

/-- The first text is the longest start of both texts in a class of characters. -/
structure IsSpan (p : Char → Bool) (xs ys : List Char) : Prop where
  all : ∀ c ∈ xs, p c = true
  stops : ∀ c ∈ ys.head?, p c = false

namespace IsSpan

variable {p : Char → Bool} {xs ys xs' ys' : List Char}

theorem takeWhile_eq (h : IsSpan p xs ys) : (xs ++ ys).takeWhile p = xs := by
  rw [List.takeWhile_append_of_pos h.all]
  cases ys with
  | nil => simp
  | cons c ys => simp [h.stops c rfl]

theorem dropWhile_eq (h : IsSpan p xs ys) : (xs ++ ys).dropWhile p = ys := by
  rw [List.dropWhile_append_of_pos h.all]
  cases ys with
  | nil => simp
  | cons c ys => simp [h.stops c rfl]

/-- **A text is cut in one way.** -/
theorem inj (h : IsSpan p xs ys) (h' : IsSpan p xs' ys') (heq : xs ++ ys = xs' ++ ys') :
    xs = xs' ∧ ys = ys' := by
  constructor
  · rw [← h.takeWhile_eq, heq, h'.takeWhile_eq]
  · rw [← h.dropWhile_eq, heq, h'.dropWhile_eq]

theorem tail {c : Char} (h : IsSpan p (c :: xs) ys) : IsSpan p xs ys :=
  ⟨fun d hd => h.all d (List.mem_cons_of_mem c hd), h.stops⟩

theorem takeWhile_dropWhile (p : Char → Bool) (cs : List Char) :
    IsSpan p (cs.takeWhile p) (cs.dropWhile p) where
  all _ hc := List.mem_takeWhile_imp hc
  stops c hc := by
    have hnot := List.head?_dropWhile_not p cs
    rw [Option.mem_def.1 hc] at hnot
    exact hnot

end IsSpan

theorem stops_cons {p : Char → Bool} {d : Char} (hd : p d = false) (ys : List Char) :
    ∀ c ∈ (d :: ys).head?, p c = false := by
  intro c hc
  obtain rfl := Option.some.inj hc
  exact hd

/-- What comes first of some characters outside a class and another one is outside it. -/
theorem stops_append {p : Char → Bool} {xs : List Char} {d : Char} (hxs : ∀ c ∈ xs, p c = false)
    (hd : p d = false) (ys : List Char) : ∀ c ∈ (xs ++ d :: ys).head?, p c = false := by
  cases xs with
  | nil => exact stops_cons hd ys
  | cons x xs => exact stops_cons (hxs x List.mem_cons_self) (xs ++ d :: ys)

/-! ## Blanks -/

/-- Blanks end at a text that does not start with one. -/
theorem isSpan_blanks {blanks rest : List Char} (h : isAllBlank blanks = true)
    (hrest : ∀ c ∈ rest.head?, isBlank c = false) : IsSpan isBlank blanks rest :=
  ⟨List.all_eq_true.1 h, hrest⟩

theorem isAllBlank_takeWhile (cs : List Char) : isAllBlank (cs.takeWhile isBlank) = true :=
  List.all_eq_true.2 (IsSpan.takeWhile_dropWhile isBlank cs).all

theorem takeWhile_append_trimStart (cs : List Char) :
    cs.takeWhile isBlank ++ trimStart cs = cs :=
  List.takeWhile_append_dropWhile

theorem trimStart_append {blanks rest : List Char} (h : isAllBlank blanks = true)
    (hrest : ∀ c ∈ rest.head?, isBlank c = false) : trimStart (blanks ++ rest) = rest :=
  (isSpan_blanks h hrest).dropWhile_eq

end MatlabQuality.Text
