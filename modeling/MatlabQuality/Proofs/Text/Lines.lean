import MatlabQuality.Text.Split

/-!
# Splitting and joining

Splitting a text at a separator and joining pieces with it undo each other, so a text and the list
of its physical lines carry the same information.

## Main statements

* `splitOn_append_sep` — a separator splits a text into the pieces of its two sides.
* `splitOn_joinWith` — pieces without the separator are found again.
* `joinWith_splitOn` — a text is its pieces joined.
-/

namespace MatlabQuality.Text

/-! ## Pieces -/

section Pieces

variable {α : Type} [DecidableEq α]

@[simp] theorem splitOn_nil (sep : α) : splitOn sep [] = [[]] := rfl

theorem splitOn_cons_sep (sep : α) (cs : List α) :
    splitOn sep (sep :: cs) = [] :: splitOn sep cs := by
  simp [splitOn]

/-- A character that does not separate goes to the front of the first piece. -/
theorem splitOn_cons_of_ne {sep c : α} (h : c ≠ sep) {cs piece : List α} {rest : List (List α)}
    (hs : splitOn sep cs = piece :: rest) : splitOn sep (c :: cs) = (c :: piece) :: rest := by
  simp [splitOn, h, hs]

/-- The first piece of a text, which always has one. -/
theorem exists_splitOn_eq_cons (sep : α) (cs : List α) :
    ∃ piece rest, splitOn sep cs = piece :: rest := by
  cases h : splitOn sep cs with
  | nil => exact absurd h (splitOn_ne_nil sep cs)
  | cons piece rest => exact ⟨piece, rest, rfl⟩

/-- **A separator splits a text into the pieces of its two sides.** -/
theorem splitOn_append_sep (sep : α) (xs ys : List α) :
    splitOn sep (xs ++ sep :: ys) = splitOn sep xs ++ splitOn sep ys := by
  induction xs with
  | nil => simp [splitOn_cons_sep]
  | cons c xs ih =>
    by_cases hc : c = sep
    · subst hc
      simp [splitOn_cons_sep, ih]
    · obtain ⟨piece, rest, hs⟩ := exists_splitOn_eq_cons sep xs
      rw [hs] at ih
      rw [List.cons_append, splitOn_cons_of_ne hc ih, splitOn_cons_of_ne hc hs]
      rfl

/-- A text without the separator is one piece. -/
theorem splitOn_of_notMem {sep : α} {cs : List α} (h : sep ∉ cs) : splitOn sep cs = [cs] := by
  induction cs with
  | nil => rfl
  | cons c cs ih =>
    simp only [List.mem_cons, not_or] at h
    exact splitOn_cons_of_ne (Ne.symm h.1) (ih h.2)

/-- No piece has the separator. -/
theorem sep_notMem_of_mem_splitOn {sep : α} {cs piece : List α} (h : piece ∈ splitOn sep cs) :
    sep ∉ piece := by
  induction cs generalizing piece with
  | nil => simp_all
  | cons c cs ih =>
    by_cases hc : c = sep
    · rw [hc, splitOn_cons_sep] at h
      rcases List.mem_cons.1 h with rfl | hmem
      · exact List.not_mem_nil
      · exact ih hmem
    · obtain ⟨first, rest, hs⟩ := exists_splitOn_eq_cons sep cs
      rw [splitOn_cons_of_ne hc hs] at h
      rcases List.mem_cons.1 h with rfl | hmem
      · have hfirst : sep ∉ first := ih (hs ▸ List.mem_cons_self)
        simp [Ne.symm hc, hfirst]
      · exact ih (hs ▸ List.mem_cons_of_mem first hmem)

/-- The pieces of a text are the text without its separators. -/
theorem flatten_splitOn (sep : α) (cs : List α) :
    (splitOn sep cs).flatten = cs.filter (· ≠ sep) := by
  induction cs with
  | nil => rfl
  | cons c cs ih =>
    by_cases hc : c = sep
    · rw [hc, splitOn_cons_sep, List.flatten_cons, ih]
      simp
    · obtain ⟨piece, rest, hs⟩ := exists_splitOn_eq_cons sep cs
      rw [hs, List.flatten_cons] at ih
      rw [splitOn_cons_of_ne hc hs, List.flatten_cons, List.cons_append, ih,
        List.filter_cons_of_pos (by simpa using hc)]

end Pieces

/-! ## Joined pieces -/

@[simp] theorem joinWith_nil (sep : List Char) : joinWith sep [] = [] := rfl

@[simp] theorem joinWith_singleton (sep piece : List Char) : joinWith sep [piece] = piece := rfl

theorem joinWith_cons {sep : List Char} {rest : List (List Char)} (h : rest ≠ [])
    (piece : List Char) : joinWith sep (piece :: rest) = piece ++ (sep ++ joinWith sep rest) := by
  cases rest with
  | nil => exact absurd rfl h
  | cons piece' rest => simp [joinWith]

/-- **Pieces without the separator are found again in their join.** -/
theorem splitOn_joinWith {sep : Char} {pieces : List (List Char)} (hne : pieces ≠ [])
    (h : ∀ piece ∈ pieces, sep ∉ piece) : splitOn sep (joinWith [sep] pieces) = pieces := by
  induction pieces with
  | nil => exact absurd rfl hne
  | cons piece rest ih =>
    have hpiece : splitOn sep piece = [piece] := splitOn_of_notMem (h piece (by simp))
    by_cases hrest : rest = []
    · subst hrest
      simpa using hpiece
    · have hjoin : splitOn sep (joinWith [sep] rest) = rest :=
        ih hrest fun p hp => h p (List.mem_cons_of_mem _ hp)
      rw [joinWith_cons hrest, List.singleton_append, splitOn_append_sep, hpiece, hjoin]
      rfl

/-- **A text is its pieces joined.** -/
theorem joinWith_splitOn (sep : Char) (cs : List Char) :
    joinWith [sep] (splitOn sep cs) = cs := by
  induction cs with
  | nil => rfl
  | cons c cs ih =>
    by_cases hc : c = sep
    · subst hc
      rw [splitOn_cons_sep, joinWith_cons (splitOn_ne_nil c cs), ih]
      rfl
    · obtain ⟨piece, rest, hs⟩ := exists_splitOn_eq_cons sep cs
      rw [splitOn_cons_of_ne hc hs]
      rw [hs] at ih
      by_cases hrest : rest = []
      · subst hrest
        simpa using ih
      · rw [joinWith_cons hrest] at ih ⊢
        rw [List.cons_append, ih]

/-! ## Lines -/

theorem lines_joinWith {ls : List (List Char)} (hne : ls ≠ []) (h : ∀ l ∈ ls, '\n' ∉ l) :
    lines (joinWith ['\n'] ls) = ls :=
  splitOn_joinWith hne h

theorem joinWith_lines (cs : List Char) : joinWith ['\n'] (lines cs) = cs :=
  joinWith_splitOn '\n' cs

end MatlabQuality.Text
