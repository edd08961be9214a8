/-!
# Splitting a text

A text splits at every occurrence of a separator into one piece more than there are separators.
Physical lines are the pieces between line feeds.

## Main definitions

* `splitOn` — the pieces between separators.
* `lines` — the physical lines of a text.
* `joinWith` — the pieces with a separator between each two of them.
* `pairs` — how many disjoint pairs of one character stand side by side.
-/

namespace MatlabQuality.Text

variable {α : Type} [DecidableEq α]

/-- The pieces of a text between the occurrences of `sep`.  A text without `sep` is one piece, and
so is the empty text. -/
def splitOn (sep : α) : List α → List (List α)
  | [] => [[]]
  | c :: cs =>
    if c = sep then [] :: splitOn sep cs
    else
      match splitOn sep cs with
      | piece :: rest => (c :: piece) :: rest
      | [] => [[c]]

/-- The physical lines of a text: it ends with one line more than it has line feeds. -/
def lines (cs : List Char) : List (List Char) :=
  splitOn '\n' cs

/-- The pieces with `sep` between each two of them. -/
def joinWith (sep : List Char) : List (List Char) → List Char
  | [] => []
  | [piece] => piece
  | piece :: rest => piece ++ sep ++ joinWith sep rest

/-- The number of disjoint occurrences of `c` twice in a row, taken from left to right. -/
def pairs (c : Char) : List Char → Nat
  | a :: b :: rest => if a = c ∧ b = c then 1 + pairs c rest else pairs c (b :: rest)
  | _ => 0

theorem splitOn_ne_nil (sep : α) (cs : List α) : splitOn sep cs ≠ [] := by
  cases cs with
  | nil => simp [splitOn]
  | cons c cs =>
    rw [splitOn]
    split
    · simp
    · split <;> simp

/-- There is one piece more than there are separators. -/
theorem length_splitOn (sep : α) (cs : List α) :
    (splitOn sep cs).length = cs.count sep + 1 := by
  induction cs with
  | nil => rfl
  | cons c cs ih =>
    rw [splitOn]
    split
    · next h => simp [h, ih]
    · next h =>
      split
      · next piece rest hs =>
        rw [hs] at ih
        simpa [List.count_cons, h] using ih
      · next hs => exact absurd hs (splitOn_ne_nil sep cs)

end MatlabQuality.Text
