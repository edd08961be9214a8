import MatlabQuality.Text.Ranges

/-!
# Words

A word is a maximal run of word characters.  A text is the concatenation of its words and of the
single characters between them, and `segments` is that reading.

## Main definitions

* `isWord`, `isDigit` — membership in the two character classes.
* `Segment`, `segments` — a text as words and the characters between them.
* `wordRuns` — the words alone, from left to right.
-/

namespace MatlabQuality.Text

/-! ## Character classes -/

/-- Whether a code point lies in one of the ranges, which are in increasing order: a code point
below the first range lies in none of the later ones. -/
def inRanges : List (Nat × Nat) → Nat → Bool
  | [], _ => false
  | (first, last) :: rest, n =>
    if n < first then false else if n ≤ last then true else inRanges rest n

/-- The characters a word is made of. -/
def isWord (c : Char) : Bool :=
  inRanges wordRanges c.toNat

/-- The decimal digits of every script. -/
def isDigit (c : Char) : Bool :=
  inRanges digitRanges c.toNat

/-! ## Segments -/

/-- A piece of a text. -/
inductive Segment where
  /-- A maximal run of word characters. -/
  | word (run : List Char)
  /-- One character between words. -/
  | other (c : Char)
deriving Repr, DecidableEq

/-- The characters of a segment. -/
def Segment.chars : Segment → List Char
  | .word run => run
  | .other c => [c]

/-- The words of a text and the characters between them, from left to right. -/
def segments : List Char → List Segment
  | [] => []
  | c :: cs =>
    if isWord c then
      match segments cs with
      | .word run :: rest => .word (c :: run) :: rest
      | rest => .word [c] :: rest
    else .other c :: segments cs

/-- The word a segment holds, if it is one. -/
def Segment.word? : Segment → Option (List Char)
  | .word run => some run
  | .other _ => none

/-- The words of a text, from left to right. -/
def wordRuns (cs : List Char) : List (List Char) :=
  (segments cs).filterMap Segment.word?

/-- Nothing is lost: the segments of a text spell the text. -/
@[simp] theorem flatMap_chars_segments (cs : List Char) :
    (segments cs).flatMap Segment.chars = cs := by
  induction cs with
  | nil => rfl
  | cons c cs ih =>
    rw [segments]
    split
    · split
      · next run rest h =>
        rw [h] at ih
        simp only [List.flatMap_cons, Segment.chars, List.cons_append] at ih ⊢
        rw [ih]
      · simp [Segment.chars, ih]
    · simp [Segment.chars, ih]

end MatlabQuality.Text
