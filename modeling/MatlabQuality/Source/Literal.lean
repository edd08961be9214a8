import MatlabQuality.Number.Digits
import MatlabQuality.Text.Word

/-!
# Number literals

A literal is a word made of decimal digits, with the digit word after a point as its fraction.
The literals that need a name are the unexplained ones: those whose whole part is not among a few
values that explain themselves.

## Main definitions

* `literals` — the whole parts of the literals of a source.
* `wholeValue?` — the value of a whole part.
* `magicNumbers` — the unexplained values of a source, each once, in order of first appearance.
-/

namespace MatlabQuality.Source

open MatlabQuality.Text MatlabQuality.Number

/-- Whether a word is made of decimal digits. -/
def isNumeral (word : List Char) : Bool :=
  !word.isEmpty && word.all isDigit

/-- The whole parts of the literals among some segments.  A digit word after a point that follows
a literal is its fraction. -/
def literalsOf : List Segment → List (List Char)
  | .word whole :: .other '.' :: .word part :: rest =>
    if isNumeral whole then
      if isNumeral part then whole :: literalsOf rest
      else whole :: literalsOf (.other '.' :: .word part :: rest)
    else literalsOf (.other '.' :: .word part :: rest)
  | .word whole :: rest =>
    if isNumeral whole then whole :: literalsOf rest else literalsOf rest
  | .other _ :: rest => literalsOf rest
  | [] => []

/-- The whole parts of the literals of a source, from left to right. -/
def literals (source : List Char) : List (List Char) :=
  literalsOf (segments source)

/-- The first value too large for a literal. -/
def literalBound : Nat :=
  Nat.pow 2 128

/-- The value of a whole part that is written in ASCII digits and is not too large. -/
def wholeValue? (whole : List Char) : Option Nat :=
  match readNat? whole with
  | some n => if n < literalBound then some n else none
  | none => none

/-- Values common enough not to need a name. -/
def acceptableValues : List Nat :=
  [0, 1, 2, 3, 10, 100, 255]

/-- The values with one more, unless it explains itself or is among them already. -/
def addUnexplained (seen : List Nat) (value : Nat) : List Nat :=
  if acceptableValues.contains value || seen.contains value then seen else seen ++ [value]

/-- The unexplained values of a source, each once, in order of first appearance. -/
def magicNumbers (source : List Char) : List Nat :=
  ((literals source).filterMap wholeValue?).foldl addUnexplained []

end MatlabQuality.Source
