/-!
# Decimal digits

Natural numbers as decimal digits and back.

## Main definitions

* `digitChar`, `digitValue?` — one digit.
* `decimalDigits` — the digits of a number, first digit first.
* `ofDigits` — the number that digits spell.
* `readNat?` — the number that a text of ASCII digits spells.
* `readUnsigned?` — the number that a text spells, if it fits a machine word.
* `grouped` — the digits of a number, in groups of three from the right.
-/

namespace MatlabQuality.Number

/-- The ASCII digit of a value below ten. -/
def digitChar (d : Nat) : Char :=
  Char.ofNat ('0'.toNat + d)

/-- Whether a character is an ASCII digit. -/
def isAsciiDigit (c : Char) : Bool :=
  '0' ≤ c && c ≤ '9'

/-- The value of an ASCII digit. -/
def digitValue (c : Char) : Nat :=
  c.toNat - '0'.toNat

/-- The decimal digits of a number, first digit first; zero has one digit. -/
def decimalDigits (n : Nat) : List Char :=
  Nat.toDigits 10 n

/-- The number that ASCII digits spell, first digit first. -/
def ofDigits (cs : List Char) : Nat :=
  cs.foldl (fun value c => 10 * value + digitValue c) 0

/-- The number that a text spells, if it is a run of at least one ASCII digit. -/
def readNat? (cs : List Char) : Option Nat :=
  if !cs.isEmpty && cs.all isAsciiDigit then some (ofDigits cs) else none

/-- The number that ASCII digits spell behind a value, if it and all values on the way to it are
below a bound.  The first value out of bounds ends the reading. -/
def readBelow? (bound : Nat) : Nat → List Char → Option Nat
  | value, [] => some value
  | value, c :: cs =>
    if isAsciiDigit c && 10 * value + digitValue c < bound then
      readBelow? bound (10 * value + digitValue c) cs
    else none

/-- The number that a text spells, if it fits a machine word of so many bits: a plus sign or none,
then at least one ASCII digit. -/
def readUnsigned? (bits : Nat) (cs : List Char) : Option Nat :=
  let digits := match cs with
    | '+' :: rest => rest
    | _ => cs
  if digits.isEmpty then none else readBelow? (Nat.pow 2 bits) 0 digits

/-- The decimal form of a number. -/
def decimal (n : Nat) : String :=
  String.ofList (decimalDigits n)

/-- Digits in groups of three counted from the right, with a comma between groups. -/
def groupThrees : List Char → List Char
  | [] => []
  | c :: rest =>
    if rest.length % 3 = 0 ∧ rest ≠ [] then c :: ',' :: groupThrees rest else c :: groupThrees rest

/-- The decimal form of a number, in groups of three. -/
def grouped (n : Nat) : String :=
  String.ofList (groupThrees (decimalDigits n))

end MatlabQuality.Number
