import MatlabQuality.Number.Layout

/-!
# Number literals of JSON

A literal is kept as its digits, because what it stands for depends on the reader: a count takes
plain digits only, and a binary64 number is computed from at most 64 bits of leading digits and
one power of ten.

## Main definitions

* `Numeral` — the parts of a literal.
* `Numeral.read?`, `Numeral.chars` — a literal from and to characters.
* `Numeral.toNat?`, `Numeral.toBinary64?` — what a literal stands for.
* `Numeral.ofNat`, `Numeral.ofMagnitude` — literals of counts and sizes.
-/

namespace MatlabQuality.Json

open MatlabQuality.Number

/-- The parts of a number literal. -/
structure Numeral where
  negative : Bool
  /-- The digits before the point. -/
  whole : List Char
  /-- The digits after the point; without any there is no point. -/
  fraction : List Char
  /-- Whether the exponent is negative, and its digits. -/
  exponent : Option (Bool × List Char)
deriving Repr, DecidableEq

namespace Numeral

/-! ## Reading and writing -/

/-- The digits a text starts with, and what follows them. -/
def spanDigits (cs : List Char) : List Char × List Char :=
  (cs.takeWhile isAsciiDigit, cs.dropWhile isAsciiDigit)

/-- The fraction a text starts with: a point and at least one digit, or nothing. -/
def readFraction? : List Char → Option (List Char × List Char)
  | '.' :: rest =>
    match spanDigits rest with
    | ([], _) => none
    | (digits, rest) => some (digits, rest)
  | cs => some ([], cs)

/-- The sign of an exponent. -/
def readSign : List Char → Bool × List Char
  | '+' :: rest => (false, rest)
  | '-' :: rest => (true, rest)
  | cs => (false, cs)

/-- An exponent after its mark: a sign or none, and at least one digit. -/
def readExponentDigits? (cs : List Char) : Option (Option (Bool × List Char) × List Char) :=
  let (negative, rest) := readSign cs
  match spanDigits rest with
  | ([], _) => none
  | (digits, rest) => some (some (negative, digits), rest)

/-- The exponent a text starts with, or nothing. -/
def readExponent? : List Char → Option (Option (Bool × List Char) × List Char)
  | 'e' :: rest => readExponentDigits? rest
  | 'E' :: rest => readExponentDigits? rest
  | cs => some (none, cs)

/-- The literal a text starts with, after its sign.  A zero before the point stands alone. -/
def readUnsigned? (negative : Bool) (cs : List Char) : Option (Numeral × List Char) :=
  match spanDigits cs with
  | ([], _) => none
  | (whole, rest) =>
    if whole.head? = some '0' ∧ whole ≠ ['0'] then none
    else do
      let (fraction, rest) ← readFraction? rest
      let (exponent, rest) ← readExponent? rest
      return (⟨negative, whole, fraction, exponent⟩, rest)

/-- The literal a text starts with. -/
def read? : List Char → Option (Numeral × List Char)
  | '-' :: rest => readUnsigned? true rest
  | cs => readUnsigned? false cs

/-- The characters of a literal; an exponent is written with its sign. -/
def chars (n : Numeral) : List Char :=
  (if n.negative then ['-'] else []) ++ n.whole
    ++ (if n.fraction.isEmpty then [] else '.' :: n.fraction)
    ++ match n.exponent with
      | none => []
      | some (negative, digits) => 'e' :: (if negative then '-' else '+') :: digits

/-! ## Values -/

/-- The literal of a count. -/
def ofNat (n : Nat) : Numeral :=
  ⟨false, decimalDigits n, [], none⟩

/-- The literal of a signed size. -/
def ofMagnitude (negative : Bool) (a : Magnitude) : Numeral :=
  let w := reported.parts a
  ⟨negative, w.whole, w.fraction, w.exponent.map fun e => (decide (e < 0), decimalDigits e.natAbs)⟩

/-- The count a literal stands for: plain digits, below `bound`. -/
def toNat? (bound : Nat) (n : Numeral) : Option Nat :=
  if n.negative || !n.fraction.isEmpty || n.exponent.isSome then none
  else
    let value := ofDigits n.whole
    if value < bound then some value else none

/-- The first significand that is too large to be taken. -/
def significandBound : Nat :=
  Nat.pow 2 64

/-- A significand with the digits that still fit it, and how many of them do. -/
def absorb (significand : Nat) : List Char → Nat × Nat
  | [] => (significand, 0)
  | c :: rest =>
    let next := 10 * significand + digitValue c
    if next < significandBound then
      let (result, taken) := absorb next rest
      (result, taken + 1)
    else (significand, 0)

/-- The greatest exponent whose power of ten is a finite number. -/
def greatestPower : Nat :=
  308

/-- A number times a power of ten, in one multiplication or division, or in several divisions
where no single power is small enough.  Too large a result is none.  A number that comes from a
significand is nought after three divisions, so four steps are enough. -/
def scale? (x : Binary64) (exponent : Int) : Nat → Option Binary64
  | 0 => some x
  | steps + 1 =>
    if exponent.natAbs ≤ greatestPower then
      let power := Binary64.ofDecimal false 1 exponent.natAbs
      if 0 ≤ exponent then
        let y := x.mul power
        if y.isFinite then some y else none
      else some (x.div power)
    else if x = Binary64.zero false then some x
    else if 0 ≤ exponent then none
    else scale? (x.div (Binary64.ofDecimal false 1 greatestPower)) (exponent + greatestPower) steps

/-- The first exponent that is too large to be taken. -/
def exponentBound : Nat :=
  Nat.pow 2 31

/-- The size a literal stands for, if it is finite. -/
def toSize? (n : Numeral) : Option Binary64 :=
  let (leading, taken) := absorb 0 n.whole
  let (significand, places) := absorb leading n.fraction
  let shift : Int := (n.whole.length : Int) - taken - places
  match n.exponent with
  | none => scale? (Binary64.ofNat significand) shift 4
  | some (negative, digits) =>
    let e := ofDigits digits
    if e < exponentBound then
      scale? (Binary64.ofNat significand) (if negative then shift - e else shift + e) 4
    else if significand ≠ 0 ∧ !negative then none
    else some (Binary64.zero false)

/-- The number a literal stands for, if it is finite. -/
def toBinary64? (n : Numeral) : Option Binary64 :=
  n.toSize?.map fun x => if n.negative then x.neg else x

end Numeral

end MatlabQuality.Json
