import MatlabQuality.Number.Shortest

/-!
# Layouts of numbers

How a binary64 number is written: its shortest digits either positionally or with an exponent.  A
layout is the small record of decisions in which two written forms differ.

## Main definitions

* `Layout` — the decisions of one written form.
* `Layout.parts`, `Layout.write` — a size and a number in a layout.
* `exact`, `plain`, `reported` — the three layouts of this library.
* `writeFixed` — a number with a fixed number of places.
-/

namespace MatlabQuality.Number

/-- The decisions of one written form of numbers. -/
structure Layout where
  /-- Positional from `10 ^ leastDecade` on; every exponent is positional without a bound. -/
  leastDecade : Option Int
  /-- Positional up to, and not including, `10 ^ firstExponential`. -/
  firstExponential : Option Int
  /-- Whether a whole number keeps one zero after its point. -/
  keepsPoint : Bool
  /-- Whether a positive exponent is signed. -/
  signsExponent : Bool
  /-- Where a tie between two shortest forms goes. -/
  tie : Tie

/-- The parts of a written size. -/
structure Written where
  /-- The digits before the point; at least one. -/
  whole : List Char
  /-- The digits after the point; without any there is no point. -/
  fraction : List Char
  /-- The power of ten, in exponential form. -/
  exponent : Option Int
deriving Repr, DecidableEq

/-- A whole number with its sign. -/
def signedDecimal (signsPositive : Bool) (n : Int) : List Char :=
  (if n < 0 then ['-'] else if signsPositive then ['+'] else []) ++ decimalDigits n.natAbs

/-- The characters of a written size. -/
def Written.chars (signsExponent : Bool) (w : Written) : List Char :=
  w.whole ++ (if w.fraction.isEmpty then [] else '.' :: w.fraction)
    ++ match w.exponent with
      | none => []
      | some e => 'e' :: signedDecimal signsExponent e

namespace Layout

/-- A positional form: `pointAt` digits stand before the point. -/
def positional (keepsPoint : Bool) (digits : List Char) (pointAt : Int) : Written :=
  if pointAt ≤ 0 then ⟨['0'], List.replicate (-pointAt).toNat '0' ++ digits, none⟩
  else if digits.length ≤ pointAt.toNat then
    ⟨digits ++ List.replicate (pointAt.toNat - digits.length) '0',
      if keepsPoint then ['0'] else [], none⟩
  else ⟨digits.take pointAt.toNat, digits.drop pointAt.toNat, none⟩

/-- An exponential form: one digit stands before the point. -/
def exponential (digits : List Char) (decade : Int) : Written :=
  ⟨digits.take 1, digits.drop 1, some decade⟩

/-- The parts of a size in a layout. -/
def parts (layout : Layout) (a : Magnitude) : Written :=
  let d := a.shortest layout.tie
  let digits := decimalDigits d.digits
  let pointAt := (digits.length : Int) + d.exponent
  if a.units = 0 then positional layout.keepsPoint ['0'] 1
  else if layout.leastDecade.all (· < pointAt) && layout.firstExponential.all (pointAt ≤ ·) then
    positional layout.keepsPoint digits pointAt
  else exponential digits (pointAt - 1)

/-- The written form of a number. -/
def writeChars (layout : Layout) : Binary64 → List Char
  | .finite negative a =>
    (if negative then ['-'] else []) ++ (layout.parts a).chars layout.signsExponent
  | .infinite negative => (if negative then ['-'] else []) ++ ['i', 'n', 'f']
  | .nan => ['N', 'a', 'N']

/-- The written form of a number. -/
def write (layout : Layout) (x : Binary64) : String :=
  String.ofList (layout.writeChars x)

end Layout

/-- Threshold files: a point in every positional number, which are those from `10 ^ (-4)` to
`10 ^ 16`. -/
def exact : Layout :=
  ⟨some (-4), some 16, true, false, .away⟩

/-- Messages and pages: positional at every size, and no point in a whole number. -/
def plain : Layout :=
  ⟨none, none, false, false, .away⟩

/-- Saved reports: positional from `10 ^ (-5)` to `10 ^ 16`, and a sign in every exponent. -/
def reported : Layout :=
  ⟨some (-5), some 16, true, true, .toEven⟩

/-- A size with a fixed number of decimal places, the exact value rounded with ties to even. -/
def writeFixedSize (places : Nat) (a : Magnitude) : List Char :=
  let scaled := a.fixed .toEven places
  let whole := decimalDigits (scaled / Nat.pow 10 places)
  if places = 0 then whole
  else
    let part := decimalDigits (scaled % Nat.pow 10 places)
    whole ++ ['.'] ++ List.replicate (places - part.length) '0' ++ part

/-- A number with a fixed number of decimal places. -/
def writeFixed (places : Nat) : Binary64 → String
  | .finite negative a =>
    String.ofList ((if negative then ['-'] else []) ++ writeFixedSize places a)
  | .infinite negative => if negative then "-inf" else "inf"
  | .nan => "NaN"

end MatlabQuality.Number
