import MatlabQuality.Number.Binary64
import MatlabQuality.Number.Digits

/-!
# Decimal forms of binary64 numbers

A finite number has a shortest decimal form: the fewest significant digits that read back as the
number, and of those the ones nearest to it.  It also has, for every number of places, the decimal
form nearest to its exact value.

## Main definitions

* `Decimal` — significant digits and a power of ten.
* `Magnitude.readsBack` — the decimals that round to a size.
* `Magnitude.shortest` — the shortest decimal form of a size.
* `Magnitude.fixed` — a size with a fixed number of decimal places.
-/

namespace MatlabQuality.Number

/-- The decimal number `digits · 10 ^ exponent`. -/
structure Decimal where
  /-- The significant digits, as a number. -/
  digits : Nat
  /-- The power of ten they are multiplied by. -/
  exponent : Int
deriving Repr, DecidableEq

namespace Decimal

/-- The same number without trailing zeros among its digits.  Eighteen steps are enough for the at
most eighteen digits that occur. -/
def stripZeros : Nat → Decimal → Decimal
  | 0, d => d
  | steps + 1, d =>
    if d.digits ≠ 0 ∧ d.digits % 10 = 0 then
      stripZeros steps ⟨d.digits / 10, d.exponent + 1⟩
    else d

/-- The first decimal that there is for a number of digits, from `count` digits on. -/
def firstFrom (decimal? : Nat → Option Decimal) (count : Nat) : Nat → Decimal
  | 0 => ⟨0, 0⟩
  | steps + 1 =>
    match decimal? count with
    | some d => d
    | none => firstFrom decimal? (count + 1) steps

end Decimal

namespace Magnitude

/-- A power of ten by which every positive size is scaled to one or more. -/
@[irreducible]
def decadeShift : Nat := 400

/-- The greatest power of ten not above a positive size, as an exponent. -/
def decade (a : Magnitude) : Int :=
  ((decimalDigits (a.units * Nat.pow 10 decadeShift / unitsPerOne)).length : Int)
    - (decadeShift + 1)

/-- The units per `10 ^ exponent`, as a fraction. -/
def unitsPerTenPow (exponent : Int) : Nat × Nat :=
  if 0 ≤ exponent then (unitsPerOne * Nat.pow 10 exponent.toNat, 1)
  else (unitsPerOne, Nat.pow 10 (-exponent).toNat)

/-- Whether a decimal rounds to this size: it lies no further away than halfway to either
neighbour, and a halfway point counts when the last bit is even. -/
def readsBack (a : Magnitude) (d : Decimal) : Bool :=
  let step := spacing a.units
  let below := if 1 < step ∧ a.units = Nat.pow 2 a.units.log2 then step / 2 else step
  let (n, m) := unitsPerTenPow d.exponent
  let value := 4 * d.digits * n
  let least := (4 * a.units - 2 * below) * m
  let greatest := (4 * a.units + 2 * step) * m
  if (a.units / step) % 2 = 0 then least ≤ value && value ≤ greatest
  else least < value && value < greatest

/-- Of the two decimals with last place `10 ^ exponent` around a size, the nearest that reads
back. -/
def neighbour? (tie : Tie) (a : Magnitude) (exponent : Int) : Option Decimal :=
  let (n, m) := unitsPerTenPow exponent
  let down : Decimal := ⟨a.units * m / n, exponent⟩
  let up : Decimal := ⟨a.units * m / n + 1, exponent⟩
  let near : Decimal := ⟨roundDiv tie (a.units * m) n, exponent⟩
  if a.readsBack near then some near
  else if a.readsBack down then some down
  else if a.readsBack up then some up
  else none

/-- The shortest decimal form of a size, on the first grid on which a neighbour of the size reads
back; seventeen digits are always enough. -/
def shortest (tie : Tie) (a : Magnitude) : Decimal :=
  if a.units = 0 then ⟨0, 0⟩
  else
    let grid (count : Nat) : Int := a.decade - (count : Int) + 1
    (Decimal.firstFrom (fun count => a.neighbour? tie (grid count)) 1 17).stripZeros 18

/-- A size times `10 ^ places`, rounded to a whole number. -/
def fixed (tie : Tie) (places : Nat) (a : Magnitude) : Nat :=
  roundDiv tie (a.units * Nat.pow 10 places) unitsPerOne

end Magnitude

end MatlabQuality.Number
