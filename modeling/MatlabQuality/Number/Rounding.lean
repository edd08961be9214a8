/-!
# Rounding a quotient

One rule serves every rounding in this library: a quotient of natural numbers goes to the nearest
whole number, and a tie goes as the caller says.

## Main definitions

* `Tie` — where a quotient halfway between two whole numbers goes.
* `roundDiv` — the whole number nearest to a quotient.
-/

namespace MatlabQuality.Number

/-- Where a quotient halfway between two whole numbers goes. -/
inductive Tie where
  /-- To the even one of the two. -/
  | toEven
  /-- To the larger one of the two. -/
  | away
deriving Repr, DecidableEq

/-- The whole number nearest to `n / d`. -/
def roundDiv (tie : Tie) (n d : Nat) : Nat :=
  let q := n / d
  let r := n % d
  if 2 * r < d then q
  else if d < 2 * r then q + 1
  else match tie with
    | .toEven => q + q % 2
    | .away => q + 1

/-- Rounding moves a quotient to one of its two neighbours. -/
theorem roundDiv_bounds (tie : Tie) (n d : Nat) :
    n / d ≤ roundDiv tie n d ∧ roundDiv tie n d ≤ n / d + 1 := by
  unfold roundDiv
  dsimp only
  split
  · omega
  · split
    · omega
    · cases tie <;> (dsimp only; omega)

end MatlabQuality.Number
