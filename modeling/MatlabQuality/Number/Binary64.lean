import MatlabQuality.Number.Rounding

/-!
# Binary64 numbers

Every finite binary64 number is a whole multiple of `2 ^ (-1074)`, so its size is held as that
multiple.  The sizes that occur are the ones with at most 53 significant bits below `2 ^ 2098`.
An operation computes its exact rational result and rounds it once, to the nearest size, ties to
the one with an even last bit.

## Main definitions

* `Magnitude` — the size of a finite number, in units of `2 ^ (-1074)`.
* `Binary64` — a signed size, an infinity, or not a number.
* `Binary64.ofRatio` — the number nearest to a rational.
* `Binary64.mul`, `div`, `sub`, `neg`, `max`, `round` — the operations, each rounded once.
* `Binary64.lt`, `Binary64.le` — the order, in which not-a-number takes no part.
-/

namespace MatlabQuality.Number

/-! ## Sizes -/

/-- The distance between neighbouring sizes at `n` units: one unit up to `2 ^ 53`, then a power
of two that leaves 53 significant bits. -/
def spacing (n : Nat) : Nat :=
  Nat.pow 2 (n.log2 - 52)

/-- One is this power of two, in units. -/
@[irreducible]
def unitExponent : Nat := 1074

/-- One, in units. -/
def unitsPerOne : Nat :=
  Nat.pow 2 unitExponent

/-- The first size that is too large to be finite is this power of two, in units. -/
@[irreducible]
def infinityExponent : Nat := 2098

/-- The first size, in units, that is too large to be finite. -/
def unitsOfInfinity : Nat :=
  Nat.pow 2 infinityExponent

/-- The sizes of finite numbers, in units. -/
def Representable (units : Nat) : Prop :=
  units < unitsOfInfinity ∧ units % spacing units = 0

instance (units : Nat) : Decidable (Representable units) :=
  inferInstanceAs (Decidable (_ ∧ _))

/-- The size nearest to `n / d` units, ties to the even last bit, without a bound on its size. -/
def roundUnits (n d : Nat) : Nat :=
  let step := spacing (n / d)
  roundDiv .toEven n (d * step) * step

theorem spacing_pos (n : Nat) : 0 < spacing n :=
  Nat.two_pow_pos _

theorem unitsOfInfinity_pos : 0 < unitsOfInfinity :=
  Nat.two_pow_pos infinityExponent

/-- Sizes up to `2 ^ 53` units have no more than 53 significant bits. -/
theorem mod_spacing_of_le {q : Nat} (h : q ≤ Nat.pow 2 53) : q % spacing q = 0 := by
  change q % 2 ^ (q.log2 - 52) = 0
  by_cases hq : q = 2 ^ 53
  · subst hq; decide
  · have hlt : q < 2 ^ 53 := Nat.lt_of_le_of_ne h hq
    have hlog : q.log2 ≤ 52 := by
      by_cases h0 : q = 0
      · subst h0; decide
      · have := (Nat.log2_lt h0).2 hlt
        omega
    rw [Nat.sub_eq_zero_of_le hlog, Nat.pow_zero]
    exact Nat.mod_one q

/-- A rounded size has at most 53 significant bits. -/
theorem roundUnits_mod_spacing (n d : Nat) : roundUnits n d % spacing (roundUnits n d) = 0 := by
  unfold roundUnits
  dsimp only
  generalize hf : n / d = f
  have hb := roundDiv_bounds .toEven n (d * spacing f)
  rw [← Nat.div_div_eq_div_mul, hf] at hb
  generalize roundDiv Tie.toEven n (d * spacing f) = q at hb ⊢
  by_cases hsmall : f < 2 ^ 53
  · have hstep : spacing f = 1 := by
      change 2 ^ (f.log2 - 52) = 1
      by_cases h0 : f = 0
      · subst h0; decide
      · have := (Nat.log2_lt h0).2 hsmall
        rw [Nat.sub_eq_zero_of_le (by omega : f.log2 ≤ 52), Nat.pow_zero]
    rw [hstep] at hb ⊢
    rw [Nat.div_one] at hb
    rw [Nat.mul_one]
    exact mod_spacing_of_le (Nat.le_trans hb.2 hsmall)
  · have hf0 : f ≠ 0 := by
      intro h; subst h; exact hsmall (by decide)
    have hk : 53 ≤ f.log2 := (Nat.le_log2 hf0).2 (by omega)
    have hlow : 2 ^ f.log2 ≤ f := (Nat.le_log2 hf0).1 (Nat.le_refl _)
    have hhigh : f < 2 ^ (f.log2 + 1) := (Nat.log2_lt hf0).1 (Nat.lt_succ_self _)
    have hsp : spacing f = 2 ^ (f.log2 - 52) := rfl
    generalize hkk : f.log2 = k at hk hlow hhigh hsp
    have hpow : 2 ^ k = 2 ^ 52 * 2 ^ (k - 52) := by
      rw [← Nat.pow_add]; congr 1; omega
    have hpow1 : 2 ^ (k + 1) = 2 ^ 53 * 2 ^ (k - 52) := by
      rw [← Nat.pow_add]; congr 1; omega
    have hspos : 0 < 2 ^ (k - 52) := Nat.two_pow_pos _
    have hqlow : 2 ^ 52 ≤ q := by
      refine Nat.le_trans ?_ hb.1
      rw [hsp, Nat.le_div_iff_mul_le hspos, ← hpow]
      exact hlow
    have hqhigh : q ≤ 2 ^ 53 := by
      have : f / spacing f < 2 ^ 53 := by
        rw [hsp, Nat.div_lt_iff_lt_mul hspos, ← hpow1]
        exact hhigh
      omega
    rw [hsp]
    by_cases hq : q = 2 ^ 53
    · subst hq
      have hval : 2 ^ 53 * 2 ^ (k - 52) = 2 ^ (k + 1) := hpow1.symm
      rw [hval]
      change 2 ^ (k + 1) % 2 ^ ((2 ^ (k + 1)).log2 - 52) = 0
      rw [Nat.log2_two_pow]
      exact Nat.mod_eq_zero_of_dvd (Nat.pow_dvd_pow 2 (by omega))
    · have hqlt : q < 2 ^ 53 := Nat.lt_of_le_of_ne hqhigh hq
      have hne : q * 2 ^ (k - 52) ≠ 0 :=
        Nat.ne_of_gt (Nat.mul_pos (Nat.lt_of_lt_of_le (by decide) hqlow) hspos)
      have hlog : (q * 2 ^ (k - 52)).log2 = k := by
        apply Nat.le_antisymm
        · apply Nat.le_of_lt_succ
          refine (Nat.log2_lt hne).2 ?_
          rw [hpow1]
          exact Nat.mul_lt_mul_of_pos_right hqlt hspos
        · refine (Nat.le_log2 hne).2 ?_
          rw [hpow]
          exact Nat.mul_le_mul_right _ hqlow
      change q * 2 ^ (k - 52) % 2 ^ ((q * 2 ^ (k - 52)).log2 - 52) = 0
      rw [hlog]
      exact Nat.mul_mod_left _ _

/-- The size of a finite number. -/
structure Magnitude where
  /-- The size as a multiple of `2 ^ (-1074)`. -/
  units : Nat
  /-- At most 53 significant bits, and below the first infinite size. -/
  representable : Representable units
deriving DecidableEq

/-- The size nearest to `n / d` units, unless that is too large to be finite. -/
def Magnitude.nearest? (n d : Nat) : Option Magnitude :=
  if h : roundUnits n d < unitsOfInfinity then
    some ⟨roundUnits n d, h, roundUnits_mod_spacing n d⟩
  else none

/-- The size of zero. -/
def Magnitude.zero : Magnitude :=
  ⟨0, unitsOfInfinity_pos, Nat.zero_mod _⟩

/-! ## Numbers -/

/-- A binary64 number.  All not-a-number patterns are one value. -/
inductive Binary64 where
  /-- A finite number; zero has both signs. -/
  | finite (negative : Bool) (size : Magnitude)
  /-- An infinity. -/
  | infinite (negative : Bool)
  /-- Not a number. -/
  | nan
deriving DecidableEq

namespace Binary64

/-- The number nearest to `± n / d` units; too large a size becomes an infinity. -/
def ofUnits (negative : Bool) (n d : Nat) : Binary64 :=
  match Magnitude.nearest? n d with
  | some size => .finite negative size
  | none => .infinite negative

/-- The number nearest to `± n / d`. -/
def ofRatio (negative : Bool) (n d : Nat) : Binary64 :=
  ofUnits negative (n * unitsPerOne) d

/-- The number nearest to a natural number. -/
def ofNat (n : Nat) : Binary64 :=
  ofRatio false n 1

instance (n : Nat) : OfNat Binary64 n :=
  ⟨ofNat n⟩

/-- Zero with a sign. -/
def zero (negative : Bool) : Binary64 :=
  .finite negative .zero

/-- Whether a number is neither an infinity nor not-a-number. -/
def isFinite : Binary64 → Bool
  | .finite _ _ => true
  | _ => false

/-- The same size with the other sign. -/
def neg : Binary64 → Binary64
  | .finite s a => .finite (!s) a
  | .infinite s => .infinite (!s)
  | .nan => .nan

/-- The product, rounded once. -/
def mul : Binary64 → Binary64 → Binary64
  | .nan, _ => .nan
  | _, .nan => .nan
  | .infinite s, .infinite t => .infinite (s != t)
  | .infinite s, .finite t b => if b.units = 0 then .nan else .infinite (s != t)
  | .finite s a, .infinite t => if a.units = 0 then .nan else .infinite (s != t)
  | .finite s a, .finite t b => ofUnits (s != t) (a.units * b.units) unitsPerOne

/-- The quotient, rounded once. -/
def div : Binary64 → Binary64 → Binary64
  | .nan, _ => .nan
  | _, .nan => .nan
  | .infinite _, .infinite _ => .nan
  | .infinite s, .finite t _ => .infinite (s != t)
  | .finite s _, .infinite t => zero (s != t)
  | .finite s a, .finite t b =>
    if b.units = 0 then
      if a.units = 0 then .nan else .infinite (s != t)
    else ofUnits (s != t) (a.units * unitsPerOne) b.units

/-- A finite number as a signed multiple of the unit. -/
def signedUnits (negative : Bool) (a : Magnitude) : Int :=
  if negative then -(a.units : Int) else a.units

/-- The difference, rounded once.  Equal numbers differ by a zero without a sign, except that a
negative zero less a positive one stays negative. -/
def sub : Binary64 → Binary64 → Binary64
  | .nan, _ => .nan
  | _, .nan => .nan
  | .infinite s, .infinite t => if s = t then .nan else .infinite s
  | .infinite s, .finite _ _ => .infinite s
  | .finite _ _, .infinite t => .infinite (!t)
  | .finite s a, .finite t b =>
    let d := signedUnits s a - signedUnits t b
    if d = 0 then zero (s && !t && a.units == 0) else ofUnits (d < 0) d.natAbs 1

/-- Strictly smaller; false when either side is not a number. -/
def lt : Binary64 → Binary64 → Bool
  | .nan, _ => false
  | _, .nan => false
  | .infinite s, .infinite t => s && !t
  | .infinite s, .finite _ _ => s
  | .finite _ _, .infinite t => !t
  | .finite s a, .finite t b => signedUnits s a < signedUnits t b

/-- Smaller or equal; false when either side is not a number. -/
def le : Binary64 → Binary64 → Bool
  | .nan, _ => false
  | _, .nan => false
  | .infinite s, .infinite t => s || !t
  | .infinite s, .finite _ _ => s
  | .finite _ _, .infinite t => !t
  | .finite s a, .finite t b => signedUnits s a ≤ signedUnits t b

/-- The larger of two numbers. -/
def max (x y : Binary64) : Binary64 :=
  if lt x y then y else x

/-- The nearest whole number, halves away from zero. -/
def round : Binary64 → Binary64
  | .finite s a => ofRatio s (roundDiv .away a.units unitsPerOne) 1
  | x => x

/-- The whole part of a number; zero for negative numbers and for not-a-number. -/
def toNat : Binary64 → Nat
  | .finite false a => a.units / unitsPerOne
  | _ => 0

/-- The number nearest to `± digits · 10 ^ exponent`.  An exponent that makes every result an
infinity, or every result zero, is settled without computing the power of ten. -/
def ofDecimal (negative : Bool) (digits : Nat) (exponent : Int) : Binary64 :=
  if digits = 0 then zero negative
  else if 0 ≤ exponent then
    if 309 < exponent then .infinite negative
    else ofRatio negative (digits * Nat.pow 10 exponent.toNat) 1
  else if (digits.log2 : Int) + 1 + 3 * exponent ≤ -1076 then zero negative
  else ofRatio negative digits (Nat.pow 10 (-exponent).toNat)

end Binary64

end MatlabQuality.Number
