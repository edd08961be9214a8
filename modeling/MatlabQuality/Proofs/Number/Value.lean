import MatlabQuality.Proofs.Number.Rounding

/-!
# The values of binary64 numbers

A finite number denotes a rational.  An operation on finite numbers denotes its exact result up to
a relative error of `2 ^ (-53)`, as long as that result is zero or in the normal range, and denotes
it exactly where the result is a small whole number.

## Main definitions

* `Binary64.Denotes` — the exact value of a finite number.
* `Binary64.Rounds` — a finite number whose value is a rational, rounded once.
* `InNormalRange` — zero, and the rationals that are rounded with a relative error.

## Main statements

* `Binary64.denotes_ofNat`, `Binary64.denotes_sub` — conversions and differences that are exact.
* `Binary64.rounds_ofNat`, `rounds_sub`, `rounds_mul`, `rounds_div` — the operations.
* `Binary64.denotes_max`, `Binary64.toNat_round` — the larger number and the nearest whole number.
-/

namespace MatlabQuality.Number

-- The two powers of two are too large to be computed in passing.
attribute [local irreducible] unitsPerOne unitsOfInfinity

/-- Zero, and the rationals between the least and the greatest powers of two that are normal
numbers. -/
def InNormalRange (q : ℚ) : Prop :=
  q = 0 ∨ 1 / 2 ^ 1022 ≤ |q| ∧ |q| ≤ 2 ^ 1023

/-- Positive rationals of moderate size are in the normal range. -/
theorem inNormalRange_of_bounds {q : ℚ} (hlow : 1 / 2 ^ 100 ≤ q) (hhigh : q ≤ 2 ^ 100) :
    InNormalRange q := by
  have hpos : 0 < q := lt_of_lt_of_le (by positivity) hlow
  rw [InNormalRange, abs_of_pos hpos]
  refine .inr ⟨le_trans ?_ hlow, hhigh.trans ?_⟩
  · exact one_div_le_one_div_of_le (by positivity) (pow_le_pow_right₀ (by norm_num) (by norm_num))
  · exact pow_le_pow_right₀ (by norm_num) (by norm_num)

namespace Binary64

/-! ## Values -/

/-- The factor that a sign stands for. -/
def signFactor (negative : Bool) : ℚ :=
  if negative then -1 else 1

/-- A finite number and its exact value. -/
def Denotes (x : Binary64) (q : ℚ) : Prop :=
  ∃ negative a, x = .finite negative a ∧ q = signFactor negative * (a.units / unitsPerOne)

/-- A finite number whose value is `q` up to the error of one rounding. -/
def Rounds (x : Binary64) (q : ℚ) : Prop :=
  ∃ r, x.Denotes r ∧ |r - q| ≤ |q| / 2 ^ 53

@[simp] theorem signFactor_false : signFactor false = 1 := rfl

@[simp] theorem signFactor_true : signFactor true = -1 := rfl

theorem abs_signFactor (negative : Bool) : |signFactor negative| = 1 := by
  cases negative <;> simp

theorem signFactor_bne (s t : Bool) : signFactor (s != t) = signFactor s * signFactor t := by
  cases s <;> cases t <;> simp

theorem cast_signedUnits (negative : Bool) (a : Magnitude) :
    (signedUnits negative a : ℚ) = signFactor negative * a.units := by
  cases negative <;> simp [signedUnits]

theorem cast_unitsPerOne_pos : (0 : ℚ) < unitsPerOne := by
  exact_mod_cast unitsPerOne_pos

/-- The least normal number has 53 bits. -/
theorem leastNormal_mul_unitsPerOne : 1 / 2 ^ 1022 * (unitsPerOne : ℚ) = 2 ^ 52 := by
  have hsplit : unitsPerOne = 2 ^ 52 * 2 ^ 1022 := by
    rw [unitsPerOne_eq, unitExponent_eq, ← pow_add]
  have hne : (2 : ℚ) ^ 1022 ≠ 0 := pow_ne_zero _ two_ne_zero
  rw [hsplit, Nat.cast_mul, Nat.cast_pow, Nat.cast_pow, Nat.cast_ofNat, mul_left_comm, one_div,
    inv_mul_cancel₀ hne, mul_one]

theorem cast_unitsOfInfinity : (unitsOfInfinity : ℚ) = 2 * (2 ^ 1023 * unitsPerOne) := by
  have hsplit : unitsOfInfinity = 2 * (2 ^ 1023 * unitsPerOne) := by
    rw [unitsOfInfinity_eq, unitsPerOne_eq, unitExponent_eq, infinityExponent_eq, ← pow_add,
      ← pow_succ']
  rw [hsplit, Nat.cast_mul, Nat.cast_mul, Nat.cast_pow, Nat.cast_ofNat]

/-! ## Rounding to a number -/

/-- A size up to half of the first infinite one is not rounded to an infinite one. -/
theorem roundUnits_lt_of_le {n d : ℕ} (hd : 0 < d) (hlow : 2 ^ 52 ≤ n / d ∨ d ∣ n)
    (hhigh : 2 * ((n : ℚ) / d) ≤ unitsOfInfinity) : roundUnits n d < unitsOfInfinity := by
  have herror := (abs_le.1 (roundUnits_error hd hlow)).2
  have hinfinity : (0 : ℚ) < unitsOfInfinity := by exact_mod_cast unitsOfInfinity_pos
  have hlt : (roundUnits n d : ℚ) < unitsOfInfinity := by linarith
  exact_mod_cast hlt

/-- A rounded size that is small enough is the size of a number. -/
theorem denotes_ofUnits (negative : Bool) {n d : ℕ} (h : roundUnits n d < unitsOfInfinity) :
    (ofUnits negative n d).Denotes (signFactor negative * (roundUnits n d / unitsPerOne)) := by
  have hnearest : Magnitude.nearest? n d = some ⟨roundUnits n d, h, roundUnits_mod_spacing n d⟩ :=
    dif_pos h
  delta ofUnits
  rw [hnearest]
  exact ⟨negative, _, rfl, rfl⟩

/-- **A size in the normal range, or a whole number of units, is rounded once.** -/
theorem rounds_ofUnits (negative : Bool) {n d : ℕ} (hd : 0 < d)
    (hlow : 2 ^ 52 ≤ n / d ∨ d ∣ n) (hhigh : 2 * ((n : ℚ) / d) ≤ unitsOfInfinity) :
    (ofUnits negative n d).Rounds (signFactor negative * (n / d / unitsPerOne)) := by
  have hU := cast_unitsPerOne_pos
  refine ⟨_, denotes_ofUnits negative (roundUnits_lt_of_le hd hlow hhigh), ?_⟩
  have hnonneg : (0 : ℚ) ≤ n / d := by positivity
  rw [← mul_sub, abs_mul, abs_mul, abs_signFactor, one_mul, one_mul, ← sub_div, abs_div, abs_div,
    abs_of_pos hU, abs_of_nonneg hnonneg, div_right_comm]
  exact div_le_div_of_nonneg_right (roundUnits_error hd hlow) hU.le

/-- **The normal range is rounded once.** -/
theorem rounds_ofUnits_of_inNormalRange (negative : Bool) {n d : ℕ} (hd : 0 < d)
    (h : InNormalRange ((n : ℚ) / d / unitsPerOne)) :
    (ofUnits negative n d).Rounds (signFactor negative * (n / d / unitsPerOne)) := by
  have hU := cast_unitsPerOne_pos
  have hd' : (0 : ℚ) < d := by exact_mod_cast hd
  have hnonneg : (0 : ℚ) ≤ n / d := by positivity
  rcases h with hzero | ⟨hlow, hhigh⟩
  · have hn : n = 0 := by
      rcases div_eq_zero_iff.1 hzero with h | h
      · rcases div_eq_zero_iff.1 h with h | h
        · exact_mod_cast h
        · exact absurd h hd'.ne'
      · exact absurd h hU.ne'
    subst hn
    exact rounds_ofUnits negative hd (.inr (dvd_zero d)) (by simp)
  · rw [abs_of_nonneg (div_nonneg hnonneg hU.le)] at hlow hhigh
    refine rounds_ofUnits negative hd (.inl ?_) ?_
    · rw [le_div_iff₀ hU, leastNormal_mul_unitsPerOne, le_div_iff₀ hd'] at hlow
      rw [Nat.le_div_iff_mul_le hd]
      exact_mod_cast hlow
    · rw [div_le_iff₀ hU] at hhigh
      rw [cast_unitsOfInfinity]
      exact mul_le_mul_of_nonneg_left hhigh zero_le_two

/-- Small whole numbers are not rounded. -/
theorem denotes_ofUnits_of_lt (negative : Bool) {k : ℕ} (h : k < 2 ^ 53) :
    (ofUnits negative (k * unitsPerOne) 1).Denotes (signFactor negative * k) := by
  have hround : roundUnits (k * unitsPerOne) 1 = k * unitsPerOne := by
    have hkept := roundUnits_eq_of_mod_spacing (mod_spacing_of_lt h) Nat.one_pos
    rwa [Nat.mul_one] at hkept
  have hbound : 2 ^ 53 * unitsPerOne < unitsOfInfinity := mul_unitsPerOne_lt (by decide)
  have hlt : roundUnits (k * unitsPerOne) 1 < unitsOfInfinity := by
    rw [hround]
    exact (Nat.mul_lt_mul_of_pos_right h unitsPerOne_pos).trans hbound
  have hdenotes := denotes_ofUnits negative hlt
  rwa [hround, Nat.cast_mul, mul_div_cancel_right₀ _ cast_unitsPerOne_pos.ne'] at hdenotes

/-! ## Conversion -/

theorem denotes_ofNat {n : ℕ} (h : n < 2 ^ 53) : (ofNat n).Denotes n := by
  have hn := denotes_ofUnits_of_lt false h
  rwa [signFactor_false, one_mul] at hn

theorem rounds_ofNat {n : ℕ} (h : InNormalRange n) : (ofNat n).Rounds n := by
  have heq : (n : ℚ) = ((n * unitsPerOne : ℕ) : ℚ) / (1 : ℕ) / unitsPerOne := by
    rw [Nat.cast_one, div_one, Nat.cast_mul, mul_div_cancel_right₀ _ cast_unitsPerOne_pos.ne']
  have hrounds := rounds_ofUnits_of_inNormalRange false Nat.one_pos (heq ▸ h)
  rwa [← heq, signFactor_false, one_mul] at hrounds

/-! ## Products and quotients -/

section Operations

variable {x y : Binary64} {p q : ℚ}

theorem inNormalRange_signFactor_mul (negative : Bool) :
    InNormalRange (signFactor negative * q) ↔ InNormalRange q := by
  cases negative <;> simp [InNormalRange]

/-- **A product in the normal range is rounded once.** -/
theorem rounds_mul (hx : x.Denotes p) (hy : y.Denotes q) (h : InNormalRange (p * q)) :
    (x.mul y).Rounds (p * q) := by
  obtain ⟨s, a, rfl, rfl⟩ := hx
  obtain ⟨t, b, rfl, rfl⟩ := hy
  have heq : signFactor s * (a.units / unitsPerOne) * (signFactor t * (b.units / unitsPerOne)) =
      signFactor (s != t) * ((a.units * b.units : ℕ) / unitsPerOne / unitsPerOne) := by
    rw [signFactor_bne]
    push_cast
    ring
  rw [heq] at h ⊢
  exact rounds_ofUnits_of_inNormalRange _ unitsPerOne_pos
    ((inNormalRange_signFactor_mul _).1 h)

theorem signFactor_div (s t : Bool) :
    signFactor s / signFactor t = signFactor s * signFactor t := by
  cases s <;> cases t <;> norm_num

theorem div_finite {s t : Bool} {a b : Magnitude} (hb : b.units ≠ 0) :
    (finite s a).div (finite t b) = ofUnits (s != t) (a.units * unitsPerOne) b.units :=
  if_neg hb

/-- **A quotient in the normal range is rounded once.** -/
theorem rounds_div (hx : x.Denotes p) (hy : y.Denotes q) (hq : q ≠ 0)
    (h : InNormalRange (p / q)) : (x.div y).Rounds (p / q) := by
  obtain ⟨s, a, rfl, rfl⟩ := hx
  obtain ⟨t, b, rfl, rfl⟩ := hy
  have hU := cast_unitsPerOne_pos.ne'
  have hb : b.units ≠ 0 := by
    rintro hb
    simp [hb] at hq
  have hb' : (b.units : ℚ) ≠ 0 := by exact_mod_cast hb
  have heq : signFactor s * (a.units / unitsPerOne) / (signFactor t * (b.units / unitsPerOne)) =
      signFactor (s != t) * ((a.units * unitsPerOne : ℕ) / b.units / unitsPerOne) := by
    rw [signFactor_bne, mul_div_mul_comm, signFactor_div]
    push_cast
    field_simp
  rw [heq] at h ⊢
  rw [div_finite hb]
  exact rounds_ofUnits_of_inNormalRange _ (Nat.pos_of_ne_zero hb)
    ((inNormalRange_signFactor_mul _).1 h)

/-! ## Differences -/

theorem signFactor_mul_natAbs (d : ℤ) : signFactor (d < 0) * (d.natAbs : ℚ) = d := by
  by_cases h : d < 0
  · rw [Nat.cast_natAbs, abs_of_neg h]
    simp [signFactor, h]
  · rw [Nat.cast_natAbs, abs_of_nonneg (not_lt.1 h)]
    simp [signFactor, h]

/-- Finite numbers differ by a whole number of units. -/
theorem exists_sub_eq (hx : x.Denotes p) (hy : y.Denotes q) :
    ∃ d : ℤ, p - q = d / unitsPerOne ∧
      (d = 0 ∧ (∃ negative, x.sub y = zero negative) ∨
        d ≠ 0 ∧ x.sub y = ofUnits (d < 0) d.natAbs 1) := by
  obtain ⟨s, a, rfl, rfl⟩ := hx
  obtain ⟨t, b, rfl, rfl⟩ := hy
  refine ⟨signedUnits s a - signedUnits t b, ?_, ?_⟩
  · rw [Int.cast_sub, cast_signedUnits, cast_signedUnits]
    ring
  · by_cases hd : signedUnits s a - signedUnits t b = 0
    · exact .inl ⟨hd, _, if_pos hd⟩
    · exact .inr ⟨hd, if_neg hd⟩

theorem denotes_zero (negative : Bool) : (zero negative).Denotes 0 :=
  ⟨negative, .zero, rfl, by simp [Magnitude.zero]⟩

/-- **A difference is rounded once.**  It is a whole number of units, so it may be very small. -/
theorem rounds_sub (hx : x.Denotes p) (hy : y.Denotes q) (h : |p - q| ≤ 2 ^ 1023) :
    (x.sub y).Rounds (p - q) := by
  have hU := cast_unitsPerOne_pos
  obtain ⟨d, hd, ⟨rfl, negative, hzero⟩ | ⟨-, hsub⟩⟩ := exists_sub_eq hx hy
  · rw [Int.cast_zero, zero_div] at hd
    rw [hd, hzero]
    exact ⟨0, denotes_zero negative, by simp⟩
  · have heq : p - q = signFactor (d < 0) * ((d.natAbs : ℚ) / (1 : ℕ) / unitsPerOne) := by
      rw [hd, ← signFactor_mul_natAbs d, Nat.cast_one, div_one, mul_div_assoc]
    have hhigh : 2 * ((d.natAbs : ℚ) / (1 : ℕ)) ≤ unitsOfInfinity := by
      rw [hd, abs_div, abs_of_pos hU, div_le_iff₀ hU] at h
      rw [Nat.cast_one, div_one, cast_unitsOfInfinity, Nat.cast_natAbs, Int.cast_abs]
      exact mul_le_mul_of_nonneg_left h zero_le_two
    rw [hsub, heq]
    exact rounds_ofUnits _ Nat.one_pos (.inr (one_dvd _)) hhigh

/-- **A difference that is a small whole number is exact.** -/
theorem denotes_sub (hx : x.Denotes p) (hy : y.Denotes q) {m : ℤ} (h : p - q = m)
    (hm : |m| < 2 ^ 53) : (x.sub y).Denotes m := by
  have hU := cast_unitsPerOne_pos
  obtain ⟨d, hd, hsub⟩ := exists_sub_eq hx hy
  have hunits : d = m * unitsPerOne := by
    rw [h, eq_div_iff hU.ne'] at hd
    exact_mod_cast hd.symm
  rcases hsub with ⟨rfl, negative, hzero⟩ | ⟨-, hsub⟩
  · rw [← h, hd, Int.cast_zero, zero_div, hzero]
    exact denotes_zero negative
  · have habs : d.natAbs = m.natAbs * unitsPerOne := by
      rw [hunits, Int.natAbs_mul, Int.natAbs_natCast]
    have hsign : (d < 0) = (m < 0) := by
      have hpos : (0 : ℤ) < unitsPerOne := by exact_mod_cast unitsPerOne_pos
      rw [hunits]
      exact propext ⟨fun hneg => neg_of_mul_neg_left hneg hpos.le,
        fun hneg => mul_neg_of_neg_of_pos hneg hpos⟩
    have hlt : m.natAbs < 2 ^ 53 := by
      have hlt' : (m.natAbs : ℤ) < 2 ^ 53 := by rwa [Int.natCast_natAbs]
      exact_mod_cast hlt'
    have hdenotes := denotes_ofUnits_of_lt (m < 0) hlt
    rw [signFactor_mul_natAbs] at hdenotes
    rw [hsub, habs]
    simpa only [hsign] using hdenotes

/-! ## Order and whole numbers -/

theorem lt_eq_decide (hx : x.Denotes p) (hy : y.Denotes q) : x.lt y = decide (p < q) := by
  obtain ⟨s, a, rfl, rfl⟩ := hx
  obtain ⟨t, b, rfl, rfl⟩ := hy
  rw [← mul_div_assoc, ← mul_div_assoc, ← cast_signedUnits, ← cast_signedUnits]
  refine decide_eq_decide.2 ?_
  rw [div_lt_div_iff_of_pos_right cast_unitsPerOne_pos, Int.cast_lt]

theorem denotes_max (hx : x.Denotes p) (hy : y.Denotes q) : (x.max y).Denotes (p ⊔ q) := by
  rw [Binary64.max, lt_eq_decide hx hy]
  by_cases hpq : p < q
  · rw [if_pos (decide_eq_true hpq), sup_eq_right.2 hpq.le]
    exact hy
  · rw [if_neg (by simpa using hpq), sup_eq_left.2 (not_lt.1 hpq)]
    exact hx

/-- The whole part of a number that denotes a natural number. -/
theorem toNat_of_denotes {k : ℕ} (hx : x.Denotes k) : x.toNat = k := by
  have hU := cast_unitsPerOne_pos
  obtain ⟨s, a, rfl, hk⟩ := hx
  cases s with
  | false =>
    rw [signFactor_false, one_mul, eq_div_iff hU.ne'] at hk
    have hunits : k * unitsPerOne = a.units := by exact_mod_cast hk
    change a.units / unitsPerOne = k
    rw [← hunits, Nat.mul_div_cancel k unitsPerOne_pos]
  | true =>
    have hnonpos : (k : ℚ) ≤ 0 := by
      rw [hk, signFactor_true, neg_one_mul]
      exact neg_nonpos.2 (by positivity)
    have hzero : k ≤ 0 := by exact_mod_cast hnonpos
    exact (Nat.le_zero.1 hzero).symm

/-- **A number within less than half of a natural number is rounded to it.** -/
theorem toNat_round {k : ℕ} (hx : x.Denotes q) (hk : k < 2 ^ 53) (h : |q - k| < 1 / 2) :
    x.round.toNat = k := by
  obtain ⟨s, a, rfl, rfl⟩ := hx
  -- The size is rounded to the same natural number, which is zero for a negative number.
  have hsize : |(a.units : ℚ) / unitsPerOne - k| < 1 / 2 ∧ signFactor s * k = k := by
    cases s with
    | false =>
      rw [signFactor_false, one_mul] at h
      exact ⟨h, one_mul _⟩
    | true =>
      rw [signFactor_true, neg_one_mul] at h
      have hnonneg : (0 : ℚ) ≤ a.units / unitsPerOne := by positivity
      have hzero : k = 0 := by
        have hlt : (k : ℚ) < 1 := by linarith [(abs_lt.1 h).1]
        have hlt' : k < 1 := by exact_mod_cast hlt
        omega
      subst hzero
      rw [Nat.cast_zero, sub_zero, abs_neg] at h
      rw [Nat.cast_zero, sub_zero, mul_zero]
      exact ⟨h, rfl⟩
  have hround : roundDiv .away a.units unitsPerOne = k :=
    roundDiv_eq_of_abs_lt unitsPerOne_pos hsize.1
  have hdenotes := denotes_ofUnits_of_lt s hk
  rw [hsize.2, ← hround] at hdenotes
  rw [← hround]
  exact toNat_of_denotes hdenotes

end Operations

end Binary64

end MatlabQuality.Number
