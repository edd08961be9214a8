import Mathlib.Algebra.Order.Field.Basic
import Mathlib.Algebra.Order.Field.Rat
import Mathlib.Data.Nat.Cast.Order.Field
import Mathlib.Tactic.FieldSimp
import Mathlib.Tactic.Linarith
import Mathlib.Tactic.NormNum
import Mathlib.Tactic.Positivity
import Mathlib.Tactic.Ring
import MatlabQuality.Number.Binary64

/-!
# Rounding errors

A quotient is rounded by half a whole number at most, and a size by half the spacing of its
neighbours, which is a fixed share of it unless it is very small.  What needs no rounding is not
changed.

## Main statements

* `roundDiv_error`, `roundDiv_eq_of_abs_lt` — the nearest whole number.
* `roundUnits_error` — the relative error of a rounded size.
* `roundUnits_eq_of_mod_spacing` — a size that a number can have is kept.
* `mod_spacing_of_lt` — small whole numbers are such sizes.
-/

namespace MatlabQuality.Number

/-! ## Whole numbers -/

/-- Rounding moves a quotient by half of its divisor at most. -/
theorem roundDiv_mul_bounds (tie : Tie) (n : ℕ) {d : ℕ} (hd : 0 < d) :
    2 * (roundDiv tie n d * d) ≤ 2 * n + d ∧ 2 * n ≤ 2 * (roundDiv tie n d * d) + d := by
  have hn : n / d * d + n % d = n := Nat.div_add_mod' n d
  have hr : n % d < d := Nat.mod_lt n hd
  have hsucc : (n / d + 1) * d = n / d * d + d := Nat.succ_mul _ _
  have heven : (n / d + n / d % 2) * d = n / d * d ∨ (n / d + n / d % 2) * d = n / d * d + d := by
    rcases Nat.mod_two_eq_zero_or_one (n / d) with h | h
    · exact .inl (by rw [h, Nat.add_zero])
    · exact .inr (by rw [h, hsucc])
  simp only [roundDiv]
  split
  · omega
  · split
    · omega
    · cases tie with
      | toEven => dsimp only; omega
      | away => dsimp only; omega

/-- **A quotient is rounded by half at most.** -/
theorem roundDiv_error (tie : Tie) (n : ℕ) {d : ℕ} (hd : 0 < d) :
    |(roundDiv tie n d : ℚ) - n / d| ≤ 1 / 2 := by
  obtain ⟨hup, hdown⟩ := roundDiv_mul_bounds tie n hd
  have hd' : (0 : ℚ) < d := by exact_mod_cast hd
  have hup' : 2 * ((roundDiv tie n d : ℚ) * d) ≤ 2 * n + d := by exact_mod_cast hup
  have hdown' : (2 : ℚ) * n ≤ 2 * (roundDiv tie n d * d) + d := by exact_mod_cast hdown
  have hmul : ((roundDiv tie n d : ℚ) - n / d) * d = roundDiv tie n d * d - n := by
    field_simp
  rw [abs_le]
  constructor
  · refine le_of_mul_le_mul_right ?_ hd'
    rw [hmul]
    linarith
  · refine le_of_mul_le_mul_right ?_ hd'
    rw [hmul]
    linarith

/-- A whole number within less than half of a quotient is the one it is rounded to. -/
theorem roundDiv_eq_of_abs_lt {tie : Tie} {n d k : ℕ} (hd : 0 < d)
    (h : |(n : ℚ) / d - k| < 1 / 2) : roundDiv tie n d = k := by
  have herror := abs_le.1 (roundDiv_error tie n hd)
  have hk := abs_lt.1 h
  have hlt : (roundDiv tie n d : ℚ) < k + 1 := by linarith
  have hgt : (k : ℚ) < roundDiv tie n d + 1 := by linarith
  have hlt' : roundDiv tie n d < k + 1 := by exact_mod_cast hlt
  have hgt' : k < roundDiv tie n d + 1 := by exact_mod_cast hgt
  omega

/-- A quotient without a remainder is not rounded. -/
theorem roundDiv_mul_right (tie : Tie) (k : ℕ) {d : ℕ} (hd : 0 < d) :
    roundDiv tie (k * d) d = k := by
  refine roundDiv_eq_of_abs_lt hd ?_
  have hd' : (d : ℚ) ≠ 0 := by exact_mod_cast hd.ne'
  rw [Nat.cast_mul, mul_div_cancel_right₀ _ hd']
  norm_num

/-! ## Sizes -/

/-- The spacing is a share of `2 ^ (-52)` of a size, unless the size is very small. -/
theorem spacing_mul_le {n : ℕ} (h : 2 ^ 52 ≤ n) : spacing n * 2 ^ 52 ≤ n := by
  have hne : n ≠ 0 := by
    rintro rfl
    norm_num at h
  have hlog : 52 ≤ n.log2 := (Nat.le_log2 hne).2 h
  calc spacing n * 2 ^ 52 = 2 ^ (n.log2 - 52 + 52) := (pow_add 2 _ _).symm
    _ = 2 ^ n.log2 := by rw [Nat.sub_add_cancel hlog]
    _ ≤ n := Nat.log2_self_le hne

/-- The error of a rounded size that is not very small. -/
theorem roundUnits_error_of_le {n d : ℕ} (hd : 0 < d) (h : 2 ^ 52 ≤ n / d) :
    |(roundUnits n d : ℚ) - n / d| ≤ (n : ℚ) / d / 2 ^ 53 := by
  have hstep : 0 < spacing (n / d) := spacing_pos _
  have hd' : (0 : ℚ) < d := by exact_mod_cast hd
  have hstep' : (0 : ℚ) < spacing (n / d) := by exact_mod_cast hstep
  have hshare : (spacing (n / d) : ℚ) * 2 ^ 52 ≤ n / d := by
    have hle : ((spacing (n / d) * 2 ^ 52 : ℕ) : ℚ) ≤ (n / d : ℕ) := by
      exact_mod_cast spacing_mul_le h
    push_cast at hle
    exact hle.trans Nat.cast_div_le
  have herror := roundDiv_error .toEven n (Nat.mul_pos hd hstep)
  -- The rounded size is the rounded number of steps, times the step.
  have hscaled : (roundUnits n d : ℚ) - n / d =
      (roundDiv .toEven n (d * spacing (n / d)) - n / (d * spacing (n / d) : ℕ)) *
        spacing (n / d) := by
    rw [roundUnits]
    push_cast
    field_simp
  rw [hscaled, abs_mul, abs_of_pos hstep']
  calc _ ≤ 1 / 2 * (spacing (n / d) : ℚ) := mul_le_mul_of_nonneg_right herror hstep'.le
    _ = spacing (n / d) * 2 ^ 52 / 2 ^ 53 := by ring
    _ ≤ (n : ℚ) / d / 2 ^ 53 := by gcongr

/-- **A size that a number can have is kept.** -/
theorem roundUnits_eq_of_mod_spacing {k : ℕ} (h : k % spacing k = 0) {d : ℕ} (hd : 0 < d) :
    roundUnits (k * d) d = k := by
  obtain ⟨j, hj⟩ := Nat.dvd_of_mod_eq_zero h
  have hdiv : k * d / d = k := Nat.mul_div_cancel k hd
  have hsteps : k * d = j * (d * spacing k) := by
    conv_lhs => rw [hj]
    ring
  rw [roundUnits, hdiv, hsteps, roundDiv_mul_right .toEven j (Nat.mul_pos hd (spacing_pos k)),
    Nat.mul_comm, ← hj]

/-- **The relative error of a rounded size** is `2 ^ (-53)`, unless the size is very small and not
a whole number of units. -/
theorem roundUnits_error {n d : ℕ} (hd : 0 < d) (h : 2 ^ 52 ≤ n / d ∨ d ∣ n) :
    |(roundUnits n d : ℚ) - n / d| ≤ (n : ℚ) / d / 2 ^ 53 := by
  by_cases hnormal : 2 ^ 52 ≤ n / d
  · exact roundUnits_error_of_le hd hnormal
  · obtain ⟨k, rfl⟩ : d ∣ n := h.resolve_left hnormal
    rw [Nat.mul_div_cancel_left k hd] at hnormal
    have hk : k % spacing k = 0 := mod_spacing_of_le (by rw [Nat.pow_eq]; omega)
    have hd' : (d : ℚ) ≠ 0 := by exact_mod_cast hd.ne'
    rw [Nat.mul_comm, roundUnits_eq_of_mod_spacing hk hd, Nat.cast_mul,
      mul_div_cancel_right₀ _ hd', sub_self, abs_zero]
    positivity

/-- A number of at most 53 significant bits is such a size, however it is scaled. -/
theorem mod_spacing_mul_two_pow {k : ℕ} (h : k < 2 ^ 53) (e : ℕ) :
    k * 2 ^ e % spacing (k * 2 ^ e) = 0 := by
  by_cases hk : k = 0
  · rw [hk, Nat.zero_mul, Nat.zero_mod]
  · have hne : k * 2 ^ e ≠ 0 := Nat.mul_ne_zero hk (Nat.two_pow_pos e).ne'
    have hlt : k * 2 ^ e < 2 ^ (53 + e) := by
      rw [pow_add]
      exact Nat.mul_lt_mul_of_pos_right h (Nat.two_pow_pos e)
    have hlog : (k * 2 ^ e).log2 < 53 + e := (Nat.log2_lt hne).2 hlt
    have hdvd : spacing (k * 2 ^ e) ∣ 2 ^ e := Nat.pow_dvd_pow 2 (by omega)
    exact Nat.mod_eq_zero_of_dvd (hdvd.trans (Nat.dvd_mul_left _ _))

/-! ## Units -/

theorem unitExponent_eq : unitExponent = 1074 := by
  rw [unitExponent]

theorem infinityExponent_eq : infinityExponent = 2098 := by
  rw [infinityExponent]

theorem unitsPerOne_eq : unitsPerOne = 2 ^ unitExponent :=
  Nat.pow_eq

theorem unitsOfInfinity_eq : unitsOfInfinity = 2 ^ infinityExponent :=
  Nat.pow_eq

theorem unitsPerOne_pos : 0 < unitsPerOne :=
  Nat.two_pow_pos unitExponent

/-- One, as a multiple of a smaller power of two. -/
theorem two_pow_mul_eq_unitsPerOne {k : ℕ} (h : k ≤ unitExponent) :
    2 ^ k * 2 ^ (unitExponent - k) = unitsPerOne := by
  rw [unitsPerOne_eq, pow_mul_pow_sub 2 h]

/-- Whole numbers of moderate size are far from being infinite. -/
theorem mul_unitsPerOne_lt {n : ℕ} (h : n ≤ 2 ^ 200) : n * unitsPerOne < unitsOfInfinity := by
  have hexponent : 200 + unitExponent < infinityExponent := by
    rw [unitExponent_eq, infinityExponent_eq]
    decide
  calc n * unitsPerOne ≤ 2 ^ 200 * unitsPerOne := Nat.mul_le_mul_right _ h
    _ = 2 ^ (200 + unitExponent) := by rw [unitsPerOne_eq, pow_add]
    _ < 2 ^ infinityExponent := Nat.pow_lt_pow_right (by decide) hexponent
    _ = unitsOfInfinity := unitsOfInfinity_eq.symm

/-- Whole numbers below `2 ^ 53` are sizes that a number can have. -/
theorem mod_spacing_of_lt {k : ℕ} (h : k < 2 ^ 53) :
    k * unitsPerOne % spacing (k * unitsPerOne) = 0 := by
  rw [unitsPerOne_eq]
  exact mod_spacing_mul_two_pow h unitExponent

end MatlabQuality.Number
