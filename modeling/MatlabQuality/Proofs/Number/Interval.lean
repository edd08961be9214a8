import MatlabQuality.Proofs.Number.Order

/-!
# What rounds to a size

The quotients that round to a size are those between the points halfway to its neighbours, with
the halfway points where the last bit of the size is even.  Below a power of two the neighbour is
half as far away as above it.

## Main definitions

* `gapBelow` — the distance of a size to its lower neighbour.

## Main statements

* `roundDiv_toEven_eq_iff` — what rounds to a whole number.
* `roundUnits_eq_iff` — what rounds to a size.
-/

namespace MatlabQuality.Number

/-! ## Whole numbers -/

/-- **What rounds to a whole number.** -/
theorem roundDiv_toEven_eq_iff {n d q : ℕ} (hd : 0 < d) :
    roundDiv .toEven n d = q ↔
      2 * (q * d) ≤ 2 * n + d ∧ 2 * n ≤ 2 * (q * d) + d ∧
        (q % 2 = 1 → 2 * (q * d) ≠ 2 * n + d ∧ 2 * n ≠ 2 * (q * d) + d) := by
  have hn : n / d * d + n % d = n := Nat.div_add_mod' n d
  have hr : n % d < d := Nat.mod_lt n hd
  have hsucc : (n / d + 1) * d = n / d * d + d := Nat.succ_mul _ _
  by_cases hdown : q = n / d
  · subst hdown
    simp only [roundDiv]
    split
    · omega
    · split <;> omega
  · by_cases hup : q = n / d + 1
    · subst hup
      simp only [roundDiv]
      split
      · omega
      · split <;> omega
    · -- No other whole number is within half of the quotient.
      have hbounds := roundDiv_bounds .toEven n d
      refine ⟨fun h => by omega, fun h => ?_⟩
      rcases Nat.lt_or_gt_of_ne hdown with hlt | hgt
      · have hle : (q + 1) * d ≤ n / d * d := Nat.mul_le_mul_right d hlt
        rw [Nat.succ_mul] at hle
        omega
      · have hle : (n / d + 1 + 1) * d ≤ q * d := Nat.mul_le_mul_right d (by omega)
        rw [Nat.succ_mul] at hle
        omega

/-! ## Spacings -/

theorem spacing_of_lt_two_pow {f : ℕ} (h : f < 2 ^ 53) : spacing f = 1 := by
  have hlog : f.log2 ≤ 52 := by
    by_cases hzero : f = 0
    · rw [hzero]
      decide
    · have hlt := (Nat.log2_lt hzero).2 h
      omega
  rw [spacing, Nat.sub_eq_zero_of_le hlog]

theorem spacing_of_between {f e : ℕ} (hlow : 2 ^ e ≤ f) (hhigh : f < 2 ^ (e + 1)) :
    spacing f = 2 ^ (e - 52) := by
  have hne : f ≠ 0 := (lt_of_lt_of_le (Nat.two_pow_pos e) hlow).ne'
  have hlog : f.log2 = e :=
    le_antisymm (Nat.lt_succ_iff.1 ((Nat.log2_lt hne).2 hhigh)) ((Nat.le_log2 hne).2 hlow)
  rw [spacing, hlog]
  rfl

theorem spacing_le_of_lt {f e : ℕ} (h : f < 2 ^ (e + 53)) : spacing f ≤ 2 ^ e := by
  refine Nat.pow_le_pow_right (by decide) ?_
  by_cases hzero : f = 0
  · rw [hzero]
    simp
  · have hlog := (Nat.log2_lt hzero).2 h
    omega

/-- The distance of a size to its lower neighbour: half of the spacing where the spacing
changes. -/
def gapBelow (a : ℕ) : ℕ :=
  if 1 < spacing a ∧ a = Nat.pow 2 a.log2 then spacing a / 2 else spacing a

/-- A multiple of a step above another one is a step away from it. -/
theorem add_step_le {a b step : ℕ} (ha : step ∣ a) (hb : step ∣ b) (h : a < b) : a + step ≤ b := by
  obtain ⟨i, rfl⟩ := ha
  obtain ⟨j, rfl⟩ := hb
  rw [← Nat.mul_succ]
  exact Nat.mul_le_mul_left step (Nat.lt_of_mul_lt_mul_left h)

/-- The upper neighbour of a size is at most the next power of two. -/
theorem add_spacing_le {a : ℕ} (hrep : a % spacing a = 0) : a + spacing a ≤ 2 ^ (a.log2 + 1) :=
  add_step_le (Nat.dvd_of_mod_eq_zero hrep) (spacing_dvd_two_pow_of_lt Nat.lt_log2_self)
    Nat.lt_log2_self

/-- Where the spacing changes below a size, it and the size are powers of two. -/
theorem gapBelow_cases (a : ℕ) :
    gapBelow a = spacing a ∨
      ∃ e, a = 2 ^ (e + 53) ∧ spacing a = 2 ^ (e + 1) ∧ gapBelow a = 2 ^ e := by
  by_cases h : 1 < spacing a ∧ a = Nat.pow 2 a.log2
  · have hlog : 52 < a.log2 := by
      by_contra hle
      have hone : spacing a = 1 := by
        rw [spacing, Nat.sub_eq_zero_of_le (by omega)]
      omega
    obtain ⟨e, he⟩ : ∃ e, a.log2 = e + 53 := ⟨a.log2 - 53, by omega⟩
    have hspacing : spacing a = 2 ^ (e + 1) := by
      rw [spacing, he]
      rfl
    refine .inr ⟨e, by rw [← he]; exact h.2, hspacing, ?_⟩
    rw [gapBelow, if_pos h, hspacing, pow_succ, Nat.mul_div_cancel _ (by decide)]
  · exact .inl (if_neg h)

theorem gapBelow_pos (a : ℕ) : 0 < gapBelow a := by
  obtain h | ⟨e, -, -, h⟩ := gapBelow_cases a
  · rw [h]
    exact spacing_pos a
  · rw [h]
    exact Nat.two_pow_pos e

theorem gapBelow_dvd_spacing (a : ℕ) : gapBelow a ∣ spacing a := by
  obtain h | ⟨e, -, hspacing, h⟩ := gapBelow_cases a
  · rw [h]
  · rw [h, hspacing]
    exact Nat.pow_dvd_pow 2 (Nat.le_succ e)

/-- Counted in steps above it or below it, a size has the same last bit. -/
theorem div_gapBelow_mod_two (a : ℕ) : a / gapBelow a % 2 = a / spacing a % 2 := by
  obtain h | ⟨e, ha, hspacing, h⟩ := gapBelow_cases a
  · rw [h]
  · have hbelow : a / gapBelow a = 2 ^ 53 := by
      rw [h, ha, Nat.pow_div (by omega) (by decide), Nat.add_sub_cancel_left]
    have habove : a / spacing a = 2 ^ 52 := by
      rw [hspacing, ha, Nat.pow_div (by omega) (by decide)]
      congr 1
      omega
    rw [hbelow, habove]
    decide

/-- The spacing between a size and its lower neighbour. -/
theorem spacing_of_lt {a f : ℕ} (hrep : a % spacing a = 0) (hlt : f < a)
    (hle : a ≤ f + gapBelow a) : spacing f = gapBelow a := by
  have ha : a ≠ 0 := by omega
  have hlow : 2 ^ a.log2 ≤ a := Nat.log2_self_le ha
  have hhigh : a < 2 ^ (a.log2 + 1) := Nat.lt_log2_self
  obtain hgap | ⟨e, hpower, -, hgap⟩ := gapBelow_cases a
  · rw [hgap] at hle ⊢
    by_cases hsmall : a.log2 ≤ 52
    · have hlt53 : ∀ {n}, n ≤ a → n < 2 ^ 53 := fun hn =>
        hn.trans_lt (hhigh.trans_le (Nat.pow_le_pow_right (by decide) (by omega)))
      rw [spacing_of_lt_two_pow (hlt53 hlt.le), spacing_of_lt_two_pow (hlt53 le_rfl)]
    · have hspacing : spacing a = 2 ^ (a.log2 - 52) := rfl
      have hone : 1 < spacing a := Nat.one_lt_two_pow (by omega)
      have hpower : a ≠ 2 ^ a.log2 := by
        intro hpower
        rw [gapBelow, if_pos ⟨hone, hpower⟩] at hgap
        omega
      have hstep : 2 ^ a.log2 + spacing a ≤ a :=
        add_step_le (Nat.pow_dvd_pow 2 (by omega)) (Nat.dvd_of_mod_eq_zero hrep)
          (lt_of_le_of_ne hlow (Ne.symm hpower))
      exact spacing_of_between (by omega) (hlt.trans hhigh)
  · -- Below a power of two the spacing is half of what it is above.
    have hpow : 2 ^ (e + 53) = 2 ^ (e + 52) + 2 ^ (e + 52) := by
      rw [pow_succ]
      omega
    have hsmall : 2 ^ e ≤ 2 ^ (e + 52) := Nat.pow_le_pow_right (by decide) (by omega)
    rw [hgap] at hle ⊢
    rw [spacing_of_between (e := e + 52) (by omega) (by omega), Nat.add_sub_cancel]

/-! ## Sizes -/

theorem roundUnits_eq_iff_of_spacing {n d a s : ℕ} (hd : 0 < d) (hs : spacing (n / d) = s)
    (hdvd : s ∣ a) :
    roundUnits n d = a ↔
      2 * (a * d) ≤ 2 * n + s * d ∧ 2 * n ≤ 2 * (a * d) + s * d ∧
        (a / s % 2 = 1 → 2 * (a * d) ≠ 2 * n + s * d ∧ 2 * n ≠ 2 * (a * d) + s * d) := by
  have hpos : 0 < s := hs ▸ spacing_pos _
  obtain ⟨q, rfl⟩ := hdvd
  rw [roundUnits, hs, Nat.mul_comm s q, Nat.mul_right_cancel_iff hpos,
    roundDiv_toEven_eq_iff (Nat.mul_pos hd hpos), Nat.mul_div_cancel q hpos, Nat.mul_comm d s,
    Nat.mul_assoc]

/-- A size that is not reached is not passed by rounding. -/
theorem roundUnits_le_of_le {n d b : ℕ} (hd : 0 < d) (hb : b % spacing b = 0) (h : n ≤ b * d) :
    roundUnits n d ≤ b :=
  (roundUnits_mono hd h).trans_eq (roundUnits_eq_of_mod_spacing hb hd)

/-- A size that is reached is not missed by rounding. -/
theorem le_roundUnits_of_le {n d b : ℕ} (hd : 0 < d) (hb : b % spacing b = 0) (h : b * d ≤ n) :
    b ≤ roundUnits n d :=
  (roundUnits_eq_of_mod_spacing hb hd).symm.trans_le (roundUnits_mono hd h)

/-- **What rounds to a size.** -/
theorem roundUnits_eq_iff {n d a : ℕ} (hd : 0 < d) (ha : a ≠ 0) (hrep : a % spacing a = 0) :
    roundUnits n d = a ↔
      (4 * a - 2 * gapBelow a) * d ≤ 4 * n ∧ 4 * n ≤ (4 * a + 2 * spacing a) * d ∧
        (a / spacing a % 2 = 1 →
          (4 * a - 2 * gapBelow a) * d ≠ 4 * n ∧ 4 * n ≠ (4 * a + 2 * spacing a) * d) := by
  have hdvd : spacing a ∣ a := Nat.dvd_of_mod_eq_zero hrep
  have hgap : gapBelow a ∣ a := (gapBelow_dvd_spacing a).trans hdvd
  have hgapLe : gapBelow a ≤ a := Nat.le_of_dvd (Nat.pos_of_ne_zero ha) hgap
  have hgapPos : 0 < gapBelow a * d := Nat.mul_pos (gapBelow_pos a) hd
  have hstepPos : 0 < spacing a * d := Nat.mul_pos (spacing_pos a) hd
  have hleast : (4 * a - 2 * gapBelow a) * d = 4 * (a * d) - 2 * (gapBelow a * d) := by
    rw [Nat.sub_mul, Nat.mul_assoc, Nat.mul_assoc]
  have hgreatest : (4 * a + 2 * spacing a) * d = 4 * (a * d) + 2 * (spacing a * d) := by
    rw [Nat.add_mul, Nat.mul_assoc, Nat.mul_assoc]
  have hgapMul : gapBelow a * d ≤ a * d := Nat.mul_le_mul_right d hgapLe
  rw [hleast, hgreatest]
  by_cases habove : a * d ≤ n
  · have hfloor : a ≤ n / d := (Nat.le_div_iff_mul_le hd).2 habove
    by_cases hnext : n / d < 2 ^ (a.log2 + 1)
    · have hspacing : spacing (n / d) = spacing a :=
        spacing_of_between ((Nat.log2_self_le ha).trans hfloor) hnext
      rw [roundUnits_eq_iff_of_spacing hd hspacing hdvd]
      omega
    · -- The next power of two is too far away on either side.
      have hfar : 2 ^ (a.log2 + 1) * d ≤ n := (Nat.le_div_iff_mul_le hd).1 (Nat.not_lt.1 hnext)
      have hpower : 2 ^ (a.log2 + 1) % spacing (2 ^ (a.log2 + 1)) = 0 := by
        simpa using mod_spacing_mul_two_pow (k := 1) (by decide) (a.log2 + 1)
      have hround := le_roundUnits_of_le hd hpower hfar
      have hmul : a * d + spacing a * d ≤ 2 ^ (a.log2 + 1) * d := by
        rw [← Nat.add_mul]
        exact Nat.mul_le_mul_right d (add_spacing_le hrep)
      have hlt : a < 2 ^ (a.log2 + 1) := Nat.lt_log2_self
      refine ⟨fun h => by omega, fun h => by omega⟩
  · have hfloor : n / d < a := (Nat.div_lt_iff_lt_mul hd).2 (Nat.not_le.1 habove)
    by_cases hnear : a ≤ n / d + gapBelow a
    · have hspacing : spacing (n / d) = gapBelow a := spacing_of_lt hrep hfloor hnear
      rw [roundUnits_eq_iff_of_spacing hd hspacing hgap, div_gapBelow_mod_two]
      omega
    · -- The lower neighbour is not reached on either side.
      have hneighbour : (a - gapBelow a) % spacing (a - gapBelow a) = 0 := by
        have hlt : a - gapBelow a < a := Nat.sub_lt (Nat.pos_of_ne_zero ha) (gapBelow_pos a)
        rw [spacing_of_lt hrep hlt (by omega)]
        exact Nat.mod_eq_zero_of_dvd (Nat.dvd_sub hgap dvd_rfl)
      have hfar : n < (a - gapBelow a) * d := (Nat.div_lt_iff_lt_mul hd).1 (by omega)
      have hround := roundUnits_le_of_le hd hneighbour hfar.le
      rw [Nat.sub_mul] at hfar
      have hpos := gapBelow_pos a
      refine ⟨fun h => by omega, fun h => by omega⟩

end MatlabQuality.Number
