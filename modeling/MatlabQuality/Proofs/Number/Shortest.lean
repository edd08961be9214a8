import MatlabQuality.Number.Shortest
import MatlabQuality.Proofs.Number.Digits
import MatlabQuality.Proofs.Number.Exact
import MatlabQuality.Proofs.Number.Interval

/-!
# Shortest forms of hundredths

The decimals that read back as a size are those that round to it.  The size nearest to `k / 100`
reads back from `k` hundredths, so its shortest form needs no smaller places, and it is found.

## Main definitions

* `Decimal.roundedUnits` — the size nearest to a decimal.
* `NearestHundredths` — the size nearest to `k / 100`.

## Main statements

* `Magnitude.readsBack_iff` — a decimal reads back as the size it rounds to.
* `NearestHundredths.shortest_spec`, `NearestHundredths.significand_le` — the shortest form of the
  size nearest to `k / 100`.
-/

namespace MatlabQuality.Number

attribute [local irreducible] unitsPerOne unitsOfInfinity

namespace Decimal

/-- The size nearest to a decimal. -/
def roundedUnits (d : Decimal) : ℕ :=
  roundUnits (d.digits * (Magnitude.unitsPerTenPow d.exponent).1)
    (Magnitude.unitsPerTenPow d.exponent).2

end Decimal

namespace Magnitude

theorem unitsPerTenPow_natCast (e : ℕ) : unitsPerTenPow e = (unitsPerOne * 10 ^ e, 1) := by
  rw [unitsPerTenPow, if_pos (Int.natCast_nonneg e), Int.toNat_natCast]
  rfl

theorem unitsPerTenPow_neg (e : ℕ) : unitsPerTenPow (-e : ℤ) = (unitsPerOne, 10 ^ e) := by
  cases e with
  | zero => rw [Nat.cast_zero, Int.neg_zero, ← Nat.cast_zero, unitsPerTenPow_natCast, pow_zero,
      Nat.mul_one]
  | succ e =>
    rw [unitsPerTenPow, if_neg (by omega), Int.neg_neg, Int.toNat_natCast]
    rfl

theorem unitsPerTenPow_pos (e : ℤ) : 0 < (unitsPerTenPow e).1 ∧ 0 < (unitsPerTenPow e).2 := by
  obtain ⟨n, rfl | rfl⟩ := Int.eq_nat_or_neg e
  · rw [unitsPerTenPow_natCast]
    exact ⟨Nat.mul_pos unitsPerOne_pos (Nat.pow_pos (by decide)), Nat.one_pos⟩
  · rw [unitsPerTenPow_neg]
    exact ⟨unitsPerOne_pos, Nat.pow_pos (by decide)⟩

/-- **A decimal reads back as the size it rounds to.** -/
theorem readsBack_iff {a : Magnitude} (ha : a.units ≠ 0) (d : Decimal) :
    a.readsBack d = true ↔ d.roundedUnits = a.units := by
  have hvalue : 4 * d.digits * (unitsPerTenPow d.exponent).1 =
      4 * (d.digits * (unitsPerTenPow d.exponent).1) := Nat.mul_assoc ..
  rw [Decimal.roundedUnits,
    roundUnits_eq_iff (unitsPerTenPow_pos d.exponent).2 ha a.representable.2, ← hvalue]
  simp only [readsBack]
  change (if a.units / spacing a.units % 2 = 0 then
      decide ((4 * a.units - 2 * gapBelow a.units) * _ ≤ _) && decide (_ ≤ _)
    else decide ((4 * a.units - 2 * gapBelow a.units) * _ < _) && decide (_ < _)) = true ↔ _
  split
  · simp only [Bool.and_eq_true, decide_eq_true_eq]
    omega
  · simp only [Bool.and_eq_true, decide_eq_true_eq]
    omega

/-! ## The search for a grid -/

/-- What is found on a grid reads back, and is next to the size. -/
theorem of_neighbour? {tie : Tie} {a : Magnitude} {e : ℤ} {d : Decimal}
    (h : a.neighbour? tie e = some d) :
    a.readsBack d = true ∧ d.exponent = e ∧
      d.digits ≤ a.units * (unitsPerTenPow e).2 / (unitsPerTenPow e).1 + 1 := by
  have hnear := roundDiv_bounds tie (a.units * (unitsPerTenPow e).2) (unitsPerTenPow e).1
  simp only [neighbour?] at h
  split at h
  · cases h
    exact ⟨‹_›, rfl, hnear.2⟩
  · split at h
    · cases h
      exact ⟨‹_›, rfl, Nat.le_succ _⟩
    · split at h
      · cases h
        exact ⟨‹_›, rfl, le_rfl⟩
      · exact absurd h (by simp)

/-- A grid on which either neighbour reads back is not passed over. -/
theorem neighbour?_ne_none {tie : Tie} {a : Magnitude} {e : ℤ} {k : ℕ}
    (hk : k = a.units * (unitsPerTenPow e).2 / (unitsPerTenPow e).1 ∨
      k = a.units * (unitsPerTenPow e).2 / (unitsPerTenPow e).1 + 1)
    (h : a.readsBack ⟨k, e⟩ = true) : a.neighbour? tie e ≠ none := by
  simp only [neighbour?]
  split
  · simp
  · split
    · simp
    · split
      · simp
      · rcases hk with rfl | rfl <;> contradiction

end Magnitude

namespace Decimal

/-- The search ends at the first number of digits for which there is a decimal. -/
theorem exists_firstFrom (decimal? : ℕ → Option Decimal) (count steps : ℕ) {c : ℕ}
    (hcount : count ≤ c) (hc : c < count + steps) (h : decimal? c ≠ none) :
    ∃ found ≤ c, decimal? found = some (firstFrom decimal? count steps) := by
  induction steps generalizing count with
  | zero => omega
  | succ steps ih =>
    rw [firstFrom]
    cases hfound : decimal? count with
    | some d => exact ⟨count, hcount, hfound⟩
    | none =>
      have hne : count ≠ c := by
        rintro rfl
        exact h hfound
      exact ih (count + 1) (by omega) (by omega)

/-! ## Zeros at the end -/

theorem roundedUnits_div_ten (d : Decimal) (h : d.digits % 10 = 0) :
    roundedUnits ⟨d.digits / 10, d.exponent + 1⟩ = d.roundedUnits := by
  obtain ⟨k, hk⟩ := Nat.dvd_of_mod_eq_zero h
  have hdiv : d.digits / 10 = k := by omega
  rw [roundedUnits, roundedUnits]
  refine roundUnits_congr (Magnitude.unitsPerTenPow_pos _).2 (Magnitude.unitsPerTenPow_pos _).2 ?_
  rw [hdiv, hk]
  obtain ⟨n, hn | hn⟩ := Int.eq_nat_or_neg d.exponent
  · have hnext : d.exponent + 1 = (n + 1 : ℕ) := by omega
    rw [hnext, hn, Magnitude.unitsPerTenPow_natCast, Magnitude.unitsPerTenPow_natCast]
    ring
  · cases n with
    | zero =>
      have hzero : d.exponent = (0 : ℕ) := by omega
      have hnext : d.exponent + 1 = (1 : ℕ) := by omega
      rw [hnext, hzero, Magnitude.unitsPerTenPow_natCast, Magnitude.unitsPerTenPow_natCast]
      ring
    | succ n =>
      have hnext : d.exponent + 1 = -(n : ℤ) := by omega
      rw [hnext, hn, Magnitude.unitsPerTenPow_neg, Magnitude.unitsPerTenPow_neg]
      ring

/-- Stripping zeros changes neither the size nor, while the exponent stays, the digits. -/
theorem stripZeros_spec (steps : ℕ) (d : Decimal) :
    (d.stripZeros steps).roundedUnits = d.roundedUnits ∧
      d.exponent ≤ (d.stripZeros steps).exponent ∧
      ((d.stripZeros steps).exponent = d.exponent → d.stripZeros steps = d) := by
  induction steps generalizing d with
  | zero => exact ⟨rfl, le_rfl, fun _ => rfl⟩
  | succ steps ih =>
    rw [stripZeros]
    split
    · obtain ⟨hunits, hle, -⟩ := ih ⟨d.digits / 10, d.exponent + 1⟩
      dsimp only at hle
      refine ⟨?_, by omega, fun heq => by omega⟩
      rw [hunits, roundedUnits_div_ten d (by omega)]
    · exact ⟨rfl, le_rfl, fun _ => rfl⟩

end Decimal

/-! ## Hundredths -/

/-- The size nearest to `k / 100`, for a positive `k` below `2 ^ 53`. -/
structure NearestHundredths (k : ℕ) (a : Magnitude) : Prop where
  pos : 0 < k
  lt : k < 2 ^ 53
  units_eq : a.units = roundUnits (k * unitsPerOne) 100

namespace NearestHundredths

variable {k : ℕ} {a : Magnitude}

theorem units_ne_zero (h : NearestHundredths k a) : a.units ≠ 0 := by
  have hsplit : 2 ^ 7 * 2 ^ (unitExponent - 7) = unitsPerOne :=
    two_pow_mul_eq_unitsPerOne (by rw [unitExponent_eq]; decide)
  have hpower : 2 ^ (unitExponent - 7) % spacing (2 ^ (unitExponent - 7)) = 0 := by
    have hone := mod_spacing_mul_two_pow (k := 1) (by decide) (unitExponent - 7)
    rwa [Nat.one_mul] at hone
  have hle : 2 ^ (unitExponent - 7) * 100 ≤ k * unitsPerOne := by
    calc 2 ^ (unitExponent - 7) * 100 ≤ 2 ^ 7 * 2 ^ (unitExponent - 7) := by omega
      _ = 1 * unitsPerOne := by rw [hsplit, Nat.one_mul]
      _ ≤ k * unitsPerOne := Nat.mul_le_mul_right _ h.pos
  have hround := le_roundUnits_of_le (by decide) hpower hle
  have hpos := Nat.two_pow_pos (unitExponent - 7)
  rw [h.units_eq]
  omega

theorem units_le (h : NearestHundredths k a) : a.units ≤ 3 * 2 ^ 45 * unitsPerOne := by
  rw [h.units_eq]
  refine roundUnits_le_of_le (by decide) (mod_spacing_of_lt (by decide)) ?_
  calc k * unitsPerOne ≤ 3 * 2 ^ 45 * 100 * unitsPerOne := Nat.mul_le_mul_right _ (by
        have := h.lt
        omega)
    _ = 3 * 2 ^ 45 * unitsPerOne * 100 := by ring

/-- Neighbours of the size are less than a fiftieth apart. -/
theorem spacing_lt (h : NearestHundredths k a) : 50 * spacing a.units < unitsPerOne := by
  have hle : 6 ≤ unitExponent := by
    rw [unitExponent_eq]
    decide
  have hlt : a.units < 2 ^ (unitExponent - 6 + 53) := by
    calc a.units ≤ 3 * 2 ^ 45 * unitsPerOne := h.units_le
      _ < 2 ^ 47 * unitsPerOne := Nat.mul_lt_mul_of_pos_right (by decide) unitsPerOne_pos
      _ = 2 ^ (47 + unitExponent) := by rw [unitsPerOne_eq, pow_add]
      _ = 2 ^ (unitExponent - 6 + 53) := by congr 1; omega
  calc 50 * spacing a.units ≤ 50 * 2 ^ (unitExponent - 6) :=
        Nat.mul_le_mul_left 50 (spacing_le_of_lt hlt)
    _ < 2 ^ 6 * 2 ^ (unitExponent - 6) :=
        Nat.mul_lt_mul_of_pos_right (by decide) (Nat.two_pow_pos _)
    _ = unitsPerOne := two_pow_mul_eq_unitsPerOne hle

/-- The size is within a hundredth of what it is nearest to. -/
theorem near (h : NearestHundredths k a) :
    a.units * 100 < k * unitsPerOne + unitsPerOne ∧
      k * unitsPerOne < a.units * 100 + unitsPerOne := by
  obtain ⟨hleast, hgreatest, -⟩ := (roundUnits_eq_iff (by decide) h.units_ne_zero
    a.representable.2).1 h.units_eq.symm
  have hgap : gapBelow a.units ≤ spacing a.units :=
    Nat.le_of_dvd (spacing_pos _) (gapBelow_dvd_spacing _)
  have hspacing := h.spacing_lt
  omega

/-- The size is at least a hundredth. -/
theorem le_units (h : NearestHundredths k a) : unitsPerOne ≤ a.units * 100 := by
  by_cases hone : k = 1
  · have hround : unitsPerOne ≤ roundUnits (1 * unitsPerOne) 100 * 100 := by
      rw [unitsPerOne_eq]
      decide +kernel
    rwa [h.units_eq, hone]
  · have hk := h.pos
    have htwo : 2 * unitsPerOne ≤ k * unitsPerOne := Nat.mul_le_mul_right _ (by omega)
    have hnear := h.near
    omega

/-- The size reads back from the hundredths it is nearest to. -/
theorem neighbour?_ne_none (h : NearestHundredths k a) (tie : Tie) :
    a.neighbour? tie (-2) ≠ none := by
  have hten : Magnitude.unitsPerTenPow (-2) = (unitsPerOne, 100) := Magnitude.unitsPerTenPow_neg 2
  have hnear := h.near
  refine Magnitude.neighbour?_ne_none (k := k) ?_ ?_
  · rw [hten]
    dsimp only
    by_cases hle : k * unitsPerOne ≤ a.units * 100
    · left
      refine (Nat.div_eq_of_lt_le hle ?_).symm
      rw [Nat.succ_mul]
      exact hnear.1
    · right
      obtain ⟨j, rfl⟩ : ∃ j, k = j + 1 := ⟨k - 1, (Nat.sub_add_cancel h.pos).symm⟩
      rw [Nat.succ_mul] at hnear hle
      have hdown : a.units * 100 / unitsPerOne = j :=
        Nat.div_eq_of_lt_le (by omega) (by rw [Nat.succ_mul]; omega)
      rw [hdown]
  · rw [Magnitude.readsBack_iff h.units_ne_zero, Decimal.roundedUnits, hten]
    exact h.units_eq.symm

theorem decade_bounds (h : NearestHundredths k a) : -2 ≤ a.decade ∧ a.decade ≤ 14 := by
  have hU := unitsPerOne_pos
  have hshift : 2 < Magnitude.decadeShift := by
    rw [Magnitude.decadeShift]
    decide
  rw [Magnitude.decade]
  generalize Magnitude.decadeShift = shift at hshift
  have hpower : 10 ^ (shift - 2) * 100 = 10 ^ shift := pow_sub_mul_pow 10 hshift.le
  have hlow : ¬ a.units * 10 ^ shift / unitsPerOne < 10 ^ (shift - 2) := by
    rw [Nat.not_lt, Nat.le_div_iff_mul_le hU, ← hpower]
    calc 10 ^ (shift - 2) * unitsPerOne
        ≤ 10 ^ (shift - 2) * (a.units * 100) := Nat.mul_le_mul_left _ h.le_units
      _ = a.units * (10 ^ (shift - 2) * 100) := Nat.mul_left_comm ..
  have hhigh : a.units * 10 ^ shift / unitsPerOne < 10 ^ (shift + 15) := by
    rw [Nat.div_lt_iff_lt_mul hU]
    calc a.units * 10 ^ shift
        ≤ 3 * 2 ^ 45 * unitsPerOne * 10 ^ shift := Nat.mul_le_mul_right _ h.units_le
      _ = 3 * 2 ^ 45 * 10 ^ shift * unitsPerOne := Nat.mul_right_comm ..
      _ < 10 ^ 15 * 10 ^ shift * unitsPerOne := by gcongr; decide
      _ = 10 ^ (shift + 15) * unitsPerOne := by rw [pow_add, Nat.mul_comm (10 ^ 15)]
  rw [← length_decimalDigits_le_iff (by omega)] at hlow hhigh
  rw [Nat.pow_eq]
  generalize (decimalDigits (a.units * 10 ^ shift / unitsPerOne)).length = length at hlow hhigh
  omega

/-- The shortest form of the size reads back as the size and needs no places beyond hundredths;
where it needs them, its digits are few enough to be an exact number. -/
theorem shortest_spec (h : NearestHundredths k a) (tie : Tie) :
    (a.shortest tie).roundedUnits = a.units ∧ -2 ≤ (a.shortest tie).exponent ∧
      ((a.shortest tie).exponent = -2 → (a.shortest tie).digits ≤ 2 ^ 53) := by
  obtain ⟨hlow, hhigh⟩ := h.decade_bounds
  -- Hundredths are the places of the form with this many digits.
  obtain ⟨c, hc⟩ : ∃ c : ℕ, a.decade - c + 1 = -2 := ⟨(a.decade + 3).toNat, by omega⟩
  have hgrid : a.neighbour? tie (a.decade - c + 1) ≠ none := hc ▸ h.neighbour?_ne_none tie
  obtain ⟨found, hfound, heq⟩ := Decimal.exists_firstFrom
    (fun count => a.neighbour? tie (a.decade - count + 1)) 1 17 (by omega) (by omega) hgrid
  have hshortest : a.shortest tie = (Decimal.firstFrom
      (fun count => a.neighbour? tie (a.decade - count + 1)) 1 17).stripZeros 18 :=
    if_neg h.units_ne_zero
  obtain ⟨hreads, hexponent, hdigits⟩ := Magnitude.of_neighbour? heq
  obtain ⟨hunits, hle, hsame⟩ := Decimal.stripZeros_spec 18 (Decimal.firstFrom
    (fun count => a.neighbour? tie (a.decade - count + 1)) 1 17)
  rw [← hshortest] at hunits hle hsame
  refine ⟨hunits.trans ((Magnitude.readsBack_iff h.units_ne_zero _).1 hreads), by omega, ?_⟩
  intro hlast
  have hfirst : a.decade - found + 1 = -2 := by omega
  rw [hsame (by omega)]
  rw [hfirst, show Magnitude.unitsPerTenPow (-2) = (unitsPerOne, 100) from
    Magnitude.unitsPerTenPow_neg 2] at hdigits
  have hfloor : a.units * 100 / unitsPerOne < k + 1 := by
    rw [Nat.div_lt_iff_lt_mul unitsPerOne_pos, Nat.succ_mul]
    exact h.near.1
  have hlt := h.lt
  dsimp only at hdigits
  omega

theorem digits_ne_zero (h : NearestHundredths k a) (tie : Tie) : (a.shortest tie).digits ≠ 0 := by
  intro hzero
  have hunits := (h.shortest_spec tie).1
  rw [Decimal.roundedUnits, hzero, Nat.zero_mul,
    roundUnits_zero_left (Magnitude.unitsPerTenPow_pos _).2] at hunits
  exact h.units_ne_zero hunits.symm

/-- A decimal that reads back exceeds the size by half of it at most. -/
theorem digits_mul_le (h : NearestHundredths k a) {d : Decimal} (hd : d.roundedUnits = a.units) :
    2 * (d.digits * (Magnitude.unitsPerTenPow d.exponent).1) ≤
      3 * (3 * 2 ^ 45 * unitsPerOne) * (Magnitude.unitsPerTenPow d.exponent).2 := by
  obtain ⟨-, hgreatest, -⟩ := (roundUnits_eq_iff (Magnitude.unitsPerTenPow_pos d.exponent).2
    h.units_ne_zero a.representable.2).1 hd
  have hspacing : spacing a.units ≤ a.units := Nat.le_of_dvd (Nat.pos_of_ne_zero h.units_ne_zero)
    (Nat.dvd_of_mod_eq_zero a.representable.2)
  have hunits := h.units_le
  have hmul : (4 * a.units + 2 * spacing a.units) * (Magnitude.unitsPerTenPow d.exponent).2 ≤
      2 * (3 * (3 * 2 ^ 45 * unitsPerOne)) * (Magnitude.unitsPerTenPow d.exponent).2 :=
    Nat.mul_le_mul_right _ (by omega)
  rw [Nat.mul_assoc] at hmul
  omega

/-- **The digits of the shortest form**, with those of a whole number moved by one place, are an
exact number. -/
theorem significand_le (h : NearestHundredths k a) (tie : Tie) :
    (a.shortest tie).digits * 10 ^ ((a.shortest tie).exponent + 1).toNat ≤ 2 ^ 53 := by
  obtain ⟨hunits, hlow, hlast⟩ := h.shortest_spec tie
  have hmul := h.digits_mul_le hunits
  generalize a.shortest tie = d at *
  have hU := unitsPerOne_pos
  obtain he | he | ⟨e, he⟩ : d.exponent = -2 ∨ d.exponent = -1 ∨ ∃ e : ℕ, d.exponent = e := by
    by_cases hneg : d.exponent < 0
    · omega
    · exact .inr (.inr ⟨d.exponent.toNat, by omega⟩)
  · have hten : (d.exponent + 1).toNat = 0 := by omega
    rw [hten, pow_zero, Nat.mul_one]
    exact hlast he
  · rw [he, show (-1 : ℤ) = -(1 : ℕ) from rfl, Magnitude.unitsPerTenPow_neg] at hmul
    have hvalue : d.digits * 2 ≤ 90 * 2 ^ 45 := by
      refine Nat.le_of_mul_le_mul_right ?_ hU
      calc d.digits * 2 * unitsPerOne = 2 * (d.digits * unitsPerOne) := by ring
        _ ≤ 3 * (3 * 2 ^ 45 * unitsPerOne) * 10 ^ 1 := hmul
        _ = 90 * 2 ^ 45 * unitsPerOne := by ring
    have hten : (d.exponent + 1).toNat = 0 := by omega
    rw [hten, pow_zero]
    omega
  · rw [he, Magnitude.unitsPerTenPow_natCast] at hmul
    have hvalue : d.digits * 10 ^ e * 2 ≤ 9 * 2 ^ 45 := by
      refine Nat.le_of_mul_le_mul_right ?_ hU
      calc d.digits * 10 ^ e * 2 * unitsPerOne = 2 * (d.digits * (unitsPerOne * 10 ^ e)) := by ring
        _ ≤ 3 * (3 * 2 ^ 45 * unitsPerOne) * 1 := hmul
        _ = 9 * 2 ^ 45 * unitsPerOne := by ring
    have hten : (d.exponent + 1).toNat = e + 1 := by omega
    rw [hten, pow_succ, ← Nat.mul_assoc]
    omega

end NearestHundredths

end MatlabQuality.Number
