import MatlabQuality.Proofs.Number.Order
import MatlabQuality.Proofs.Number.Value

/-!
# Exact numbers

Whole numbers up to `2 ^ 53` and powers of ten up to `10 ^ 22` are exact, so a quotient of two of
them is rounded once.  A number that is multiplied by a hundred, rounded to a whole number and
divided by a hundred is therefore the one nearest to a number of hundredths.

## Main definitions

* `Binary64.IsUnsigned` — no minus sign stands before a number.

## Main statements

* `Binary64.ofUnits_congr` — rounding depends on the quotient alone.
* `Binary64.ofNat_div_ofNat` — the quotient of exact numbers.
* `Binary64.exists_eq_hundredths` — what rounding to two places gives.
-/

namespace MatlabQuality.Number

attribute [local irreducible] unitsPerOne unitsOfInfinity

/-- Equal quotients round to the same size. -/
theorem roundUnits_congr {n d m e : ℕ} (hd : 0 < d) (he : 0 < e) (h : n * e = m * d) :
    roundUnits n d = roundUnits m e := by
  rw [← roundUnits_scale n d he, h, Nat.mul_comm d e, roundUnits_scale m e hd]

namespace Binary64

theorem ofUnits_eq_finite {negative : Bool} {n d : ℕ} {a : Magnitude}
    (h : roundUnits n d = a.units) : ofUnits negative n d = .finite negative a := by
  obtain ⟨units, hunits⟩ := a
  obtain rfl : roundUnits n d = units := h
  delta ofUnits Magnitude.nearest?
  rw [dif_pos hunits.1]

theorem ofUnits_congr (negative : Bool) {n d m e : ℕ} (hd : 0 < d) (he : 0 < e)
    (h : n * e = m * d) : ofUnits negative n d = ofUnits negative m e := by
  delta ofUnits Magnitude.nearest?
  simp only [roundUnits_congr hd he h]

/-- Whole numbers up to `2 ^ 53` are sizes that a number can have. -/
theorem mod_spacing_of_le_two_pow {n : ℕ} (h : n ≤ 2 ^ 53) :
    n * unitsPerOne % spacing (n * unitsPerOne) = 0 := by
  rcases h.lt_or_eq with hlt | rfl
  · exact mod_spacing_of_lt hlt
  · have hpower := mod_spacing_mul_two_pow (k := 1) (by decide) (53 + unitExponent)
    rwa [Nat.one_mul, pow_add, ← unitsPerOne_eq] at hpower

theorem representable_of_le {n : ℕ} (h : n ≤ 2 ^ 53) : Representable (n * unitsPerOne) := by
  exact ⟨mul_unitsPerOne_lt (h.trans (by decide)), mod_spacing_of_le_two_pow h⟩

/-- The powers of ten up to `10 ^ 22` are sizes that a number can have, as the fives in them need
no more than 53 bits. -/
theorem representable_ten_pow {places : ℕ} (h : places ≤ 22) :
    Representable (10 ^ places * unitsPerOne) := by
  constructor
  · have hle : 10 ^ places ≤ 10 ^ 22 := Nat.pow_le_pow_right (by decide) h
    exact mul_unitsPerOne_lt (hle.trans (by decide))
  · have hfives : 5 ^ places < 2 ^ 53 :=
      (Nat.pow_le_pow_right (by decide) h).trans_lt (by decide)
    have hpower := mod_spacing_mul_two_pow hfives (places + unitExponent)
    rwa [pow_add, ← Nat.mul_assoc, ← Nat.mul_pow, ← unitsPerOne_eq] at hpower

/-- **A whole number that a number can have is exact.** -/
theorem exists_ofNat_eq_of_representable {n : ℕ} (h : Representable (n * unitsPerOne)) :
    ∃ a : Magnitude, ofNat n = .finite false a ∧ a.units = n * unitsPerOne := by
  have hround : roundUnits (n * unitsPerOne) 1 = n * unitsPerOne := by
    have hkept := roundUnits_eq_of_mod_spacing h.2 Nat.one_pos
    rwa [Nat.mul_one] at hkept
  exact ⟨⟨n * unitsPerOne, h⟩, ofUnits_eq_finite hround, rfl⟩

/-- **Whole numbers up to `2 ^ 53` are exact.** -/
theorem exists_ofNat_eq {n : ℕ} (h : n ≤ 2 ^ 53) :
    ∃ a : Magnitude, ofNat n = .finite false a ∧ a.units = n * unitsPerOne :=
  exists_ofNat_eq_of_representable (representable_of_le h)

/-- **The quotient of exact numbers is rounded once.** -/
theorem ofNat_div_ofNat {n d : ℕ} (hn : Representable (n * unitsPerOne))
    (hd : Representable (d * unitsPerOne)) (hpos : 0 < d) :
    (ofNat n).div (ofNat d) = ofRatio false n d := by
  obtain ⟨a, ha, haunits⟩ := exists_ofNat_eq_of_representable hn
  obtain ⟨b, hb, hbunits⟩ := exists_ofNat_eq_of_representable hd
  have hunits : 0 < d * unitsPerOne := Nat.mul_pos hpos unitsPerOne_pos
  rw [ha, hb, div_finite (hbunits ▸ hunits.ne'), haunits, hbunits, ofRatio]
  refine ofUnits_congr false hunits hpos ?_
  ring

/-- One is neutral. -/
theorem mul_one_of_isFinite {x : Binary64} (h : x.isFinite = true) : x.mul (ofNat 1) = x := by
  obtain ⟨one, hone, hunits⟩ := exists_ofNat_eq (n := 1) (by decide)
  cases x with
  | nan => cases h
  | infinite s => cases h
  | finite s a =>
    rw [hone, mul, hunits, Nat.one_mul, Bool.bne_false]
    exact ofUnits_eq_finite (roundUnits_eq_of_mod_spacing a.representable.2 unitsPerOne_pos)

theorem neg_ofUnits (n d : ℕ) : (ofUnits false n d).neg = ofUnits true n d := by
  delta ofUnits
  cases Magnitude.nearest? n d with
  | none => rfl
  | some a => rfl

/-- **What rounding to two places gives** is the number nearest to a number of hundredths. -/
theorem exists_eq_hundredths {a : Magnitude} (h : a.units ≤ 2 ^ 46 * unitsPerOne) :
    ∃ k < 2 ^ 53, ((finite false a).mul (ofNat 100)).round.div (ofNat 100) =
      ofRatio false k 100 := by
  obtain ⟨b, hb, hbunits⟩ := exists_ofNat_eq (n := 100) (by decide)
  have hU := unitsPerOne_pos
  have hbound : roundUnits (a.units * b.units) unitsPerOne ≤ 100 * 2 ^ 46 * unitsPerOne := by
    have hle : a.units * b.units ≤ 100 * 2 ^ 46 * unitsPerOne * unitsPerOne := by
      calc a.units * b.units ≤ 2 ^ 46 * unitsPerOne * (100 * unitsPerOne) := by
            rw [hbunits]
            exact Nat.mul_le_mul_right _ h
        _ = 100 * 2 ^ 46 * unitsPerOne * unitsPerOne := by ring
    exact (roundUnits_mono hU hle).trans_eq
      (roundUnits_eq_of_mod_spacing (mod_spacing_of_lt (by decide)) hU)
  have hlt : roundUnits (a.units * b.units) unitsPerOne < unitsOfInfinity :=
    hbound.trans_lt (mul_unitsPerOne_lt (by decide))
  have hproduct : (finite false a).mul (ofNat 100) =
      .finite false ⟨_, hlt, roundUnits_mod_spacing _ _⟩ := by
    rw [hb]
    exact ofUnits_eq_finite rfl
  have hk : roundDiv .away (roundUnits (a.units * b.units) unitsPerOne) unitsPerOne ≤
      100 * 2 ^ 46 := by
    have hmono := roundDiv_mono .away hbound unitsPerOne
    rwa [roundDiv_mul_right .away _ hU] at hmono
  refine ⟨_, hk.trans_lt (by decide), ?_⟩
  rw [hproduct]
  exact ofNat_div_ofNat (representable_of_le (hk.trans (by decide)))
    (representable_of_le (by decide)) (by decide)

/-! ## Numbers without a sign -/

/-- No minus sign stands before the number. -/
def IsUnsigned : Binary64 → Prop
  | .finite negative _ => negative = false
  | .infinite negative => negative = false
  | .nan => True

theorem isUnsigned_ofUnits (n d : ℕ) : (ofUnits false n d).IsUnsigned := by
  rcases ofUnits_cases false n d with heq | ⟨a, heq, -⟩
  all_goals rw [heq]; rfl

theorem isUnsigned_ofNat (n : ℕ) : (ofNat n).IsUnsigned :=
  isUnsigned_ofUnits _ _

theorem IsUnsigned.div {x y : Binary64} (hx : x.IsUnsigned) (hy : y.IsUnsigned) :
    (x.div y).IsUnsigned := by
  cases x with
  | nan => trivial
  | infinite s =>
    obtain rfl : s = false := hx
    cases y with
    | nan => trivial
    | infinite t => trivial
    | finite t b =>
      obtain rfl : t = false := hy
      rfl
  | finite s a =>
    obtain rfl : s = false := hx
    cases y with
    | nan => trivial
    | infinite t =>
      obtain rfl : t = false := hy
      rfl
    | finite t b =>
      obtain rfl : t = false := hy
      by_cases hb : b.units = 0
      · by_cases ha : a.units = 0
        · simp [Binary64.div, hb, ha, IsUnsigned]
        · simp [Binary64.div, hb, ha, IsUnsigned]
      · rw [div_finite hb]
        exact isUnsigned_ofUnits _ _

/-- What is below an exact number is finite. -/
theorem IsUnsigned.exists_of_lt {x : Binary64} (hx : x.IsUnsigned) {n : ℕ} (hn : n ≤ 2 ^ 53)
    (hlt : x.lt (ofNat n) = true) :
    ∃ a : Magnitude, x = .finite false a ∧ a.units < n * unitsPerOne := by
  obtain ⟨b, hb, hunits⟩ := exists_ofNat_eq hn
  rw [hb] at hlt
  cases x with
  | nan => cases hlt
  | infinite s =>
    obtain rfl : s = false := hx
    cases hlt
  | finite s a =>
    obtain rfl : s = false := hx
    refine ⟨a, rfl, ?_⟩
    have hsigned : signedUnits false a < signedUnits false b := of_decide_eq_true hlt
    simpa [signedUnits, hunits] using Int.ofNat_lt.1 hsigned

end Binary64

end MatlabQuality.Number
