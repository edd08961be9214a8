import Mathlib.Data.Int.Order.Basic
import Mathlib.Order.MinMax
import MatlabQuality.Proofs.Number.Rounding

/-!
# The order of binary64 numbers

Rounding never turns two numbers around, so every operation keeps the order of its arguments or
reverses it as the exact operation does.  To compare numbers of all signs and the infinities at
once, each of them has a key, a whole number of units.

## Main definitions

* `Binary64.key` — the place of a number in the order.
* `Binary64.clampedUnits` — a rounded size, or the first one that is too large.

## Main statements

* `roundDiv_mono`, `roundUnits_mono` — rounding is monotone.
* `roundUnits_scale` — rounding depends on the quotient alone.
* `Binary64.le_iff_key` — the order by keys.
* `Binary64.div_le_div`, `mul_le_mul`, `sub_le_sub`, `max_le_max`, `round_le_round` — the
  operations are monotone.
-/

namespace MatlabQuality.Number

-- The two powers of two are too large to be computed in passing.
attribute [local irreducible] unitsPerOne unitsOfInfinity

/-! ## Rounding is monotone -/

/-- **Rounding a quotient is monotone.** -/
theorem roundDiv_mono (tie : Tie) {n n' : ℕ} (h : n ≤ n') (d : ℕ) :
    roundDiv tie n d ≤ roundDiv tie n' d := by
  have hdiv : n / d ≤ n' / d := Nat.div_le_div_right h
  obtain ⟨-, hupper⟩ := roundDiv_bounds tie n d
  obtain ⟨hlower, -⟩ := roundDiv_bounds tie n' d
  by_cases hsame : n / d = n' / d
  · -- Both lie between the same two whole numbers, and the remainders decide.
    have hrem : n % d ≤ n' % d := by
      have hn := Nat.div_add_mod n d
      have hn' := Nat.div_add_mod n' d
      rw [hsame] at hn
      omega
    simp only [roundDiv, hsame]
    split <;> split <;> (try split) <;> (try split) <;> (try split) <;> omega
  · omega

theorem roundDiv_scale (tie : Tie) (n d : ℕ) {c : ℕ} (hc : 0 < c) :
    roundDiv tie (n * c) (d * c) = roundDiv tie n d := by
  have hless : ∀ a b : ℕ, 2 * (a * c) < b * c ↔ 2 * a < b := by
    intro a b
    rw [← Nat.mul_assoc, Nat.mul_lt_mul_right hc]
  have hmore : ∀ a b : ℕ, b * c < 2 * (a * c) ↔ b < 2 * a := by
    intro a b
    rw [← Nat.mul_assoc, Nat.mul_lt_mul_right hc]
  simp only [roundDiv, Nat.mul_div_mul_right n d hc, Nat.mul_mod_mul_right, hless, hmore]

/-- **The size nearest to a quotient depends on the quotient alone.** -/
theorem roundUnits_scale (n d : ℕ) {c : ℕ} (hc : 0 < c) :
    roundUnits (n * c) (d * c) = roundUnits n d := by
  rw [roundUnits, roundUnits, Nat.mul_div_mul_right n d hc, Nat.mul_right_comm d c,
    roundDiv_scale _ _ _ hc]

/-- A number of steps that is not reached is not passed by rounding. -/
theorem roundUnits_le_of_dvd {n d b : ℕ} (hd : 0 < d) (hdvd : spacing (n / d) ∣ b)
    (h : n ≤ b * d) : roundUnits n d ≤ b := by
  obtain ⟨j, rfl⟩ := hdvd
  have hn : n ≤ j * (d * spacing (n / d)) := by
    calc n ≤ spacing (n / d) * j * d := h
      _ = j * (d * spacing (n / d)) := by ring
  have hround := roundDiv_mono .toEven hn (d * spacing (n / d))
  rw [roundDiv_mul_right .toEven j (Nat.mul_pos hd (spacing_pos _))] at hround
  rw [roundUnits, Nat.mul_comm (spacing _)]
  exact Nat.mul_le_mul_right _ hround

/-- A number of steps that is reached is not missed by rounding. -/
theorem le_roundUnits_of_dvd {n d b : ℕ} (hd : 0 < d) (hdvd : spacing (n / d) ∣ b)
    (h : b * d ≤ n) : b ≤ roundUnits n d := by
  obtain ⟨j, rfl⟩ := hdvd
  have hn : j * (d * spacing (n / d)) ≤ n := by
    calc j * (d * spacing (n / d)) = spacing (n / d) * j * d := by ring
      _ ≤ n := h
  have hround := roundDiv_mono .toEven hn (d * spacing (n / d))
  rw [roundDiv_mul_right .toEven j (Nat.mul_pos hd (spacing_pos _))] at hround
  rw [roundUnits, Nat.mul_comm (spacing _)]
  exact Nat.mul_le_mul_right _ hround

/-- A power of two that is not reached is a number of steps. -/
theorem spacing_dvd_two_pow_of_lt {q e : ℕ} (h : q < 2 ^ e) : spacing q ∣ 2 ^ e := by
  refine Nat.pow_dvd_pow 2 ?_
  by_cases hzero : q = 0
  · rw [hzero]
    simp
  · have hlog := (Nat.log2_lt hzero).2 h
    omega

/-- **Rounding a size is monotone.** -/
theorem roundUnits_mono {n n' d : ℕ} (hd : 0 < d) (h : n ≤ n') :
    roundUnits n d ≤ roundUnits n' d := by
  have hdiv : n / d ≤ n' / d := Nat.div_le_div_right h
  by_cases hlog : (n / d).log2 = (n' / d).log2
  · -- Both sizes are rounded to the same steps.
    have hstep : spacing (n / d) = spacing (n' / d) := congrArg (fun e => Nat.pow 2 (e - 52)) hlog
    simp only [roundUnits, hstep]
    exact Nat.mul_le_mul_right _ (roundDiv_mono .toEven h _)
  · -- A power of two lies between them.
    have hpos : n' / d ≠ 0 := by
      intro hzero
      rw [hzero] at hdiv hlog
      exact hlog (congrArg Nat.log2 (Nat.le_zero.1 hdiv))
    have hbelow : n / d < 2 ^ (n' / d).log2 := by
      by_cases hzero : n / d = 0
      · rw [hzero]
        exact Nat.two_pow_pos _
      · have hle : (n / d).log2 ≤ (n' / d).log2 :=
          (Nat.le_log2 hpos).2 ((Nat.log2_self_le hzero).trans hdiv)
        exact (Nat.log2_lt hzero).1 (lt_of_le_of_ne hle hlog)
    calc roundUnits n d ≤ 2 ^ (n' / d).log2 :=
          roundUnits_le_of_dvd hd (spacing_dvd_two_pow_of_lt hbelow)
            ((Nat.div_lt_iff_lt_mul hd).1 hbelow).le
      _ ≤ roundUnits n' d :=
          le_roundUnits_of_dvd hd (Nat.pow_dvd_pow 2 (Nat.sub_le _ _))
            ((Nat.le_div_iff_mul_le hd).1 (Nat.log2_self_le hpos))

theorem roundDiv_zero_left (tie : Tie) {d : ℕ} (hd : 0 < d) : roundDiv tie 0 d = 0 := by
  have h := roundDiv_mul_right tie 0 hd
  rwa [Nat.zero_mul] at h

theorem roundUnits_zero_left {d : ℕ} (hd : 0 < d) : roundUnits 0 d = 0 := by
  rw [roundUnits, roundDiv_zero_left .toEven (Nat.mul_pos hd (spacing_pos _)), Nat.zero_mul]

namespace Binary64

/-! ## Keys -/

/-- The place of a number in the order: its signed units, and for an infinity the first size that
is too large. -/
def key : Binary64 → ℤ
  | .finite s a => signedUnits s a
  | .infinite true => -unitsOfInfinity
  | .infinite false => unitsOfInfinity
  | .nan => 0

/-- Every number lies between the infinities, and strictly if it is finite. -/
theorem abs_signedUnits_lt (s : Bool) (a : Magnitude) : |signedUnits s a| < unitsOfInfinity := by
  have ha : (a.units : ℤ) < unitsOfInfinity := by exact_mod_cast a.representable.1
  cases s <;> simpa [signedUnits] using ha

/-- **The order by keys.** -/
theorem le_iff_key {x y : Binary64} : x.le y = true ↔ x ≠ .nan ∧ y ≠ .nan ∧ x.key ≤ y.key := by
  have hinfinity : (0 : ℤ) < unitsOfInfinity := by exact_mod_cast unitsOfInfinity_pos
  cases x with
  | nan => simp [le]
  | finite s a =>
    have ha := abs_lt.1 (abs_signedUnits_lt s a)
    cases y with
    | nan => simp [le]
    | finite t b => simp [le, key]
    | infinite t =>
      cases t with
      | false => simp [le, key]; omega
      | true => simp [le, key]; omega
  | infinite s =>
    cases y with
    | nan => cases s <;> simp [le]
    | finite t b =>
      have hb := abs_lt.1 (abs_signedUnits_lt t b)
      cases s with
      | false => simp [le, key]; omega
      | true => simp [le, key]; omega
    | infinite t =>
      cases s with
      | false => cases t <;> simp [le, key]; omega
      | true => cases t <;> simp [le, key]

theorem lt_trans_le {x y z : Binary64} (hxy : x.lt y = true) (hyz : y.le z = true) :
    x.lt z = true := by
  cases x <;> cases y <;> cases z <;> simp_all [lt, le]
  omega

/-! ## Rounding to a number -/

/-- A size that is rounded, or the first one that is too large. -/
def clampedUnits (n d : ℕ) : ℕ :=
  min (roundUnits n d) unitsOfInfinity

theorem clampedUnits_mono {d : ℕ} (hd : 0 < d) : Monotone (clampedUnits · d) :=
  fun _ _ h => min_le_min_right _ (roundUnits_mono hd h)

/-- A monotone function of sizes, carried over to signed sizes, is monotone. -/
theorem sign_mul_natAbs_mono {f : ℕ → ℕ} (hf : Monotone f) {i j : ℤ} (h : i ≤ j) :
    i.sign * (f i.natAbs : ℤ) ≤ j.sign * (f j.natAbs : ℤ) := by
  rcases lt_trichotomy i 0 with hi | rfl | hi
  · rcases lt_trichotomy j 0 with hj | rfl | hj
    · have hle : (f j.natAbs : ℤ) ≤ f i.natAbs := by exact_mod_cast hf (by omega)
      rw [Int.sign_eq_neg_one_of_neg hi, Int.sign_eq_neg_one_of_neg hj]
      omega
    · rw [Int.sign_eq_neg_one_of_neg hi, Int.sign_zero]
      omega
    · rw [Int.sign_eq_neg_one_of_neg hi, Int.sign_eq_one_of_pos hj]
      omega
  · rcases h.eq_or_lt with rfl | hj
    · exact le_rfl
    · rw [Int.sign_zero, Int.sign_eq_one_of_pos hj]
      omega
  · have hle : (f i.natAbs : ℤ) ≤ f j.natAbs := by exact_mod_cast hf (by omega)
    rw [Int.sign_eq_one_of_pos hi, Int.sign_eq_one_of_pos (hi.trans_le h)]
    omega

/-- A signed count. -/
def signed (s : Bool) (n : ℕ) : ℤ :=
  if s then -(n : ℤ) else n

theorem signed_eq_sign_mul {f : ℕ → ℕ} (hf : f 0 = 0) (s : Bool) (n : ℕ) :
    signed s (f n) = (signed s n).sign * (f (signed s n).natAbs : ℤ) := by
  rcases Nat.eq_zero_or_pos n with rfl | hn
  · cases s <;> simp [signed, hf]
  · cases s with
    | false =>
      have hsign : (signed false n).sign = 1 := Int.sign_eq_one_of_pos (by simpa [signed] using hn)
      rw [hsign]
      simp [signed]
    | true =>
      have hsign : (signed true n).sign = -1 :=
        Int.sign_eq_neg_one_of_neg (by simpa [signed] using hn)
      rw [hsign]
      simp [signed]

/-- A rounded size is that of a number, or too large. -/
theorem ofUnits_cases (s : Bool) (n d : ℕ) :
    ofUnits s n d = .infinite s ∨
      ∃ a : Magnitude, ofUnits s n d = .finite s a ∧ a.units = roundUnits n d := by
  delta ofUnits Magnitude.nearest?
  by_cases h : roundUnits n d < unitsOfInfinity
  · rw [dif_pos h]
    exact .inr ⟨_, rfl, rfl⟩
  · rw [dif_neg h]
    exact .inl rfl

theorem ofUnits_zero (s : Bool) {d : ℕ} (hd : 0 < d) : ofUnits s 0 d = zero s := by
  have hround : roundUnits 0 d = 0 := roundUnits_zero_left hd
  have hnearest : Magnitude.nearest? 0 d = some .zero := by
    rw [Magnitude.nearest?, dif_pos (by rw [hround]; exact unitsOfInfinity_pos)]
    simp only [hround]
    rfl
  delta ofUnits
  rw [hnearest]
  rfl

theorem ofUnits_ne_nan (s : Bool) (n d : ℕ) : ofUnits s n d ≠ .nan := by
  delta ofUnits
  cases Magnitude.nearest? n d <;> simp

theorem key_ofUnits (s : Bool) (n d : ℕ) : (ofUnits s n d).key = signed s (clampedUnits n d) := by
  delta ofUnits Magnitude.nearest?
  by_cases h : roundUnits n d < unitsOfInfinity
  · rw [dif_pos h]
    simp only [key, signedUnits, signed, clampedUnits, min_eq_left h.le]
  · rw [dif_neg h]
    cases s <;> simp [key, signed, clampedUnits, min_eq_right (not_lt.1 h)]

/-- **Rounding to a number is monotone.** -/
theorem key_ofUnits_mono {s t : Bool} {m n d : ℕ} (hd : 0 < d) (h : signed s m ≤ signed t n) :
    (ofUnits s m d).key ≤ (ofUnits t n d).key := by
  have hzero : clampedUnits 0 d = 0 := by
    rw [clampedUnits, roundUnits_zero_left hd, Nat.zero_min]
  rw [key_ofUnits, key_ofUnits, signed_eq_sign_mul (f := (clampedUnits · d)) hzero,
    signed_eq_sign_mul (f := (clampedUnits · d)) hzero]
  exact sign_mul_natAbs_mono (clampedUnits_mono hd) h

theorem ofNat_le_ofNat {m n : ℕ} (h : m ≤ n) : (ofNat m).le (ofNat n) = true := by
  rw [le_iff_key, ofNat, ofNat, ofRatio, ofRatio]
  refine ⟨ofUnits_ne_nan _ _ _, ofUnits_ne_nan _ _ _, key_ofUnits_mono Nat.one_pos ?_⟩
  have hle := Nat.mul_le_mul_right unitsPerOne h
  simp only [signed, Bool.false_eq_true, if_false]
  exact_mod_cast hle

theorem abs_key_ofUnits_le (s : Bool) (n d : ℕ) : |(ofUnits s n d).key| ≤ unitsOfInfinity := by
  have hle : (clampedUnits n d : ℤ) ≤ unitsOfInfinity := by exact_mod_cast min_le_right _ _
  rw [key_ofUnits, abs_le]
  cases s <;> simp [signed] <;> omega

/-! ## Operations -/

section Operations

variable {x y : Binary64} {b : Magnitude}

/-- **An operation that rounds a monotone function of the size is monotone**, if it keeps the sign
and the infinities. -/
theorem le_of_eq_ofUnits {g : Binary64 → Binary64} {f : ℕ → ℕ} {d : ℕ} (hf : Monotone f)
    (hzero : f 0 = 0) (hd : 0 < d) (hfinite : ∀ s a, g (.finite s a) = ofUnits s (f a.units) d)
    (hinfinite : ∀ s, g (.infinite s) = .infinite s) (h : x.le y = true) :
    (g x).le (g y) = true := by
  obtain ⟨hx, hy, hkey⟩ := le_iff_key.1 h
  rw [le_iff_key]
  cases x with
  | nan => exact absurd rfl hx
  | finite s a =>
    rw [hfinite]
    have ha := abs_lt.1 (abs_signedUnits_lt s a)
    have hrounded := abs_le.1 (abs_key_ofUnits_le s (f a.units) d)
    cases y with
    | nan => exact absurd rfl hy
    | finite t b =>
      rw [hfinite]
      refine ⟨ofUnits_ne_nan _ _ _, ofUnits_ne_nan _ _ _, key_ofUnits_mono hd ?_⟩
      rw [signed_eq_sign_mul hzero, signed_eq_sign_mul hzero]
      exact sign_mul_natAbs_mono hf hkey
    | infinite t =>
      rw [hinfinite]
      refine ⟨ofUnits_ne_nan _ _ _, hy, ?_⟩
      cases t with
      | false => exact hrounded.2
      | true => simp only [key] at hkey; omega
  | infinite s =>
    rw [hinfinite]
    cases y with
    | nan => exact absurd rfl hy
    | finite t b =>
      rw [hfinite]
      have hb := abs_lt.1 (abs_signedUnits_lt t b)
      have hrounded := abs_le.1 (abs_key_ofUnits_le t (f b.units) d)
      refine ⟨hx, ofUnits_ne_nan _ _ _, ?_⟩
      cases s with
      | false => simp only [key] at hkey; omega
      | true => exact hrounded.1
    | infinite t =>
      rw [hinfinite]
      exact ⟨hx, hy, hkey⟩

theorem div_le_div (h : x.le y = true) (hb : b.units ≠ 0) :
    (x.div (.finite false b)).le (y.div (.finite false b)) = true := by
  refine le_of_eq_ofUnits (g := fun x => x.div (.finite false b)) (f := (· * unitsPerOne))
    (fun _ _ h => Nat.mul_le_mul_right _ h) (Nat.zero_mul _) (Nat.pos_of_ne_zero hb) ?_ ?_ h
  · intro s a
    simp [div, hb]
  · intro s
    simp [div]

theorem mul_le_mul (h : x.le y = true) (hb : b.units ≠ 0) :
    (x.mul (.finite false b)).le (y.mul (.finite false b)) = true := by
  refine le_of_eq_ofUnits (g := fun x => x.mul (.finite false b)) (f := (· * b.units))
    (fun _ _ h => Nat.mul_le_mul_right _ h) (Nat.zero_mul _) unitsPerOne_pos ?_ ?_ h
  · intro s a
    simp [mul]
  · intro s
    simp [mul, hb]

theorem round_le_round (h : x.le y = true) : x.round.le y.round = true := by
  refine le_of_eq_ofUnits (g := round) (f := (roundDiv .away · unitsPerOne * unitsPerOne))
    (fun _ _ h => Nat.mul_le_mul_right _ (roundDiv_mono .away h _)) ?_ Nat.one_pos ?_ ?_ h
  · rw [roundDiv_zero_left .away unitsPerOne_pos, Nat.zero_mul]
  · intro s a
    rfl
  · intro s
    rfl

/-- The key of a difference is that of the exact difference, rounded. -/
theorem key_sub_finite (s t : Bool) (a b : Magnitude) :
    ((finite s a).sub (.finite t b)).key =
      (ofUnits (signedUnits s a - signedUnits t b < 0)
        (signedUnits s a - signedUnits t b).natAbs 1).key := by
  simp only [sub]
  generalize signedUnits s a - signedUnits t b = d
  by_cases hd : d = 0
  · rw [if_pos hd, hd, key_ofUnits]
    have hzero : clampedUnits 0 1 = 0 := by
      rw [clampedUnits, roundUnits_zero_left Nat.one_pos, Nat.zero_min]
    simp [zero, key, signedUnits, Magnitude.zero, signed, hzero]
  · rw [if_neg hd]

theorem sub_finite_ne_nan (s t : Bool) (a b : Magnitude) :
    (finite s a).sub (.finite t b) ≠ .nan := by
  simp only [sub]
  split
  · simp [zero]
  · exact ofUnits_ne_nan _ _ _

theorem signed_natAbs (i : ℤ) : signed (i < 0) i.natAbs = i := by
  rcases lt_or_ge i 0 with h | h
  · simp only [signed, h, decide_true, if_true]
    omega
  · simp only [signed, not_lt.2 h, decide_false, Bool.false_eq_true, if_false]
    omega

/-- A larger number leaves less. -/
theorem sub_le_sub (s : Bool) (c : Magnitude) (h : x.le y = true) :
    ((finite s c).sub y).le ((finite s c).sub x) = true := by
  obtain ⟨hx, hy, hkey⟩ := le_iff_key.1 h
  rw [le_iff_key]
  cases x with
  | nan => exact absurd rfl hx
  | finite t a =>
    cases y with
    | nan => exact absurd rfl hy
    | finite u b =>
      refine ⟨sub_finite_ne_nan _ _ _ _, sub_finite_ne_nan _ _ _ _, ?_⟩
      rw [key_sub_finite, key_sub_finite]
      refine key_ofUnits_mono Nat.one_pos ?_
      rw [signed_natAbs, signed_natAbs]
      exact Int.sub_le_sub_left hkey _
    | infinite u =>
      have ha := abs_lt.1 (abs_signedUnits_lt t a)
      cases u with
      | false =>
        refine ⟨by simp [sub], sub_finite_ne_nan _ _ _ _, ?_⟩
        rw [key_sub_finite]
        exact (abs_le.1 (abs_key_ofUnits_le _ _ _)).1
      | true => simp only [key] at hkey; omega
  | infinite t =>
    cases y with
    | nan => exact absurd rfl hy
    | finite u b =>
      have hb := abs_lt.1 (abs_signedUnits_lt u b)
      cases t with
      | false => simp only [key] at hkey; omega
      | true =>
        refine ⟨sub_finite_ne_nan _ _ _ _, by simp [sub], ?_⟩
        rw [key_sub_finite]
        exact (abs_le.1 (abs_key_ofUnits_le _ _ _)).2
    | infinite u =>
      refine ⟨by simp [sub], by simp [sub], ?_⟩
      cases t <;> cases u <;> simp_all [sub, key]

/-- Of two numbers that are not in order, the other is smaller. -/
theorem lt_iff_not_le (hx : x ≠ .nan) (hy : y ≠ .nan) : x.lt y = true ↔ ¬ y.le x = true := by
  cases x <;> cases y <;> simp_all [lt, le, and_comm]

theorem max_le_max {z : Binary64} (hz : z ≠ .nan) (h : x.le y = true) :
    (x.max z).le (y.max z) = true := by
  obtain ⟨hx, hy, hkey⟩ := le_iff_key.1 h
  rw [max, max]
  split
  · split
    · exact le_iff_key.2 ⟨hz, hz, le_rfl⟩
    · rename_i hlt
      rw [lt_iff_not_le hy hz, not_not] at hlt
      exact hlt
  · rename_i hlt
    rw [lt_iff_not_le hx hz, not_not] at hlt
    split
    · rename_i hlt'
      rw [lt_iff_not_le hy hz, le_iff_key] at hlt'
      exact absurd ⟨hz, hy, (le_iff_key.1 hlt).2.2.trans hkey⟩ hlt'
    · exact h

/-- A number that is not the positive infinity has no smaller whole part than the numbers below
it. -/
theorem toNat_le_toNat (h : x.le y = true) (hy : y ≠ .infinite false) : x.toNat ≤ y.toNat := by
  cases x with
  | nan => exact Nat.zero_le _
  | infinite s => exact Nat.zero_le _
  | finite s a =>
    cases s with
    | true => exact Nat.zero_le _
    | false =>
      cases y with
      | nan => exact absurd h Bool.false_ne_true
      | infinite t =>
        cases t with
        | false => exact absurd rfl hy
        | true => exact absurd h Bool.false_ne_true
      | finite t b =>
        cases t with
        | false =>
          have hle : a.units ≤ b.units := by simpa [le, signedUnits] using h
          exact Nat.div_le_div_right hle
        | true =>
          have hle : (a.units : ℤ) ≤ -b.units := by simpa [le, signedUnits] using h
          have hzero : a.units = 0 := by omega
          simp [toNat, hzero]

/-- Below a finite number there is no positive infinity. -/
theorem ne_infinite_of_le (h : x.le y = true) (hy : y.isFinite = true) : x ≠ .infinite false := by
  rintro rfl
  cases y <;> simp_all [le, isFinite]

end Operations

end Binary64

end MatlabQuality.Number
