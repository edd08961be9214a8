import MatlabQuality.Proofs.Number.Layout

/-!
# Every size is recovered from its written form

Seventeen digits tell every size from its neighbours: the decimals with that many digits lie closer
together than sizes do, so one of the two around a size rounds to it.  The search for a shortest
form therefore ends for every size, and what is written of it, with a point or an exponent, is
nearest to that size again.

## Main definitions

* `Written.IsDigits` — digits on both sides of a point, and no zero before other digits.
* `Written.value` — the number that a written size says.

## Main statements

* `Magnitude.neighbour?_seventeen` — seventeen digits are enough.
* `Magnitude.roundedUnits_shortest` — the shortest form of a size rounds to it.
* `Binary64.ofDecimal_eq_ofUnits` — a decimal is rounded once, however large its exponent is.
* `Layout.parts_spec` — a written number is nearest to what its digits say.
-/

namespace MatlabQuality.Number

attribute [local irreducible] unitsPerOne unitsOfInfinity

/-! ## Seventeen digits -/

/-- A size has less than `2 ^ 53` steps of its spacing. -/
theorem lt_two_pow_mul_spacing (n : ℕ) : n < 2 ^ 53 * spacing n := by
  calc n < 2 ^ (n.log2 + 1) := Nat.lt_log2_self
    _ ≤ 2 ^ (53 + (n.log2 - 52)) := Nat.pow_le_pow_right (by decide) (by omega)
    _ = 2 ^ 53 * spacing n := pow_add 2 53 _

/-- A positive number is at least the power of ten with as many digits. -/
theorem ten_pow_le_of_length {n k : ℕ} (hn : n ≠ 0) (h : (decimalDigits n).length = k + 1) :
    10 ^ k ≤ n := by
  rcases Nat.eq_zero_or_pos k with rfl | hpos
  · exact Nat.pos_of_ne_zero hn
  · have hlong : ¬ (decimalDigits n).length ≤ k := by omega
    rw [length_decimalDigits_le_iff hpos] at hlong
    omega

namespace Magnitude

/-- The decade of a size is a power of ten that does not exceed it. -/
theorem exists_decade_eq {a : Magnitude} (ha : a.units ≠ 0) :
    ∃ k scale : ℕ, a.decade = k - scale ∧
      10 ^ k * unitsPerOne ≤ a.units * Nat.pow 10 scale := by
  have hexponent : unitExponent ≤ 3 * decadeShift := by
    rw [unitExponent_eq, decadeShift]
    decide
  have hpower : unitsPerOne ≤ Nat.pow 10 decadeShift := by
    calc unitsPerOne = 2 ^ unitExponent := unitsPerOne_eq
      _ ≤ 2 ^ (3 * decadeShift) := Nat.pow_le_pow_right (by decide) hexponent
      _ = (2 ^ 3) ^ decadeShift := pow_mul 2 3 decadeShift
      _ ≤ 10 ^ decadeShift := Nat.pow_le_pow_left (by decide) decadeShift
  have hscaled : a.units * Nat.pow 10 decadeShift / unitsPerOne ≠ 0 :=
    (Nat.div_pos (hpower.trans (Nat.le_mul_of_pos_left _ (Nat.pos_of_ne_zero ha)))
      unitsPerOne_pos).ne'
  obtain ⟨k, hk⟩ := Nat.exists_eq_add_of_lt
    (length_decimalDigits_pos (a.units * Nat.pow 10 decadeShift / unitsPerOne))
  rw [Nat.zero_add] at hk
  refine ⟨k, decadeShift, by rw [decade, hk]; omega, ?_⟩
  exact (Nat.le_div_iff_mul_le unitsPerOne_pos).1 (ten_pow_le_of_length hscaled hk)

/-- Decimals with seventeen digits are `10 ^ 16` times closer together than the size is large. -/
theorem unitsPerTenPow_decade_le {a : Magnitude} (ha : a.units ≠ 0) :
    (unitsPerTenPow (a.decade - (17 : ℕ) + 1)).1 * 10 ^ 16 ≤
      a.units * (unitsPerTenPow (a.decade - (17 : ℕ) + 1)).2 := by
  obtain ⟨k, scale, hdecade, hk⟩ := exists_decade_eq ha
  have hten : 0 < 10 ^ scale := Nat.pow_pos (by decide)
  rcases Nat.le_total (scale + 16) k with hle | hle
  · obtain ⟨j, rfl⟩ := Nat.exists_eq_add_of_le hle
    have hexponent : a.decade - (17 : ℕ) + 1 = (j : ℤ) := by omega
    rw [hexponent, unitsPerTenPow_natCast, Nat.mul_one]
    refine Nat.le_of_mul_le_mul_right ?_ hten
    calc unitsPerOne * 10 ^ j * 10 ^ 16 * 10 ^ scale = 10 ^ (scale + 16 + j) * unitsPerOne := by
          ring
      _ ≤ a.units * 10 ^ scale := hk
  · obtain ⟨j, hj⟩ := Nat.exists_eq_add_of_le hle
    have hexponent : a.decade - (17 : ℕ) + 1 = -(j : ℤ) := by omega
    rw [hexponent, unitsPerTenPow_neg]
    refine Nat.le_of_mul_le_mul_right ?_ hten
    calc unitsPerOne * 10 ^ 16 * 10 ^ scale = 10 ^ (scale + 16) * unitsPerOne := by ring
      _ = 10 ^ k * unitsPerOne * 10 ^ j := by
          rw [hj]
          ring
      _ ≤ a.units * 10 ^ scale * 10 ^ j := Nat.mul_le_mul_right _ hk
      _ = a.units * 10 ^ j * 10 ^ scale := by ring

/-- What lies strictly between the points halfway to the neighbours of a size reads back. -/
theorem readsBack_of_between {a : Magnitude} (ha : a.units ≠ 0) (d : Decimal)
    (hleast : (4 * a.units - 2 * gapBelow a.units) * (unitsPerTenPow d.exponent).2 <
      4 * (d.digits * (unitsPerTenPow d.exponent).1))
    (hgreatest : 4 * (d.digits * (unitsPerTenPow d.exponent).1) <
      (4 * a.units + 2 * spacing a.units) * (unitsPerTenPow d.exponent).2) :
    a.readsBack d = true := by
  rw [readsBack_iff ha, Decimal.roundedUnits,
    roundUnits_eq_iff (unitsPerTenPow_pos d.exponent).2 ha a.representable.2]
  exact ⟨hleast.le, hgreatest.le, fun _ => ⟨hleast.ne, hgreatest.ne⟩⟩

/-- **Seventeen digits are enough.**  The decimals around a size are closer together than its
spacing, so the nearer one is less than half of it away.  Above a power of two, where the gap below
is only half as wide, they are closer together than half of the spacing, and the upper one will
do. -/
theorem neighbour?_seventeen {a : Magnitude} (ha : a.units ≠ 0) (tie : Tie) :
    a.neighbour? tie (a.decade - (17 : ℕ) + 1) ≠ none := by
  have hclose := unitsPerTenPow_decade_le ha
  obtain ⟨hn, hm⟩ := unitsPerTenPow_pos (a.decade - (17 : ℕ) + 1)
  have hreads : ∀ k : ℕ, _ → _ → a.readsBack ⟨k, a.decade - (17 : ℕ) + 1⟩ = true :=
    fun k => readsBack_of_between ha ⟨k, a.decade - (17 : ℕ) + 1⟩
  have hfound : ∀ k : ℕ, _ → _ → a.neighbour? tie (a.decade - (17 : ℕ) + 1) ≠ none :=
    fun k => Magnitude.neighbour?_ne_none (k := k) (e := a.decade - (17 : ℕ) + 1)
  dsimp only at hreads
  generalize (unitsPerTenPow (a.decade - (17 : ℕ) + 1)).1 = n at *
  generalize (unitsPerTenPow (a.decade - (17 : ℕ) + 1)).2 = m at *
  have hdown : a.units * m / n * n ≤ a.units * m := Nat.div_mul_le_self _ _
  have hup : a.units * m < a.units * m / n * n + n := Nat.lt_div_mul_add hn
  have hsucc : (a.units * m / n + 1) * n = a.units * m / n * n + n := Nat.succ_mul _ _
  have hwide : (4 * a.units + 2 * spacing a.units) * m =
      4 * (a.units * m) + 2 * (spacing a.units * m) := by ring
  have hnarrow : (4 * a.units - 2 * gapBelow a.units) * m =
      4 * (a.units * m) - 2 * (gapBelow a.units * m) := by
    rw [Nat.sub_mul, Nat.mul_assoc, Nat.mul_assoc]
  rw [hwide, hnarrow] at hreads
  obtain hgap | ⟨e, hpower, hspacing, hgap⟩ := gapBelow_cases a.units
  · have hstep : n < spacing a.units * m := by
      have hlt : a.units * m < 2 ^ 53 * spacing a.units * m :=
        Nat.mul_lt_mul_of_pos_right (lt_two_pow_mul_spacing _) hm
      rw [Nat.mul_assoc] at hlt
      omega
    rw [hgap] at hreads
    by_cases hnear : 2 * (a.units * m) ≤ 2 * (a.units * m / n * n) + n
    · exact hfound _ (.inl rfl) (hreads _ (by omega) (by omega))
    · exact hfound _ (.inr rfl) (hreads _ (by omega) (by omega))
  · have hstep : 2 * n < spacing a.units * m := by
      have hunits : a.units * m = 2 ^ 52 * (spacing a.units * m) := by
        rw [hspacing, ← Nat.mul_assoc, ← pow_add, hpower]
        congr 2
        omega
      omega
    exact hfound _ (.inr rfl) (hreads _ (by omega) (by omega))

/-- **The shortest form of a size rounds to it.** -/
theorem roundedUnits_shortest {a : Magnitude} (ha : a.units ≠ 0) (tie : Tie) :
    (a.shortest tie).roundedUnits = a.units := by
  obtain ⟨found, -, heq⟩ := Decimal.exists_firstFrom
    (fun count => a.neighbour? tie (a.decade - count + 1)) 1 17 (c := 17) (by decide) (by decide)
    (neighbour?_seventeen ha tie)
  have hshortest : a.shortest tie = (Decimal.firstFrom
      (fun count => a.neighbour? tie (a.decade - count + 1)) 1 17).stripZeros 18 :=
    if_neg ha
  have hreads := (of_neighbour? heq).1
  rw [hshortest, (Decimal.stripZeros_spec 18 _).1, (readsBack_iff ha _).1 hreads]

theorem digits_shortest_ne_zero {a : Magnitude} (ha : a.units ≠ 0) (tie : Tie) :
    (a.shortest tie).digits ≠ 0 := by
  intro hzero
  have hunits := roundedUnits_shortest ha tie
  rw [Decimal.roundedUnits, hzero, Nat.zero_mul,
    roundUnits_zero_left (unitsPerTenPow_pos _).2] at hunits
  exact ha hunits.symm

theorem eq_zero_of_units {a : Magnitude} (h : a.units = 0) : a = .zero := by
  obtain ⟨units, hunits⟩ := a
  obtain rfl : units = 0 := h
  rfl

end Magnitude

/-! ## Decimals -/

/-- Less than half a unit is rounded to nought. -/
theorem roundUnits_eq_zero {n d : ℕ} (h : 2 * n < d) : roundUnits n d = 0 := by
  have hdiv : n / d = 0 := Nat.div_eq_of_lt (by omega)
  have hone : spacing (n / d) = 1 := by
    rw [hdiv]
    decide
  have hround : roundDiv .toEven n d = 0 := by
    rw [roundDiv_toEven_eq_iff (by omega)]
    omega
  rw [roundUnits, hone]
  simp only [Nat.mul_one]
  exact hround

namespace Binary64

theorem ofUnits_eq_infinite {negative : Bool} {n d : ℕ} (h : unitsOfInfinity ≤ roundUnits n d) :
    ofUnits negative n d = .infinite negative := by
  delta ofUnits Magnitude.nearest?
  rw [dif_neg (Nat.not_lt.2 h)]

/-- A positive number of the order of `10 ^ 310` is too large to be finite. -/
theorem ofUnits_of_large (negative : Bool) {d j : ℕ} (hd : d ≠ 0) (hj : 309 < j) :
    ofUnits negative (d * (unitsPerOne * 10 ^ j)) 1 = .infinite negative := by
  have hpower : unitsOfInfinity % spacing unitsOfInfinity = 0 := by
    have hmod := mod_spacing_mul_two_pow (k := 1) (by decide) infinityExponent
    have hunits : unitsOfInfinity = 1 * 2 ^ infinityExponent := by
      rw [unitsOfInfinity_eq, Nat.one_mul]
    rwa [← hunits] at hmod
  refine ofUnits_eq_infinite (le_roundUnits_of_le Nat.one_pos hpower ?_)
  calc unitsOfInfinity * 1 ≤ 1 * (unitsPerOne * 10 ^ 310) := by
        rw [unitsPerOne_eq]
        decide +kernel
    _ ≤ d * (unitsPerOne * 10 ^ j) := Nat.mul_le_mul (Nat.pos_of_ne_zero hd)
        (Nat.mul_le_mul_left _ (Nat.pow_le_pow_right (by decide) hj))

/-- A number far below the least unit is nought. -/
theorem ofUnits_of_small (negative : Bool) {d j : ℕ}
    (h : (d.log2 : ℤ) + 1 + 3 * -(j : ℤ) ≤ -1076) :
    ofUnits negative (d * unitsPerOne) (10 ^ j) = zero negative := by
  have hexponent := unitExponent_eq
  have hsmall : 2 * (d * unitsPerOne) < 10 ^ j := by
    calc 2 * (d * unitsPerOne) = d * 2 ^ (unitExponent + 1) := by
          rw [Nat.mul_left_comm, unitsPerOne_eq, pow_succ']
      _ < 2 ^ (d.log2 + 1) * 2 ^ (unitExponent + 1) :=
          Nat.mul_lt_mul_of_pos_right Nat.lt_log2_self (Nat.two_pow_pos _)
      _ = 2 ^ (d.log2 + 1 + (unitExponent + 1)) := (pow_add 2 _ _).symm
      _ ≤ 2 ^ (3 * j) := Nat.pow_le_pow_right (by decide) (by omega)
      _ = 8 ^ j := pow_mul 2 3 j
      _ ≤ 10 ^ j := Nat.pow_le_pow_left (by decide) j
  exact ofUnits_eq_finite (a := .zero) (roundUnits_eq_zero hsmall)

/-- **A decimal is rounded once.**  The exponents that are settled without their power of ten give
what rounding would have given. -/
theorem ofDecimal_eq_ofUnits (negative : Bool) (d : ℕ) (e : ℤ) :
    ofDecimal negative d e =
      ofUnits negative (d * (Magnitude.unitsPerTenPow e).1) (Magnitude.unitsPerTenPow e).2 := by
  rw [ofDecimal]
  by_cases hd : d = 0
  · rw [if_pos hd, hd, Nat.zero_mul, ofUnits_zero negative (Magnitude.unitsPerTenPow_pos e).2]
  rw [if_neg hd]
  by_cases he : 0 ≤ e
  · obtain ⟨j, rfl⟩ := Int.eq_ofNat_of_zero_le he
    rw [if_pos he, Magnitude.unitsPerTenPow_natCast]
    by_cases hj : 309 < j
    · rw [if_pos (by omega), ofUnits_of_large negative hd hj]
    · rw [if_neg (by omega), Int.toNat_natCast, ofRatio]
      refine ofUnits_congr negative Nat.one_pos Nat.one_pos ?_
      change d * 10 ^ j * unitsPerOne * 1 = _
      ring
  · obtain ⟨j, rfl⟩ : ∃ j : ℕ, e = -j := ⟨(-e).toNat, by omega⟩
    rw [if_neg he, Magnitude.unitsPerTenPow_neg]
    by_cases hj : (d.log2 : ℤ) + 1 + 3 * -(j : ℤ) ≤ -1076
    · rw [if_pos hj, ofUnits_of_small negative hj]
    · rw [if_neg hj, Int.neg_neg, Int.toNat_natCast, ofRatio]
      rfl

/-- A decimal without places behind its point is rounded as a quotient. -/
theorem ofDecimal_neg_natCast (negative : Bool) (d places : ℕ) :
    ofDecimal negative d (-(places : ℤ)) = ofRatio negative d (10 ^ places) := by
  rw [ofDecimal_eq_ofUnits, Magnitude.unitsPerTenPow_neg, ofRatio]

theorem ofDecimal_eq_finite {negative : Bool} {d : Decimal} {a : Magnitude}
    (h : d.roundedUnits = a.units) :
    ofDecimal negative d.digits d.exponent = .finite negative a := by
  rw [ofDecimal_eq_ofUnits]
  exact ofUnits_eq_finite h

end Binary64

/-! ## Written forms -/

/-- Digits on both sides of a point, and no zero before other digits. -/
structure Written.IsDigits (w : Written) : Prop where
  whole_digits : ∀ c ∈ w.whole, isAsciiDigit c = true
  whole_ne_nil : w.whole ≠ []
  whole_head : w.whole.head? = some '0' → w.whole = ['0']
  fraction_digits : ∀ c ∈ w.fraction, isAsciiDigit c = true

theorem Written.IsPlain.isDigits {w : Written} (h : w.IsPlain) : w.IsDigits :=
  ⟨h.whole_digits, h.whole_ne_nil, h.whole_head, h.fraction_digits⟩

/-- The number that a written size says, with a sign. -/
def Written.value (w : Written) (negative : Bool) : Binary64 :=
  Binary64.ofDecimal negative (ofDigits (w.whole ++ w.fraction))
    (w.exponent.getD 0 - w.fraction.length)

namespace Layout

/-- One digit before the point, and the others behind it. -/
theorem isDigits_exponential {n : ℕ} (hn : n ≠ 0) (decade : ℤ) :
    (exponential (decimalDigits n) decade).IsDigits where
  whole_digits := fun _ hc => isAsciiDigit_of_mem_decimalDigits (List.mem_of_mem_take hc)
  whole_ne_nil := by simp [exponential, decimalDigits_ne_nil]
  whole_head := by
    intro hzero
    rw [exponential, List.head?_take, if_neg Nat.one_ne_zero] at hzero
    exact absurd hzero (head?_decimalDigits_ne hn)
  fraction_digits := fun _ hc => isAsciiDigit_of_mem_decimalDigits (List.mem_of_mem_drop hc)

theorem value_exponential (negative : Bool) (d : Decimal) :
    (exponential (decimalDigits d.digits)
      ((decimalDigits d.digits).length + d.exponent - 1)).value negative =
      Binary64.ofDecimal negative d.digits d.exponent := by
  have hlength := length_decimalDigits_pos d.digits
  have hplaces : (some (((decimalDigits d.digits).length : ℤ) + d.exponent - 1)).getD 0
      - ((decimalDigits d.digits).drop 1).length = d.exponent := by
    rw [Option.getD_some, List.length_drop]
    omega
  rw [Written.value, exponential, List.take_append_drop, ofDigits_decimalDigits, hplaces]

theorem value_positional (negative : Bool) {d : Decimal} (hd : d.digits ≠ 0) {a : Magnitude}
    (h : d.roundedUnits = a.units) :
    (positional true (decimalDigits d.digits)
      ((decimalDigits d.digits).length + d.exponent)).value negative = .finite negative a := by
  obtain ⟨hplain, hvalue, hplaces⟩ := positional_spec hd d.exponent
  rw [Written.value, hplain.exponent_eq, Option.getD_none, Int.zero_sub,
    Binary64.ofDecimal_neg_natCast, hvalue, hplaces]
  exact Binary64.ofUnits_eq_finite ((roundedUnits_eq_of_places d).symm.trans h)

/-- **A written number is nearest to what its digits say**, in every layout that keeps the point of
a whole number; there is a point or an exponent in it. -/
theorem parts_spec {layout : Layout} (hpoint : layout.keepsPoint = true) (a : Magnitude) :
    (layout.parts a).IsDigits ∧
      ((layout.parts a).fraction ≠ [] ∨ (layout.parts a).exponent ≠ none) ∧
      ∀ negative, (layout.parts a).value negative = .finite negative a := by
  by_cases ha : a.units = 0
  · have hparts : layout.parts a = ⟨['0'], ['0'], none⟩ := by
      rw [parts, if_pos ha, hpoint]
      rfl
    obtain rfl := Magnitude.eq_zero_of_units ha
    rw [hparts]
    exact ⟨(isPlain_behind (List.forall_mem_singleton.2 rfl) 0).isDigits, .inl (by simp),
      fun _ => rfl⟩
  · have hdigits := Magnitude.digits_shortest_ne_zero ha layout.tie
    have hunits := Magnitude.roundedUnits_shortest ha layout.tie
    simp only [parts, if_neg ha, hpoint]
    split
    · obtain ⟨hplain, -, hplaces⟩ := positional_spec hdigits (a.shortest layout.tie).exponent
      refine ⟨hplain.isDigits, .inl ?_, fun negative => value_positional negative hdigits hunits⟩
      rw [← List.length_pos_iff, hplaces]
      omega
    · refine ⟨isDigits_exponential hdigits _, .inr (by simp [exponential]), fun negative => ?_⟩
      rw [value_exponential, Binary64.ofDecimal_eq_finite hunits]

end Layout

end MatlabQuality.Number
