import MatlabQuality.Number.Layout
import MatlabQuality.Proofs.Number.Shortest

/-!
# Positional forms of hundredths

A positional form with a point spells the digits of its number, those of a whole number moved by
one place.  So what stands before and behind its point, read as one number and divided by a power
of ten, is the decimal that was written.

## Main definitions

* `Written.IsPlain` — digits with a point, and no zero before others.

## Main statements

* `Layout.positional_spec` — the digits of a positional form.
* `reported_parts_spec` — the form of the size nearest to `k / 100` in a saved report.
-/

namespace MatlabQuality.Number

attribute [local irreducible] unitsPerOne unitsOfInfinity

/-- Digits on both sides of a point, and no zero before other digits. -/
structure Written.IsPlain (w : Written) : Prop where
  exponent_eq : w.exponent = none
  whole_digits : ∀ c ∈ w.whole, isAsciiDigit c = true
  whole_ne_nil : w.whole ≠ []
  whole_head : w.whole.head? = some '0' → w.whole = ['0']
  fraction_digits : ∀ c ∈ w.fraction, isAsciiDigit c = true

namespace Layout

theorem isAsciiDigit_of_mem_replicate {n : ℕ} {c : Char} (h : c ∈ List.replicate n '0') :
    isAsciiDigit c = true := by
  rw [List.eq_of_mem_replicate h]
  decide

variable {digits : List Char}

/-- All digits behind the point, after some zeros. -/
theorem isPlain_behind (hdigits : ∀ c ∈ digits, isAsciiDigit c = true) (zeros : ℕ) :
    (Written.mk ['0'] (List.replicate zeros '0' ++ digits) none).IsPlain where
  exponent_eq := rfl
  whole_digits := List.forall_mem_singleton.2 rfl
  whole_ne_nil := List.cons_ne_nil _ _
  whole_head := fun _ => rfl
  fraction_digits := List.forall_mem_append.2 ⟨fun _ => isAsciiDigit_of_mem_replicate, hdigits⟩

/-- All digits before the point, with some zeros behind them. -/
theorem isPlain_before (hdigits : ∀ c ∈ digits, isAsciiDigit c = true) (hne : digits ≠ [])
    (hhead : digits.head? ≠ some '0') (zeros : ℕ) :
    (Written.mk (digits ++ List.replicate zeros '0') ['0'] none).IsPlain where
  exponent_eq := rfl
  whole_digits := List.forall_mem_append.2 ⟨hdigits, fun _ => isAsciiDigit_of_mem_replicate⟩
  whole_ne_nil := List.append_ne_nil_of_left_ne_nil hne _
  whole_head := by
    intro hzero
    rw [List.head?_append_of_ne_nil _ hne] at hzero
    exact absurd hzero hhead
  fraction_digits := List.forall_mem_singleton.2 rfl

/-- The point between the digits. -/
theorem isPlain_between (hdigits : ∀ c ∈ digits, isAsciiDigit c = true) (hne : digits ≠ [])
    (hhead : digits.head? ≠ some '0') {before : ℕ} (hbefore : before ≠ 0) :
    (Written.mk (digits.take before) (digits.drop before) none).IsPlain where
  exponent_eq := rfl
  whole_digits := fun c hc => hdigits c (List.mem_of_mem_take hc)
  whole_ne_nil := by simp [hne, hbefore]
  whole_head := by
    intro hzero
    rw [List.head?_take, if_neg hbefore] at hzero
    exact absurd hzero hhead
  fraction_digits := fun c hc => hdigits c (List.mem_of_mem_drop hc)

/-- **The digits of a positional form** are those of its number, with one zero behind the point of
a whole number. -/
theorem positional_spec {n : ℕ} (hn : n ≠ 0) (e : ℤ) :
    let w := positional true (decimalDigits n) ((decimalDigits n).length + e)
    w.IsPlain ∧ ofDigits (w.whole ++ w.fraction) = n * 10 ^ (e + 1).toNat ∧
      w.fraction.length = (max 1 (-e)).toNat := by
  have hdigits : ∀ c ∈ decimalDigits n, isAsciiDigit c = true :=
    fun c => isAsciiDigit_of_mem_decimalDigits
  have hne := decimalDigits_ne_nil n
  have hhead := head?_decimalDigits_ne hn
  have hvalue := ofDigits_decimalDigits n
  have hlength := length_decimalDigits_pos n
  generalize decimalDigits n = digits at *
  simp only [positional, ↓reduceIte]
  split
  · have hten : (e + 1).toNat = 0 := by omega
    refine ⟨isPlain_behind hdigits _, ?_, ?_⟩
    · rw [hten, pow_zero, Nat.mul_one, ← List.append_assoc, ofDigits_append, hvalue,
        ← List.replicate_one, List.replicate_append_replicate, ofDigits_replicate_zero,
        Nat.mul_zero, Nat.zero_add]
    · simp only [List.length_append, List.length_replicate]
      omega
  · split
    · have hten : (e + 1).toNat = e.toNat + 1 := by omega
      have hzeros : ((digits.length : ℤ) + e).toNat - digits.length = e.toNat := by omega
      refine ⟨isPlain_before hdigits hne hhead _, ?_, ?_⟩
      · rw [hzeros, List.append_assoc, ← List.replicate_one,
          List.replicate_append_replicate, ofDigits_append, ofDigits_replicate_zero, hvalue,
          List.length_replicate, hten, Nat.add_zero, Nat.mul_comm]
      · rw [List.length_singleton]
        omega
    · have hten : (e + 1).toNat = 0 := by omega
      refine ⟨isPlain_between hdigits hne hhead (by omega), ?_, ?_⟩
      · rw [List.take_append_drop, hvalue, hten, pow_zero, Nat.mul_one]
      · rw [List.length_drop]
        omega

/-- The form of a size is positional between the bounds of its layout. -/
theorem parts_eq_positional (layout : Layout) {a : Magnitude} (ha : a.units ≠ 0)
    (hleast : layout.leastDecade.all
      (· < ((decimalDigits (a.shortest layout.tie).digits).length : ℤ)
        + (a.shortest layout.tie).exponent) = true)
    (hfirst : layout.firstExponential.all
      (((decimalDigits (a.shortest layout.tie).digits).length : ℤ)
        + (a.shortest layout.tie).exponent ≤ ·) = true) :
    layout.parts a = positional layout.keepsPoint (decimalDigits (a.shortest layout.tie).digits)
      ((decimalDigits (a.shortest layout.tie).digits).length
        + (a.shortest layout.tie).exponent) := by
  simp only [parts]
  rw [if_neg ha, hleast, hfirst, Bool.and_true, if_pos rfl]

/-- The digits of a positional form, in every layout. -/
theorem isAsciiDigit_of_mem_positional (keepsPoint : Bool)
    (hdigits : ∀ c ∈ digits, isAsciiDigit c = true) (pointAt : ℤ) :
    ∀ c ∈ (positional keepsPoint digits pointAt).whole ++
      (positional keepsPoint digits pointAt).fraction, isAsciiDigit c = true := by
  unfold positional
  split
  · exact List.forall_mem_append.2 ⟨List.forall_mem_singleton.2 rfl,
      List.forall_mem_append.2 ⟨fun _ => isAsciiDigit_of_mem_replicate, hdigits⟩⟩
  · split
    · refine List.forall_mem_append.2 ⟨List.forall_mem_append.2
        ⟨hdigits, fun _ => isAsciiDigit_of_mem_replicate⟩, ?_⟩
      cases keepsPoint with
      | false => exact List.forall_mem_nil _
      | true => exact List.forall_mem_singleton.2 rfl
    · rwa [List.take_append_drop]

/-- **A size is written with digits** before and behind its point, in every layout. -/
theorem isAsciiDigit_of_mem_parts (layout : Layout) (a : Magnitude) :
    ∀ c ∈ (layout.parts a).whole ++ (layout.parts a).fraction, isAsciiDigit c = true := by
  have hdigits : ∀ c ∈ decimalDigits (a.shortest layout.tie).digits, isAsciiDigit c = true :=
    fun c => isAsciiDigit_of_mem_decimalDigits
  simp only [parts]
  split
  · exact isAsciiDigit_of_mem_positional _ (List.forall_mem_singleton.2 rfl) 1
  · split
    · exact isAsciiDigit_of_mem_positional _ hdigits _
    · rw [exponential, List.take_append_drop]
      exact hdigits

end Layout

/-! ## Hundredths in a saved report -/

theorem reported_parts_zero : reported.parts .zero = ⟨['0'], ['0'], none⟩ := by
  rw [Layout.parts]
  exact if_pos rfl

/-- A number of at most sixteen digits before its point is not written with an exponent. -/
theorem pointAt_le {d : Decimal} (hd : d.digits ≠ 0)
    (h : d.digits * 10 ^ (d.exponent + 1).toNat ≤ 2 ^ 53) :
    ((decimalDigits d.digits).length : ℤ) + d.exponent ≤ 16 := by
  generalize hj : (d.exponent + 1).toNat = j at h
  have hsmall : d.digits * 10 ^ j < 10 ^ 16 := h.trans_lt (by decide)
  have hpos : 0 < 10 ^ j := Nat.pow_pos (by decide)
  have hlt : j < 16 := by
    refine (Nat.pow_lt_pow_iff_right (a := 10) (by decide)).1 (lt_of_le_of_lt ?_ hsmall)
    exact Nat.le_mul_of_pos_left _ (Nat.pos_of_ne_zero hd)
  have hsplit : 10 ^ 16 = 10 ^ (16 - j) * 10 ^ j := by
    rw [← pow_add, Nat.sub_add_cancel hlt.le]
  rw [hsplit] at hsmall
  have hlength := (length_decimalDigits_le_iff (by omega)).2 (Nat.lt_of_mul_lt_mul_right hsmall)
  omega

/-- A decimal rounds like its digits with at least one place behind the point. -/
theorem roundedUnits_eq_of_places (d : Decimal) :
    d.roundedUnits = roundUnits (d.digits * 10 ^ (d.exponent + 1).toNat * unitsPerOne)
      (10 ^ (max 1 (-d.exponent)).toNat) := by
  rw [Decimal.roundedUnits]
  refine roundUnits_congr (Magnitude.unitsPerTenPow_pos _).2 (Nat.pow_pos (by decide)) ?_
  obtain ⟨e, he | he⟩ := Int.eq_nat_or_neg d.exponent
  · have hten : (d.exponent + 1).toNat = e + 1 := by omega
    have hone : (max 1 (-d.exponent)).toNat = 1 := by omega
    rw [hten, hone, he, Magnitude.unitsPerTenPow_natCast]
    ring
  · cases e with
    | zero =>
      have hten : (d.exponent + 1).toNat = 1 := by omega
      have hone : (max 1 (-d.exponent)).toNat = 1 := by omega
      rw [hten, hone, he, Magnitude.unitsPerTenPow_neg]
      ring
    | succ e =>
      have hten : (d.exponent + 1).toNat = 0 := by omega
      have hplaces : (max 1 (-d.exponent)).toNat = e + 1 := by omega
      rw [hten, hplaces, he, Magnitude.unitsPerTenPow_neg, pow_zero, Nat.mul_one]

/-- **The form of the size nearest to `k / 100` in a saved report.**  What stands before and behind
its point is an exact number, at most two places stand behind, and together they round to the
size. -/
theorem reported_parts_spec {k : ℕ} {a : Magnitude} (h : NearestHundredths k a) :
    (reported.parts a).IsPlain ∧
      ofDigits ((reported.parts a).whole ++ (reported.parts a).fraction) ≤ 2 ^ 53 ∧
      0 < (reported.parts a).fraction.length ∧ (reported.parts a).fraction.length ≤ 2 ∧
      roundUnits (ofDigits ((reported.parts a).whole ++ (reported.parts a).fraction) * unitsPerOne)
        (10 ^ (reported.parts a).fraction.length) = a.units := by
  obtain ⟨hunits, hlow, -⟩ := h.shortest_spec .toEven
  have hsignificand := h.significand_le .toEven
  have hdigits := h.digits_ne_zero .toEven
  have hparts : reported.parts a = Layout.positional true
      (decimalDigits (a.shortest .toEven).digits)
      ((decimalDigits (a.shortest .toEven).digits).length + (a.shortest .toEven).exponent) := by
    have hpoint := pointAt_le hdigits hsignificand
    have hlength := length_decimalDigits_pos (a.shortest .toEven).digits
    have hleast : -5 < ((decimalDigits (a.shortest .toEven).digits).length : ℤ)
        + (a.shortest .toEven).exponent := by omega
    exact Layout.parts_eq_positional reported h.units_ne_zero (decide_eq_true hleast)
      (decide_eq_true hpoint)
  rw [hparts]
  generalize a.shortest .toEven = d at *
  obtain ⟨hplain, hvalue, hplaces⟩ := Layout.positional_spec hdigits d.exponent
  refine ⟨hplain, hvalue ▸ hsignificand, by omega, by omega, ?_⟩
  rw [hvalue, hplaces, ← roundedUnits_eq_of_places, hunits]

end MatlabQuality.Number
