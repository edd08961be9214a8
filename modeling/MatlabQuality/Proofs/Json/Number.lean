import MatlabQuality.Json.Number
import MatlabQuality.Proofs.Number.Layout

/-!
# Number literals read back

A canonical literal is read back part by part, up to whatever cannot be a part of it.  The literal
of a count stands for the count, and that of a number near `k / 100` for the number: its digits
are an exact number and so is the power of ten, so the one division gives the number that the
decimal rounds to.

## Main definitions

* `Numeral.Canonical` — a literal as it is written.
* `EndsNumeral` — what can follow a literal.

## Main statements

* `Numeral.read?_chars_append` — a literal is read back.
* `Numeral.toNat?_ofNat`, `exists_numeral_hundredths` — the values of written literals.
-/

namespace MatlabQuality.Json

open MatlabQuality.Number

attribute [local irreducible] unitsPerOne unitsOfInfinity

/-- A text that starts with no part of a number literal. -/
def EndsNumeral (rest : List Char) : Prop :=
  ∀ c, rest.head? = some c → isAsciiDigit c = false ∧ c ≠ '.' ∧ c ≠ 'e' ∧ c ≠ 'E'

namespace Numeral

/-- A literal as it is written: digits on both sides of its point, no zero before other digits, and
digits in its exponent. -/
structure Canonical (n : Numeral) : Prop where
  whole_digits : ∀ c ∈ n.whole, isAsciiDigit c = true
  whole_ne_nil : n.whole ≠ []
  whole_head : n.whole.head? = some '0' → n.whole = ['0']
  fraction_digits : ∀ c ∈ n.fraction, isAsciiDigit c = true
  exponent_digits : ∀ e ∈ n.exponent, e.2 ≠ [] ∧ ∀ c ∈ e.2, isAsciiDigit c = true

/-! ## Reading -/

theorem spanDigits_append {digits rest : List Char} (hdigits : ∀ c ∈ digits, isAsciiDigit c = true)
    (hrest : ∀ c, rest.head? = some c → isAsciiDigit c = false) :
    spanDigits (digits ++ rest) = (digits, rest) := by
  have hnone : rest.takeWhile isAsciiDigit = [] ∧ rest.dropWhile isAsciiDigit = rest := by
    cases rest with
    | nil => exact ⟨rfl, rfl⟩
    | cons c rest =>
      have hc := hrest c rfl
      exact ⟨List.takeWhile_cons_of_neg (by simp [hc]), List.dropWhile_cons_of_neg (by simp [hc])⟩
  rw [spanDigits, List.takeWhile_append_of_pos hdigits, List.dropWhile_append_of_pos hdigits,
    hnone.1, hnone.2, List.append_nil]

/-- The characters of an exponent. -/
def exponentChars : Option (Bool × List Char) → List Char
  | none => []
  | some (negative, digits) => 'e' :: (if negative then '-' else '+') :: digits

/-- The characters of a fraction. -/
def fractionChars (fraction : List Char) : List Char :=
  if fraction.isEmpty then [] else '.' :: fraction

theorem chars_eq (n : Numeral) :
    n.chars = (if n.negative then ['-'] else []) ++ n.whole ++ fractionChars n.fraction
      ++ exponentChars n.exponent := by
  rw [chars]
  rfl

theorem readExponentDigits?_append (negative : Bool) {digits rest : List Char} (hne : digits ≠ [])
    (hdigits : ∀ c ∈ digits, isAsciiDigit c = true) (hrest : EndsNumeral rest) :
    readExponentDigits? ((if negative then '-' else '+') :: (digits ++ rest)) =
      some (some (negative, digits), rest) := by
  have hsign : readSign ((if negative then '-' else '+') :: (digits ++ rest)) =
      (negative, digits ++ rest) := by
    cases negative <;> rfl
  have hspan := spanDigits_append hdigits fun c hc => (hrest c hc).1
  obtain ⟨d, ds, rfl⟩ := List.exists_cons_of_ne_nil hne
  simp only [readExponentDigits?, hsign, hspan]

theorem readExponent?_append {e : Option (Bool × List Char)}
    (he : ∀ p ∈ e, p.2 ≠ [] ∧ ∀ c ∈ p.2, isAsciiDigit c = true) {rest : List Char}
    (hrest : EndsNumeral rest) : readExponent? (exponentChars e ++ rest) = some (e, rest) := by
  cases e with
  | none =>
    rw [exponentChars, List.nil_append]
    unfold readExponent?
    split
    · exact absurd rfl (hrest 'e' rfl).2.2.1
    · exact absurd rfl (hrest 'E' rfl).2.2.2
    · rfl
  | some p =>
    obtain ⟨hne, hdigits⟩ := he _ rfl
    exact readExponentDigits?_append p.1 hne hdigits hrest

theorem readFraction?_append {fraction rest : List Char}
    (hfraction : ∀ c ∈ fraction, isAsciiDigit c = true)
    (hrest : ∀ c, rest.head? = some c → isAsciiDigit c = false ∧ c ≠ '.') :
    readFraction? (fractionChars fraction ++ rest) = some (fraction, rest) := by
  cases fraction with
  | nil =>
    rw [fractionChars, List.isEmpty_nil, if_pos rfl, List.nil_append]
    unfold readFraction?
    split
    · exact absurd rfl (hrest '.' rfl).2
    · rfl
  | cons d ds =>
    have hspan := spanDigits_append hfraction fun c hc => (hrest c hc).1
    simp only [fractionChars, List.isEmpty_cons, Bool.false_eq_true, ↓reduceIte, List.cons_append]
    rw [List.cons_append] at hspan
    simp only [readFraction?, hspan]

/-- What follows the digits of a fraction. -/
theorem head?_exponentChars_append {e : Option (Bool × List Char)} {rest : List Char}
    (hrest : EndsNumeral rest) {c : Char} (h : (exponentChars e ++ rest).head? = some c) :
    isAsciiDigit c = false ∧ c ≠ '.' := by
  cases e with
  | none => exact ⟨(hrest c h).1, (hrest c h).2.1⟩
  | some p =>
    obtain rfl : 'e' = c := Option.some.inj h
    decide

/-- What follows the digits before the point. -/
theorem head?_fractionChars_append {fraction rest : List Char}
    (hrest : ∀ c, rest.head? = some c → isAsciiDigit c = false ∧ c ≠ '.') {c : Char}
    (h : (fractionChars fraction ++ rest).head? = some c) : isAsciiDigit c = false := by
  cases fraction with
  | nil => exact (hrest c h).1
  | cons d ds =>
    obtain rfl : '.' = c := Option.some.inj h
    decide

theorem readUnsigned?_append {n : Numeral} (hn : n.Canonical) {rest : List Char}
    (hrest : EndsNumeral rest) (negative : Bool) :
    readUnsigned? negative
        (n.whole ++ (fractionChars n.fraction ++ (exponentChars n.exponent ++ rest))) =
      some (⟨negative, n.whole, n.fraction, n.exponent⟩, rest) := by
  have hbehind := fun c => head?_exponentChars_append (e := n.exponent) (c := c) hrest
  have hspan : spanDigits (n.whole ++ (fractionChars n.fraction ++ _)) = (n.whole, _) :=
    spanDigits_append hn.whole_digits fun c => head?_fractionChars_append hbehind
  have hfraction := readFraction?_append hn.fraction_digits hbehind
  have hexponent := readExponent?_append hn.exponent_digits hrest
  have hzero : ¬ (n.whole.head? = some '0' ∧ n.whole ≠ ['0']) := fun h => h.2 (hn.whole_head h.1)
  rw [readUnsigned?, hspan]
  obtain ⟨d, ds, hwhole⟩ := List.exists_cons_of_ne_nil hn.whole_ne_nil
  rw [hwhole] at hzero ⊢
  simp only [if_neg hzero, hfraction, Option.bind_eq_bind, Option.bind_some, hexponent]
  rfl

theorem read?_of_ne {c : Char} (hc : c ≠ '-') (cs : List Char) :
    read? (c :: cs) = readUnsigned? false (c :: cs) := by
  unfold read?
  split
  · rename_i heq
    exact absurd (List.cons.inj heq).1 hc
  · rfl

/-- **A canonical literal is read back.** -/
theorem read?_chars_append {n : Numeral} (hn : n.Canonical) {rest : List Char}
    (hrest : EndsNumeral rest) : read? (n.chars ++ rest) = some (n, rest) := by
  have hunsigned := readUnsigned?_append hn hrest n.negative
  rw [chars_eq]
  simp only [List.append_assoc]
  cases hnegative : n.negative with
  | true =>
    rw [hnegative] at hunsigned
    rw [if_pos rfl, List.singleton_append, read?, hunsigned, ← hnegative]
  | false =>
    obtain ⟨d, ds, hwhole⟩ := List.exists_cons_of_ne_nil hn.whole_ne_nil
    have hd : d ≠ '-' := by
      rintro rfl
      have hdigit := hn.whole_digits '-' (hwhole ▸ List.mem_cons_self)
      exact absurd hdigit (by decide)
    rw [hnegative] at hunsigned
    rw [if_neg Bool.false_ne_true, List.nil_append]
    rw [hwhole, List.cons_append] at hunsigned ⊢
    rw [read?_of_ne hd, hunsigned, ← hwhole, ← hnegative]

/-! ## Values -/

theorem canonical_ofNat (n : ℕ) : (ofNat n).Canonical where
  whole_digits := fun _ => isAsciiDigit_of_mem_decimalDigits
  whole_ne_nil := decimalDigits_ne_nil n
  whole_head := by
    intro hzero
    by_cases hn : n = 0
    · rw [hn]
      rfl
    · exact absurd hzero (head?_decimalDigits_ne hn)
  fraction_digits := fun _ hc => absurd hc List.not_mem_nil
  exponent_digits := fun _ he => absurd he (Option.not_mem_none _)

/-- **The literal of a count stands for the count.** -/
theorem toNat?_ofNat {n bound : ℕ} (h : n < bound) : (ofNat n).toNat? bound = some n := by
  have hvalue : ofDigits (ofNat n).whole = n := ofDigits_decimalDigits n
  simp only [toNat?, hvalue]
  rw [if_neg (by simp [ofNat]), if_pos h]

/-- Digits are taken as long as they fit. -/
theorem absorb_eq (significand : ℕ) (digits : List Char)
    (h : Nat.ofDigitChars 10 digits significand < significandBound) :
    absorb significand digits = (Nat.ofDigitChars 10 digits significand, digits.length) := by
  induction digits generalizing significand with
  | nil => rfl
  | cons c digits ih =>
    have hnext : 10 * significand + digitValue c < significandBound := by
      refine lt_of_le_of_lt ?_ h
      rw [Nat.ofDigitChars_cons, Nat.ofDigitChars_eq_ofDigitChars_zero]
      have hone : 1 ≤ 10 ^ digits.length := Nat.pow_pos (by decide)
      exact (Nat.le_mul_of_pos_left _ hone).trans (Nat.le_add_right _ _)
    have hrest : absorb (10 * significand + digitValue c) digits =
        (Nat.ofDigitChars 10 (c :: digits) significand, digits.length) := ih _ h
    rw [absorb]
    simp only [if_pos hnext, hrest, List.length_cons]

/-- The size of a literal without an exponent: its digits, divided by a power of ten. -/
theorem toSize?_eq {n : Numeral} (hexponent : n.exponent = none)
    (h : ofDigits (n.whole ++ n.fraction) < significandBound) :
    n.toSize? = scale? (Binary64.ofNat (ofDigits (n.whole ++ n.fraction)))
      (-(n.fraction.length : ℤ)) 4 := by
  have hall : ofDigits (n.whole ++ n.fraction) =
      Nat.ofDigitChars 10 n.fraction (ofDigits n.whole) :=
    Nat.ofDigitChars_append 0
  have hwhole : ofDigits n.whole < significandBound := by
    refine lt_of_le_of_lt ?_ h
    rw [ofDigits_append]
    have hone : 1 ≤ 10 ^ n.fraction.length := Nat.pow_pos (by decide)
    exact (Nat.le_mul_of_pos_left _ hone).trans (Nat.le_add_right _ _)
  have hleading : absorb 0 n.whole = (ofDigits n.whole, n.whole.length) := absorb_eq 0 _ hwhole
  have hrest := absorb_eq (ofDigits n.whole) n.fraction (hall ▸ h)
  simp only [toSize?, hleading, hrest, hexponent, ← hall]
  congr 1
  omega

/-- The power of ten that a number is scaled by. -/
theorem ofDecimal_one_natCast {places : ℕ} (h : places ≤ 309) :
    Binary64.ofDecimal false 1 (places : ℤ) = Binary64.ofNat (10 ^ places) := by
  rw [Binary64.ofDecimal, if_neg Nat.one_ne_zero, if_pos (Int.natCast_nonneg _),
    if_neg (by omega), Int.toNat_natCast, Nat.one_mul]
  rfl

/-- An exact number divided by an exact power of ten is the number nearest to the quotient. -/
theorem scale?_ofNat {n places : ℕ} (hn : n ≤ 2 ^ 53) (hpos : 0 < places) (hplaces : places ≤ 22)
    (steps : ℕ) :
    scale? (Binary64.ofNat n) (-(places : ℤ)) (steps + 1) =
      some (Binary64.ofRatio false n (10 ^ places)) := by
  have hpower : Binary64.ofDecimal false 1 (-(places : ℤ)).natAbs =
      Binary64.ofNat (10 ^ places) := by
    rw [Int.natAbs_neg, Int.natAbs_natCast, ofDecimal_one_natCast (by omega)]
  have hquotient := Binary64.ofNat_div_ofNat (Binary64.representable_of_le hn)
    (Binary64.representable_ten_pow hplaces) (Nat.pow_pos (by decide))
  rw [scale?, if_pos (by rw [greatestPower]; omega)]
  simp only [hpower]
  rw [if_neg (by omega), hquotient]

/-- A finite number scaled by no power of ten stays. -/
theorem scale?_zero {x : Binary64} (h : x.isFinite = true) (steps : ℕ) :
    scale? x 0 (steps + 1) = some x := by
  have hpower : Binary64.ofDecimal false 1 ((0 : ℤ).natAbs : ℤ) = Binary64.ofNat 1 := by
    rw [Int.natAbs_zero, ofDecimal_one_natCast (Nat.zero_le _), pow_zero]
  rw [scale?, if_pos (by decide)]
  simp only [hpower, Binary64.mul_one_of_isFinite h]
  rw [if_pos le_rfl, if_pos h]

theorem isFinite_ofNat {n : ℕ} (h : n < significandBound) :
    (Binary64.ofNat n).isFinite = true := by
  have hrep : Representable (2 ^ 64 * unitsPerOne) := by
    refine ⟨mul_unitsPerOne_lt (by decide), ?_⟩
    have hpower := mod_spacing_mul_two_pow (k := 1) (by decide) (64 + unitExponent)
    rwa [Nat.one_mul, pow_add, ← unitsPerOne_eq] at hpower
  have hlt : roundUnits (n * unitsPerOne) 1 < unitsOfInfinity := by
    refine (roundUnits_le_of_le Nat.one_pos hrep.2 ?_).trans_lt hrep.1
    rw [Nat.mul_one]
    exact Nat.mul_le_mul_right _ h.le
  have hfinite : Binary64.ofNat n = .finite false ⟨_, hlt, roundUnits_mod_spacing _ _⟩ :=
    Binary64.ofUnits_eq_finite rfl
  rw [hfinite]
  rfl

/-- A literal stands for its size with its sign. -/
theorem toBinary64?_eq {n : Numeral} {digits d : ℕ}
    (h : n.toSize? = some (Binary64.ofRatio false digits d)) :
    n.toBinary64? = some (Binary64.ofRatio n.negative digits d) := by
  rw [Binary64.ofRatio] at h ⊢
  rw [toBinary64?, h, Option.map_some]
  cases n.negative with
  | false => rw [if_neg Bool.false_ne_true]
  | true => rw [if_pos rfl, Binary64.neg_ofUnits]

/-- **A literal with few digits stands for the number nearest to its decimal.** -/
theorem toBinary64?_of_places {n : Numeral} (hexponent : n.exponent = none)
    (hexact : ofDigits (n.whole ++ n.fraction) ≤ 2 ^ 53) (hpos : 0 < n.fraction.length)
    (hplaces : n.fraction.length ≤ 22) :
    n.toBinary64? = some (Binary64.ofRatio n.negative (ofDigits (n.whole ++ n.fraction))
      (10 ^ n.fraction.length)) := by
  have hbound : ofDigits (n.whole ++ n.fraction) < significandBound := hexact.trans_lt (by decide)
  exact toBinary64?_eq ((toSize?_eq hexponent hbound).trans (scale?_ofNat hexact hpos hplaces 3))

/-- **A literal of digits alone stands for the number nearest to them.** -/
theorem toBinary64?_of_whole {n : Numeral} (hexponent : n.exponent = none)
    (hfraction : n.fraction = []) (h : ofDigits n.whole < significandBound) :
    n.toBinary64? = some (Binary64.ofRatio n.negative (ofDigits n.whole) 1) := by
  have hsize := toSize?_eq hexponent (by rwa [hfraction, List.append_nil])
  rw [hfraction, List.append_nil, List.length_nil, Int.natCast_zero, neg_zero,
    scale?_zero (isFinite_ofNat h)] at hsize
  exact toBinary64?_eq hsize

theorem canonical_ofMagnitude {a : Magnitude} (h : (reported.parts a).IsPlain) :
    (ofMagnitude false a).Canonical where
  whole_digits := h.whole_digits
  whole_ne_nil := h.whole_ne_nil
  whole_head := h.whole_head
  fraction_digits := h.fraction_digits
  exponent_digits := by
    intro e he
    rw [ofMagnitude, h.exponent_eq] at he
    exact absurd he (Option.not_mem_none _)

/-- A literal whose digits are an exact number stands for the number that they and the places
behind the point round to. -/
theorem toBinary64?_ofMagnitude {a : Magnitude} (h : (reported.parts a).IsPlain)
    (hexact : ofDigits ((reported.parts a).whole ++ (reported.parts a).fraction) ≤ 2 ^ 53)
    (hpos : 0 < (reported.parts a).fraction.length)
    (hplaces : (reported.parts a).fraction.length ≤ 2)
    (hround : roundUnits
      (ofDigits ((reported.parts a).whole ++ (reported.parts a).fraction) * unitsPerOne)
      (10 ^ (reported.parts a).fraction.length) = a.units) :
    (ofMagnitude false a).toBinary64? = some (.finite false a) := by
  have hexponent : (ofMagnitude false a).exponent = none := by
    rw [ofMagnitude, h.exponent_eq]
    rfl
  exact (toBinary64?_of_places hexponent hexact hpos (hplaces.trans (by decide))).trans
    (congrArg some (Binary64.ofUnits_eq_finite hround))

end Numeral

/-- A number nearest to hundredths is zero, or of a size nearest to them. -/
theorem exists_ofRatio_eq {k : ℕ} (h : k < 2 ^ 53) :
    ∃ a, Binary64.ofRatio false k 100 = .finite false a ∧ (a = .zero ∨ NearestHundredths k a) := by
  have hbound : roundUnits (k * unitsPerOne) 100 < unitsOfInfinity := by
    have hle : k * unitsPerOne ≤ 2 ^ 47 * unitsPerOne * 100 := by
      rw [Nat.mul_right_comm]
      exact Nat.mul_le_mul_right _ (by omega)
    refine lt_of_le_of_lt (roundUnits_le_of_le (by decide) (mod_spacing_of_lt (by decide)) hle) ?_
    exact mul_unitsPerOne_lt (by decide)
  rcases Nat.eq_zero_or_pos k with rfl | hpos
  · refine ⟨.zero, ?_, .inl rfl⟩
    rw [Binary64.ofRatio, Nat.zero_mul]
    exact Binary64.ofUnits_zero false (by decide)
  · exact ⟨⟨_, hbound, roundUnits_mod_spacing _ _⟩, Binary64.ofUnits_eq_finite rfl,
      .inr ⟨hpos, h, rfl⟩⟩

/-- **The literal of the number nearest to `k / 100`** is canonical and stands for the number. -/
theorem exists_numeral_hundredths {k : ℕ} (h : k < 2 ^ 53) :
    ∃ a, Binary64.ofRatio false k 100 = .finite false a ∧ (Numeral.ofMagnitude false a).Canonical ∧
      (Numeral.ofMagnitude false a).toBinary64? = some (.finite false a) := by
  obtain ⟨a, heq, rfl | hnearest⟩ := exists_ofRatio_eq h
  · have hparts := reported_parts_zero
    have hplain : (reported.parts .zero).IsPlain := by
      rw [hparts]
      exact Layout.isPlain_behind (List.forall_mem_singleton.2 rfl) 0
    refine ⟨.zero, heq, Numeral.canonical_ofMagnitude hplain,
      Numeral.toBinary64?_ofMagnitude hplain ?_ ?_ ?_ ?_⟩
    all_goals rw [hparts]
    · decide
    · decide
    · decide
    · exact (congrArg (roundUnits · 10) (Nat.zero_mul _)).trans (roundUnits_zero_left (by decide))
  · obtain ⟨hplain, hexact, hpos, hplaces, hround⟩ := reported_parts_spec hnearest
    exact ⟨a, heq, Numeral.canonical_ofMagnitude hplain,
      Numeral.toBinary64?_ofMagnitude hplain hexact hpos hplaces hround⟩

end MatlabQuality.Json
