import MatlabQuality.Proofs.Number.Digits
import MatlabQuality.Proofs.Number.Unsigned
import MatlabQuality.Proofs.Source.Unexplained

/-!
# Literals without a value

A literal is searched for by the decimal digits of every script, but a value is read of ASCII digits
alone.  So a literal is skipped not only where its value is too large: a digit of another script
anywhere in its whole part is enough.

## Main definitions

* `decimalValue`, `numeralValue` — the value of a digit of any script, and of digits.

## Main statements

* `numeralValue_eq_ofDigits` — of ASCII digits both readings are the same.
* `wholeValue?_eq_readUnsigned?` — whole parts are read into a machine word.
* `literals_valued` — which literals have values, and what becomes of them.
* `literal_of_other_script` — a small literal that is skipped.
-/

namespace MatlabQuality.Source

open MatlabQuality.Text MatlabQuality.Number

/-! ## Digits of every script -/

/-- The value of a decimal digit of any script: its place in a run from zero to nine. -/
def decimalValue (c : Char) : ℕ :=
  match digitRanges.find? fun r => decide (r.1 ≤ c.toNat) && decide (c.toNat ≤ r.2) with
  | some r => (c.toNat - r.1) % 10
  | none => 0

/-- The number that decimal digits of any script spell, first digit first. -/
def numeralValue (cs : List Char) : ℕ :=
  cs.foldl (fun value c => 10 * value + decimalValue c) 0

variable {c : Char} {cs whole : List Char} {n : ℕ}

theorem decimalValue_of_isAsciiDigit (h : isAsciiDigit c = true) :
    decimalValue c = digitValue c := by
  obtain ⟨hfirst, hlast⟩ := toNat_of_isAsciiDigit h
  have hlt := digitValue_lt h
  have hfind : digitRanges.find? (fun r => decide (r.1 ≤ c.toNat) && decide (c.toNat ≤ r.2)) =
      some ('0'.toNat, '9'.toNat) :=
    List.find?_cons_of_pos (by simpa using ⟨hfirst, hlast⟩)
  rw [decimalValue, hfind]
  exact Nat.mod_eq_of_lt hlt

/-- **Of ASCII digits both readings are the same.** -/
theorem numeralValue_eq_ofDigits (h : ∀ c ∈ cs, isAsciiDigit c = true) :
    numeralValue cs = ofDigits cs := by
  refine List.foldl_ext _ _ 0 fun value c hc => ?_
  rw [decimalValue_of_isAsciiDigit (h c hc)]

/-! ## Values of whole parts -/

theorem wholeValue?_eq_some_iff (hne : whole ≠ []) :
    wholeValue? whole = some n ↔
      (∀ c ∈ whole, isAsciiDigit c = true) ∧ ofDigits whole = n ∧ n < 2 ^ 128 := by
  have hbound : literalBound = 2 ^ 128 := rfl
  by_cases hascii : ∀ c ∈ whole, isAsciiDigit c = true
  · have hread : readNat? whole = some (ofDigits whole) := by simpa [readNat?, hne] using hascii
    rw [wholeValue?, hread, hbound]
    simp only [Option.ite_none_right_eq_some, Option.some_inj, and_iff_right hascii]
    constructor
    · rintro ⟨hlt, rfl⟩
      exact ⟨rfl, hlt⟩
    · rintro ⟨rfl, hlt⟩
      exact ⟨hlt, rfl⟩
  · have hread : readNat? whole = none := by simpa [readNat?, hne] using hascii
    rw [wholeValue?, hread]
    simp [hascii]

/-- A whole part has no value where it has a digit of another script or is too large. -/
theorem wholeValue?_eq_none_iff (hne : whole ≠ []) :
    wholeValue? whole = none ↔
      (∃ c ∈ whole, isAsciiDigit c = false) ∨ 2 ^ 128 ≤ numeralValue whole := by
  have hother : (∃ c ∈ whole, isAsciiDigit c = false) ↔ ¬∀ c ∈ whole, isAsciiDigit c = true := by
    simp
  simp only [Option.eq_none_iff_forall_ne_some, ne_eq, wholeValue?_eq_some_iff hne, hother]
  constructor
  · intro h
    by_cases hascii : ∀ c ∈ whole, isAsciiDigit c = true
    · rw [numeralValue_eq_ofDigits hascii]
      exact .inr (Nat.not_lt.1 fun hlt => h _ ⟨hascii, rfl, hlt⟩)
    · exact .inl hascii
  · rintro (hnot | hlarge) n ⟨hascii, rfl, hlt⟩
    · exact hnot hascii
    · rw [numeralValue_eq_ofDigits hascii] at hlarge
      exact Nat.not_lt.2 hlarge hlt

/-- **Whole parts are read into a machine word.** -/
theorem wholeValue?_eq_readUnsigned? (h : isNumeral whole = true) :
    wholeValue? whole = readUnsigned? 128 whole := by
  obtain ⟨hne, hdigits⟩ := isNumeral_iff.1 h
  have hplus : whole.head? ≠ some '+' := by
    intro hhead
    have hdigit := hdigits '+' (List.mem_of_head? hhead)
    exact absurd hdigit (by decide)
  have hsign : IsBehindSign whole whole := .inl ⟨rfl, hplus⟩
  ext n
  rw [wholeValue?_eq_some_iff hne, readUnsigned?_eq_some_iff, hsign.spellsUnsigned_iff, and_assoc,
    and_assoc, and_iff_right hne]

/-! ## Literals -/

theorem isNumeral_of_mem_literals (source : List Char) :
    ∀ whole ∈ literals source, isNumeral whole = true := by
  induction source using literal_induction with
  | nil => exact List.forall_mem_nil _
  | other c cs hc ih => rwa [literals_cons hc]
  | word xs ys hne hspan hnot ih => rwa [literals_of_not_isNumeral hne hspan hnot]
  | literal whole text rest hliteral ih =>
    rw [literals_of_isLiteral hliteral]
    have hwhole : isNumeral whole = true := by
      cases hliteral with
      | whole hwhole _ _ => exact hwhole
      | fraction hwhole _ _ => exact hwhole
    exact List.forall_mem_cons.2 ⟨hwhole, ih⟩

/-- A value is unexplained where it is the value of a literal and does not explain itself. -/
theorem mem_magicNumbers_iff {source : List Char} :
    n ∈ magicNumbers source ↔
      n ∉ acceptableValues ∧ ∃ whole ∈ literals source, wholeValue? whole = some n := by
  rw [magicNumbers, foldl_addUnexplained_eq_eraseDups, List.mem_eraseDups, List.mem_filter,
    List.mem_filterMap, decide_eq_true_eq, and_comm]

/-- **Which literals have values.**  A literal that a search finds has a whole part of at least one
decimal digit, of any script.  It has no value exactly where one of them is no ASCII digit or the
whole part is too large, and else its value is that of its digits; it is read as a machine word is.
So the unexplained values are those of the literals in ASCII digits that are not too large, without
the values that explain themselves. -/
theorem literals_valued (source : List Char) :
    (∀ literal ∈ numberPattern.occurrences source, ∀ whole, whole = literal.takeWhile (· ≠ '.') →
      (whole ≠ [] ∧ ∀ c ∈ whole, isDigit c = true) ∧
      (wholeValue? whole = none ↔
        (∃ c ∈ whole, isAsciiDigit c = false) ∨ 2 ^ 128 ≤ numeralValue whole) ∧
      (∀ n, wholeValue? whole = some n → n = numeralValue whole) ∧
      wholeValue? whole = readUnsigned? 128 whole) ∧
    ∀ n, n ∈ magicNumbers source ↔ n ∉ [0, 1, 2, 3, 10, 100, 255] ∧
      ∃ literal ∈ numberPattern.occurrences source,
        (∀ c ∈ literal.takeWhile (· ≠ '.'), isAsciiDigit c = true) ∧
        numeralValue (literal.takeWhile (· ≠ '.')) = n ∧ n < 2 ^ 128 := by
  have hnumeral : ∀ literal ∈ numberPattern.occurrences source,
      isNumeral (literal.takeWhile (· ≠ '.')) = true := by
    intro literal hliteral
    apply isNumeral_of_mem_literals source
    rw [← map_takeWhile_occurrences]
    exact List.mem_map_of_mem hliteral
  constructor
  · rintro literal hliteral whole rfl
    have hwhole := hnumeral literal hliteral
    have hne := (isNumeral_iff.1 hwhole).1
    refine ⟨isNumeral_iff.1 hwhole, wholeValue?_eq_none_iff hne, fun n hn => ?_,
      wholeValue?_eq_readUnsigned? hwhole⟩
    obtain ⟨hascii, hvalue, -⟩ := (wholeValue?_eq_some_iff hne).1 hn
    rw [numeralValue_eq_ofDigits hascii, hvalue]
  · intro n
    simp only [mem_magicNumbers_iff, ← map_takeWhile_occurrences, List.mem_map,
      exists_exists_and_eq_and]
    refine and_congr_right fun _ => exists_congr fun literal => and_congr_right fun hliteral => ?_
    rw [wholeValue?_eq_some_iff (isNumeral_iff.1 (hnumeral literal hliteral)).1]
    refine and_congr_right fun hascii => ?_
    rw [numeralValue_eq_ofDigits hascii]

/-- A literal with a fraction that has a digit of another script: its whole part has a value. -/
theorem literals_valued_fraction :
    let source := "x = 12.٥;".toList
    "12.٥".toList ∈ numberPattern.occurrences source ∧
      (wholeValue? "12".toList = none ↔
        (∃ c ∈ "12".toList, isAsciiDigit c = false) ∨ 2 ^ 128 ≤ numeralValue "12".toList) ∧
      wholeValue? "12".toList = some 12 := by
  intro source
  have hmem : "12.٥".toList ∈ numberPattern.occurrences source := by decide +kernel
  obtain ⟨-, hnone, -, -⟩ := (literals_valued source).1 _ hmem "12".toList (by decide)
  exact ⟨hmem, hnone, by decide⟩

/-- **A small literal that is skipped**: forty-two in Arabic-Indic digits is found and is far from
being too large, but it has no value, and the source has no unexplained values. -/
theorem literal_of_other_script :
    let source := "x = ٤٢;".toList
    let literal := "٤٢".toList
    literal ∈ numberPattern.occurrences source ∧
      wholeValue? (literal.takeWhile (· ≠ '.')) = none ∧
      numeralValue (literal.takeWhile (· ≠ '.')) = 42 ∧ magicNumbers source = [] := by
  decide +kernel

end MatlabQuality.Source
