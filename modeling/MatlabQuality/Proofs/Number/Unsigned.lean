import Mathlib.Algebra.Ring.Nat
import MatlabQuality.Number.Digits

/-!
# Reading a number into a machine word

Digits are read one after the other, and a value that no longer fits ends the reading.  Values only
grow along the digits, so the reading goes through exactly where the last value fits: nothing wraps,
and zeros in front do no harm, however many there are.

## Main definitions

* `SpellsUnsigned` — a text that spells a number, with a plus sign or without one.
* `IsBehindSign` — what stands behind the sign of a text.

## Main statements

* `le_foldl_digits` — values grow along the digits.
* `readBelow?_eq_some_iff` — the reading goes through where its last value fits.
* `readUnsigned?_eq_some_iff` — a number is read exactly where it is spelled and fits.
-/

namespace MatlabQuality.Number

variable {bound bits value n : Nat} {cs digits : List Char}

/-! ## Values -/

/-- A text that spells a number: a plus sign or none, then at least one ASCII digit. -/
def SpellsUnsigned (cs : List Char) (n : Nat) : Prop :=
  ∃ digits, (cs = digits ∨ cs = '+' :: digits) ∧ digits ≠ [] ∧
    (∀ c ∈ digits, isAsciiDigit c = true) ∧ ofDigits digits = n

/-- **Values grow along the digits.** -/
theorem le_foldl_digits (value : Nat) (cs : List Char) :
    value ≤ cs.foldl (fun value c => 10 * value + digitValue c) value := by
  induction cs generalizing value with
  | nil => exact Nat.le_refl value
  | cons c cs ih =>
    calc value ≤ 10 * value + digitValue c := by omega
      _ ≤ cs.foldl (fun value c => 10 * value + digitValue c) (10 * value + digitValue c) := ih _

/-- **The reading goes through where its last value fits**, as no value before it is greater. -/
theorem readBelow?_eq_some_iff (hvalue : value < bound) :
    readBelow? bound value cs = some n ↔ (∀ c ∈ cs, isAsciiDigit c = true) ∧
      cs.foldl (fun value c => 10 * value + digitValue c) value = n ∧ n < bound := by
  induction cs generalizing value with
  | nil =>
    constructor
    · intro h
      obtain rfl := Option.some.inj h
      exact ⟨fun c hc => absurd hc List.not_mem_nil, rfl, hvalue⟩
    · rintro ⟨-, rfl, -⟩
      rfl
  | cons c cs ih =>
    rw [readBelow?, List.foldl_cons, List.forall_mem_cons]
    by_cases hc : isAsciiDigit c = true
    · by_cases hnext : 10 * value + digitValue c < bound
      · rw [if_pos (by simp [hc, hnext]), ih hnext, and_assoc, and_iff_right hc]
      · -- A value out of bounds stays out of bounds.
        rw [if_neg (by simp [hnext])]
        constructor
        · intro h
          cases h
        · rintro ⟨-, rfl, hlt⟩
          exact absurd (Nat.lt_of_le_of_lt (le_foldl_digits _ cs) hlt) hnext
    · rw [if_neg (by simp [hc])]
      simp [hc]

/-! ## Signs -/

/-- What stands behind the sign of a text, which may have none. -/
def IsBehindSign (digits cs : List Char) : Prop :=
  cs = digits ∧ cs.head? ≠ some '+' ∨ cs = '+' :: digits

theorem exists_isBehindSign (cs : List Char) : ∃ digits, IsBehindSign digits cs := by
  by_cases hplus : cs.head? = some '+'
  · obtain ⟨digits, hcs⟩ := List.head?_eq_some_iff.1 hplus
    exact ⟨digits, .inr hcs⟩
  · exact ⟨cs, .inl ⟨rfl, hplus⟩⟩

theorem IsBehindSign.readUnsigned?_eq (h : IsBehindSign digits cs) :
    readUnsigned? bits cs = if digits.isEmpty then none else readBelow? (2 ^ bits) 0 digits := by
  rcases h with ⟨rfl, hplus⟩ | rfl
  · unfold readUnsigned?
    split
    · exact absurd rfl hplus
    · rfl
  · rfl

theorem IsBehindSign.spellsUnsigned_iff (h : IsBehindSign digits cs) :
    SpellsUnsigned cs n ↔
      digits ≠ [] ∧ (∀ c ∈ digits, isAsciiDigit c = true) ∧ ofDigits digits = n := by
  constructor
  · rintro ⟨digits', hcs, hne, hdigits, hvalue⟩
    have hplus : isAsciiDigit '+' ≠ true := by decide
    rcases h with ⟨rfl, hhead⟩ | rfl
    · rcases hcs with rfl | rfl
      · exact ⟨hne, hdigits, hvalue⟩
      · exact absurd rfl hhead
    · rcases hcs with rfl | hcs
      · exact absurd (hdigits '+' List.mem_cons_self) hplus
      · obtain rfl := (List.cons.inj hcs).2
        exact ⟨hne, hdigits, hvalue⟩
  · rintro ⟨hne, hdigits, hvalue⟩
    exact ⟨digits, h.imp_left And.left, hne, hdigits, hvalue⟩

/-- **A number is read exactly where it is spelled and fits.** -/
theorem readUnsigned?_eq_some_iff :
    readUnsigned? bits cs = some n ↔ SpellsUnsigned cs n ∧ n < 2 ^ bits := by
  obtain ⟨digits, hsign⟩ := exists_isBehindSign cs
  rw [hsign.readUnsigned?_eq, hsign.spellsUnsigned_iff]
  cases digits with
  | nil => simp
  | cons c digits =>
    rw [if_neg (by simp), readBelow?_eq_some_iff (Nat.two_pow_pos bits)]
    simp [ofDigits, and_assoc]

/-- Zeros in front do no harm, and a number that is too large is not read as a smaller one. -/
example : readUnsigned? 4 "+000015".toList = some 15 ∧ readUnsigned? 4 "17".toList = none := by
  decide

end MatlabQuality.Number
