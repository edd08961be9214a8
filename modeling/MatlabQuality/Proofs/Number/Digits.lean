import Mathlib.Algebra.Ring.Nat
import MatlabQuality.Number.Digits

/-!
# Digits spell their number

## Main definitions

* `decidableForallMemChar` — how quantifiers over the characters of a list are decided.

## Main statements

* `ofDigits_decimalDigits` — the digits of a number spell it.
* `ofDigits_append` — digits behind digits.
* `head?_decimalDigits_ne` — a positive number starts with no zero.
-/

namespace MatlabQuality.Number

/-- What holds of every character of a list is decided along the list: there are too many characters
to go through them all. -/
instance (priority := high) decidableForallMemChar (p : Char → Prop) [DecidablePred p]
    (cs : List Char) : Decidable (∀ c ∈ cs, p c) :=
  List.decidableBAll p cs

theorem isAsciiDigit_iff {c : Char} : isAsciiDigit c = true ↔ c.isDigit = true := by
  simp [isAsciiDigit, Char.isDigit, Char.le_def]

theorem toNat_of_isAsciiDigit {c : Char} (h : isAsciiDigit c = true) :
    '0'.toNat ≤ c.toNat ∧ c.toNat ≤ '9'.toNat := by
  simp only [isAsciiDigit, Bool.and_eq_true, decide_eq_true_eq, Char.le_def] at h
  exact h

/-- The value of an ASCII digit is below ten. -/
theorem digitValue_lt {c : Char} (h : isAsciiDigit c = true) : digitValue c < 10 := by
  have hle : c.toNat ≤ 57 := (toNat_of_isAsciiDigit h).2
  change c.toNat - 48 < 10
  omega

/-- A digit is the one of its value. -/
theorem digitChar_digitValue {c : Char} (h : isAsciiDigit c = true) :
    digitChar (digitValue c) = c := by
  rw [digitChar, digitValue, Nat.add_sub_cancel' (toNat_of_isAsciiDigit h).1, Char.ofNat_toNat]

/-- **The digits of a number spell it.** -/
theorem ofDigits_decimalDigits (n : Nat) : ofDigits (decimalDigits n) = n :=
  Nat.ofDigitChars_ten_toDigits

theorem ofDigits_append (l m : List Char) :
    ofDigits (l ++ m) = 10 ^ m.length * ofDigits l + ofDigits m := by
  change Nat.ofDigitChars 10 (l ++ m) 0 = _
  rw [Nat.ofDigitChars_append, Nat.ofDigitChars_eq_ofDigitChars_zero]
  rfl

theorem ofDigits_replicate_zero (n : Nat) : ofDigits (List.replicate n '0') = 0 := by
  change Nat.ofDigitChars 10 _ 0 = _
  rw [Nat.ofDigitChars_replicate_zero, Nat.mul_zero]

theorem isAsciiDigit_of_mem_decimalDigits {n : Nat} {c : Char} (h : c ∈ decimalDigits n) :
    isAsciiDigit c = true :=
  isAsciiDigit_iff.2 (Nat.isDigit_of_mem_toDigits (by decide) (by decide) h)

theorem decimalDigits_ne_nil (n : Nat) : decimalDigits n ≠ [] :=
  Nat.toDigits_ne_nil

theorem length_decimalDigits_pos (n : Nat) : 0 < (decimalDigits n).length :=
  Nat.length_toDigits_pos

theorem length_decimalDigits_le_iff {n k : Nat} (hk : 0 < k) :
    (decimalDigits n).length ≤ k ↔ n < 10 ^ k :=
  Nat.length_toDigits_le_iff (by decide) hk

/-- **A positive number starts with no zero.** -/
theorem head?_decimalDigits_ne {n : Nat} (h : n ≠ 0) : (decimalDigits n).head? ≠ some '0' := by
  induction n using Nat.strongRecOn with
  | ind n ih =>
    by_cases hlt : n < 10
    · have hall : ∀ k < 10, k = 0 ∨ (decimalDigits k).head? ≠ some '0' := by decide
      exact (hall n hlt).resolve_left h
    · have hsplit : decimalDigits n = decimalDigits (n / 10) ++ [(n % 10).digitChar] :=
        Nat.toDigits_of_base_le (by decide) (by omega)
      have hhead := ih (n / 10) (by omega) (by omega)
      obtain ⟨c, cs, hcons⟩ := List.exists_cons_of_ne_nil (decimalDigits_ne_nil (n / 10))
      rw [hcons] at hhead
      rw [hsplit, hcons]
      exact hhead

end MatlabQuality.Number
