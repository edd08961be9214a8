import Mathlib.Algebra.Order.Group.MinMax
import MatlabQuality.Proofs.Number.Value
import MatlabQuality.Smell.Score

/-!
# The score in closed form

The cost of the findings is divided by the number of files and multiplied by it again, each time
with a rounding, and the number of files is itself rounded when it is large.  Whatever it is
rounded to, it is divided and multiplied by the same number, so the two roundings leave an error
far below one half, and the last step rounds it away.

## Main definitions

* `Tally.adding` — a tally with one more finding.

## Main statements

* `abs_restored_sub_le` — the error of dividing and multiplying again.
* `scoreOf_eq_sub` — the score is a hundred less the cost, or nought.
* `qualityScore_append_cons_le` — a finding never raises the score.
* `scoreOf_closed_form` — the score does not depend on the number of files, and findings never
  raise it.
-/

namespace MatlabQuality

open MatlabQuality.Number

/-! ## Dividing and multiplying again -/

section Restored

variable {cost files share restored : ℚ}

/-- The share of a file, times the exact number of files. -/
theorem abs_share_mul_sub_le (hfiles : 0 < files)
    (hshare : |share - cost / files| ≤ |cost / files| / 2 ^ 53) :
    |share * files - cost| ≤ |cost| / 2 ^ 53 := by
  have heq : share * files - cost = (share - cost / files) * files := by
    field_simp
  have hbound := mul_le_mul_of_nonneg_right hshare hfiles.le
  rw [heq, abs_mul, abs_of_pos hfiles]
  rwa [abs_div, abs_of_pos hfiles, div_right_comm, div_mul_cancel₀ _ hfiles.ne'] at hbound

/-- **The error of dividing and multiplying again** is a tiny share of the cost. -/
theorem abs_restored_sub_le (hfiles : 0 < files)
    (hshare : |share - cost / files| ≤ |cost / files| / 2 ^ 53)
    (hrestored : |restored - share * files| ≤ |share * files| / 2 ^ 53) :
    |restored - cost| ≤ |cost| / 2 ^ 51 := by
  have hproduct := abs_share_mul_sub_le hfiles hshare
  have hsize : |share * files| ≤ |cost| + |cost| / 2 ^ 53 := by
    calc |share * files| = |(share * files - cost) + cost| := by rw [sub_add_cancel]
      _ ≤ |share * files - cost| + |cost| := abs_add_le _ _
      _ ≤ |cost| + |cost| / 2 ^ 53 := by linarith
  calc |restored - cost| = |(restored - share * files) + (share * files - cost)| := by
        rw [sub_add_sub_cancel]
    _ ≤ |restored - share * files| + |share * files - cost| := abs_add_le _ _
    _ ≤ |cost| / 2 ^ 51 := by linarith [abs_nonneg cost]

end Restored

/-! ## Ranges

No step leaves the normal range, except for a cost of nought, which stays nought. -/

section Ranges

variable {cost : ℕ} {q : ℚ}

/-- A number of files is in the normal range. -/
theorem inNormalRange_files {files : ℕ} (hpos : 0 < files) (hlt : files < 2 ^ 64) :
    InNormalRange files := by
  have hone : (1 : ℚ) ≤ files := by exact_mod_cast hpos
  have hbound : (files : ℚ) ≤ 2 ^ 64 := by exact_mod_cast hlt.le
  refine inNormalRange_of_bounds ?_ ?_ <;> linarith

/-- A rounded number of files is still positive and of moderate size. -/
theorem bounds_of_rounded_files {files : ℕ} (hpos : 0 < files) (hlt : files < 2 ^ 64)
    (h : |q - files| ≤ |(files : ℚ)| / 2 ^ 53) : 1 / 2 ≤ q ∧ q ≤ 2 ^ 65 := by
  have hone : (1 : ℚ) ≤ files := by exact_mod_cast hpos
  have hbound : (files : ℚ) ≤ 2 ^ 64 := by exact_mod_cast hlt.le
  have habs : |(files : ℚ)| = files := abs_of_nonneg (by positivity)
  rw [habs, abs_le] at h
  constructor <;> linarith

/-- The share of a file is in the normal range. -/
theorem inNormalRange_cost_div (hcost : cost < 2 ^ 32) (hlow : 1 / 2 ≤ q) (hhigh : q ≤ 2 ^ 65) :
    InNormalRange (cost / q) := by
  have hq : 0 < q := by linarith
  have hbound : (cost : ℚ) ≤ 2 ^ 32 := by exact_mod_cast hcost.le
  by_cases hzero : cost = 0
  · exact .inl (by rw [hzero, Nat.cast_zero, zero_div])
  · have hone : (1 : ℚ) ≤ cost := by exact_mod_cast Nat.one_le_iff_ne_zero.2 hzero
    refine inNormalRange_of_bounds ?_ ?_
    · rw [le_div_iff₀ hq]
      linarith
    · rw [div_le_iff₀ hq]
      linarith

/-- What is close to the cost is in the normal range. -/
theorem inNormalRange_of_abs_sub_le (hcost : cost < 2 ^ 32)
    (h : |q - cost| ≤ |(cost : ℚ)| / 2 ^ 53) : InNormalRange q := by
  have hbound : (cost : ℚ) ≤ 2 ^ 32 := by exact_mod_cast hcost.le
  have habs : |(cost : ℚ)| = cost := abs_of_nonneg (by positivity)
  rw [habs] at h
  by_cases hzero : cost = 0
  · subst hzero
    rw [Nat.cast_zero, zero_div, sub_zero] at h
    exact .inl (abs_nonpos_iff.1 h)
  · have hone : (1 : ℚ) ≤ cost := by exact_mod_cast Nat.one_le_iff_ne_zero.2 hzero
    rw [abs_le] at h
    refine inNormalRange_of_bounds ?_ ?_ <;> linarith

end Ranges

/-! ## The score of a cost -/

section Score

variable {cost : ℕ} {restored score : ℚ}

/-- The restored cost has a moderate distance from a hundred. -/
theorem abs_hundred_sub_restored_le (hcost : cost < 2 ^ 32)
    (h : |restored - cost| ≤ |(cost : ℚ)| / 2 ^ 51) : |100 - restored| ≤ 2 ^ 33 := by
  have hbound : (cost : ℚ) ≤ 2 ^ 32 := by exact_mod_cast hcost.le
  have hnonneg : (0 : ℚ) ≤ cost := by positivity
  rw [abs_of_nonneg hnonneg, abs_le] at h
  rw [abs_le]
  constructor <;> linarith

/-- The last difference is off by less than half. -/
theorem abs_score_sub_lt (hcost : cost < 2 ^ 32)
    (hrestored : |restored - cost| ≤ |(cost : ℚ)| / 2 ^ 51)
    (hscore : |score - (100 - restored)| ≤ |100 - restored| / 2 ^ 53) :
    |score - (100 - cost)| < 1 / 2 := by
  have hbound : (cost : ℚ) ≤ 2 ^ 32 := by exact_mod_cast hcost.le
  have hsize := abs_hundred_sub_restored_le hcost hrestored
  rw [abs_of_nonneg (by positivity : (0 : ℚ) ≤ cost)] at hrestored
  calc |score - (100 - cost)| = |(score - (100 - restored)) - (restored - cost)| := by ring_nf
    _ ≤ |score - (100 - restored)| + |restored - cost| := abs_sub _ _
    _ < 1 / 2 := by linarith

/-- A difference that is off by less than half, cut off at nought. -/
theorem abs_sup_zero_sub_lt (h : |score - (100 - cost)| < 1 / 2) :
    |score ⊔ 0 - (100 - cost : ℕ)| < 1 / 2 := by
  have hcut : ((100 - cost : ℕ) : ℚ) = ((100 : ℚ) - cost) ⊔ 0 := by
    by_cases hle : cost ≤ 100
    · have hle' : (cost : ℚ) ≤ 100 := by exact_mod_cast hle
      rw [Nat.cast_sub hle, sup_eq_left.2 (by linarith)]
      norm_num
    · have hle' : (100 : ℚ) ≤ cost := by exact_mod_cast (not_le.1 hle).le
      rw [Nat.sub_eq_zero_of_le (not_le.1 hle).le, Nat.cast_zero, sup_eq_right.2 (by linarith)]
  rw [hcut]
  exact (abs_max_sub_max_le_abs _ _ _).trans_lt h

end Score

/-- **The number of files cancels**: the score is a hundred less the cost, or nought. -/
theorem scoreOf_eq_sub {t : Tally} {files : ℕ} (hcost : deduction t < 2 ^ 32) (hpos : 0 < files)
    (hlt : files < 2 ^ 64) : scoreOf t files = 100 - deduction t := by
  rw [scoreOf, if_neg hpos.ne']
  generalize deduction t = cost at hcost ⊢
  dsimp only
  -- The cost is found again without an error.
  have hperfect : (Binary64.ofNat perfectScore).Denotes 100 := Binary64.denotes_ofNat (by decide)
  have hgiven : (Binary64.ofNat cost).Denotes cost := Binary64.denotes_ofNat (by omega)
  have hraw := Binary64.denotes_sub (m := 100 - cost) hperfect hgiven (by push_cast; rfl)
    (abs_lt.2 ⟨by omega, by omega⟩)
  have hcost' := Binary64.denotes_sub (m := cost) hperfect hraw (by push_cast; ring)
    (abs_lt.2 ⟨by omega, by omega⟩)
  -- It is spread over the files and summed again, with an error.
  obtain ⟨number, hnumber, herror⟩ := Binary64.rounds_ofNat (inNormalRange_files hpos hlt)
  obtain ⟨hlow, hhigh⟩ := bounds_of_rounded_files hpos hlt herror
  have hnumber0 : 0 < number := by linarith
  obtain ⟨share, hshare, hshareError⟩ :=
    Binary64.rounds_div hcost' hnumber hnumber0.ne' (inNormalRange_cost_div hcost hlow hhigh)
  have hproduct := abs_share_mul_sub_le hnumber0 hshareError
  obtain ⟨restored, hrestored, hrestoredError⟩ :=
    Binary64.rounds_mul hshare hnumber (inNormalRange_of_abs_sub_le hcost hproduct)
  have hrestoredCost := abs_restored_sub_le hnumber0 hshareError hrestoredError
  -- The difference is off by less than half.
  obtain ⟨score, hscore, hscoreError⟩ :=
    Binary64.rounds_sub hperfect hrestored
      ((abs_hundred_sub_restored_le hcost hrestoredCost).trans (by gcongr <;> norm_num))
  have hnear := abs_score_sub_lt hcost hrestoredCost hscoreError
  have hzero : (Binary64.ofNat 0).Denotes 0 := Binary64.denotes_ofNat (by decide)
  exact Binary64.toNat_round (Binary64.denotes_max hscore hzero) (by omega)
    (abs_sup_zero_sub_lt hnear)

theorem scoreOf_zero (t : Tally) : scoreOf t 0 = 100 := rfl

/-! ## One finding more -/

/-- A tally with one more finding of a severity. -/
def Tally.adding (t : Tally) : Severity → Tally
  | .low => { t with low := t.low + 1 }
  | .medium => { t with medium := t.medium + 1 }
  | .high => { t with high := t.high + 1 }

/-- A finding is tallied wherever it stands among the others. -/
theorem Tally.ofFindings_append_cons (before after : List Finding) (f : Finding) :
    ofFindings (before ++ f :: after) = (ofFindings (before ++ after)).adding f.severity := by
  cases hs : f.severity <;> simp [ofFindings, adding, List.countP_append, hs, Nat.add_assoc]

/-- The cost in the weights of the three severities. -/
theorem deduction_eq (t : Tally) :
    deduction t = 10 * (t.high % 2 ^ 32) + 5 * (t.medium % 2 ^ 32) + 2 * (t.low % 2 ^ 32) := by
  rw [deduction, Nat.mul_comm 10, Nat.mul_comm 5, Nat.mul_comm 2]
  rfl

/-- **Every finding costs its penalty.**  A cost below `2 ^ 32` leaves room for one more finding
in each count. -/
theorem deduction_adding {t : Tally} (h : deduction t < 2 ^ 32) (s : Severity) :
    deduction (t.adding s) = deduction t + s.penalty := by
  rw [deduction_eq] at h
  cases s with
  | low =>
    have hnext : (t.low + 1) % 2 ^ 32 = t.low % 2 ^ 32 + 1 := by omega
    simp only [deduction_eq, Tally.adding, hnext, Severity.penalty]
    omega
  | medium =>
    have hnext : (t.medium + 1) % 2 ^ 32 = t.medium % 2 ^ 32 + 1 := by omega
    simp only [deduction_eq, Tally.adding, hnext, Severity.penalty]
    omega
  | high =>
    have hnext : (t.high + 1) % 2 ^ 32 = t.high % 2 ^ 32 + 1 := by omega
    simp only [deduction_eq, Tally.adding, hnext, Severity.penalty]
    omega

theorem scoreOf_adding_le {t : Tally} {files : ℕ} (hlt : files < 2 ^ 64) {s : Severity}
    (h : deduction t < 2 ^ 32) (hadding : deduction (t.adding s) < 2 ^ 32) :
    scoreOf (t.adding s) files ≤ scoreOf t files := by
  by_cases hzero : files = 0
  · subst hzero
    rw [scoreOf_zero, scoreOf_zero]
  · have hpos := Nat.pos_of_ne_zero hzero
    rw [scoreOf_eq_sub hadding hpos hlt, scoreOf_eq_sub h hpos hlt, deduction_adding h]
    omega

/-- **A finding never raises the score**, wherever it stands among the others. -/
theorem qualityScore_append_cons_le {before after : List Finding} {f : Finding} {files : ℕ}
    (hlt : files < 2 ^ 64) (h : deduction (Tally.ofFindings (before ++ after)) < 2 ^ 32)
    (hadding : deduction (Tally.ofFindings (before ++ f :: after)) < 2 ^ 32) :
    qualityScore (before ++ f :: after) files ≤ qualityScore (before ++ after) files := by
  rw [Tally.ofFindings_append_cons] at hadding
  rw [qualityScore, qualityScore, Tally.ofFindings_append_cons]
  exact scoreOf_adding_le hlt h hadding

/-! ## The closed form -/

/-- **The score in closed form.**  As long as the cost of the findings is below `2 ^ 32`, the score
over one file or more is a hundred less that cost, or nought, in spite of the roundings.  It is
a hundred at most, it is the same over every number of files, and a finding never raises it. -/
theorem scoreOf_closed_form (t : Tally) :
    deduction t = 10 * (t.high % 2 ^ 32) + 5 * (t.medium % 2 ^ 32) + 2 * (t.low % 2 ^ 32) ∧
    scoreOf t 0 = 100 ∧
    (deduction t < 2 ^ 32 →
      (∀ files, 0 < files → files < 2 ^ 64 →
        (scoreOf t files : ℤ) = max 0 (100 - (deduction t : ℤ))) ∧
      (∀ files < 2 ^ 64, scoreOf t files ≤ 100) ∧
      (∀ m n, 0 < m → m < 2 ^ 64 → 0 < n → n < 2 ^ 64 → scoreOf t m = scoreOf t n) ∧
      ∀ s, deduction (t.adding s) < 2 ^ 32 →
        ∀ files < 2 ^ 64, scoreOf (t.adding s) files ≤ scoreOf t files) := by
  refine ⟨deduction_eq t, scoreOf_zero t, fun h => ⟨?_, ?_, ?_, ?_⟩⟩
  · intro files hpos hlt
    rw [scoreOf_eq_sub h hpos hlt]
    omega
  · intro files hlt
    rcases Nat.eq_zero_or_pos files with rfl | hpos
    · rw [scoreOf_zero]
    · rw [scoreOf_eq_sub h hpos hlt]
      omega
  · intro m n hm hm' hn hn'
    rw [scoreOf_eq_sub h hm hm', scoreOf_eq_sub h hn hn']
  · intro s hadding files hlt
    exact scoreOf_adding_le hlt h hadding

/-- Over the greatest number of files, two low and three medium findings and a count of high ones
that is weighed as four. -/
theorem scoreOf_closed_form_greatest :
    deduction ⟨2, 3, 2 ^ 32 + 4⟩ = 59 ∧
      (scoreOf ⟨2, 3, 2 ^ 32 + 4⟩ (2 ^ 64 - 1) : ℤ) = max 0 (100 - 59) ∧
      scoreOf (Tally.adding ⟨2, 3, 2 ^ 32 + 4⟩ .high) 7 ≤ scoreOf ⟨2, 3, 2 ^ 32 + 4⟩ 7 := by
  obtain ⟨-, -, h⟩ := scoreOf_closed_form ⟨2, 3, 2 ^ 32 + 4⟩
  obtain ⟨hform, -, -, hadding⟩ := h (by decide)
  exact ⟨by decide, hform (2 ^ 64 - 1) (by decide) (by decide),
    hadding .high (by decide) 7 (by decide)⟩

end MatlabQuality
