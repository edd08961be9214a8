import MatlabQuality.Proofs.Number.Exact
import MatlabQuality.Proofs.Smell.Detection

/-!
# The share of comments at its limit

The rule of comments compares two shares, each rounded once.  Rounding keeps the order, so a share
that is not below its limit is not below it when both are rounded.  Shares with small denominators
that differ do so by far more than the two roundings, so a share below its limit stays below.  The
rule therefore decides the comparison of whole numbers that the two shares stand for.

## Main statements

* `Binary64.rounds_ofRatio` — a share is rounded once.
* `Binary64.lt_ofRatio_iff` — shares with small denominators compare as they are.
* `violates_insufficientComments_iff` — when a file has too few comments, in whole numbers.
* `isSome_insufficientComments_iff` — when it is faulted for them.
-/

namespace MatlabQuality

open MatlabQuality.Number MatlabQuality.Source

-- The two powers of two are too large to be computed in passing.
attribute [local irreducible] unitsPerOne unitsOfInfinity

namespace Number.Binary64

section Shares

variable {n d m e : ℕ}

/-- **A share in the normal range is rounded once.** -/
theorem rounds_ofRatio (hd : 0 < d) (h : InNormalRange ((n : ℚ) / d)) :
    (ofRatio false n d).Rounds (n / d) := by
  have hU := cast_unitsPerOne_pos.ne'
  have heq : (n : ℚ) / d = ((n * unitsPerOne : ℕ) : ℚ) / d / unitsPerOne := by
    rw [Nat.cast_mul, div_right_comm, mul_div_cancel_right₀ _ hU]
  have hrounds := rounds_ofUnits_of_inNormalRange false hd (heq ▸ h)
  rwa [← heq, signFactor_false, one_mul] at hrounds

/-- A share is nought, or at least one part of its denominator. -/
theorem inNormalRange_share (hd : 0 < d) (hle : n ≤ d) (hbound : d ≤ 2 ^ 100) :
    InNormalRange ((n : ℚ) / d) := by
  have hd' : (0 : ℚ) < d := by exact_mod_cast hd
  have hle' : (n : ℚ) ≤ d := by exact_mod_cast hle
  have hbound' : (d : ℚ) ≤ 2 ^ 100 := by exact_mod_cast hbound
  by_cases hn : n = 0
  · exact .inl (by rw [hn, Nat.cast_zero, zero_div])
  · have hone : (1 : ℚ) ≤ n := by exact_mod_cast Nat.one_le_iff_ne_zero.2 hn
    refine inNormalRange_of_bounds ?_ ?_
    · exact div_le_div₀ (by linarith) hone hd' hbound'
    · exact ((div_le_one hd').2 hle').trans (by norm_num)

/-- **Rounding keeps the order of shares.** -/
theorem ofRatio_le_ofRatio (hd : 0 < d) (he : 0 < e) (h : n * e ≤ m * d) :
    (ofRatio false n d).le (ofRatio false m e) = true := by
  -- Both are brought to the same denominator.
  have hn : ofRatio false n d = ofUnits false (n * unitsPerOne * e) (d * e) :=
    ofUnits_congr false hd (Nat.mul_pos hd he) (by ring)
  have hm : ofRatio false m e = ofUnits false (m * unitsPerOne * d) (d * e) :=
    ofUnits_congr false he (Nat.mul_pos hd he) (by ring)
  have hunits : n * unitsPerOne * e ≤ m * unitsPerOne * d := by
    rw [Nat.mul_right_comm, Nat.mul_right_comm m]
    exact Nat.mul_le_mul_right _ h
  have hsigned : signed false (n * unitsPerOne * e) ≤ signed false (m * unitsPerOne * d) :=
    Int.ofNat_le.2 hunits
  rw [hn, hm, le_iff_key]
  exact ⟨ofUnits_ne_nan _ _ _, ofUnits_ne_nan _ _ _, key_ofUnits_mono (Nat.mul_pos hd he) hsigned⟩

/-- Different shares are at least one part of both denominators apart. -/
theorem div_add_le_div (hd : 0 < d) (he : 0 < e) (h : n * e < m * d) :
    (n : ℚ) / d + 1 / (d * e : ℕ) ≤ m / e := by
  have hd' : (0 : ℚ) < d := by exact_mod_cast hd
  have he' : (0 : ℚ) < e := by exact_mod_cast he
  have h' : (n : ℚ) * e + 1 ≤ m * d := by exact_mod_cast h
  rw [Nat.cast_mul, div_add_div _ _ hd'.ne' (mul_pos hd' he').ne',
    div_le_div_iff₀ (mul_pos hd' (mul_pos hd' he')) he']
  nlinarith [mul_pos hd' he', mul_le_mul_of_nonneg_left h' (mul_pos hd' he').le]

/-- The two roundings together are smaller than the distance of two shares that differ. -/
theorem ofRatio_lt_ofRatio (hd : 0 < d) (he : 0 < e) (hn : n ≤ d) (hm : m ≤ e)
    (hbound : d * e < 2 ^ 52) (h : n * e < m * d) :
    (ofRatio false n d).lt (ofRatio false m e) = true := by
  have hd' : (0 : ℚ) < d := by exact_mod_cast hd
  have he' : (0 : ℚ) < e := by exact_mod_cast he
  have hdbound : d ≤ 2 ^ 100 := by
    have := Nat.le_mul_of_pos_right d he
    omega
  have hebound : e ≤ 2 ^ 100 := by
    have := Nat.le_mul_of_pos_left e hd
    omega
  obtain ⟨r, hr, hrerror⟩ := rounds_ofRatio hd (inNormalRange_share hd hn hdbound)
  obtain ⟨s, hs, hserror⟩ := rounds_ofRatio he (inNormalRange_share he hm hebound)
  have hnle : (n : ℚ) / d ≤ 1 := (div_le_one hd').2 (by exact_mod_cast hn)
  have hmle : (m : ℚ) / e ≤ 1 := (div_le_one he').2 (by exact_mod_cast hm)
  have hgap : (1 : ℚ) / 2 ^ 52 < 1 / (d * e : ℕ) :=
    one_div_lt_one_div_of_lt (by exact_mod_cast Nat.mul_pos hd he) (by exact_mod_cast hbound)
  have happart := div_add_le_div hd he h
  rw [abs_of_nonneg (by positivity : (0 : ℚ) ≤ n / d), abs_le] at hrerror
  rw [abs_of_nonneg (by positivity : (0 : ℚ) ≤ m / e), abs_le] at hserror
  rw [lt_eq_decide hr hs, decide_eq_true_iff]
  linarith

/-- **Shares with small denominators compare as they are**, although both are rounded. -/
theorem lt_ofRatio_iff (hd : 0 < d) (he : 0 < e) (hn : n ≤ d) (hm : m ≤ e)
    (hbound : d * e < 2 ^ 52) :
    (ofRatio false n d).lt (ofRatio false m e) = true ↔ n * e < m * d := by
  refine ⟨fun hlt => ?_, ofRatio_lt_ofRatio hd he hn hm hbound⟩
  by_contra hle
  have hkept := ofRatio_le_ofRatio he hd (Nat.not_lt.1 hle)
  exact (lt_iff_not_le (ofUnits_ne_nan _ _ _) (ofUnits_ne_nan _ _ _)).1 hlt hkept

end Shares

end Number.Binary64

/-! ## The rule -/

section Rule

variable {m : FileMetrics} {t : Thresholds} {k : ℕ} (hk : k ≤ 10000)
  (ht : t.minCommentRatio = Binary64.ofRatio false k 10000)
  (hlines : m.linesOfCode + m.commentLines < 2 ^ 32)

include hk ht hlines

/-- The rule decides the comparison of whole numbers that the two shares stand for. -/
theorem violates_insufficientComments_iff :
    Violates t m .insufficientComments ↔
      0 < m.linesOfCode + m.commentLines ∧
        m.commentLines * 10000 < k * (m.linesOfCode + m.commentLines) := by
  rw [Violates, ← Nat.pos_iff_ne_zero, ht]
  refine and_congr_right fun hpos => ?_
  have hexact : ∀ n ≤ 2 ^ 32, Representable (n * unitsPerOne) := fun n hn =>
    Binary64.representable_of_le (hn.trans (by decide))
  rw [Binary64.ofNat_div_ofNat (hexact _ (by omega)) (hexact _ hlines.le) hpos]
  exact Binary64.lt_ofRatio_iff hpos (by decide) (by omega) hk (by omega)

/-- **When a file is faulted for too few comments.**  Let the limit be the number nearest to `k`
parts of ten thousand.  A file is faulted exactly when it has lines to comment and its comments are
fewer than that share of them, as whole numbers: never at its limit, and never where the limit is
nought. -/
theorem isSome_insufficientComments_iff :
    ((Rule.insufficientComments.finding? m t).isSome ↔
      0 < m.linesOfCode + m.commentLines ∧
        m.commentLines * 10000 < k * (m.linesOfCode + m.commentLines)) ∧
    (m.commentLines * 10000 = k * (m.linesOfCode + m.commentLines) →
      Rule.insufficientComments.finding? m t = none) ∧
    (k = 0 → Rule.insufficientComments.finding? m t = none) := by
  have hfires := (isSome_finding?_iff (m := m) (t := t) (k := .insufficientComments)).trans
    (violates_insufficientComments_iff hk ht hlines)
  have hnone {p : Prop} (h : p → ¬m.commentLines * 10000 < k * (m.linesOfCode + m.commentLines)) :
      p → Rule.insufficientComments.finding? m t = none := by
    intro hp
    rw [← Option.not_isSome_iff_eq_none]
    exact fun hsome => h hp (hfires.1 hsome).2
  refine ⟨hfires, hnone fun heq => ?_, hnone fun hzero => ?_⟩
  · exact Nat.not_lt.2 heq.ge
  · rw [hzero, Nat.zero_mul]
    exact Nat.not_lt_zero _

end Rule

/-- One comment in ten thousand lines is asked for, and one line too many makes the difference. -/
theorem isSome_insufficientComments_iff_close :
    let m : FileMetrics :=
      { filePath := "long.m", linesOfCode := 4294530505, commentLines := 429496, blankLines := 0,
        cyclomaticComplexity := 1, functionCount := 0, maxFunctionLength := 0, maxParameters := 0,
        maxNestingDepth := 0, magicNumbers := [] }
    let t : Thresholds := { minCommentRatio := Binary64.ofRatio false 1 10000 }
    (1 ≤ 10000 ∧ t.minCommentRatio = Binary64.ofRatio false 1 10000 ∧
        m.linesOfCode + m.commentLines < 2 ^ 32) ∧
      (Rule.insufficientComments.finding? m t).isSome ∧
      Rule.insufficientComments.finding? { m with linesOfCode := 4294530504 } t = none := by
  intro m t
  have hlines : m.linesOfCode + m.commentLines < 2 ^ 32 := by decide
  refine ⟨⟨by decide, rfl, hlines⟩, ?_, ?_⟩
  · have h := isSome_insufficientComments_iff (k := 1) (t := t) (by decide) rfl hlines
    exact h.1.2 (by decide)
  · have h := isSome_insufficientComments_iff (m := { m with linesOfCode := 4294530504 }) (k := 1)
      (t := t) (by decide) rfl (by decide)
    exact h.2.1 (by decide)

end MatlabQuality
