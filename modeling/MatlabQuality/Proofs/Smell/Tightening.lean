import MatlabQuality.Proofs.Number.Order
import MatlabQuality.Proofs.Report.Account
import MatlabQuality.Proofs.Smell.Score

/-!
# Tighter thresholds

Tighter thresholds never lose a finding.  Each rule compares in its own direction, but all of them
agree that a file which breaks a limit also breaks a tighter one.  So the findings of a run are
among those of a run with tighter thresholds, in the same order, and the score cannot be higher.

## Main definitions

* `Thresholds.Tightens` — that thresholds are at least as tight as others.

## Main statements

* `Violates.tighten` — a file that breaks a limit breaks a tighter one.
* `findings_sublist_of_tightens` — the findings are among those with tighter thresholds.
* `scoreOf_le_of_deduction_le` — a higher cost never raises the score, over any number of files.
* `run_of_tightens` — the findings, their counts and the score of two runs.
-/

namespace MatlabQuality

open MatlabQuality.Number MatlabQuality.Source

variable {t t' : Thresholds}

/-! ## Findings -/

/-- The second thresholds are at least as tight as the first: no upper limit is higher, and the
least share of comments is not lower. -/
structure Thresholds.Tightens (t t' : Thresholds) : Prop where
  maxFunctionLength : t'.maxFunctionLength ≤ t.maxFunctionLength
  maxParameters : t'.maxParameters ≤ t.maxParameters
  maxNestingDepth : t'.maxNestingDepth ≤ t.maxNestingDepth
  maxCyclomaticComplexity : t'.maxCyclomaticComplexity ≤ t.maxCyclomaticComplexity
  minCommentRatio : t.minCommentRatio.le t'.minCommentRatio = true
  magicNumberThreshold : t'.magicNumberThreshold ≤ t.magicNumberThreshold

/-- **A file that breaks a limit breaks a tighter one.** -/
theorem Violates.tighten {m : FileMetrics} {k : SmellKind} (h : t.Tightens t')
    (hbroken : Violates t m k) : Violates t' m k := by
  cases k with
  | longFunction => exact lt_of_le_of_lt h.maxFunctionLength hbroken
  | tooManyParameters => exact lt_of_le_of_lt h.maxParameters hbroken
  | deepNesting => exact lt_of_le_of_lt h.maxNestingDepth hbroken
  | highComplexity => exact lt_of_le_of_lt h.maxCyclomaticComplexity hbroken
  | insufficientComments =>
    exact ⟨hbroken.1, Binary64.lt_trans_le hbroken.2 h.minCommentRatio⟩
  | magicNumbers => exact le_trans h.magicNumberThreshold hbroken

/-- **The findings of a run are among those with tighter thresholds**, in the same order. -/
theorem findings_sublist_of_tightens (h : t.Tightens t') (files : List (String × List Char)) :
    ((Run.ofSources t files).findings.map fun f => (f.filePath, f.kind)).Sublist
      ((Run.ofSources t' files).findings.map fun f => (f.filePath, f.kind)) := by
  rw [map_findings_ofSources, map_findings_ofSources]
  induction files with
  | nil => exact List.Sublist.refl _
  | cons file files ih =>
    rw [List.flatMap_cons, List.flatMap_cons]
    refine List.Sublist.append (List.Sublist.map _ ?_) ih
    refine List.monotone_filter_right _ fun k hk => ?_
    exact decide_eq_true (Violates.tighten h (of_decide_eq_true hk))

/-! ## Counts -/

/-- Tighter thresholds do not lower the number of findings of a severity. -/
theorem countP_severity_le_of_tightens (h : t.Tightens t') (files : List (String × List Char))
    (s : Severity) :
    (Run.ofSources t files).findings.countP (·.severity = s) ≤
      (Run.ofSources t' files).findings.countP (·.severity = s) := by
  -- The severity of a finding can be read off its kind.
  have hcount : ∀ t, (Run.ofSources t files).findings.countP (·.severity = s) =
      ((Run.ofSources t files).findings.map fun f => (f.filePath, f.kind)).countP
        (·.2.rule.severity = s) := by
    intro t
    rw [List.countP_map]
    refine List.countP_congr fun f hf => ?_
    simp [severity_of_mem_findings hf]
  rw [hcount, hcount]
  exact (findings_sublist_of_tightens h files).countP_le

theorem atLeast_le_of_tightens (h : t.Tightens t') (files : List (String × List Char))
    (s : Severity) :
    (Run.ofSources t files).tally.atLeast s ≤ (Run.ofSources t' files).tally.atLeast s := by
  have hlow := countP_severity_le_of_tightens h files .low
  have hmedium := countP_severity_le_of_tightens h files .medium
  have hhigh := countP_severity_le_of_tightens h files .high
  cases s with
  | high => exact hhigh
  | medium => exact Nat.add_le_add hhigh hmedium
  | low => exact Nat.add_le_add (Nat.add_le_add hlow hmedium) hhigh

/-! ## The score -/

section Score

-- The two powers of two are too large to be computed in passing.
attribute [local irreducible] unitsPerOne unitsOfInfinity

variable {cost cost' : Binary64} {b : Magnitude}

/-- The score of a cost over a number of files, before it is cut to a whole number. -/
def scoreValue (cost files : Binary64) : Binary64 :=
  let perfect := Binary64.ofNat perfectScore
  let perFile := (perfect.sub (perfect.sub cost)).div files
  ((perfect.sub (perFile.mul files)).max (Binary64.ofNat 0)).round

theorem scoreOf_eq_toNat {tally : Tally} {files : ℕ} (h : files ≠ 0) :
    scoreOf tally files =
      (scoreValue (Binary64.ofNat (deduction tally)) (Binary64.ofNat files)).toNat :=
  if_neg h

/-- A number of files is positive, or so large that it is infinite. -/
theorem ofNat_files_cases {files : ℕ} (h : files ≠ 0) :
    Binary64.ofNat files = .infinite false ∨
      ∃ b : Magnitude, Binary64.ofNat files = .finite false b ∧ b.units ≠ 0 := by
  refine (Binary64.ofUnits_cases false (files * unitsPerOne) 1).imp id ?_
  rintro ⟨b, heq, hb⟩
  refine ⟨b, heq, ?_⟩
  have hone := roundUnits_eq_of_mod_spacing (mod_spacing_of_lt (k := 1) (by decide)) Nat.one_pos
  have hle := roundUnits_mono Nat.one_pos
    (Nat.mul_le_mul_right unitsPerOne (Nat.one_le_iff_ne_zero.2 h))
  rw [Nat.mul_one] at hone
  rw [hone, ← hb, Nat.one_mul] at hle
  exact (lt_of_lt_of_le unitsPerOne_pos hle).ne'

/-- Over a number of files that is infinite, the score is nought for every cost. -/
theorem toNat_scoreValue_infinite (cost : Binary64) :
    (scoreValue cost (.infinite false)).toNat = 0 := by
  have hlost : ∀ x : Binary64, (x.div (.infinite false)).mul (.infinite false) = .nan := by
    intro x
    cases x <;> simp [Binary64.div, Binary64.mul, Binary64.zero, Magnitude.zero]
  have hsub : ∀ x : Binary64, x.sub .nan = .nan := by
    intro x
    cases x <;> rfl
  rw [scoreValue]
  simp only [hlost, hsub]
  rfl

theorem ofNat_perfectScore : ∃ p, Binary64.ofNat perfectScore = .finite false p := by
  rcases Binary64.ofUnits_cases false (perfectScore * unitsPerOne) 1 with h | ⟨p, h, -⟩
  · have hfinite : (Binary64.ofNat perfectScore).isFinite = true := by decide +kernel
    rw [Binary64.ofNat, Binary64.ofRatio, h] at hfinite
    exact absurd hfinite Bool.false_ne_true
  · exact ⟨p, h⟩

/-- Every step keeps the order of two costs or reverses it. -/
theorem scoreValue_le (hb : b.units ≠ 0) (h : cost.le cost' = true) :
    (scoreValue cost' (.finite false b)).le (scoreValue cost (.finite false b)) = true := by
  obtain ⟨p, hp⟩ := ofNat_perfectScore
  have hzero : Binary64.ofNat 0 ≠ .nan := Binary64.ofUnits_ne_nan _ _ _
  rw [scoreValue, scoreValue, hp]
  have hcost := Binary64.sub_le_sub false p (Binary64.sub_le_sub false p h)
  have hrestored := Binary64.mul_le_mul (Binary64.div_le_div hcost hb) hb
  exact Binary64.round_le_round
    (Binary64.max_le_max hzero (Binary64.sub_le_sub false p hrestored))

/-- Without a cost the score is perfect. -/
theorem scoreValue_zero (hb : b.units ≠ 0) :
    scoreValue (Binary64.ofNat 0) (.finite false b) =
      ((Binary64.ofNat perfectScore).max (Binary64.ofNat 0)).round := by
  have hcost : (Binary64.ofNat perfectScore).sub
      ((Binary64.ofNat perfectScore).sub (Binary64.ofNat 0)) = .zero false := by decide +kernel
  have hshare : (Binary64.zero false).div (.finite false b) = .zero false := by
    simp only [Binary64.zero, Binary64.div, if_neg hb]
    exact (congrArg (Binary64.ofUnits false · b.units) (Nat.zero_mul unitsPerOne)).trans
      (Binary64.ofUnits_zero false (Nat.pos_of_ne_zero hb))
  have hrestored : (Binary64.zero false).mul (.finite false b) = .zero false :=
    (congrArg (Binary64.ofUnits false · unitsPerOne) (Nat.zero_mul b.units)).trans
      (Binary64.ofUnits_zero false unitsPerOne_pos)
  have hperfect :
      (Binary64.ofNat perfectScore).sub (.zero false) = Binary64.ofNat perfectScore := by
    decide +kernel
  rw [scoreValue]
  simp only [hcost, hshare, hrestored, hperfect]

/-- **A higher cost never raises the score**, over any number of files. -/
theorem scoreOf_le_of_deduction_le {tally tally' : Tally} (h : deduction tally ≤ deduction tally')
    (files : ℕ) : scoreOf tally' files ≤ scoreOf tally files := by
  by_cases hfiles : files = 0
  · rw [hfiles, scoreOf_zero, scoreOf_zero]
  · rw [scoreOf_eq_toNat hfiles, scoreOf_eq_toNat hfiles]
    rcases ofNat_files_cases hfiles with hinfinite | ⟨b, hfinite, hb⟩
    · rw [hinfinite, toNat_scoreValue_infinite, toNat_scoreValue_infinite]
    · rw [hfinite]
      refine Binary64.toNat_le_toNat (scoreValue_le hb (Binary64.ofNat_le_ofNat h)) ?_
      have hzero := scoreValue_le hb (Binary64.ofNat_le_ofNat (Nat.zero_le (deduction tally)))
      refine Binary64.ne_infinite_of_le hzero ?_
      rw [scoreValue_zero hb]
      decide +kernel

end Score

/-- Counts that are not lower do not cost less, as long as none of them is cut off. -/
theorem deduction_le_of_le {tally tally' : Tally} (hlow : tally.low ≤ tally'.low)
    (hmedium : tally.medium ≤ tally'.medium) (hhigh : tally.high ≤ tally'.high)
    (hfits : 10 * tally'.high + 5 * tally'.medium + 2 * tally'.low < 2 ^ 32) :
    deduction tally ≤ deduction tally' := by
  rw [deduction_eq, deduction_eq]
  omega

/-! ## Two runs -/

/-- **Tighter thresholds over whole runs.**  Over any files the findings of a run are among those
with tighter thresholds, in the same order; there are not fewer of any severity or above; and the
score is not higher, as long as the findings with the tighter thresholds cost less than
`2 ^ 32`. -/
theorem run_of_tightens (h : t.Tightens t') (files : List (String × List Char)) :
    ((Run.ofSources t files).findings.map fun f => (f.filePath, f.kind)).Sublist
        ((Run.ofSources t' files).findings.map fun f => (f.filePath, f.kind)) ∧
      (∀ s, (Run.ofSources t files).tally.atLeast s ≤ (Run.ofSources t' files).tally.atLeast s) ∧
      (10 * (Run.ofSources t' files).tally.high + 5 * (Run.ofSources t' files).tally.medium
          + 2 * (Run.ofSources t' files).tally.low < 2 ^ 32 →
        (Run.ofSources t' files).qualityScore ≤ (Run.ofSources t files).qualityScore) := by
  refine ⟨findings_sublist_of_tightens h files, atLeast_le_of_tightens h files, fun hfits => ?_⟩
  have hscore : ∀ t, (Run.ofSources t files).qualityScore =
      scoreOf (Run.ofSources t files).tally files.length := by
    intro t
    rw [Run.ofSources, Run.ofAnalyses, List.length_map]
    rfl
  rw [hscore, hscore]
  refine scoreOf_le_of_deduction_le (deduction_le_of_le ?_ ?_ ?_ hfits) files.length
  · exact countP_severity_le_of_tightens h files .low
  · exact countP_severity_le_of_tightens h files .medium
  · exact countP_severity_le_of_tightens h files .high

/-- One file breaks a limit for each severity once the thresholds are tight. -/
theorem run_of_tightens_nested :
    let tight : Thresholds :=
      { maxNestingDepth := 0, minCommentRatio := 1, magicNumberThreshold := 1 }
    let files := [("a.m", "if x\ny = 42\nend".toList), ("b.m", "% z".toList)]
    Thresholds.default.Tightens tight ∧
      (Run.ofSources tight files).tally = ⟨1, 1, 1⟩ ∧
      (Run.ofSources Thresholds.default files).tally.atLeast .low ≤ 3 ∧
      (Run.ofSources tight files).qualityScore ≤
        (Run.ofSources Thresholds.default files).qualityScore := by
  intro tight files
  have htightens : Thresholds.default.Tightens tight :=
    ⟨by decide, by decide, by decide, by decide, by decide +kernel, by decide⟩
  have htally : (Run.ofSources tight files).tally = ⟨1, 1, 1⟩ := by decide +kernel
  obtain ⟨-, hcounts, hscore⟩ := run_of_tightens htightens files
  refine ⟨htightens, htally, ?_, hscore ?_⟩
  · exact (hcounts .low).trans (by rw [htally]; decide)
  · rw [htally]
    decide

end MatlabQuality
