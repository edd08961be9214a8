import MatlabQuality.Smell.Rule

/-!
# What the rules find

A rule finds a fault exactly when the measures of a file break its limit, and what it finds names
its kind, its severity and the file.  So the findings of a file are the kinds that it breaks, in
the order in which they are looked for.

## Main definitions

* `Violates` — that the measures of a file break the limit of a kind.

## Main statements

* `isSome_finding?_iff` — a rule finds a fault exactly when its limit is broken.
* `map_detectWith`, `map_kind_detect` — what findings say, read off the kinds that a file breaks.
* `severity_of_mem_detect` — the severity of a finding is that of its kind.
-/

namespace MatlabQuality

open MatlabQuality.Number MatlabQuality.Source

variable {m : FileMetrics} {t : Thresholds} {k : SmellKind} {f : Finding}

/-! ## Broken limits -/

/-- The measures of a file break the limit of a kind.  Four limits may be reached and must not be
passed; the number of unexplained values must not reach its limit, and the share of comments must
not fall below its own, unless there is nothing to comment. -/
def Violates (t : Thresholds) (m : FileMetrics) : SmellKind → Prop
  | .longFunction => t.maxFunctionLength < m.maxFunctionLength
  | .tooManyParameters => t.maxParameters < m.maxParameters
  | .deepNesting => t.maxNestingDepth < m.maxNestingDepth
  | .highComplexity => t.maxCyclomaticComplexity < m.cyclomaticComplexity
  | .insufficientComments =>
    m.linesOfCode + m.commentLines ≠ 0 ∧
      ((Binary64.ofNat m.commentLines).div (Binary64.ofNat (m.linesOfCode + m.commentLines))).lt
        t.minCommentRatio = true
  | .magicNumbers => t.magicNumberThreshold ≤ m.magicNumbers.length

instance (t : Thresholds) (m : FileMetrics) : DecidablePred (Violates t m)
  | .longFunction => inferInstanceAs (Decidable (_ < _))
  | .tooManyParameters => inferInstanceAs (Decidable (_ < _))
  | .deepNesting => inferInstanceAs (Decidable (_ < _))
  | .highComplexity => inferInstanceAs (Decidable (_ < _))
  | .insufficientComments => inferInstanceAs (Decidable (_ ∧ _))
  | .magicNumbers => inferInstanceAs (Decidable (_ ≤ _))

/-- **A rule finds a fault exactly when its limit is broken.** -/
theorem isSome_finding?_iff : (k.rule.finding? m t).isSome ↔ Violates t m k := by
  rw [Rule.finding?, Option.isSome_map]
  cases k with
  | insufficientComments =>
    simp only [SmellKind.rule, Rule.insufficientComments, FileMetrics.commentRatio?, Violates]
    by_cases hfilled : m.linesOfCode + m.commentLines = 0
    · rw [if_pos hfilled]
      simp [hfilled]
    · rw [if_neg hfilled]
      simp [-Nat.add_eq_zero_iff, hfilled]
  | longFunction => simp [SmellKind.rule, Rule.longFunction, Violates]
  | tooManyParameters => simp [SmellKind.rule, Rule.tooManyParameters, Violates]
  | deepNesting => simp [SmellKind.rule, Rule.deepNesting, Violates]
  | highComplexity => simp [SmellKind.rule, Rule.highComplexity, Violates]
  | magicNumbers => simp [SmellKind.rule, Rule.magicNumbers, Violates]

/-! ## What a finding says -/

/-- What a finding of one file says apart from its description. -/
structure Finding.Of (f : Finding) (m : FileMetrics) (k : SmellKind) : Prop where
  kind : f.kind = k
  severity : f.severity = k.rule.severity
  filePath : f.filePath = m.filePath

theorem of_finding? (h : k.rule.finding? m t = some f) : f.Of m k := by
  obtain ⟨description, -, rfl⟩ := Option.map_eq_some_iff.1 h
  exact ⟨kind_rule k, rfl, rfl⟩

/-- **What findings say of their kind and their file** can be read off the kinds that the file
breaks. -/
theorem map_detectWith {α : Type} {g : Finding → α} (g' : SmellKind → α)
    (h : ∀ k f, f.Of m k → g f = g' k) (kinds : List SmellKind) :
    (detectWith kinds m t).map g = (kinds.filter (Violates t m ·)).map g' := by
  induction kinds with
  | nil => rfl
  | cons k kinds ih =>
    rw [detectWith, List.filterMap_cons]
    cases hfinding : k.rule.finding? m t with
    | none =>
      have hkept : ¬ Violates t m k := by
        rw [← isSome_finding?_iff, hfinding]
        exact Bool.false_ne_true
      rw [List.filter_cons_of_neg (by simpa using hkept)]
      exact ih
    | some f =>
      have hbroken : Violates t m k := by
        rw [← isSome_finding?_iff, hfinding]
        rfl
      rw [List.filter_cons_of_pos (by simpa using hbroken), List.map_cons, List.map_cons,
        h k f (of_finding? hfinding)]
      exact congrArg (g' k :: ·) ih

/-- A finding of a kind has the severity of its rule. -/
theorem severity_of_mem_detect (h : f ∈ detect m t) : f.severity = f.kind.rule.severity := by
  obtain ⟨k, -, hfinding⟩ := List.mem_filterMap.1 h
  have hof := of_finding? hfinding
  rw [hof.severity, hof.kind]

end MatlabQuality
