import MatlabQuality.Proofs.Source.Concatenation
import MatlabQuality.Proofs.Text.Runs
import MatlabQuality.Source.Metrics

/-!
# Measures that agree

The measures of a source come from passes that know nothing of each other: lines are told apart by
their first character, openers by their first word, closers by their whole text, decisions by the
words of the whole source.  What ties them together is the first word of a line.  A line that has
one is code, a declaration has the one that opens a function, and the first word of a line is a word
of the source.

## Main definitions

* `openerCount`, `closerCount`, `branchCount` — the lines that open a block, that close one, and
  that open one with a word that decides.
* `IsLargest` — the largest of some counts.
* `Agree` — how the measures of a source bound each other.

## Main statements

* `LineKind.ofLine_of_leadingWord` — a line with a first word is code.
* `foldl_nestingStep_le` — blocks nest no deeper than there are openers.
* `wordRuns_joinWith` — the words of a source are those of its lines.
* `agree_measure` — the measures of every source agree.
-/

namespace MatlabQuality.Source

open MatlabQuality.Text

/-! ## Openers and closers among the lines -/

/-- The number of lines that open a block. -/
def openerCount (source : List Char) : Nat :=
  (lines source).countP opensBlock

/-- The number of lines that close a block. -/
def closerCount (source : List Char) : Nat :=
  (lines source).countP closesBlock

/-- The opening words that decide between going on and going elsewhere. -/
def branchingWords : List (List Char) :=
  ["if".toList, "for".toList, "while".toList]

/-- Whether a line opens a block with a word that decides. -/
def opensBranch (line : List Char) : Bool :=
  opensBlock line && branchingWords.contains (leadingWord (trim line))

/-- The number of lines that open a block with a word that decides. -/
def branchCount (source : List Char) : Nat :=
  (lines source).countP opensBranch

/-- **A line with a first word is code**: no comment starts with a word character. -/
theorem LineKind.ofLine_of_leadingWord {line : List Char} (h : leadingWord (trim line) ≠ []) :
    LineKind.ofLine line = .code := by
  unfold LineKind.ofLine
  cases htrim : trim line with
  | nil => simp [htrim, leadingWord] at h
  | cons c rest =>
    have hsign : c ≠ commentSign := by
      rintro rfl
      have hword : isWord commentSign = false := by decide
      simp [htrim, leadingWord, hword] at h
    simp [hsign]

theorem ofLine_of_opensBlock {line : List Char} (h : opensBlock line = true) :
    LineKind.ofLine line = .code := by
  refine LineKind.ofLine_of_leadingWord fun hnil => ?_
  rw [opensBlock, hnil] at h
  exact absurd h (by decide)

theorem ofLine_of_closesBlock {line : List Char} (h : closesBlock line = true) :
    LineKind.ofLine line = .code := by
  have htrim : trim line = closingText := by simpa [closesBlock] using h
  refine LineKind.ofLine_of_leadingWord ?_
  rw [htrim]
  decide

/-- **Openers and closers are different lines of code.** -/
theorem countP_opensBlock_add_countP_closesBlock_le (ls : List (List Char)) :
    ls.countP opensBlock + ls.countP closesBlock ≤ (ls.map LineKind.ofLine).count .code := by
  induction ls with
  | nil => simp
  | cons line ls ih =>
    rw [List.countP_cons, List.countP_cons, List.map_cons, List.count_cons]
    cases hcloses : closesBlock line with
    | true =>
      have hopens := not_opensBlock_of_closesBlock hcloses
      simp only [hopens, ofLine_of_closesBlock hcloses, beq_self_eq_true, Bool.false_eq_true,
        if_true, if_false]
      omega
    | false =>
      cases hopens : opensBlock line with
      | true =>
        simp only [ofLine_of_opensBlock hopens, beq_self_eq_true, Bool.false_eq_true, if_true,
          if_false]
        omega
      | false =>
        simp only [Bool.false_eq_true, if_false]
        omega

/-- Every function has its own opener. -/
theorem length_functionsFrom_le (number : Nat) (ls : List (List Char)) :
    (functionsFrom number ls).length ≤ ls.countP opensBlock := by
  induction ls generalizing number with
  | nil => simp [functionsFrom]
  | cons line ls ih =>
    have hrest := ih (number + 1)
    rw [functionsFrom_cons, List.length_append, List.countP_cons]
    cases hf : functionAt number line ls with
    | none =>
      rw [Option.toList_none, List.length_nil]
      omega
    | some f =>
      rw [Option.toList_some, List.length_singleton, if_pos (opensBlock_of_functionAt hf)]
      omega

/-! ## Depth -/

/-- Blocks nest no deeper than there are openers. -/
theorem foldl_nestingStep_le {bound : Nat} {state : Nat × Nat} (hdepth : state.1 ≤ bound)
    (hgreatest : state.2 ≤ bound) (ls : List (List Char)) :
    (ls.foldl nestingStep state).2 ≤ bound + ls.countP opensBlock := by
  induction ls generalizing bound state with
  | nil => exact hgreatest
  | cons line ls ih =>
    rw [List.foldl_cons, List.countP_cons]
    cases hopens : opensBlock line with
    | true =>
      -- An opener raises both numbers by one at most, and so does it raise the bound.
      have hstep : nestingStep state line = (state.1 + 1, max state.2 (state.1 + 1)) := by
        simp [nestingStep, hopens]
      have hrest := @ih (bound + 1) (nestingStep state line) (by rw [hstep]; omega)
        (by rw [hstep]; omega)
      simp only [if_true]
      omega
    | false =>
      have hstep : (nestingStep state line).1 ≤ bound ∧ (nestingStep state line).2 ≤ bound := by
        simp only [nestingStep, hopens, Bool.false_eq_true, if_false]
        split
        · exact ⟨Nat.le_trans (Nat.sub_le _ _) hdepth, hgreatest⟩
        · exact ⟨hdepth, hgreatest⟩
      simpa using ih hstep.1 hstep.2

/-- One opener is a depth of one at least. -/
theorem foldl_nestingStep_pos {ls : List (List Char)} (h : 0 < ls.countP opensBlock)
    (state : Nat × Nat) : 0 < (ls.foldl nestingStep state).2 := by
  induction ls generalizing state with
  | nil => simp at h
  | cons line ls ih =>
    rw [List.foldl_cons]
    cases hopens : opensBlock line with
    | true =>
      have hstep : nestingStep state line = (state.1 + 1, max state.2 (state.1 + 1)) := by
        simp [nestingStep, hopens]
      have hbelow : (nestingStep state line).1 ≤ (nestingStep state line).2 := by
        rw [hstep]
        exact Nat.le_max_right _ _
      have hkept := (foldl_nestingStep_bounds ls hbelow).2
      rw [hstep] at hkept ⊢
      omega
    | false =>
      rw [List.countP_cons_of_neg (by simp [hopens])] at h
      exact ih h _

theorem maxNesting_le_openerCount (source : List Char) :
    maxNesting source ≤ openerCount source := by
  have hstart : (0, 0).1 ≤ 0 ∧ (0, 0).2 ≤ 0 := ⟨Nat.le_refl 0, Nat.le_refl 0⟩
  have h := foldl_nestingStep_le hstart.1 hstart.2 (lines source)
  rwa [Nat.zero_add] at h

theorem maxNesting_eq_zero_iff (source : List Char) :
    maxNesting source = 0 ↔ openerCount source = 0 := by
  constructor
  · intro h
    by_contra hne
    have hpos := foldl_nestingStep_pos (Nat.pos_of_ne_zero hne) (0, 0)
    rw [← maxNesting] at hpos
    omega
  · intro h
    have := maxNesting_le_openerCount source
    omega

/-! ## First words -/

/-- **The first word of a line is one of its words.** -/
theorem leadingWord_mem_wordRuns {line : List Char} (h : leadingWord (trim line) ≠ []) :
    leadingWord (trim line) ∈ wordRuns line := by
  have hne : (trim line).takeWhile isWord ≠ [] := h
  have hsegments := segments_of_isSpan hne (IsSpan.takeWhile_dropWhile isWord (trim line))
  rw [List.takeWhile_append_dropWhile] at hsegments
  rw [← cutAtBlanks_wordRuns.apply_trim, wordRuns, hsegments]
  exact List.mem_cons_self

/-- **The words of joined lines are those of the lines.** -/
theorem wordRuns_joinWith (ls : List (List Char)) :
    wordRuns (joinWith ['\n'] ls) = ls.flatMap wordRuns := by
  induction ls with
  | nil => rfl
  | cons line ls ih =>
    by_cases hnil : ls = []
    · subst hnil
      simp
    · rw [joinWith_cons hnil, List.singleton_append, List.flatMap_cons, ← ih]
      exact cutAtBlanks_wordRuns.cut line '\n' _ isBlank_lineFeed

/-- A line that opens a block with a word that decides has a decision. -/
theorem countP_isDecisionWord_pos {line : List Char} (h : opensBranch line = true) :
    0 < (wordRuns line).countP isDecisionWord := by
  have hbranching : leadingWord (trim line) ∈ branchingWords := by
    simpa using (Bool.and_eq_true_iff.1 h).2
  have hall : ∀ word ∈ branchingWords, word ≠ [] ∧ isDecisionWord word = true := by decide
  obtain ⟨hne, hdecides⟩ := hall _ hbranching
  exact List.countP_pos_iff.2 ⟨_, leadingWord_mem_wordRuns hne, hdecides⟩

/-- **There are no fewer decisions than blocks that one opens.** -/
theorem countP_opensBranch_le (ls : List (List Char)) :
    ls.countP opensBranch ≤ (ls.flatMap wordRuns).countP isDecisionWord := by
  induction ls with
  | nil => simp
  | cons line ls ih =>
    rw [List.flatMap_cons, List.countP_append, List.countP_cons]
    split
    · next h =>
      have := countP_isDecisionWord_pos h
      omega
    · omega

theorem one_add_branchCount_le (source : List Char) :
    1 + branchCount source ≤ cyclomaticComplexity source := by
  have h := countP_opensBranch_le (lines source)
  rw [← wordRuns_joinWith, joinWith_lines] at h
  rw [cyclomaticComplexity, branchCount]
  omega

/-! ## Largest counts -/

/-- A number is the largest of some counts; it is zero if there are none. -/
structure IsLargest (counts : List Nat) (n : Nat) : Prop where
  le : ∀ count ∈ counts, count ≤ n
  mem : counts ≠ [] → n ∈ counts
  zero : counts = [] → n = 0

theorem isLargest_greatest (counts : List Nat) : IsLargest counts (greatest counts) := by
  have heq : greatest counts = counts.max?.getD 0 := by
    rw [greatest, List.foldl_max, Nat.zero_max]
  rw [heq]
  cases hmax : counts.max? with
  | none =>
    obtain rfl := List.max?_eq_none_iff.1 hmax
    exact ⟨by simp, by simp, fun _ => rfl⟩
  | some n =>
    obtain ⟨hmem, hle⟩ := List.max?_eq_some_iff.1 hmax
    exact ⟨hle, fun _ => hmem, by rintro rfl; cases hmem⟩

theorem IsLargest.le_of_forall_le {counts : List Nat} {n bound : Nat} (h : IsLargest counts n)
    (hbound : ∀ count ∈ counts, count ≤ bound) : n ≤ bound := by
  by_cases hnil : counts = []
  · rw [h.zero hnil]
    exact Nat.zero_le bound
  · exact hbound n (h.mem hnil)

/-- No function is longer than its source. -/
theorem bodyLength_le {source : List Char} {f : FunctionRecord} (h : f ∈ scanFunctions source) :
    f.bodyLength ≤ (countLines source).total := by
  obtain ⟨before, line, after, hf⟩ := FunctionRecord.exists_standsAt h
  have := hf.lastLine_le
  rw [FunctionRecord.lastLine, hf.declarationLine_eq] at this
  rw [total_countLines]
  omega

/-! ## Agreement -/

/-- How the measures of a source and the list of its functions bound each other. -/
structure Agree (source : List Char) (m : FileMetrics) (functions : List FunctionRecord) :
    Prop where
  totalLines_eq : m.linesOfCode + m.commentLines + m.blankLines = source.count '\n' + 1
  openerCount_add_closerCount_le : openerCount source + closerCount source ≤ m.linesOfCode
  functionCount_le : m.functionCount ≤ openerCount source
  maxNestingDepth_le : m.maxNestingDepth ≤ openerCount source
  maxNestingDepth_eq_zero_iff : m.maxNestingDepth = 0 ↔ openerCount source = 0
  one_le_maxNestingDepth : 0 < m.functionCount → 1 ≤ m.maxNestingDepth
  branchCount_le : 1 + branchCount source ≤ m.cyclomaticComplexity
  maxFunctionLength : IsLargest (functions.map (·.bodyLength)) m.maxFunctionLength
  maxParameters : IsLargest (functions.map (·.parameterCount)) m.maxParameters
  maxFunctionLength_le : m.maxFunctionLength ≤ m.totalLines

/-- **The measures of every source agree**, however malformed it is. -/
theorem agree_measure (filePath : String) (source : List Char) :
    Agree source (measure filePath source).1 (measure filePath source).2 := by
  have hfunctions : (scanFunctions source).length ≤ openerCount source :=
    length_functionsFrom_le 1 (lines source)
  have hlargest := isLargest_greatest ((scanFunctions source).map (·.bodyLength))
  exact
    { totalLines_eq := (total_countLines source).trans (length_splitOn '\n' source)
      openerCount_add_closerCount_le := countP_opensBlock_add_countP_closesBlock_le (lines source)
      functionCount_le := hfunctions
      maxNestingDepth_le := maxNesting_le_openerCount source
      maxNestingDepth_eq_zero_iff := maxNesting_eq_zero_iff source
      one_le_maxNestingDepth := by
        intro hpos
        have hopeners : openerCount source ≠ 0 :=
          Nat.ne_of_gt (Nat.lt_of_lt_of_le hpos hfunctions)
        exact Nat.one_le_iff_ne_zero.2 (mt (maxNesting_eq_zero_iff source).1 hopeners)
      branchCount_le := one_add_branchCount_le source
      maxFunctionLength := hlargest
      maxParameters := isLargest_greatest _
      maxFunctionLength_le := by
        refine hlargest.le_of_forall_le fun count hcount => ?_
        obtain ⟨f, hf, rfl⟩ := List.mem_map.1 hcount
        exact bodyLength_le hf }

end MatlabQuality.Source
