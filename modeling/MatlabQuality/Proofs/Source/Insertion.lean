import Mathlib.Algebra.GroupWithZero.Nat
import MatlabQuality.Proofs.Source.Agreement

/-!
# A line put into a source

A comment or a blank line may be put in anywhere.  No pass over lines does anything on such a line,
so a scan that meets it only counts one line more.  A scan meets it unless a closer has ended the
scan before, and a function declared behind it is moved down.

## Main definitions

* `insertLine` — a source with one line more.
* `FunctionRecord.makeRoom` — what becomes of a function when a line is put in.
* `MakesRoom` — what becomes of the measures and the functions.

## Main statements

* `linesToClose_insert` — a scan with one line more that does nothing.
* `functionsFrom_insert` — the functions of some lines with one line more.
* `makesRoom_insertLine` — a comment or a blank line changes nothing else.
-/

namespace MatlabQuality.Source

open MatlabQuality.Text

/-- A source with one line more after its first `p` lines. -/
def insertLine (source : List Char) (p : Nat) (line : List Char) : List Char :=
  joinWith ['\n'] ((lines source).take p ++ line :: (lines source).drop p)

/-! ## Lines that do nothing -/

section Remarks

variable {line : List Char}

/-- A comment and a blank line have no first word. -/
theorem leadingWord_of_remark (h : trim line = [] ∨ ∃ comment, trim line = '%' :: comment) :
    leadingWord (trim line) = [] := by
  have hsign : isWord '%' = false := by decide
  rcases h with h | ⟨comment, h⟩
  · rw [h]
    rfl
  · rw [h, leadingWord, List.takeWhile_cons_of_neg (by simp [hsign])]

/-- A line without a first word neither opens nor closes a block. -/
theorem LineRole.ofLine_of_leadingWord (h : leadingWord (trim line) = []) :
    LineRole.ofLine line = .plain := by
  have hopens : opensBlock line = false := by
    rw [opensBlock, h]
    decide
  have hcloses : closesBlock line = false := by
    rw [Bool.eq_false_iff]
    intro hcloses
    rw [closesBlock, beq_iff_eq] at hcloses
    rw [hcloses] at h
    exact absurd h (by decide)
  simp [LineRole.ofLine, hopens, hcloses]

/-- A line that does nothing declares nothing. -/
theorem ofLine?_of_plain (h : LineRole.ofLine line = .plain) : Declaration.ofLine? line = none := by
  cases hd : Declaration.ofLine? line with
  | none => rfl
  | some d =>
    rw [LineRole.ofLine_eq_opener.2 (opensBlock_of_ofLine? hd)] at h
    cases h

/-- A comment and a blank line are counted as what they are. -/
theorem LineKind.ofLine_of_remark (h : trim line = [] ∨ ∃ comment, trim line = '%' :: comment) :
    LineKind.ofLine line = if trim line = [] then .blank else .comment := by
  rcases h with h | ⟨comment, h⟩
  · simp [LineKind.ofLine, h]
  · simp [LineKind.ofLine, h, commentSign]

end Remarks

/-! ## Scans -/

/-- **A scan with one line more that does nothing** takes that line too, unless a closer before it
ends the scan. -/
theorem linesToClose_insert {line : List Char} (h : LineRole.ofLine line = .plain) (level : Nat)
    (xs ys : List (List Char)) :
    linesToClose level (xs ++ line :: ys) =
      linesToClose level (xs ++ ys) + if findsCloser level xs then 0 else 1 := by
  induction xs generalizing level with
  | nil =>
    have hnext : (LineRole.ofLine line).next level = some level := by rw [h, LineRole.next_plain]
    simp only [List.nil_append, findsCloser, Bool.false_eq_true, if_false]
    rw [linesToClose_step hnext, Nat.add_comm]
  | cons x xs ih =>
    rw [List.cons_append, List.cons_append]
    cases hnext : (LineRole.ofLine x).next level with
    | none =>
      rw [linesToClose_stop hnext, linesToClose_stop hnext, findsCloser_stop hnext, if_pos rfl]
    | some next =>
      rw [linesToClose_step hnext, linesToClose_step hnext, findsCloser_step hnext, ih,
        Nat.add_assoc]

/-- A scan finds a closer among the first lines when it finds one at all and ends there. -/
theorem findsCloser_iff_linesToClose_le (level : Nat) (xs ys : List (List Char)) :
    findsCloser level xs = true ↔
      findsCloser level (xs ++ ys) = true ∧ linesToClose level (xs ++ ys) ≤ xs.length := by
  induction xs generalizing level with
  | nil =>
    simp only [findsCloser, Bool.false_eq_true, List.nil_append, List.length_nil, false_iff]
    rintro ⟨hfinds, hle⟩
    obtain ⟨body, _, _, _, _, hlines⟩ := exists_of_findsCloser hfinds
    omega
  | cons x xs ih =>
    rw [List.cons_append]
    cases hnext : (LineRole.ofLine x).next level with
    | none => simp [findsCloser_stop hnext, linesToClose_stop hnext]
    | some next =>
      rw [findsCloser_step hnext, findsCloser_step hnext, linesToClose_step hnext, ih,
        List.length_cons, Nat.add_comm 1, Nat.add_le_add_iff_right]

/-! ## Functions -/

/-- What becomes of a function of `source` when a line that does nothing is put in behind line `p`.
A function declared further down is moved down; any other one has a line more, unless a closer
ends it on line `p` or before. -/
def FunctionRecord.makeRoom (source : List Char) (p : Nat) (f : FunctionRecord) : FunctionRecord :=
  if p < f.declarationLine then f.shift 1
  else if f.isClosedIn source ∧ f.lastLine ≤ p then f
  else { f with bodyLength := f.bodyLength + 1 }

@[simp] theorem FunctionRecord.makeRoom_name (source : List Char) (p : Nat) (f : FunctionRecord) :
    (f.makeRoom source p).name = f.name := by
  unfold makeRoom
  split
  · rfl
  · split <;> rfl

@[simp] theorem FunctionRecord.makeRoom_parameterCount (source : List Char) (p : Nat)
    (f : FunctionRecord) : (f.makeRoom source p).parameterCount = f.parameterCount := by
  unfold makeRoom
  split
  · rfl
  · split <;> rfl

/-- The function that a line declares before the place where a line is put in. -/
theorem functionAt_insert {source line : List Char} (h : LineRole.ofLine line = .plain)
    {before xs ys : List (List Char)} {x : List Char}
    (hsource : lines source = before ++ x :: (xs ++ ys)) :
    functionAt (before.length + 1) x (xs ++ line :: ys) =
      (functionAt (before.length + 1) x (xs ++ ys)).map
        (·.makeRoom source (before.length + 1 + xs.length)) := by
  have hdrop : (lines source).drop (before.length + 1) = xs ++ ys := by
    rw [hsource, List.append_cons, List.drop_left' (by simp)]
  rw [functionAt, functionAt, Option.map_map]
  refine congrArg (Option.map · _) (funext fun d => ?_)
  have hdeclared : ¬before.length + 1 + xs.length < before.length + 1 := by omega
  have hclosed := findsCloser_iff_linesToClose_le 0 xs ys
  simp only [Function.comp_apply, FunctionRecord.makeRoom, if_neg hdeclared,
    FunctionRecord.isClosedIn, FunctionRecord.lastLine, hdrop, bodyLength, linesToClose_insert h]
  by_cases hfinds : findsCloser 0 xs = true
  · have hended : findsCloser 0 (xs ++ ys) = true ∧
        before.length + 1 + (1 + linesToClose 0 (xs ++ ys)) - 1 ≤ before.length + 1 + xs.length :=
      ⟨(hclosed.1 hfinds).1, by have := (hclosed.1 hfinds).2; omega⟩
    rw [if_pos hfinds, if_pos hended]
    rfl
  · have hopen : ¬(findsCloser 0 (xs ++ ys) = true ∧
        before.length + 1 + (1 + linesToClose 0 (xs ++ ys)) - 1 ≤ before.length + 1 + xs.length) :=
      fun hboth => hfinds (hclosed.2 ⟨hboth.1, by omega⟩)
    rw [if_neg hfinds, if_neg hopen, Nat.add_assoc]

/-- **The functions of some lines with one line more that does nothing.**  The lines `before` say
how far down the others stand. -/
theorem functionsFrom_insert {source line : List Char} (h : LineRole.ofLine line = .plain)
    (before : List (List Char)) {xs ys : List (List Char)}
    (hsource : lines source = before ++ (xs ++ ys)) :
    functionsFrom (before.length + 1) (xs ++ line :: ys) =
      (functionsFrom (before.length + 1) (xs ++ ys)).map
        (·.makeRoom source (before.length + xs.length)) := by
  induction xs generalizing before with
  | nil =>
    -- All functions that are left stand behind the line.
    have hbelow : ∀ f ∈ functionsFrom (before.length + 1) ys,
        f.shift 1 = f.makeRoom source (before.length + 0) := by
      intro f hf
      obtain ⟨between, _, _, _, hf⟩ := exists_of_mem_functionsFrom hf
      have hlt : before.length + 0 < f.declarationLine := by
        rw [(eq_of_functionAt hf).1]
        omega
      rw [FunctionRecord.makeRoom, if_pos hlt]
    rw [List.nil_append, List.nil_append, functionsFrom_cons, functionAt, ofLine?_of_plain h,
      functionsFrom_add, List.length_nil, List.map_congr_left hbelow]
    rfl
  | cons x xs ih =>
    have hnumber : (before ++ [x]).length = before.length + 1 := by simp
    have hplace : before.length + (x :: xs).length = before.length + 1 + xs.length := by
      rw [List.length_cons]
      omega
    have hrest := ih (before ++ [x]) (by simpa using hsource)
    rw [hnumber] at hrest
    rw [List.cons_append, List.cons_append, functionsFrom_cons, functionsFrom_cons, hrest, hplace,
      List.map_append, functionAt_insert h hsource]
    cases functionAt (before.length + 1) x (xs ++ ys) <;> rfl

/-! ## Sources -/

/-- The complexity of a source is put together from its lines. -/
theorem cyclomaticComplexity_joinWith (ls : List (List Char)) :
    cyclomaticComplexity (joinWith ['\n'] ls) + ls.length =
      1 + (ls.map cyclomaticComplexity).sum := by
  induction ls with
  | nil => rfl
  | cons line ls ih =>
    by_cases hnil : ls = []
    · subst hnil
      simp [Nat.add_comm]
    · have happend := cyclomaticComplexity_append line (joinWith ['\n'] ls)
      rw [joinWith_cons hnil, List.singleton_append, List.length_cons, List.map_cons, List.sum_cons]
      omega

/-- What becomes of the measures and the functions of `source` when `line` is put in behind line
`p`. -/
structure MakesRoom (source : List Char) (p : Nat) (line : List Char)
    (old new : FileMetrics × List FunctionRecord) : Prop where
  linesOfCode_eq : new.1.linesOfCode = old.1.linesOfCode
  commentLines_eq : new.1.commentLines = old.1.commentLines + if trim line = [] then 0 else 1
  blankLines_eq : new.1.blankLines = old.1.blankLines + if trim line = [] then 1 else 0
  totalLines_eq : new.1.totalLines = old.1.totalLines + 1
  cyclomaticComplexity_eq :
    new.1.cyclomaticComplexity + 1 = old.1.cyclomaticComplexity + cyclomaticComplexity line
  functionCount_eq : new.1.functionCount = old.1.functionCount
  maxParameters_eq : new.1.maxParameters = old.1.maxParameters
  maxNestingDepth_eq : new.1.maxNestingDepth = old.1.maxNestingDepth
  names_eq : new.2.map (·.name) = old.2.map (·.name)
  parameterCounts_eq : new.2.map (·.parameterCount) = old.2.map (·.parameterCount)
  functions_eq : new.2 = old.2.map (·.makeRoom source p)

section Sources

variable {source line : List Char} {p : Nat}

/-- The lines before and behind the place where a line is put in. -/
theorem exists_lines_insertLine (hp : p ≤ (lines source).length) (hline : '\n' ∉ line) :
    ∃ before after, before.length = p ∧ lines source = before ++ after ∧
      lines (insertLine source p line) = before ++ line :: after := by
  refine ⟨(lines source).take p, (lines source).drop p, List.length_take_of_le hp,
    (List.take_append_drop p _).symm, ?_⟩
  refine lines_joinWith (by simp) fun l hl => ?_
  rcases List.mem_append.1 hl with hl | hl
  · exact sep_notMem_of_mem_splitOn (List.mem_of_mem_take hl)
  · rcases List.mem_cons.1 hl with rfl | hl
    · exact hline
    · exact sep_notMem_of_mem_splitOn (List.mem_of_mem_drop hl)

theorem count_lineKinds_insertLine (hp : p ≤ (lines source).length) (hline : '\n' ∉ line)
    (kind : LineKind) :
    (lineKinds (insertLine source p line)).count kind =
      (lineKinds source).count kind + if LineKind.ofLine line = kind then 1 else 0 := by
  obtain ⟨before, after, -, hsource, hinserted⟩ := exists_lines_insertLine hp hline
  rw [lineKinds, lineKinds, hsource, hinserted, List.map_append, List.map_append, List.map_cons,
    List.count_append, List.count_append, List.count_cons, Nat.add_assoc]
  simp only [beq_iff_eq]

theorem cyclomaticComplexity_insertLine (hp : p ≤ (lines source).length) (hline : '\n' ∉ line) :
    cyclomaticComplexity (insertLine source p line) + 1 =
      cyclomaticComplexity source + cyclomaticComplexity line := by
  obtain ⟨before, after, -, hsource, hinserted⟩ := exists_lines_insertLine hp hline
  have hold := cyclomaticComplexity_joinWith (lines source)
  have hnew := cyclomaticComplexity_joinWith (lines (insertLine source p line))
  rw [joinWith_lines] at hold hnew
  simp only [hsource, List.length_append, List.map_append, List.sum_append] at hold
  simp only [hinserted, List.length_append, List.length_cons, List.map_append, List.map_cons,
    List.sum_append, List.sum_cons] at hnew
  omega

variable (hplain : LineRole.ofLine line = .plain)

include hplain

theorem maxNesting_insertLine (hp : p ≤ (lines source).length) (hline : '\n' ∉ line) :
    maxNesting (insertLine source p line) = maxNesting source := by
  obtain ⟨before, after, -, hsource, hinserted⟩ := exists_lines_insertLine hp hline
  have hstep : ∀ state, nestingStep state line = state := by
    intro state
    rw [nestingStep_eq, hplain]
  rw [maxNesting, maxNesting, hsource, hinserted, List.foldl_append, List.foldl_append,
    List.foldl_cons, hstep]

theorem scanFunctions_insertLine (hp : p ≤ (lines source).length) (hline : '\n' ∉ line) :
    scanFunctions (insertLine source p line) =
      (scanFunctions source).map (·.makeRoom source p) := by
  obtain ⟨before, after, hlength, hsource, hinserted⟩ := exists_lines_insertLine hp hline
  have h := functionsFrom_insert hplain [] hsource
  rw [List.length_nil, Nat.zero_add, Nat.zero_add, hlength, ← hsource, ← hinserted] at h
  exact h

end Sources

/-- **A comment or a blank line may be put in anywhere.**  Behind line `p`, or before the first line
if that is zero, it adds one line of its own kind and the decisions that its text has; code, depth
and the list of functions stay as they are, and a function is moved down or has one line more as
the place is before its declaration or within its body. -/
theorem makesRoom_insertLine (filePath : String) {source line : List Char} {p : Nat}
    (hp : p ≤ (lines source).length) (hline : '\n' ∉ line)
    (hremark : trim line = [] ∨ ∃ comment, trim line = '%' :: comment) :
    MakesRoom source p line (measure filePath source)
      (measure filePath (insertLine source p line)) := by
  have hplain := LineRole.ofLine_of_leadingWord (leadingWord_of_remark hremark)
  have hkind := LineKind.ofLine_of_remark hremark
  have hfunctions := scanFunctions_insertLine hplain hp hline
  have hcode := count_lineKinds_insertLine hp hline .code
  have hcomment := count_lineKinds_insertLine hp hline .comment
  have hblank := count_lineKinds_insertLine hp hline .blank
  rw [hkind] at hcode hcomment hblank
  have hparameters : (scanFunctions (insertLine source p line)).map (·.parameterCount) =
      (scanFunctions source).map (·.parameterCount) := by
    rw [hfunctions, List.map_map]
    exact List.map_congr_left fun f _ => f.makeRoom_parameterCount source p
  exact
    { linesOfCode_eq := by
        refine hcode.trans ?_
        split <;> rfl
      commentLines_eq := by
        refine hcomment.trans ?_
        split <;> rfl
      blankLines_eq := by
        refine hblank.trans ?_
        split <;> rfl
      totalLines_eq := by
        obtain ⟨before, after, -, hsource, hinserted⟩ := exists_lines_insertLine hp hline
        have htotal : (countLines (insertLine source p line)).total =
            (countLines source).total + 1 := by
          rw [total_countLines, total_countLines, hsource, hinserted, List.length_append,
            List.length_append, List.length_cons, Nat.add_assoc]
        exact htotal
      cyclomaticComplexity_eq := cyclomaticComplexity_insertLine hp hline
      functionCount_eq := (congrArg List.length hfunctions).trans (List.length_map _)
      maxParameters_eq := congrArg greatest hparameters
      maxNestingDepth_eq := maxNesting_insertLine hplain hp hline
      names_eq := by
        refine (congrArg (List.map (·.name)) hfunctions).trans ?_
        rw [List.map_map]
        exact List.map_congr_left fun f _ => f.makeRoom_name source p
      parameterCounts_eq := hparameters
      functions_eq := hfunctions }

/-- A comment with a decision word, put in within the outer one of two functions and behind the end
of the inner one, and before a third function that is never closed. -/
theorem makesRoom_insertLine_within :
    let source := "function f()\nfunction g(a)\nend\nx\nend\nfunction h(b, c)".toList
    let line := " % if so".toList
    let inserted := insertLine source 3 line
    (3 ≤ (lines source).length ∧ '\n' ∉ line ∧
        (trim line = [] ∨ ∃ comment, trim line = '%' :: comment)) ∧
      scanFunctions inserted = [⟨"f", 1, 0, 6⟩, ⟨"g", 2, 1, 2⟩, ⟨"h", 7, 2, 1⟩] ∧
      (countLines inserted).comment = (countLines source).comment + 1 ∧
      cyclomaticComplexity inserted = cyclomaticComplexity source + 1 := by
  intro source line inserted
  have hp : 3 ≤ (lines source).length := by decide
  have hline : '\n' ∉ line := by decide
  have hremark : trim line = [] ∨ ∃ comment, trim line = '%' :: comment := .inr ⟨_, rfl⟩
  have h := makesRoom_insertLine "f.m" hp hline hremark
  have hfunctions : scanFunctions source = [⟨"f", 1, 0, 5⟩, ⟨"g", 2, 1, 2⟩, ⟨"h", 6, 2, 1⟩] := by
    decide
  have hdecisions : cyclomaticComplexity line = 2 := by decide +kernel
  refine ⟨⟨hp, hline, hremark⟩, ?_, h.commentLines_eq, ?_⟩
  · have hmoved : scanFunctions inserted = (scanFunctions source).map (·.makeRoom source 3) :=
      h.functions_eq
    rw [hmoved, hfunctions]
    decide
  · have hsum := h.cyclomaticComplexity_eq
    rw [hdecisions] at hsum
    exact Nat.succ.inj hsum

end MatlabQuality.Source
