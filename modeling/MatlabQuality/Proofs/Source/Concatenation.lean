import Mathlib.Data.List.Forall2
import Mathlib.Data.List.Induction
import MatlabQuality.Proofs.Source.Extent
import MatlabQuality.Proofs.Text.Lines
import MatlabQuality.Proofs.Text.Reading
import MatlabQuality.Source.Decision

/-!
# Sources put together

Two sources with a line feed between them are one source.  The readings of the whole text do not
see across the line feed, so they are put together from the two sides.  The scans of lines do: the
depth of blocks at the end of the first source is where the second one starts, and a body that is
not closed goes on.

## Main definitions

* `RunsAbove` — two states of the depth scan, one above the other by a bounded amount.
* `FunctionRecord.Continues` — what becomes of a function when lines follow its source.
* `Composes` — how the measures of a source come from those of its two sides.

## Main statements

* `foldl_addUnexplained` — the unexplained values after some were seen.
* `RunsAbove.foldl_nestingStep` — a bound between two depth scans is kept over a run.
* `exists_functionsFrom_append` — the functions of some lines, continued, and those of the rest.
* `composes_append` — the measures of two sources put together.
-/

namespace MatlabQuality.Source

open MatlabQuality.Text

/-! ## Lines and readings -/

theorem lines_append (a b : List Char) : lines (a ++ '\n' :: b) = lines a ++ lines b :=
  splitOn_append_sep '\n' a b

theorem count_lineKinds_append (a b : List Char) (kind : LineKind) :
    (lineKinds (a ++ '\n' :: b)).count kind =
      (lineKinds a).count kind + (lineKinds b).count kind := by
  rw [lineKinds, lines_append, List.map_append, List.count_append]
  rfl

theorem cyclomaticComplexity_append (a b : List Char) :
    cyclomaticComplexity (a ++ '\n' :: b) + 1 =
      cyclomaticComplexity a + cyclomaticComplexity b := by
  have hwords := cutAtBlanks_wordRuns.cut a '\n' b isBlank_lineFeed
  have hand := (cutAtBlanks_pairs (c := '&') (by decide)).cut a '\n' b isBlank_lineFeed
  have hor := (cutAtBlanks_pairs (c := '|') (by decide)).cut a '\n' b isBlank_lineFeed
  simp only [cyclomaticComplexity, hwords, hand, hor, List.countP_append]
  omega

/-! ## Unexplained values -/

theorem addUnexplained_of_mem {seen : List Nat} {value : Nat}
    (h : value ∈ acceptableValues ∨ value ∈ seen) : addUnexplained seen value = seen := by
  rw [addUnexplained, if_pos]
  simpa using h

theorem addUnexplained_of_notMem {seen : List Nat} {value : Nat}
    (haccepted : value ∉ acceptableValues) (hseen : value ∉ seen) :
    addUnexplained seen value = seen ++ [value] := by
  rw [addUnexplained, if_neg]
  simpa using And.intro haccepted hseen

/-- **The unexplained values after some were seen** are those, and then the others in the order in
which they would come alone. -/
theorem foldl_addUnexplained (seen values : List Nat) :
    values.foldl addUnexplained seen =
      seen ++ (values.foldl addUnexplained []).filter (· ∉ seen) := by
  -- A value is judged by what came before it, so the induction is on the last value.
  induction values using List.reverseRecOn with
  | nil => simp
  | append_singleton values value ih =>
    simp only [List.foldl_append, List.foldl_cons, List.foldl_nil, ih]
    generalize values.foldl addUnexplained [] = alone
    by_cases haccepted : value ∈ acceptableValues
    · rw [addUnexplained_of_mem (.inl haccepted), addUnexplained_of_mem (.inl haccepted)]
    by_cases halone : value ∈ alone
    · have hmem : value ∈ seen ++ alone.filter (· ∉ seen) := by
        by_cases hseen : value ∈ seen
        · exact List.mem_append_left _ hseen
        · exact List.mem_append_right _ (List.mem_filter.2 ⟨halone, by simpa using hseen⟩)
      rw [addUnexplained_of_mem (.inr halone), addUnexplained_of_mem (.inr hmem)]
    rw [addUnexplained_of_notMem haccepted halone, List.filter_append]
    by_cases hseen : value ∈ seen
    · rw [addUnexplained_of_mem (.inr (List.mem_append_left _ hseen))]
      simp [hseen]
    · have hnew : value ∉ seen ++ alone.filter (· ∉ seen) := by
        simp [hseen, halone]
      rw [addUnexplained_of_notMem haccepted hnew, List.append_assoc]
      simp [hseen]

theorem magicNumbers_append (a b : List Char) :
    magicNumbers (a ++ '\n' :: b) =
      magicNumbers a ++ (magicNumbers b).filter (· ∉ magicNumbers a) := by
  rw [magicNumbers, cutAtBlanks_literals.cut a '\n' b isBlank_lineFeed, List.filterMap_append,
    List.foldl_append, foldl_addUnexplained]
  rfl

/-! ## Depth -/

/-- Of two states of the depth scan the second one is not below the first, and above it by at most
`bound`. -/
structure RunsAbove (bound : Nat) (low high : Nat × Nat) : Prop where
  depth_le : low.1 ≤ high.1
  depth_le_add : high.1 ≤ low.1 + bound
  greatest_le : low.2 ≤ high.2
  greatest_le_add : high.2 ≤ low.2 + bound

namespace RunsAbove

variable {bound : Nat} {low high : Nat × Nat}

theorem nestingStep (h : RunsAbove bound low high) (line : List Char) :
    RunsAbove bound (nestingStep low line) (nestingStep high line) := by
  obtain ⟨hdepth, hdepth', hgreatest, hgreatest'⟩ := h
  rw [nestingStep_eq, nestingStep_eq]
  cases LineRole.ofLine line with
  | opener => constructor <;> dsimp only <;> omega
  | closer => constructor <;> dsimp only <;> omega
  | plain => exact ⟨hdepth, hdepth', hgreatest, hgreatest'⟩

/-- **A bound between two depth scans is kept over a run of the same lines.** -/
theorem foldl_nestingStep (h : RunsAbove bound low high) (ls : List (List Char)) :
    RunsAbove bound (ls.foldl Source.nestingStep low) (ls.foldl Source.nestingStep high) := by
  induction ls generalizing low high with
  | nil => exact h
  | cons line ls ih => exact ih (h.nestingStep line)

end RunsAbove

/-- The depth is never above the greatest depth, which never falls. -/
theorem foldl_nestingStep_bounds (ls : List (List Char)) {state : Nat × Nat}
    (h : state.1 ≤ state.2) :
    (ls.foldl nestingStep state).1 ≤ (ls.foldl nestingStep state).2 ∧
      state.2 ≤ (ls.foldl nestingStep state).2 := by
  induction ls generalizing state with
  | nil => exact ⟨h, Nat.le_refl _⟩
  | cons line ls ih =>
    have hstep : (nestingStep state line).1 ≤ (nestingStep state line).2 ∧
        state.2 ≤ (nestingStep state line).2 := by
      rw [nestingStep_eq]
      cases LineRole.ofLine line <;> dsimp only <;> omega
    obtain ⟨hdepth, hgreatest⟩ := ih hstep.1
    exact ⟨hdepth, Nat.le_trans hstep.2 hgreatest⟩

/-- The second source starts at a depth that the first one has reached. -/
theorem maxNesting_append_bounds (a b : List Char) :
    max (maxNesting a) (maxNesting b) ≤ maxNesting (a ++ '\n' :: b) ∧
      maxNesting (a ++ '\n' :: b) ≤ maxNesting a + maxNesting b := by
  have hstart : ((lines a).foldl nestingStep (0, 0)).1 ≤ maxNesting a :=
    (foldl_nestingStep_bounds (lines a) (Nat.le_refl (0, 0).1)).1
  have hrest := foldl_nestingStep_bounds (lines b) hstart
  have habove : RunsAbove (maxNesting a) (0, 0) ((lines a).foldl nestingStep (0, 0)) :=
    ⟨Nat.zero_le _, by rwa [Nat.zero_add], Nat.zero_le _, Nat.le_add_left _ _⟩
  have hrun := habove.foldl_nestingStep (lines b)
  have hlower : maxNesting b ≤ maxNesting (a ++ '\n' :: b) := by
    rw [maxNesting, maxNesting, lines_append, List.foldl_append]
    exact hrun.greatest_le
  have hupper : maxNesting (a ++ '\n' :: b) ≤ maxNesting b + maxNesting a := by
    rw [maxNesting, lines_append, List.foldl_append]
    exact hrun.greatest_le_add
  have hkept : maxNesting a ≤ maxNesting (a ++ '\n' :: b) := by
    rw [maxNesting, maxNesting, lines_append, List.foldl_append]
    exact hrest.2
  omega

/-! ## Functions -/

namespace FunctionRecord

/-- What becomes of a function when lines follow its source: its body grows unless it is closed. -/
structure Continues (closed : Bool) (f g : FunctionRecord) : Prop where
  name_eq : g.name = f.name
  declarationLine_eq : g.declarationLine = f.declarationLine
  parameterCount_eq : g.parameterCount = f.parameterCount
  bodyLength_eq : closed = true → g.bodyLength = f.bodyLength
  bodyLength_lt : closed = false → f.bodyLength < g.bodyLength

/-- A function of a source that starts some lines further down. -/
def shift (count : Nat) (f : FunctionRecord) : FunctionRecord :=
  { f with declarationLine := f.declarationLine + count }

end FunctionRecord

/-- A closer that is found ends a scan, whatever follows. -/
theorem linesToClose_append_of_findsCloser {level : Nat} {xs : List (List Char)}
    (h : findsCloser level xs = true) (ys : List (List Char)) :
    linesToClose level (xs ++ ys) = linesToClose level xs := by
  induction xs generalizing level with
  | nil => simp [findsCloser] at h
  | cons line xs ih =>
    rw [List.cons_append]
    cases hnext : (LineRole.ofLine line).next level with
    | none => rw [linesToClose_stop hnext, linesToClose_stop hnext]
    | some next =>
      rw [findsCloser_step hnext] at h
      rw [linesToClose_step hnext, linesToClose_step hnext, ih h]

/-- A scan that finds no closer goes on into what follows. -/
theorem length_lt_linesToClose_append {level : Nat} {xs ys : List (List Char)}
    (h : findsCloser level xs = false) (hys : ys ≠ []) :
    xs.length < linesToClose level (xs ++ ys) := by
  induction xs generalizing level with
  | nil =>
    obtain ⟨line, ys, rfl⟩ := List.exists_cons_of_ne_nil hys
    rw [List.nil_append, linesToClose_cons]
    cases (LineRole.ofLine line).next level with
    | none => exact Nat.one_pos
    | some next => exact Nat.lt_of_lt_of_le Nat.one_pos (Nat.le_add_right 1 _)
  | cons line xs ih =>
    cases hnext : (LineRole.ofLine line).next level with
    | none => simp [findsCloser_stop hnext] at h
    | some next =>
      rw [findsCloser_step hnext] at h
      have := ih h
      rw [List.cons_append, linesToClose_step hnext, List.length_cons]
      omega

/-- A line declares the same function with its body continued.  Whether the body is closed is told
by the number of the line. -/
theorem forall₂_functionAt_append (closed : Nat → Bool) {number : Nat} {xs ys : List (List Char)}
    (hclosed : closed number = findsCloser 0 xs) (hys : ys ≠ []) (line : List Char) :
    List.Forall₂ (fun f => f.Continues (closed f.declarationLine))
      (functionAt number line xs).toList (functionAt number line (xs ++ ys)).toList := by
  unfold functionAt
  cases Declaration.ofLine? line with
  | none => exact .nil
  | some d =>
    refine .cons ⟨rfl, rfl, rfl, ?_, ?_⟩ .nil
    · intro h
      exact congrArg (1 + ·) (linesToClose_append_of_findsCloser (hclosed.symm.trans h) ys)
    · intro h
      have hopen := hclosed.symm.trans h
      have hlength := length_lt_linesToClose_append hopen hys
      simp only [bodyLength, linesToClose_of_not_findsCloser hopen]
      omega

/-- **The functions of some lines, continued, and those of the rest.**  The lines `before` say how
far down the first lines stand. -/
theorem exists_functionsFrom_append (before xs : List (List Char)) {ys : List (List Char)}
    (hys : ys ≠ []) :
    ∃ continued,
      functionsFrom (before.length + 1) (xs ++ ys) =
        continued ++ functionsFrom (before.length + xs.length + 1) ys ∧
      List.Forall₂
        (fun f => f.Continues (findsCloser 0 ((before ++ xs).drop f.declarationLine)))
        (functionsFrom (before.length + 1) xs) continued := by
  induction xs generalizing before with
  | nil => exact ⟨[], rfl, .nil⟩
  | cons line xs ih =>
    obtain ⟨continued, hfunctions, hcontinues⟩ := ih (before ++ [line])
    have hnumber : (before ++ [line]).length = before.length + 1 := by simp
    have hdrop : (before ++ line :: xs).drop (before.length + 1) = xs := by
      rw [List.append_cons, List.drop_left' hnumber]
    rw [hnumber] at hfunctions hcontinues
    rw [List.append_assoc, List.singleton_append] at hcontinues
    refine ⟨(functionAt (before.length + 1) line (xs ++ ys)).toList ++ continued, ?_, ?_⟩
    · rw [List.cons_append, functionsFrom_cons, hfunctions, List.append_assoc, List.length_cons]
      congr 3
      omega
    · rw [functionsFrom_cons]
      have hline := forall₂_functionAt_append
        (fun number => findsCloser 0 ((before ++ line :: xs).drop number))
        (congrArg (findsCloser 0) hdrop) hys line
      exact List.rel_append hline hcontinues

/-- A source that starts further down has its functions further down. -/
theorem functionsFrom_add (number count : Nat) (ls : List (List Char)) :
    functionsFrom (number + count) ls = (functionsFrom number ls).map (·.shift count) := by
  induction ls generalizing number with
  | nil => rfl
  | cons line ls ih =>
    have hline : functionAt (number + count) line ls =
        (functionAt number line ls).map (·.shift count) := by
      rw [functionAt, functionAt, Option.map_map]
      rfl
    have hnumber : number + count + 1 = number + 1 + count := by omega
    rw [functionsFrom_cons, functionsFrom_cons, hline, hnumber, ih, List.map_append]
    cases functionAt number line ls <;> rfl

/-! ## Composition -/

/-- How the measures of the source `c` come from those of its two sides. -/
structure Composes (a b c : List Char) : Prop where
  code_eq : (countLines c).code = (countLines a).code + (countLines b).code
  comment_eq : (countLines c).comment = (countLines a).comment + (countLines b).comment
  blank_eq : (countLines c).blank = (countLines a).blank + (countLines b).blank
  cyclomaticComplexity_eq :
    cyclomaticComplexity c + 1 = cyclomaticComplexity a + cyclomaticComplexity b
  /-- The values of the second side that the first one has are not repeated. -/
  magicNumbers_eq : magicNumbers c = magicNumbers a ++ (magicNumbers b).filter (· ∉ magicNumbers a)
  le_maxNesting : max (maxNesting a) (maxNesting b) ≤ maxNesting c
  maxNesting_le : maxNesting c ≤ maxNesting a + maxNesting b
  /-- The functions of the first side come first and grow as far as they are not closed in it; the
  functions of the second side follow and are only moved down. -/
  functions_eq : ∃ continued,
    scanFunctions c = continued ++ (scanFunctions b).map (·.shift (countLines a).total) ∧
      List.Forall₂ (fun f => f.Continues (f.isClosedIn a)) (scanFunctions a) continued

/-- **The measures of two sources put together** come from the measures of each. -/
theorem composes_append (a b : List Char) : Composes a b (a ++ '\n' :: b) where
  code_eq := count_lineKinds_append a b .code
  comment_eq := count_lineKinds_append a b .comment
  blank_eq := count_lineKinds_append a b .blank
  cyclomaticComplexity_eq := cyclomaticComplexity_append a b
  magicNumbers_eq := magicNumbers_append a b
  le_maxNesting := (maxNesting_append_bounds a b).1
  maxNesting_le := (maxNesting_append_bounds a b).2
  functions_eq := by
    obtain ⟨continued, hfunctions, hcontinues⟩ :=
      exists_functionsFrom_append [] (lines a) (splitOn_ne_nil '\n' b)
    refine ⟨continued, ?_, hcontinues⟩
    rw [scanFunctions, lines_append, total_countLines, scanFunctions, ← functionsFrom_add,
      Nat.add_comm]
    simpa [lines] using hfunctions

end MatlabQuality.Source
