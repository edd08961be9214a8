import MatlabQuality.Proofs.Source.Body
import MatlabQuality.Proofs.Text.Lines

/-!
# Well-formed sources

A well-formed source is a forest of blocks: plain lines, and blocks of an opener, an inner forest
and a closer.  The scans know nothing of forests.  One counts open blocks over the whole source
and keeps the greatest count, the others count from each declaration to a closer; on the lines of
a forest they find its height and the extent of every declared block.

## Main definitions

* `LineOf` — a physical line of a given role.
* `Forest`, `Forest.render` — a forest of blocks and its text.
* `Forest.height` — how deep blocks are nested.
* `PlacedBlock`, `Forest.blocks` — the blocks of a forest with their line numbers.

## Main statements

* `Forest.foldl_nestingStep_toLines` — the depth after a forest is the depth before it.
* `Forest.linesToClose_toLines_append` — no scan stops within a forest.
* `Forest.functionsFrom_toLines_append` — the functions of a forest are its declared blocks.
* `scan_render` — both scans are exact on well-formed sources.
-/

namespace MatlabQuality.Source

open MatlabQuality.Text

/-! ## Forests -/

/-- A physical line of a given role. -/
structure LineOf (role : LineRole) where
  text : List Char
  /-- A line ends before its line feed. -/
  lineFeed_notMem : '\n' ∉ text
  role_eq : LineRole.ofLine text = role

/-- One step of a scan depends on the role of the line alone. -/
theorem LineOf.next_eq {role : LineRole} (line : LineOf role) (level : Nat) :
    (LineRole.ofLine line.text).next level = role.next level := by
  rw [line.role_eq]

/-- A list of plain lines and blocks. -/
inductive Forest where
  /-- Nothing. -/
  | nil
  /-- A plain line, then the rest. -/
  | plain (line : LineOf .plain) (rest : Forest)
  /-- A block, then the rest. -/
  | block (opener : LineOf .opener) (inner : Forest) (closer : LineOf .closer) (rest : Forest)

/-- A block, with the number of its first line. -/
structure PlacedBlock where
  number : Nat
  opener : LineOf .opener
  inner : Forest
  closer : LineOf .closer

namespace Forest

/-- The lines of a forest. -/
def toLines : Forest → List (List Char)
  | .nil => []
  | .plain line rest => line.text :: rest.toLines
  | .block opener inner closer rest =>
    opener.text :: (inner.toLines ++ closer.text :: rest.toLines)

/-- The text of a forest: its lines, with a line feed between each two of them. -/
def render (f : Forest) : List Char :=
  joinWith ['\n'] f.toLines

/-- How deep blocks are nested; zero without blocks. -/
def height : Forest → Nat
  | .nil => 0
  | .plain _ rest => rest.height
  | .block _ inner _ rest => max (inner.height + 1) rest.height

/-- The blocks of a forest whose first line has number `number`, each before the blocks in it. -/
def blocksFrom (number : Nat) : Forest → List PlacedBlock
  | .nil => []
  | .plain _ rest => rest.blocksFrom (number + 1)
  | .block opener inner closer rest =>
    ⟨number, opener, inner, closer⟩ ::
      (inner.blocksFrom (number + 1) ++ rest.blocksFrom (number + inner.toLines.length + 2))

/-- The blocks of a forest, at the numbers of their openers. -/
def blocks (f : Forest) : List PlacedBlock :=
  f.blocksFrom 1

end Forest

/-- The lines of a block, its opener and closer among them. -/
def PlacedBlock.toLines (b : PlacedBlock) : List (List Char) :=
  b.opener.text :: (b.inner.toLines ++ [b.closer.text])

/-- The function that a block declares, if its opener is a declaration: it extends over the lines
of the block. -/
def PlacedBlock.function? (b : PlacedBlock) : Option FunctionRecord :=
  (Declaration.ofLine? b.opener.text).map fun d =>
    ⟨String.ofList d.name, b.number, countParameters d.parameters, b.toLines.length⟩

theorem PlacedBlock.eq_of_function? {b : PlacedBlock} {r : FunctionRecord}
    (h : b.function? = some r) :
    r.declarationLine = b.number ∧ r.bodyLength = b.toLines.length := by
  obtain ⟨d, -, rfl⟩ := Option.map_eq_some_iff.1 h
  exact ⟨rfl, rfl⟩

namespace Forest

/-! ## The lines of a rendered forest -/

theorem lineFeed_notMem_of_mem_toLines (f : Forest) : ∀ line ∈ f.toLines, '\n' ∉ line := by
  induction f with
  | nil => simp [toLines]
  | plain line rest ih =>
    simp only [toLines, List.forall_mem_cons]
    exact ⟨line.lineFeed_notMem, ih⟩
  | block opener inner closer rest ihinner ihrest =>
    simp only [toLines, List.forall_mem_cons, List.forall_mem_append]
    exact ⟨opener.lineFeed_notMem, ihinner, closer.lineFeed_notMem, ihrest⟩

/-- The lines of a rendered forest are its lines; of nothing there is one empty line. -/
theorem lines_render (f : Forest) :
    lines f.render = f.toLines ∨ f = .nil ∧ lines f.render = [[]] := by
  by_cases hne : f.toLines = []
  · cases f with
    | nil => exact .inr ⟨rfl, rfl⟩
    | plain line rest => simp [toLines] at hne
    | block opener inner closer rest => simp [toLines] at hne
  · exact .inl (lines_joinWith hne f.lineFeed_notMem_of_mem_toLines)

/-- A block of a forest stands in it at its number. -/
theorem exists_append_of_mem_blocksFrom {f : Forest} {number : Nat} {b : PlacedBlock}
    (h : b ∈ f.blocksFrom number) :
    ∃ before after, f.toLines = before ++ (b.toLines ++ after) ∧
      b.number = number + before.length := by
  induction f generalizing number with
  | nil => simp [blocksFrom] at h
  | plain line rest ih =>
    obtain ⟨before, after, hlines, hnumber⟩ := ih h
    refine ⟨line.text :: before, after, by simp [toLines, hlines], ?_⟩
    rw [hnumber, List.length_cons]
    omega
  | block opener inner closer rest ihinner ihrest =>
    simp only [blocksFrom, List.mem_cons, List.mem_append] at h
    rcases h with rfl | h | h
    · exact ⟨[], rest.toLines, by simp [toLines, PlacedBlock.toLines], rfl⟩
    · obtain ⟨before, after, hlines, hnumber⟩ := ihinner h
      refine ⟨opener.text :: before, after ++ closer.text :: rest.toLines, ?_, ?_⟩
      · simp [toLines, hlines]
      · rw [hnumber, List.length_cons]
        omega
    · obtain ⟨before, after, hlines, hnumber⟩ := ihrest h
      refine ⟨opener.text :: (inner.toLines ++ closer.text :: before), after, ?_, ?_⟩
      · simp [toLines, hlines]
      · simp only [hnumber, List.length_cons, List.length_append]
        omega

/-! ## Depth -/

/-- **The depth after a forest is the depth before it**, and the greatest depth reached in it is
its height above that. -/
theorem foldl_nestingStep_toLines (f : Forest) {depth greatest : Nat} (h : depth ≤ greatest) :
    f.toLines.foldl nestingStep (depth, greatest) = (depth, max greatest (depth + f.height)) := by
  induction f generalizing depth greatest with
  | nil => simp [toLines, height, Nat.max_eq_left h]
  | plain line rest ih =>
    rw [toLines, List.foldl_cons, nestingStep_eq, line.role_eq]
    exact ih h
  | block opener inner closer rest ihinner ihrest =>
    have hinner : depth + 1 ≤ max greatest (depth + 1) := Nat.le_max_right _ _
    rw [toLines, List.foldl_cons, nestingStep_eq, opener.role_eq, List.foldl_append,
      ihinner hinner, List.foldl_cons, nestingStep_eq, closer.role_eq]
    dsimp only
    rw [Nat.add_sub_cancel, ihrest (by omega), height]
    congr 1
    omega

/-! ## Bodies -/

/-- **No scan stops within a forest**: the count of open blocks is the same after it. -/
theorem linesToClose_toLines_append (f : Forest) (level : Nat) (tail : List (List Char)) :
    linesToClose level (f.toLines ++ tail) = f.toLines.length + linesToClose level tail := by
  induction f generalizing level tail with
  | nil => simp [toLines]
  | plain line rest ih =>
    rw [toLines, List.cons_append, linesToClose_step (line.next_eq level), ih, List.length_cons]
    omega
  | block opener inner closer rest ihinner ihrest =>
    have hopener := opener.next_eq level
    have hcloser := closer.next_eq (level + 1)
    rw [LineRole.next_opener] at hopener
    rw [LineRole.next_closer_succ] at hcloser
    rw [toLines, List.cons_append, List.append_assoc, List.cons_append,
      linesToClose_step hopener, ihinner, linesToClose_step hcloser, ihrest]
    simp only [List.length_cons, List.length_append]
    omega

/-- The body of a declared block ends with the block. -/
theorem functionAt_opener (b : PlacedBlock) (tail : List (List Char)) :
    functionAt b.number b.opener.text (b.inner.toLines ++ b.closer.text :: tail) =
      b.function? := by
  have hlength : bodyLength (b.inner.toLines ++ b.closer.text :: tail) = b.toLines.length := by
    rw [bodyLength, linesToClose_toLines_append, linesToClose_stop (b.closer.next_eq 0)]
    simp only [PlacedBlock.toLines, List.length_cons, List.length_append, List.length_nil]
    omega
  rw [functionAt, PlacedBlock.function?, hlength]

/-- A line that opens no block declares no function. -/
theorem functionAt_eq_none {number : Nat} {line : List Char} {following : List (List Char)}
    (h : LineRole.ofLine line ≠ .opener) : functionAt number line following = none := by
  cases hf : functionAt number line following with
  | none => rfl
  | some f => exact absurd (LineRole.ofLine_eq_opener.2 (opensBlock_of_functionAt hf)) h

/-- **The functions of a forest are its declared blocks**, whatever follows it. -/
theorem functionsFrom_toLines_append (f : Forest) (number : Nat) (tail : List (List Char)) :
    functionsFrom number (f.toLines ++ tail) =
      (f.blocksFrom number).filterMap PlacedBlock.function? ++
        functionsFrom (number + f.toLines.length) tail := by
  induction f generalizing number tail with
  | nil => simp [toLines, blocksFrom]
  | plain line rest ih =>
    have hnone : ∀ following, functionAt number line.text following = none := fun _ =>
      functionAt_eq_none (by rw [line.role_eq]; simp)
    rw [toLines, List.cons_append, functionsFrom_cons, hnone, ih, blocksFrom, List.length_cons]
    simp [Nat.add_assoc, Nat.add_comm 1]
  | block opener inner closer rest ihinner ihrest =>
    have hopener := functionAt_opener ⟨number, opener, inner, closer⟩ (rest.toLines ++ tail)
    have hnone : ∀ n following, functionAt n closer.text following = none := fun _ _ =>
      functionAt_eq_none (by rw [closer.role_eq]; simp)
    dsimp only at hopener
    rw [toLines, List.cons_append, List.append_assoc, List.cons_append, functionsFrom_cons,
      hopener, ihinner, functionsFrom_cons, hnone, ihrest, blocksFrom]
    have hnumber : number + 1 + inner.toLines.length + 1 = number + inner.toLines.length + 2 := by
      omega
    have hlength : number + inner.toLines.length + 2 + rest.toLines.length =
        number + (opener.text :: (inner.toLines ++ closer.text :: rest.toLines)).length := by
      simp only [List.length_cons, List.length_append]
      omega
    rw [hnumber, hlength]
    cases hf : PlacedBlock.function? ⟨number, opener, inner, closer⟩ with
    | none => simp [hf]
    | some r => simp [hf]

/-! ## Rendered forests -/

theorem maxNesting_render (f : Forest) : maxNesting f.render = f.height := by
  rcases f.lines_render with hlines | ⟨rfl, -⟩
  · rw [maxNesting, hlines, foldl_nestingStep_toLines f (Nat.le_refl 0)]
    simp
  · decide

theorem scanFunctions_render (f : Forest) :
    scanFunctions f.render = f.blocks.filterMap PlacedBlock.function? := by
  rcases f.lines_render with hlines | ⟨rfl, -⟩
  · have h := f.functionsFrom_toLines_append 1 []
    rw [scanFunctions, hlines]
    simpa [functionsFrom, blocks] using h
  · decide

/-- A block of a forest stands in its text at its number. -/
theorem exists_lines_render_of_mem_blocks {f : Forest} {b : PlacedBlock} (h : b ∈ f.blocks) :
    ∃ before after, lines f.render = before ++ (b.toLines ++ after) ∧
      b.number = before.length + 1 := by
  obtain ⟨before, after, hlines, hnumber⟩ := exists_append_of_mem_blocksFrom h
  rcases f.lines_render with hrender | ⟨rfl, -⟩
  · exact ⟨before, after, by rw [hrender, hlines], by omega⟩
  · simp [blocks, blocksFrom] at h

end Forest

/-- **Both scans are exact on well-formed sources.**  The greatest depth is the height of the
forest; every block with a declaration for its opener is recorded once, at the line where it stands
and with all its lines for its length; and nothing else is recorded. -/
theorem scan_render (f : Forest) :
    maxNesting f.render = f.height ∧
    (∀ b ∈ f.blocks,
      (∃ before after, lines f.render = before ++ (b.toLines ++ after) ∧
        b.number = before.length + 1) ∧
      ((Declaration.ofLine? b.opener.text).isSome = true →
        ∃ r, (scanFunctions f.render).filter (·.declarationLine = b.number) = [r] ∧
          r.bodyLength = b.toLines.length)) ∧
    ∀ r ∈ scanFunctions f.render, ∃ b ∈ f.blocks,
      (Declaration.ofLine? b.opener.text).isSome = true ∧ r.declarationLine = b.number := by
  refine ⟨f.maxNesting_render, ?_, ?_⟩
  · intro b hb
    refine ⟨Forest.exists_lines_render_of_mem_blocks hb, ?_⟩
    intro hd
    obtain ⟨d, hd⟩ := Option.isSome_iff_exists.1 hd
    obtain ⟨r, hr⟩ : ∃ r, b.function? = some r := ⟨_, by rw [PlacedBlock.function?, hd]; rfl⟩
    have hmem : r ∈ scanFunctions f.render := by
      rw [f.scanFunctions_render]
      exact List.mem_filterMap.2 ⟨b, hb, hr⟩
    obtain ⟨hnumber, hlength⟩ := PlacedBlock.eq_of_function? hr
    refine ⟨r, ?_, hlength⟩
    rw [← hnumber]
    exact filter_declarationLine_eq (pairwise_functionsFrom 1 _) hmem
  · intro r hr
    rw [f.scanFunctions_render] at hr
    obtain ⟨b, hb, hr⟩ := List.mem_filterMap.1 hr
    obtain ⟨d, hd, -⟩ := Option.map_eq_some_iff.1 hr
    exact ⟨b, hb, by simp [hd], (PlacedBlock.eq_of_function? hr).1⟩

/-- A function with a branch in it and a line before it. -/
def branchingSource : Forest :=
  .plain ⟨"x = 1;".toList, by decide, by decide⟩ <|
    .block ⟨"function r = f(a)".toList, by decide, by decide⟩
      (.block ⟨"  if(a)".toList, by decide, by decide⟩
        (.plain ⟨"    r = end;".toList, by decide, by decide⟩ .nil)
        ⟨"  end  ".toList, by decide, by decide⟩ .nil)
      ⟨"end".toList, by decide, by decide⟩ .nil

theorem scan_render_branchingSource :
    maxNesting branchingSource.render = 2 ∧
      (∃ b ∈ branchingSource.blocks, (Declaration.ofLine? b.opener.text).isSome = true) ∧
      ∃ r, (scanFunctions branchingSource.render).filter (·.declarationLine = 2) = [r] ∧
        r.bodyLength = 5 := by
  obtain ⟨hdepth, hblocks, -⟩ := scan_render branchingSource
  have hmem : branchingSource.blocks.head (by decide) ∈ branchingSource.blocks :=
    List.head_mem _
  exact ⟨hdepth, ⟨_, hmem, by decide⟩, (hblocks _ hmem).2 (by decide)⟩

end MatlabQuality.Source
