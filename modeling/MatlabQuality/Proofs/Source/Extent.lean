import MatlabQuality.Proofs.Source.Body
import MatlabQuality.Source.Line

/-!
# Extents of functions

The extent of a function runs from the line of its declaration to the last line of its body.
Extents are found by scans that know nothing of each other, also in sources whose blocks are not
balanced.  They are nested or disjoint all the same: the declaration of an inner function opens a
block for the scan of the outer one, which therefore has at least one block more open from there
on.

## Main definitions

* `FunctionRecord.lastLine` — the last line of an extent.
* `FunctionRecord.isClosedIn` — whether a closer ends the body.
* `FunctionRecord.StandsAt` — where a function is declared.

## Main statements

* `total_countLines` — every physical line is counted once.
* `FunctionRecord.StandsAt.nested` — an inner function ends within the outer one.
* `extents_nested_or_disjoint` — extents are nested or disjoint, and lie within the source.
-/

namespace MatlabQuality.Source

open MatlabQuality.Text

/-! ## Physical lines -/

/-- Every line is of one kind. -/
theorem LineKind.count_add_count_add_count (kinds : List LineKind) :
    kinds.count .code + kinds.count .comment + kinds.count .blank = kinds.length := by
  induction kinds with
  | nil => rfl
  | cons kind kinds ih =>
    rw [List.length_cons, ← ih]
    cases kind <;> simp <;> omega

/-- Every physical line is counted once. -/
theorem total_countLines (source : List Char) :
    (countLines source).total = (lines source).length := by
  have h := LineKind.count_add_count_add_count (lineKinds source)
  rw [lineKinds, List.length_map] at h
  exact h

/-! ## Extents -/

namespace FunctionRecord

/-- The last line of a function. -/
def lastLine (f : FunctionRecord) : Nat :=
  f.declarationLine + f.bodyLength - 1

/-- Whether the scan of the body of a function of `source` is ended by a closer, and not by the
end of the source. -/
def isClosedIn (source : List Char) (f : FunctionRecord) : Bool :=
  findsCloser 0 ((lines source).drop f.declarationLine)

/-- A function is declared on a line of a source, and its body is scanned from there. -/
structure StandsAt (source : List Char) (f : FunctionRecord) (before : List (List Char))
    (line : List Char) (after : List (List Char)) : Prop where
  lines_eq : lines source = before ++ line :: after
  opens : opensBlock line = true
  declarationLine_eq : f.declarationLine = before.length + 1
  bodyLength_eq : f.bodyLength = 1 + linesToClose 0 after

theorem exists_standsAt {source : List Char} {f : FunctionRecord}
    (h : f ∈ scanFunctions source) : ∃ before line after, f.StandsAt source before line after := by
  obtain ⟨before, line, after, hlines, hf⟩ := exists_of_mem_functionsFrom h
  obtain ⟨hnumber, hlength⟩ := eq_of_functionAt hf
  exact ⟨before, line, after, hlines, opensBlock_of_functionAt hf, by omega, hlength⟩

namespace StandsAt

variable {source : List Char} {f g : FunctionRecord} {before before' : List (List Char)}
  {line line' : List Char} {after after' : List (List Char)}

theorem lastLine_eq (h : f.StandsAt source before line after) :
    f.lastLine = before.length + 1 + linesToClose 0 after := by
  rw [lastLine, h.declarationLine_eq, h.bodyLength_eq]
  omega

theorem isClosedIn_eq (h : f.StandsAt source before line after) :
    f.isClosedIn source = findsCloser 0 after := by
  have hsplit : before ++ line :: after = (before ++ [line]) ++ after := by simp
  rw [isClosedIn, h.lines_eq, h.declarationLine_eq, hsplit, List.drop_left' (by simp)]

/-- An extent ends within the source. -/
theorem lastLine_le (h : f.StandsAt source before line after) :
    f.lastLine ≤ (lines source).length := by
  have := linesToClose_le_length 0 after
  rw [h.lastLine_eq, h.lines_eq, List.length_append, List.length_cons]
  omega

/-- The last line of a closed function is its closer. -/
theorem exists_closer (h : f.StandsAt source before line after)
    (hclosed : f.isClosedIn source = true) :
    ∃ closer, (lines source)[f.lastLine - 1]? = some closer ∧ closesBlock closer = true := by
  rw [h.isClosedIn_eq] at hclosed
  obtain ⟨body, closer, rest, rfl, hcloses, hlines⟩ := exists_of_findsCloser hclosed
  refine ⟨closer, ?_, hcloses⟩
  have hindex : f.lastLine - 1 = (before ++ line :: body).length := by
    rw [h.lastLine_eq, hlines, List.length_append, List.length_cons]
    omega
  have hsplit : lines source = (before ++ line :: body) ++ closer :: rest := by
    rw [h.lines_eq, List.append_assoc, List.cons_append]
  rw [hindex, hsplit, List.getElem?_append_right (Nat.le_refl _), Nat.sub_self]
  rfl

/-- A function that is not closed runs to the end of the source. -/
theorem lastLine_of_not_isClosedIn (h : f.StandsAt source before line after)
    (hopen : f.isClosedIn source = false) : f.lastLine = (lines source).length := by
  rw [h.isClosedIn_eq] at hopen
  rw [h.lastLine_eq, linesToClose_of_not_findsCloser hopen, h.lines_eq, List.length_append,
    List.length_cons]
  omega

/-- A later function is declared among the lines after the earlier one. -/
theorem exists_between (hf : f.StandsAt source before line after)
    (hg : g.StandsAt source before' line' after') (hlt : f.declarationLine < g.declarationLine) :
    ∃ between, after = between ++ line' :: after' ∧
      before'.length = before.length + 1 + between.length := by
  have hlines : before ++ line :: after = before' ++ line' :: after' := by
    rw [← hf.lines_eq, ← hg.lines_eq]
  rw [hf.declarationLine_eq, hg.declarationLine_eq] at hlt
  rcases List.append_eq_append_iff.1 hlines with ⟨between, hbefore, hrest⟩ | ⟨between, hbefore, _⟩
  · cases between with
    | nil =>
      simp only [List.append_nil] at hbefore
      rw [hbefore] at hlt
      omega
    | cons _ between =>
      refine ⟨between, (List.cons.inj hrest).2, ?_⟩
      rw [hbefore, List.length_append, List.length_cons]
      omega
  · rw [hbefore, List.length_append] at hlt
    omega

/-- **An inner function ends within the outer one**: the scan of the outer one has more blocks
open from the inner declaration on. -/
theorem nested (hf : f.StandsAt source before line after)
    (hg : g.StandsAt source before' line' after') (hlt : f.declarationLine < g.declarationLine) :
    f.lastLine < g.declarationLine ∨
      (g.lastLine ≤ f.lastLine ∧ (f.isClosedIn source = true → g.lastLine < f.lastLine)) := by
  obtain ⟨between, rfl, hlength⟩ := hf.exists_between hg hlt
  rw [hf.isClosedIn_eq, hf.lastLine_eq, hg.lastLine_eq, hg.declarationLine_eq]
  rcases linesToClose_append 0 between (line' :: after') with hstop | ⟨level, hlines, hfinds⟩
  · left
    omega
  · right
    have hopener := LineRole.ofLine_eq_opener.2 hg.opens
    have hnext : (LineRole.ofLine line').next level = some (level + 1) := by
      rw [hopener]
      rfl
    rw [linesToClose_step hnext] at hlines
    rw [findsCloser_step hnext] at hfinds
    have hpos : 0 < level + 1 := by omega
    refine ⟨?_, ?_⟩
    · have := linesToClose_le_of_lt hpos after'
      omega
    · intro hclosed
      have := linesToClose_lt_of_findsCloser hpos (hfinds.symm.trans hclosed)
      omega

end StandsAt

end FunctionRecord

/-- **Extents are nested or disjoint**, in every source.  A function declared later than another
starts after its end or ends no later, and strictly earlier if the other one is closed.
Declarations come in the order of their lines, no extent is empty, and all lie within the source;
what ends one is a closer, or the end of the source. -/
theorem extents_nested_or_disjoint (source : List Char) :
    (∀ f ∈ scanFunctions source, ∀ g ∈ scanFunctions source,
      f.declarationLine < g.declarationLine →
        f.lastLine < g.declarationLine ∨
          (g.lastLine ≤ f.lastLine ∧ (f.isClosedIn source = true → g.lastLine < f.lastLine))) ∧
    (scanFunctions source).Pairwise (fun f g => f.declarationLine < g.declarationLine) ∧
    ∀ f ∈ scanFunctions source,
      1 ≤ f.bodyLength ∧ f.lastLine ≤ (countLines source).total ∧
      (f.isClosedIn source = true →
        ∃ closer, (lines source)[f.lastLine - 1]? = some closer ∧ closesBlock closer = true) ∧
      (f.isClosedIn source = false → f.lastLine = (countLines source).total) := by
  refine ⟨?_, pairwise_functionsFrom 1 (lines source), ?_⟩
  · intro f hf g hg hlt
    obtain ⟨_, _, _, hf⟩ := FunctionRecord.exists_standsAt hf
    obtain ⟨_, _, _, hg⟩ := FunctionRecord.exists_standsAt hg
    exact hf.nested hg hlt
  · intro f hf
    obtain ⟨_, _, _, hf⟩ := FunctionRecord.exists_standsAt hf
    rw [total_countLines, hf.bodyLength_eq]
    exact ⟨by omega, hf.lastLine_le, hf.exists_closer, hf.lastLine_of_not_isClosedIn⟩

/-- A function within a branch of a closed function, with one closer too many. -/
theorem extents_nested_or_disjoint_inner :
    let source := "x\nfunction f()\n if a\n  function g(b)\n  end\n end\nend\nend".toList
    let f : FunctionRecord := ⟨"f", 2, 0, 6⟩
    let g : FunctionRecord := ⟨"g", 4, 1, 2⟩
    f ∈ scanFunctions source ∧ g ∈ scanFunctions source ∧ f.isClosedIn source = true ∧
      g.lastLine < f.lastLine ∧ f.lastLine ≤ (countLines source).total := by
  intro source f g
  have hf : f ∈ scanFunctions source := by decide
  have hg : g ∈ scanFunctions source := by decide
  have hclosed : f.isClosedIn source = true := by decide
  obtain ⟨hnested, -, hwithin⟩ := extents_nested_or_disjoint source
  rcases hnested f hf g hg (by decide) with h | ⟨-, h⟩
  · exact absurd h (by decide)
  · exact ⟨hf, hg, hclosed, h hclosed, (hwithin f hf).2.1⟩

end MatlabQuality.Source
