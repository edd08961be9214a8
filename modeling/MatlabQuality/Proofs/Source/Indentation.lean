import Mathlib.Data.List.Forall2
import MatlabQuality.Proofs.Source.Body
import MatlabQuality.Proofs.Text.Reading
import MatlabQuality.Source.Metrics

/-!
# Indentation

Nothing that is measured depends on the blanks at the ends of physical lines.  The passes over the
whole text see no further than a blank, and the passes over lines see each line trimmed, also the
one that reads declarations from untrimmed lines.

## Main definitions

* `LosesReturns` — a text without some carriage returns before line feeds.

## Main statements

* `linesToClose_map_trim`, `functionsFrom_map_trim` — bodies and functions of trimmed lines.
* `LosesReturns.map_trim_lines` — carriage returns before line feeds are trailing blanks.
* `measure_eq_of_trim_lines_eq` — the measures of a source depend on its trimmed lines alone.
-/

namespace MatlabQuality.Source

open MatlabQuality.Text

/-! ## Trimmed lines -/

theorem opensBlock_trim (line : List Char) : opensBlock (trim line) = opensBlock line := by
  rw [opensBlock, opensBlock, trim_trim]

theorem closesBlock_trim (line : List Char) : closesBlock (trim line) = closesBlock line := by
  rw [closesBlock, closesBlock, trim_trim]

theorem LineRole.ofLine_trim (line : List Char) :
    LineRole.ofLine (trim line) = LineRole.ofLine line := by
  rw [LineRole.ofLine, LineRole.ofLine, opensBlock_trim, closesBlock_trim]

theorem LineKind.ofLine_trim (line : List Char) :
    LineKind.ofLine (trim line) = LineKind.ofLine line := by
  rw [LineKind.ofLine, LineKind.ofLine, trim_trim]

theorem nestingStep_trim (state : Nat × Nat) (line : List Char) :
    nestingStep state (trim line) = nestingStep state line := by
  rw [nestingStep_eq, nestingStep_eq, LineRole.ofLine_trim]

/-- The scan of a body sees its lines trimmed. -/
theorem linesToClose_map_trim (level : Nat) (ls : List (List Char)) :
    linesToClose level (ls.map trim) = linesToClose level ls := by
  induction ls generalizing level with
  | nil => rfl
  | cons line rest ih =>
    rw [List.map_cons, linesToClose_cons, linesToClose_cons, LineRole.ofLine_trim]
    cases (LineRole.ofLine line).next level with
    | none => rfl
    | some next => simp only [ih]

/-- **Functions are found on trimmed lines as on the lines themselves.** -/
theorem functionsFrom_map_trim (number : Nat) (ls : List (List Char)) :
    functionsFrom number (ls.map trim) = functionsFrom number ls := by
  induction ls generalizing number with
  | nil => rfl
  | cons line rest ih =>
    have hline : functionAt number (trim line) (rest.map trim) = functionAt number line rest := by
      rw [functionAt, functionAt, Declaration.ofLine?_trim, bodyLength, bodyLength,
        linesToClose_map_trim]
    rw [List.map_cons, functionsFrom_cons, functionsFrom_cons, hline, ih]

/-! ## Measures -/

section Measures

variable {source source' : List Char}
  (h : (lines source').map trim = (lines source).map trim)

include h

theorem countLines_eq_of_trim_lines_eq : countLines source' = countLines source := by
  have hkinds : ∀ cs, lineKinds cs = ((lines cs).map trim).map LineKind.ofLine := by
    intro cs
    simp [lineKinds, LineKind.ofLine_trim]
  have heq : lineKinds source' = lineKinds source := by
    rw [hkinds, h, ← hkinds]
  rw [countLines, countLines, heq]

theorem maxNesting_eq_of_trim_lines_eq : maxNesting source' = maxNesting source := by
  have hlines : ∀ cs, maxNesting cs = (((lines cs).map trim).foldl nestingStep (0, 0)).2 := by
    intro cs
    simp [maxNesting, List.foldl_map, nestingStep_trim]
  rw [hlines, h, ← hlines]

theorem scanFunctions_eq_of_trim_lines_eq : scanFunctions source' = scanFunctions source := by
  rw [scanFunctions, ← functionsFrom_map_trim, h, functionsFrom_map_trim, scanFunctions]

theorem cyclomaticComplexity_eq_of_trim_lines_eq :
    cyclomaticComplexity source' = cyclomaticComplexity source := by
  have hwords := cutAtBlanks_wordRuns.apply_eq_of_trim_lines_eq h
  have hand := (cutAtBlanks_pairs (c := '&') (by decide)).apply_eq_of_trim_lines_eq h
  have hor := (cutAtBlanks_pairs (c := '|') (by decide)).apply_eq_of_trim_lines_eq h
  rw [cyclomaticComplexity, hwords, hand, hor, cyclomaticComplexity]

theorem magicNumbers_eq_of_trim_lines_eq : magicNumbers source' = magicNumbers source := by
  rw [magicNumbers, cutAtBlanks_literals.apply_eq_of_trim_lines_eq h, magicNumbers]

end Measures

/-! ## Carriage returns -/

/-- The second text is the first one without some of the carriage returns that stand right before
a line feed. -/
inductive LosesReturns : List Char → List Char → Prop where
  | nil : LosesReturns [] []
  | keep (c : Char) {cs ds : List Char} : LosesReturns cs ds → LosesReturns (c :: cs) (c :: ds)
  | drop {cs ds : List Char} : LosesReturns cs ds → LosesReturns ('\r' :: '\n' :: cs) ('\n' :: ds)

namespace LosesReturns

/-- A line loses a carriage return at its end, or nothing. -/
theorem forall₂_lines {cs ds : List Char} (h : LosesReturns cs ds) :
    List.Forall₂ (fun l m => l = m ∨ l = m ++ ['\r']) (lines cs) (lines ds) := by
  induction h with
  | nil => exact .cons (.inl rfl) .nil
  | @keep c cs ds h ih =>
    by_cases hc : c = '\n'
    · subst hc
      simp only [lines, splitOn_cons_sep]
      exact .cons (.inl rfl) ih
    · -- The character goes to the front of both first lines.
      obtain ⟨l, ls, hls⟩ := exists_splitOn_eq_cons '\n' cs
      obtain ⟨m, ms, hms⟩ := exists_splitOn_eq_cons '\n' ds
      simp only [lines, hls, hms, List.forall₂_cons] at ih
      simp only [lines, splitOn_cons_of_ne hc hls, splitOn_cons_of_ne hc hms, List.forall₂_cons]
      refine ⟨?_, ih.2⟩
      rcases ih.1 with rfl | rfl
      · exact .inl rfl
      · exact .inr rfl
  | drop h ih =>
    have hreturn : ('\r' : Char) ≠ '\n' := by decide
    simp only [lines, splitOn_cons_sep, splitOn_cons_of_ne hreturn (splitOn_cons_sep '\n' _)]
    exact .cons (.inr rfl) ih

/-- A carriage return before a line feed is a trailing blank. -/
theorem map_trim_lines {cs ds : List Char} (h : LosesReturns cs ds) :
    (lines ds).map trim = (lines cs).map trim := by
  have hline : ∀ l m : List Char, l = m ∨ l = m ++ ['\r'] → trim l = trim m := by
    rintro l m (rfl | rfl)
    · rfl
    · exact trim_append_blank (by decide) m
  have hlines := h.forall₂_lines.imp hline
  rw [← List.forall₂_map_right_iff, ← List.forall₂_map_left_iff, List.forall₂_eq_eq_eq] at hlines
  exact hlines.symm

end LosesReturns

/-- **Blanks at the ends of lines never matter.**  A source with the same trimmed lines has the
same measures and functions; one that loses carriage returns before line feeds is such a source. -/
theorem measure_eq_of_trim_lines_eq (filePath : String) (source source' : List Char) :
    ((lines source').map trim = (lines source).map trim →
      measure filePath source' = measure filePath source) ∧
    (LosesReturns source source' → measure filePath source' = measure filePath source) := by
  have htrimmed (h : (lines source').map trim = (lines source).map trim) :
      measure filePath source' = measure filePath source := by
    simp only [measure, metricsWith, scanFunctions_eq_of_trim_lines_eq h,
      countLines_eq_of_trim_lines_eq h, cyclomaticComplexity_eq_of_trim_lines_eq h,
      maxNesting_eq_of_trim_lines_eq h, magicNumbers_eq_of_trim_lines_eq h]
  exact ⟨htrimmed, fun h => htrimmed h.map_trim_lines⟩

/-- A tab, an ideographic space and carriage returns around a declaration, and a carriage return
before one of two line feeds. -/
theorem measure_eq_of_trim_lines_eq_declaration :
    let source := "function [a] = f( b )\n x = 42 && y\nend".toList
    let indented := "\t function [a] = f( b ) \u3000\r\nx = 42 && y\r\n  end\r".toList
    let returned := ['x', '\r', '\n', 'y', '\n']
    let bare := ['x', '\n', 'y', '\n']
    ((lines indented).map trim = (lines source).map trim ∧
        measure "f.m" indented = measure "f.m" source) ∧
      LosesReturns returned bare ∧ measure "f.m" bare = measure "f.m" returned := by
  intro source indented returned bare
  have htrim : (lines indented).map trim = (lines source).map trim := by decide
  have hloses : LosesReturns returned bare :=
    .keep 'x' (.drop (.keep 'y' (.keep '\n' .nil)))
  exact ⟨⟨htrim, (measure_eq_of_trim_lines_eq "f.m" source indented).1 htrim⟩, hloses,
    (measure_eq_of_trim_lines_eq "f.m" returned bare).2 hloses⟩

end MatlabQuality.Source
