import MatlabQuality.Number.Binary64
import MatlabQuality.Source.Decision
import MatlabQuality.Source.Function
import MatlabQuality.Source.Line
import MatlabQuality.Source.Literal

/-!
# Metrics of a source

The measures of one file, and the shares derived from them.

## Main definitions

* `FileMetrics` — the measures of one file.
* `measure` — the measures and the functions of a source.
* `FileMetrics.commentRatio?` — the share of comments among the lines that are not blank.
-/

namespace MatlabQuality.Source

open MatlabQuality.Number

/-- The measures of one file. -/
structure FileMetrics where
  filePath : String
  linesOfCode : Nat
  commentLines : Nat
  blankLines : Nat
  cyclomaticComplexity : Nat
  functionCount : Nat
  maxFunctionLength : Nat
  maxParameters : Nat
  maxNestingDepth : Nat
  magicNumbers : List Nat
deriving Repr, DecidableEq

namespace FileMetrics

/-- All physical lines of the file. -/
def totalLines (m : FileMetrics) : Nat :=
  m.linesOfCode + m.commentLines + m.blankLines

/-- The share of comments among the lines that are not blank, if there are any. -/
def commentRatio? (m : FileMetrics) : Option Binary64 :=
  let filled := m.linesOfCode + m.commentLines
  if filled = 0 then none
  else some ((Binary64.ofNat m.commentLines).div (Binary64.ofNat filled))

end FileMetrics

/-- The largest of some counts; zero for none. -/
def greatest (counts : List Nat) : Nat :=
  counts.foldl max 0

/-- The measures of a file, given the functions of its source. -/
def metricsWith (filePath : String) (source : List Char) (functions : List FunctionRecord) :
    FileMetrics :=
  let counts := countLines source
  { filePath
    linesOfCode := counts.code
    commentLines := counts.comment
    blankLines := counts.blank
    cyclomaticComplexity := cyclomaticComplexity source
    functionCount := functions.length
    maxFunctionLength := greatest (functions.map (·.bodyLength))
    maxParameters := greatest (functions.map (·.parameterCount))
    maxNestingDepth := maxNesting source
    magicNumbers := magicNumbers source }

/-- The measures and the functions of a file. -/
def measure (filePath : String) (source : List Char) : FileMetrics × List FunctionRecord :=
  let functions := scanFunctions source
  (metricsWith filePath source functions, functions)

end MatlabQuality.Source
