import MatlabQuality.Smell.Rule
import MatlabQuality.Smell.Score

/-!
# Runs

A run is what is learnt from a list of files: their measures, their findings in the order of the
files, and one score.

## Main definitions

* `FileAnalysis`, `analyzeSource` — what is learnt from one file.
* `Run`, `Run.ofAnalyses` — what is learnt from several.
* `Run.averageComplexity`, `Run.averageFunctionLength` — means over the files.
-/

namespace MatlabQuality

open MatlabQuality.Number MatlabQuality.Source

/-- What is learnt from one file. -/
structure FileAnalysis where
  metrics : FileMetrics
  functions : List FunctionRecord
  findings : List Finding
deriving Repr, DecidableEq

/-- What is learnt from the source of one file.  It depends on nothing else. -/
def analyzeSource (filePath : String) (source : List Char) (t : Thresholds) : FileAnalysis :=
  let (metrics, functions) := measure filePath source
  ⟨metrics, functions, detect metrics t⟩

/-- What is learnt from several files. -/
structure Run where
  /-- The measures of the files, in their order. -/
  metrics : List FileMetrics
  /-- The findings of all files, in the order of the files and then of the rules. -/
  findings : List Finding
  qualityScore : Nat
  /-- The files that could not be read, in their order. -/
  skipped : List String
deriving Repr, DecidableEq

namespace Run

/-- The run over some files, all of them read. -/
def ofAnalyses (analyses : List FileAnalysis) : Run :=
  let findings := analyses.flatMap (·.findings)
  { metrics := analyses.map (·.metrics)
    findings
    qualityScore := MatlabQuality.qualityScore findings analyses.length
    skipped := [] }

/-- The sum of some counts. -/
def total (counts : List Nat) : Nat :=
  counts.foldr (· + ·) 0

/-- The number of files. -/
def totalFiles (run : Run) : Nat :=
  run.metrics.length

/-- The lines of code of all files. -/
def totalLinesOfCode (run : Run) : Nat :=
  total (run.metrics.map (·.linesOfCode))

/-- The functions of all files. -/
def totalFunctions (run : Run) : Nat :=
  total (run.metrics.map (·.functionCount))

/-- The mean of some counts; zero for none. -/
def mean (counts : List Nat) : Binary64 :=
  if counts = [] then 0
  else (Binary64.ofNat (total counts)).div (Binary64.ofNat counts.length)

/-- The mean complexity of the files. -/
def averageComplexity (run : Run) : Binary64 :=
  mean (run.metrics.map (·.cyclomaticComplexity))

/-- The mean length of the longest function of each file. -/
def averageFunctionLength (run : Run) : Binary64 :=
  mean (run.metrics.map (·.maxFunctionLength))

/-- The findings by severity. -/
def tally (run : Run) : Tally :=
  Tally.ofFindings run.findings

/-- The findings by kind, in order of first appearance. -/
def kindCounts (run : Run) : List (SmellKind × Nat) :=
  MatlabQuality.kindCounts run.findings

end Run

end MatlabQuality
