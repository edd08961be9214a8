import MatlabQuality.Report.Run
import MatlabQuality.Report.Timestamp

/-!
# Reports

A report is what is said of a run: its totals, its findings, the measures of its files, and a
recommendation for each kind of finding.

## Main definitions

* `Report` — a report.
* `recommendations` — one sentence for each kind of finding.
* `Report.ofRun` — the report of a run at a time.
-/

namespace MatlabQuality

open MatlabQuality.Number MatlabQuality.Source

/-- The totals of a run. -/
structure ReportSummary where
  totalFiles : Nat
  totalLinesOfCode : Nat
  totalFunctions : Nat
  qualityScore : Nat
  averageComplexity : Binary64
  averageFunctionLength : Binary64
deriving DecidableEq

/-- The findings of a run. -/
structure SmellSection where
  total : Nat
  bySeverity : Tally
  details : List Finding
deriving DecidableEq

/-- What is said of a run. -/
structure Report where
  /-- The date, as it is written. -/
  analysisDate : String
  summary : ReportSummary
  codeSmells : SmellSection
  metrics : List FileMetrics
  recommendations : List String
deriving DecidableEq

/-! ## Recommendations -/

/-- What to do about a number of findings of one kind. -/
def recommendation (kind : SmellKind) (count : Nat) : String :=
  let n := decimal count
  match kind with
  | .longFunction => "Break down " ++ n ++ " long function(s) into smaller, focused functions"
  | .tooManyParameters => "Reduce parameter count in " ++ n ++ " function(s) by using structures"
  | .deepNesting => "Reduce nesting depth in " ++ n ++ " location(s) using early returns"
  | .highComplexity => "Simplify complex logic in " ++ n ++ " location(s)"
  | .insufficientComments => "Add more documentation to " ++ n ++ " file(s)"
  | .magicNumbers => "Replace magic numbers with named constants in " ++ n ++ " file(s)"

/-- What is said when there is nothing to recommend. -/
def noIssues : String :=
  "Excellent! No significant code quality issues detected."

/-- One sentence for each kind that was found, or one that says there is none. -/
def recommendations (counts : List (SmellKind × Nat)) : List String :=
  if counts = [] then [noIssues] else counts.map fun (kind, count) => recommendation kind count

/-! ## The report of a run -/

/-- A number rounded to two places: a hundredfold, rounded, and a hundredth, each in binary64. -/
def roundToHundredths (x : Binary64) : Binary64 :=
  (x.mul 100).round.div 100

/-- The report of a run at a time. -/
def Report.ofRun (run : Run) (date : Timestamp) : Report where
  analysisDate := date.write
  summary :=
    { totalFiles := run.totalFiles
      totalLinesOfCode := run.totalLinesOfCode
      totalFunctions := run.totalFunctions
      qualityScore := run.qualityScore
      averageComplexity := roundToHundredths run.averageComplexity
      averageFunctionLength := roundToHundredths run.averageFunctionLength }
  codeSmells :=
    { total := run.findings.length
      bySeverity := run.tally
      details := run.findings }
  metrics := run.metrics
  recommendations := MatlabQuality.recommendations run.kindCounts

end MatlabQuality
