import MatlabQuality.Json.Decode
import MatlabQuality.Json.Reader
import MatlabQuality.Json.Writer
import MatlabQuality.Report.Basic

/-!
# Reports as JSON

A saved report is the JSON of its fields, each record an object with its fields in order.

## Main definitions

* `Report.toJson`, `Report.ofJson?` — a report to and from a JSON value.
* `Report.savedText`, `Report.ofSavedText?` — a report to and from the text of a file.
-/

namespace MatlabQuality

open MatlabQuality.Json MatlabQuality.Number MatlabQuality.Source

/-- The first count that is too large. -/
def countBound : Nat := Nat.pow 2 64

/-- The first score that is too large. -/
def scoreBound : Nat := Nat.pow 2 32

/-! ## Writing -/

/-- The measures of a file as JSON. -/
def metricsToJson (m : FileMetrics) : Value :=
  .record
    [("file_path", .ofString m.filePath),
     ("lines_of_code", .ofNat m.linesOfCode),
     ("comment_lines", .ofNat m.commentLines),
     ("blank_lines", .ofNat m.blankLines),
     ("cyclomatic_complexity", .ofNat m.cyclomaticComplexity),
     ("function_count", .ofNat m.functionCount),
     ("max_function_length", .ofNat m.maxFunctionLength),
     ("max_parameters", .ofNat m.maxParameters),
     ("max_nesting_depth", .ofNat m.maxNestingDepth),
     ("magic_numbers", .array (m.magicNumbers.map .ofNat))]

/-- A finding as JSON. -/
def Finding.toJson (f : Finding) : Value :=
  .record
    [("type", .ofString f.kind.name),
     ("severity", .ofString f.severity.name),
     ("file_path", .ofString f.filePath),
     ("line_number", .ofNat f.lineNumber),
     ("function_name", .ofString f.functionName),
     ("description", .ofString f.description),
     ("suggestion", .ofString f.suggestion)]

/-- A tally as JSON. -/
def Tally.toJson (t : Tally) : Value :=
  .record [("low", .ofNat t.low), ("medium", .ofNat t.medium), ("high", .ofNat t.high)]

/-- Totals as JSON. -/
def ReportSummary.toJson (s : ReportSummary) : Value :=
  .record
    [("total_files", .ofNat s.totalFiles),
     ("total_lines_of_code", .ofNat s.totalLinesOfCode),
     ("total_functions", .ofNat s.totalFunctions),
     ("quality_score", .ofNat s.qualityScore),
     ("average_complexity", .ofBinary64 s.averageComplexity),
     ("average_function_length", .ofBinary64 s.averageFunctionLength)]

/-- The findings of a report as JSON. -/
def SmellSection.toJson (s : SmellSection) : Value :=
  .record
    [("total", .ofNat s.total),
     ("by_severity", s.bySeverity.toJson),
     ("details", .array (s.details.map Finding.toJson))]

/-- A report as JSON. -/
def Report.toJson (r : Report) : Value :=
  .record
    [("analysis_date", .ofString r.analysisDate),
     ("summary", r.summary.toJson),
     ("code_smells", r.codeSmells.toJson),
     ("metrics", .array (r.metrics.map metricsToJson)),
     ("recommendations", .array (r.recommendations.map .ofString))]

/-- The text of a saved report. -/
def Report.savedText (r : Report) : String :=
  r.toJson.pretty

/-! ## Reading -/

/-- A count. -/
def toCount? : Value → Option Nat :=
  Value.toNat? countBound

/-- The measures of a file from JSON. -/
def metricsOfJson? (v : Value) : Option FileMetrics := do
  let fields ← recordFields?
    ["file_path", "lines_of_code", "comment_lines", "blank_lines", "cyclomatic_complexity",
      "function_count", "max_function_length", "max_parameters", "max_nesting_depth",
      "magic_numbers"] v
  match fields with
  | [path, code, comment, blank, complexity, functions, length, parameters, nesting, magic] =>
    return {
      filePath := ← required Value.toText? path
      linesOfCode := ← required toCount? code
      commentLines := ← required toCount? comment
      blankLines := ← required toCount? blank
      cyclomaticComplexity := ← required toCount? complexity
      functionCount := ← required toCount? functions
      maxFunctionLength := ← required toCount? length
      maxParameters := ← required toCount? parameters
      maxNestingDepth := ← required toCount? nesting
      magicNumbers := ← required (Value.toList? (Value.toNat? literalBound)) magic }
  | _ => none

/-- A finding from JSON.  The name of a function may be left out. -/
def Finding.ofJson? (v : Value) : Option Finding := do
  let fields ← recordFields?
    ["type", "severity", "file_path", "line_number", "function_name", "description",
      "suggestion"] v
  match fields with
  | [kind, severity, path, line, function, description, suggestion] =>
    return {
      kind := ← required (Value.toName? SmellKind.ofName?) kind
      severity := ← required (Value.toName? Severity.ofName?) severity
      filePath := ← required Value.toText? path
      lineNumber := ← required toCount? line
      functionName := ← withDefault "" Value.toText? function
      description := ← required Value.toText? description
      suggestion := ← required Value.toText? suggestion }
  | _ => none

/-- A tally from JSON. -/
def Tally.ofJson? (v : Value) : Option Tally := do
  let fields ← recordFields? ["low", "medium", "high"] v
  match fields with
  | [low, medium, high] =>
    return {
      low := ← required toCount? low
      medium := ← required toCount? medium
      high := ← required toCount? high }
  | _ => none

/-- Totals from JSON. -/
def ReportSummary.ofJson? (v : Value) : Option ReportSummary := do
  let fields ← recordFields?
    ["total_files", "total_lines_of_code", "total_functions", "quality_score",
      "average_complexity", "average_function_length"] v
  match fields with
  | [files, lines, functions, score, complexity, length] =>
    return {
      totalFiles := ← required toCount? files
      totalLinesOfCode := ← required toCount? lines
      totalFunctions := ← required toCount? functions
      qualityScore := ← required (Value.toNat? scoreBound) score
      averageComplexity := ← required Value.toBinary64? complexity
      averageFunctionLength := ← required Value.toBinary64? length }
  | _ => none

/-- The findings of a report from JSON. -/
def SmellSection.ofJson? (v : Value) : Option SmellSection := do
  let fields ← recordFields? ["total", "by_severity", "details"] v
  match fields with
  | [total, bySeverity, details] =>
    return {
      total := ← required toCount? total
      bySeverity := ← required Tally.ofJson? bySeverity
      details := ← required (Value.toList? Finding.ofJson?) details }
  | _ => none

/-- A report from JSON. -/
def Report.ofJson? (v : Value) : Option Report := do
  let fields ← recordFields?
    ["analysis_date", "summary", "code_smells", "metrics", "recommendations"] v
  match fields with
  | [date, summary, smells, metrics, recommendations] =>
    return {
      analysisDate := ← required Value.toText? date
      summary := ← required ReportSummary.ofJson? summary
      codeSmells := ← required SmellSection.ofJson? smells
      metrics := ← required (Value.toList? metricsOfJson?) metrics
      recommendations := ← required (Value.toList? Value.toText?) recommendations }
  | _ => none

/-- The report that a text saves. -/
def Report.ofSavedText? (text : List Char) : Option Report :=
  (Json.read? text).bind Report.ofJson?

end MatlabQuality
