import MatlabQuality.Files.Path
import MatlabQuality.Report.Basic
import MatlabQuality.Report.Style

/-!
# Reports as a page

A page is a list of pieces.  A piece of markup is written as it stands and comes from this module
alone; a piece of text comes from the report and is escaped.

## Main definitions

* `escape` — a text with the five characters of markup replaced by entities.
* `Piece`, `render` — a piece, and the text of pieces.
* `Page.ofReport` — the pieces of the page of a report.
* `Report.pageText` — the page of a report.
-/

namespace MatlabQuality.Page

open MatlabQuality.Number MatlabQuality.Source

/-! ## Escaping -/

/-- A text with each occurrence of a character replaced. -/
def replaceChar (c : Char) (replacement : List Char) (cs : List Char) : List Char :=
  cs.flatMap fun d => if d = c then replacement else [d]

/-- The characters of markup and their entities.  The ampersand comes first, so that no entity is
escaped again. -/
def entities : List (Char × List Char) :=
  [('&', "&amp;".toList), ('<', "&lt;".toList), ('>', "&gt;".toList), ('"', "&quot;".toList),
    ('\'', "&#39;".toList)]

/-- A text with the characters of markup replaced by their entities, one character after the
other. -/
def escapeChars (cs : List Char) : List Char :=
  entities.foldl (fun cs (c, entity) => replaceChar c entity cs) cs

/-- A text with the characters of markup replaced by their entities. -/
def escape (s : String) : String :=
  String.ofList (escapeChars s.toList)

/-! ## Pieces -/

/-- A piece of a page. -/
inductive Piece where
  /-- Markup, written as it stands. -/
  | markup (s : String)
  /-- Text, written with its characters of markup escaped. -/
  | text (s : String)
deriving Repr, DecidableEq

/-- The text of a piece. -/
def Piece.render : Piece → String
  | .markup s => s
  | .text s => escape s

/-- The text of pieces. -/
def render (pieces : List Piece) : String :=
  String.join (pieces.map Piece.render)

/-- A count as a piece. -/
def count (n : Nat) : Piece :=
  .text (decimal n)

/-! ## Sections -/

/-- The document up to its body. -/
def head : List Piece :=
  [.markup ("<!DOCTYPE html>\n<html lang=\"en\">\n<head>\n    <meta charset=\"UTF-8\">\n"
    ++ "    <meta name=\"viewport\" content=\"width=device-width, initial-scale=1.0\">\n"
    ++ "    <title>MATLAB Code Quality Analysis Report</title>\n    <style>\n"
    ++ stylesheet ++ "\n    </style>\n</head>\n")]

/-- A date in prose, or as it stands where it is no timestamp. -/
def displayDate (date : String) : String :=
  match Timestamp.read? date.toList with
  | some t => t.prose
  | none => date

/-- The title and the date. -/
def header (report : Report) : List Piece :=
  [.markup ("<div class=\"header\">\n    <h1>MATLAB Code Quality Analysis</h1>\n"
    ++ "    <p class=\"timestamp\">Generated on "),
   .text (displayDate report.analysisDate),
   .markup "</p>\n</div>\n"]

/-- The class of a score: from eighty on excellent, from fifty on good, poor below. -/
def scoreClass (score : Nat) : String :=
  if 80 ≤ score then "score-excellent" else if 50 ≤ score then "score-good" else "score-poor"

/-- The score in its circle. -/
def scoreSection (report : Report) : List Piece :=
  let score := report.summary.qualityScore
  [.markup ("<div class=\"quality-score\">\n    <div class=\"quality-circle " ++ scoreClass score
    ++ "\">"),
   count score,
   .markup "/100</div>\n    <h3>Overall Quality Score</h3>\n</div>\n"]

/-- A card with a value and its label. -/
def card (value : String) (label : String) : List Piece :=
  [.markup "    <div class=\"metric-card\">\n        <div class=\"metric-value\">",
   .text value,
   .markup ("</div>\n        <div class=\"metric-label\">" ++ label ++ "</div>\n    </div>\n")]

/-- The cards of the totals. -/
def cards (report : Report) : List Piece :=
  let s := report.summary
  [.markup "<div class=\"summary-grid\">\n"]
  ++ card (decimal s.totalFiles) "Files Analyzed"
  ++ card (grouped s.totalLinesOfCode) "Lines of Code"
  ++ card (decimal s.totalFunctions) "Functions"
  ++ card (decimal report.codeSmells.total) "Quality Issues"
  ++ card (plain.write s.averageComplexity) "Avg Complexity"
  ++ card (plain.write s.averageFunctionLength) "Avg Function Length"
  ++ [.markup "</div>\n"]

/-- The last entry of a path, or the path as it stands where it ends in none. -/
def shownName (path : String) : String :=
  (Path.fileName? path).getD path

/-- One finding. -/
def smellItem (f : Finding) : List Piece :=
  let severity := f.severity.name
  [.markup ("        <div class=\"smell-item " ++ severity
    ++ "\">\n            <div class=\"smell-header\">\n                <div class=\"smell-type\">"),
   .text f.kind.title,
   .markup ("</div>\n                <div class=\"severity-badge severity-" ++ severity ++ "\">"
    ++ severity ++ "</div>\n            </div>\n            <div class=\"smell-description\">"),
   .text f.description,
   .markup "</div>\n            <div class=\"smell-suggestion\">",
   .text f.suggestion,
   .markup "</div>\n            <div class=\"smell-location\"><span class=\"file-path\">",
   .text (shownName f.filePath),
   .markup "</span></div>\n        </div>\n"]

/-- The findings, or the line that says there are none. -/
def smellItems (findings : List Finding) : List Piece :=
  if findings.isEmpty then
    [.markup ("        <div class=\"smell-item\">No code quality issues detected! Excellent work!"
      ++ "</div>\n")]
  else findings.flatMap smellItem

/-- The findings and their number by severity. -/
def smells (report : Report) : List Piece :=
  let s := report.codeSmells
  [.markup "<div class=\"section\">\n    <h2 class=\"section-title\">Code Quality Issues (",
   count s.total,
   .markup (" found)</h2>\n    <div class=\"severity-summary\">\n"
    ++ "        <strong>Issues by Severity:</strong>\n"
    ++ "        <span class=\"severity-badge severity-high\">"),
   count s.bySeverity.high,
   .markup " High</span>\n        <span class=\"severity-badge severity-medium\">",
   count s.bySeverity.medium,
   .markup " Medium</span>\n        <span class=\"severity-badge severity-low\">",
   count s.bySeverity.low,
   .markup " Low</span>\n    </div>\n    <div class=\"code-smells\">\n"]
  ++ smellItems s.details
  ++ [.markup "    </div>\n</div>\n"]

/-- One recommendation. -/
def recommendationItem (recommendation : String) : List Piece :=
  [.markup "        <li>", .text recommendation, .markup "</li>\n"]

/-- The recommendations; without any the section is left out. -/
def recommendationList (recommendations : List String) : List Piece :=
  if recommendations.isEmpty then []
  else
    [.markup ("<div class=\"recommendations\">\n    <h3>Recommendations for Improvement</h3>\n"
      ++ "    <ul>\n")]
    ++ recommendations.flatMap recommendationItem
    ++ [.markup "    </ul>\n</div>\n"]

/-- The row of one file. -/
def metricsRow (m : FileMetrics) : List Piece :=
  [.markup "            <tr><td>", .text (shownName m.filePath),
   .markup "</td><td>", count m.linesOfCode,
   .markup "</td><td>", count m.functionCount,
   .markup "</td><td>", count m.cyclomaticComplexity,
   .markup "</td><td>", count m.maxNestingDepth,
   .markup "</td><td>", count m.magicNumbers.length,
   .markup "</td></tr>\n"]

/-- The table of the files. -/
def metricsTable (metrics : List FileMetrics) : List Piece :=
  [.markup ("<div class=\"section\">\n    <h2 class=\"section-title\">File Metrics Details</h2>\n"
    ++ "    <table class=\"metrics-table\">\n        <thead>\n            <tr>\n"
    ++ "                <th>File</th>\n                <th>LOC</th>\n"
    ++ "                <th>Functions</th>\n                <th>Max Complexity</th>\n"
    ++ "                <th>Max Nesting</th>\n                <th>Magic Numbers</th>\n"
    ++ "            </tr>\n        </thead>\n        <tbody>\n")]
  ++ metrics.flatMap metricsRow
  ++ [.markup "        </tbody>\n    </table>\n</div>\n"]

/-- The line at the foot. -/
def footer : List Piece :=
  [.markup "<div class=\"footer\">\n    <p>Generated by mlquality</p>\n</div>\n"]

/-- The pieces of the page of a report. -/
def ofReport (report : Report) : List Piece :=
  head
  ++ [.markup "<body>\n<div class=\"container\">\n"]
  ++ header report
  ++ [.markup "<div class=\"content\">\n"]
  ++ scoreSection report
  ++ cards report
  ++ smells report
  ++ recommendationList report.recommendations
  ++ metricsTable report.metrics
  ++ [.markup "</div>\n"]
  ++ footer
  ++ [.markup "</div>\n</body>\n</html>\n"]

end MatlabQuality.Page

namespace MatlabQuality

/-- A report as a page. -/
def Report.pageText (report : Report) : String :=
  Page.render (Page.ofReport report)

end MatlabQuality
