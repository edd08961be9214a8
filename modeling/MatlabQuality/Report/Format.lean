import MatlabQuality.Report.Json
import MatlabQuality.Report.Page
import MatlabQuality.Report.Plain
import MatlabQuality.Text.Case

/-!
# Formats of reports

## Main definitions

* `ReportFormat` — the three forms a report is written in.
* `ReportFormat.parse` — a format by one of its names.
* `Report.render` — a report in a format.
-/

namespace MatlabQuality

/-- The forms a report is written in. -/
inductive ReportFormat where
  | json
  | text
  | html
deriving Repr, DecidableEq

namespace ReportFormat

/-- The name of a format, which is also the extension of its files. -/
def name : ReportFormat → String
  | .json => "json"
  | .text => "txt"
  | .html => "html"

/-- The format of a name; plain text has two names. -/
def ofName? : String → Option ReportFormat
  | "json" => some .json
  | "txt" => some .text
  | "text" => some .text
  | "html" => some .html
  | _ => none

/-- A text that names no format. -/
structure Unknown where
  text : String
deriving Repr, DecidableEq

/-- What is said of a text that names no format. -/
def Unknown.message (e : Unknown) : String :=
  "Unknown format '" ++ e.text ++ "'. Valid formats: json, txt, html"

/-- The format of a name, in any case. -/
def parse (s : String) : Except Unknown ReportFormat :=
  match ofName? (Text.lowered s) with
  | some format => .ok format
  | none => .error ⟨s⟩

end ReportFormat

/-- A report in a format. -/
def Report.render (report : Report) : ReportFormat → String
  | .json => report.savedText
  | .text => report.plainText
  | .html => report.pageText

end MatlabQuality
