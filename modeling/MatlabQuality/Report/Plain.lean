import MatlabQuality.Report.Basic

/-!
# Reports as plain text

## Main definitions

* `Report.plainText` — the totals, the findings by severity and the recommendations of a report.
-/

namespace MatlabQuality

open MatlabQuality.Number

/-- A character repeated. -/
def rule (c : Char) (width : Nat) : String :=
  String.ofList (List.replicate width c)

/-- A heading, underlined. -/
def heading (title : String) (line : String) : String :=
  title ++ "\n" ++ line ++ "\n"

/-- Items counted from `first`, one to a line. -/
def numbered (first : Nat) : List String → String
  | [] => ""
  | item :: rest => decimal first ++ ". " ++ item ++ "\n" ++ numbered (first + 1) rest

/-- The number of findings of each severity, one to a line. -/
def severityLines (t : Tally) : String :=
  String.join (Severity.all.map fun s => "  " ++ s.label ++ ": " ++ decimal (t.count s) ++ "\n")

/-- A report as plain text.  Without recommendations their heading is left out. -/
def Report.plainText (report : Report) : String :=
  let s := report.summary
  heading "MATLAB Code Quality Analysis Report" (rule '=' 40) ++ "\n"
  ++ "Analysis Date: " ++ report.analysisDate ++ "\n"
  ++ "Files Analyzed: " ++ decimal s.totalFiles ++ "\n"
  ++ "Total Lines of Code: " ++ decimal s.totalLinesOfCode ++ "\n"
  ++ "Total Functions: " ++ decimal s.totalFunctions ++ "\n"
  ++ "Quality Score: " ++ decimal s.qualityScore ++ "/100\n\n"
  ++ heading "Code Smells Summary:" (rule '-' 20)
  ++ "Total Issues: " ++ decimal report.codeSmells.total ++ "\n"
  ++ severityLines report.codeSmells.bySeverity ++ "\n"
  ++ (if report.recommendations.isEmpty then ""
      else heading "Recommendations:" (rule '-' 15) ++ numbered 1 report.recommendations)

end MatlabQuality
