import MatlabQuality.Command.Arguments
import MatlabQuality.Command.Failure
import MatlabQuality.Files.Batch
import MatlabQuality.Report.Format
import MatlabQuality.Thresholds.File

/-!
# Carrying out commands

A command reads a view of the files and leaves a changed one behind.  What it will write is made
ready first, from the old view alone; then it is written, in one step or two.

## Main definitions

* `Finished` — how a command that does not fail ends.
* `thresholdsFor` — the limits that sources are judged by.
* `prepareReport`, `analyze` — sources analyzed, and their report written.
* `preparePage`, `writePage` — the page of a saved report.
* `prepareConfig`, `writeConfig` — a file with the default thresholds.
* `execute` — what a command line asks for.
-/

namespace MatlabQuality.Command

open MatlabQuality.Files MatlabQuality.Number MatlabQuality.Text

/-- How a command that does not fail ends. -/
structure Finished where
  /-- What is printed. -/
  printed : String
  /-- The severity that was not to be reached, if it was. -/
  reached : Option Severity
deriving Repr, DecidableEq

/-- The changed view of the files, and how the command ends. -/
abbrev Ending := View × Except Failure Finished

/-- Some lines of text. -/
def linesOf (lines : List String) : String :=
  String.join (lines.map (· ++ "\n"))

/-- A text as the bytes of a file. -/
def bytesOf (text : String) : List UInt8 :=
  Utf8.encode text.toList

/-! ## Analyzing -/

/-- The directory whose thresholds hold for a path. -/
def projectDirectory (v : View) (path : String) : String :=
  if v.isFile path then (Path.parent? path).getD "." else path

/-- The limits that sources are judged by.  A file that was asked for must be usable; what is found
in the directory of the sources may give way to the defaults. -/
def thresholdsFor (v : View) (path : String) (config : Option String) :
    Except Failure Thresholds :=
  match config with
  | some file =>
    match Thresholds.load v file with
    | .ok t => .ok t
    | .error _ => .error (.configNotLoaded file)
  | none => .ok (Thresholds.project v (projectDirectory v path))

/-- The report of the sources below a path. -/
def prepareReport (v : View) (now : Timestamp) (path : String) (workers : Nat)
    (options : AnalyzeOptions) : Except Failure (ReportFormat × Report) := do
  let format ← match ReportFormat.parse options.format with
    | .ok format => .ok format
    | .error cause => .error (.unknownFormat cause)
  if !v.pathExists path then throw (.missingPath path)
  let t ← thresholdsFor v path options.config
  match v.analyzeBelow t workers (!options.noIgnore) path with
  | .ok run => return (format, Report.ofRun run now)
  | .error missing => throw (.missingPath missing.path)

/-- Where a report goes when nothing else is said. -/
def defaultOutput (format : ReportFormat) : String :=
  "quality_report." ++ format.name

/-- The view with a report written, and with the directories it goes to. -/
def saveReport (v : View) (path text : String) : View × Except Failure Unit :=
  let parent := (Path.parent? path).getD ""
  match v.makeDirectory parent with
  | (v, false) => (v, .error (.directoryNotMade parent))
  | (v, true) =>
    match v.write? path (bytesOf text) with
    | some v => (v, .ok ())
    | none => (v, .error (.reportNotWritten path))

/-- Whether findings of a severity or a higher one are among those of a report. -/
def reaches (report : Report) (s : Severity) : Bool :=
  0 < report.codeSmells.bySeverity.atLeast s

/-- What is printed after an analysis. -/
def analysisNotice (report : Report) (output : String) : String :=
  linesOf
    ["Analysis complete! Quality score: " ++ decimal report.summary.qualityScore ++ "/100",
     "Found " ++ decimal report.codeSmells.total ++ " code quality issues",
     "Report saved to: " ++ output]

/-- Sources analyzed, and their report written. -/
def analyze (v : View) (now : Timestamp) (path : String) (workers : Nat)
    (options : AnalyzeOptions) : Ending :=
  match prepareReport v now path workers options with
  | .error e => (v, .error e)
  | .ok (format, report) =>
    let output := options.output.getD (defaultOutput format)
    match saveReport v output (report.render format) with
    | (v, .error e) => (v, .error e)
    | (v, .ok ()) =>
      (v, .ok ⟨analysisNotice report output, options.failOn.filter (reaches report)⟩)

/-! ## Pages -/

/-- The page of a saved report, and where it goes. -/
def preparePage (v : View) (path : String) (output : Option String) :
    Except Failure (String × String) := do
  let some bytes := v.bytes? path | throw (.reportNotFound path)
  let some text := Utf8.decode? bytes | throw (.reportUnreadable path)
  let some report := Report.ofSavedText? text | throw (.notReport path)
  let output := output.getD (Path.withExtension path "html")
  if Path.samePath output path then throw (.wouldOverwrite path)
  return (output, report.pageText)

/-- The page of a saved report written. -/
def writePage (v : View) (path : String) (output : Option String) : Ending :=
  match preparePage v path output with
  | .error e => (v, .error e)
  | .ok (output, page) =>
    match v.write? output (bytesOf page) with
    | some v => (v, .ok ⟨linesOf ["HTML report generated: " ++ output], none⟩)
    | none => (v, .error (.pageNotWritten output))

/-! ## Files of thresholds -/

/-- Where the file of thresholds of a directory goes. -/
def prepareConfig (v : View) (path : String) : Except Failure String := do
  let some place := v.place? path | throw (.missingPath path)
  let directory := View.absolutePath place
  if !v.isDirectory directory then throw (.notDirectory directory)
  let file := Path.join directory Thresholds.projectFileName
  if v.pathExists file then throw (.alreadyExists file)
  return file

/-- What is printed after a file of thresholds has been written. -/
def configNotice (file : String) : String :=
  linesOf
    ["✓ Created " ++ file, "", "Next steps:",
     "  " ++ Thresholds.projectFileName ++ " Adjust the thresholds",
     "  mlquality analyze . Run analysis"]

/-- A file with the default thresholds written. -/
def writeConfig (v : View) (path : String) : Ending :=
  match prepareConfig v path with
  | .error e => (v, .error e)
  | .ok file =>
    match v.write? file (bytesOf Thresholds.default.commentedToml) with
    | some v => (v, .ok ⟨configNotice file, none⟩)
    | none => (v, .error (.configNotWritten file))

/-! ## Command lines -/

/-- Whether a path that leads nowhere was most likely meant as a command. -/
def looksLikeCommand (v : View) (path : String) : Bool :=
  let cs := path.toList
  !v.pathExists path && !cs.contains '/' && !cs.contains '\\' && cs.head? ≠ some '.'
    && !".m".toList.isSuffixOf cs && (Level.command? path).isNone

/-- What a command line asks for, at a time.  Without a command, sources are analyzed. -/
def execute (v : View) (now : Timestamp) (line : CommandLine) : Ending :=
  match line.command with
  | some .init => writeConfig v line.path
  | some (.analyze options) => analyze v now line.path line.workers options
  | some (.html output) => writePage v line.path output
  | none =>
    if looksLikeCommand v line.path then (v, .error (.unknownCommand line.path))
    else analyze v now line.path line.workers {}

end MatlabQuality.Command
