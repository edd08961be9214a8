import MatlabQuality.Report.Format

/-!
# Failures of commands

## Main definitions

* `Failure` — why a command fails.
* `Failure.message` — what is said then.
-/

namespace MatlabQuality.Command

/-- Why a command fails. -/
inductive Failure where
  /-- A word that is neither a command nor a path. -/
  | unknownCommand (word : String)
  | missingPath (path : String)
  /-- The thresholds that were asked for cannot be used. -/
  | configNotLoaded (path : String)
  | unknownFormat (cause : ReportFormat.Unknown)
  | directoryNotMade (path : String)
  | reportNotWritten (path : String)
  /-- There is no saved report. -/
  | reportNotFound (path : String)
  /-- A saved report is not well-formed text. -/
  | reportUnreadable (path : String)
  /-- What was given is not a saved report. -/
  | notReport (path : String)
  /-- A page would replace the report it shows. -/
  | wouldOverwrite (path : String)
  | pageNotWritten (path : String)
  | notDirectory (path : String)
  /-- There is a file of thresholds already. -/
  | alreadyExists (path : String)
  | configNotWritten (path : String)
deriving Repr, DecidableEq

/-- What is said of a failure. -/
def Failure.message : Failure → String
  | .unknownCommand word =>
    "Unknown command '" ++ word ++ "'. Run 'mlquality --help' for available commands.\n\n"
      ++ "Did you mean one of: init, analyze, html?"
  | .missingPath path => "Path does not exist: " ++ path
  | .configNotLoaded path => "Failed to load config " ++ path
  | .unknownFormat cause => cause.message
  | .directoryNotMade path => "Failed to create " ++ path
  | .reportNotWritten path => "Failed to write report to " ++ path
  | .reportNotFound path => "JSON report not found: " ++ path
  | .reportUnreadable path => "Failed to read " ++ path
  | .notReport path => path ++ " is not a quality report"
  | .wouldOverwrite path => "Refusing to overwrite the JSON report " ++ path ++ ", pass -o"
  | .pageNotWritten path => "Failed to write " ++ path
  | .notDirectory path => "Path is not a directory: " ++ path
  | .alreadyExists path => path ++ " already exists, remove it first to regenerate"
  | .configNotWritten path => "Failed to write " ++ path

end MatlabQuality.Command
