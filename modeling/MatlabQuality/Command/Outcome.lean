import MatlabQuality.Command.Execution
import MatlabQuality.Command.Parser

/-!
# What a command line comes to

## Main definitions

* `Outcome` — what is printed, and the exit status.
* `outcome`, `Stop.outcome` — the outcome of a command, and of a line that names none.
* `runLine` — the outcome of the words of a command line.
-/

namespace MatlabQuality.Command

open MatlabQuality.Files

/-- What is printed, and the exit status. -/
structure Outcome where
  status : Nat
  output : String
  errors : String
deriving Repr, DecidableEq

/-- What a command that has ended comes to. -/
def outcome : Except Failure Finished → Outcome
  | .ok ⟨printed, none⟩ => ⟨0, printed, ""⟩
  | .ok ⟨printed, some s⟩ =>
    ⟨1, printed, linesOf ["Failing due to --fail-on=" ++ s.name ++ " threshold"]⟩
  | .error e => ⟨1, "", linesOf ["Error: " ++ e.message]⟩

/-- The version. -/
def versionText : String := linesOf ["mlquality 0.1.0"]

/-- What is printed when help is asked for. -/
def helpText : String :=
  linesOf
    ["Heuristic code quality analysis for MATLAB sources", "",
     "Usage: mlquality [OPTIONS] [PATH] [COMMAND]", "",
     "Commands:",
     "  init     Write an mlquality.toml with the default thresholds",
     "  analyze  Analyze a directory and write a quality report",
     "  html     Render an existing JSON report as a standalone HTML page", "",
     "Options:",
     "      --log-level <LOG_LEVEL>  Log level (error, warn, info, debug, trace)",
     "      --workers <WORKERS>      Number of parallel workers (1-64)",
     "  -h, --help                   Print help",
     "  -V, --version                Print version"]

/-- What is said of a line that cannot be understood. -/
def Stop.message : Stop → String
  | .unknownArgument => "error: unexpected argument"
  | .unknownCommand => "error: unrecognized subcommand"
  | .invalidValue => "error: invalid value"
  | .rejectedNumber => "error: the number of workers must be from 1 to 64"
  | .repeated => "error: an argument was given more than once"
  | .unwantedValue => "error: unexpected value"
  | .help => helpText
  | .version => versionText

/-- What a line that names no command comes to. -/
def Stop.outcome : Stop → Outcome
  | .help => ⟨0, helpText, ""⟩
  | .version => ⟨0, versionText, ""⟩
  | stop => ⟨2, "", linesOf [stop.message]⟩

/-- The changed view of the files, and what the words of a command line come to. -/
def runLine (v : View) (now : Timestamp) (words : List String) : View × Outcome :=
  match parse words with
  | .error stop => (v, stop.outcome)
  | .ok line =>
    let (v, ending) := execute v now line
    (v, outcome ending)

end MatlabQuality.Command
