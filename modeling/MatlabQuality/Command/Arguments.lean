import MatlabQuality.Number.Digits
import MatlabQuality.Smell.Severity
import MatlabQuality.Text.Similarity

/-!
# What a command line may say

A command line has a path and options, and perhaps a command with options of its own.  The path and
two options may stand before or after the command.

## Main definitions

* `CommandLine`, `Action`, `AnalyzeOptions` — what a command line says.
* `Parameter` — what may be given on a command line.
* `Level` — the main line and the line of each command, with the parameters of each.
* `Stop` — why a command line says nothing.
* `Parameter.check` — whether a parameter takes a value.
-/

namespace MatlabQuality.Command

open MatlabQuality.Number

/-! ## Commands -/

/-- How sources are to be analyzed. -/
structure AnalyzeOptions where
  /-- The name of the format of the report. -/
  format : String := "json"
  /-- Where the report goes. -/
  output : Option String := none
  /-- The file of the thresholds. -/
  config : Option String := none
  /-- The severity from which on a finding is a failure. -/
  failOn : Option Severity := none
  /-- Whether hidden and ignored files are analyzed too. -/
  noIgnore : Bool := false
deriving Repr, DecidableEq

/-- What is to be done. -/
inductive Action where
  /-- Write a file of thresholds. -/
  | init
  /-- Analyze sources and write a report. -/
  | analyze (options : AnalyzeOptions)
  /-- Write the page of a saved report. -/
  | html (output : Option String)
deriving Repr, DecidableEq

/-- What a command line says. -/
structure CommandLine where
  path : String
  logLevel : String
  workers : Nat
  command : Option Action
deriving Repr, DecidableEq

/-- Why a command line says nothing. -/
inductive Stop where
  /-- An option that is not known, or a path too many. -/
  | unknownArgument
  /-- A path too many that looks like a command, or help on a command that is not known. -/
  | unknownCommand
  /-- A value that is not one of those that may be given, or no value. -/
  | invalidValue
  /-- A number of workers that is no number in range. -/
  | rejectedNumber
  /-- An option given twice. -/
  | repeated
  /-- A value for an option that takes none. -/
  | unwantedValue
  /-- Help was asked for. -/
  | help
  /-- The version was asked for. -/
  | version
deriving Repr, DecidableEq

/-! ## Parameters -/

/-- What may be given on a command line. -/
inductive Parameter where
  | path
  | logLevel
  | workers
  | format
  | output
  | config
  | failOn
  | noIgnore
deriving Repr, DecidableEq

namespace Parameter

/-- The long name of an option. -/
def long? : Parameter → Option String
  | .path => none
  | .logLevel => some "log-level"
  | .workers => some "workers"
  | .format => some "format"
  | .output => some "output"
  | .config => some "config"
  | .failOn => some "fail-on"
  | .noIgnore => some "no-ignore"

/-- The short name of an option, if it has one. -/
def short? : Parameter → Option Char
  | .format => some 'f'
  | .output => some 'o'
  | .config => some 'c'
  | _ => none

/-- Whether a parameter takes a value. -/
def takesValue : Parameter → Bool
  | .noIgnore => false
  | _ => true

end Parameter

/-- The log levels. -/
def logLevels : List String :=
  ["error", "warn", "info", "debug", "trace"]

/-- The names of the formats of reports. -/
def formatNames : List String :=
  ["json", "txt", "text", "html"]

/-- The greatest number of workers. -/
def maxWorkers : Nat := 64

/-- The bits of the machine word that a number of workers is read into. -/
def workerBits : Nat := 64

/-- The number of workers that a text names: a number that fits a machine word, from one to the
greatest number. -/
def workers? (s : String) : Option Nat := do
  let n ← readUnsigned? workerBits s.toList
  if 1 ≤ n && n ≤ maxWorkers then return n else none

/-- Why a parameter does not take a value, if it does not. -/
def Parameter.check (p : Parameter) (value : String) : Except Stop Unit :=
  let accepted : Bool := match p with
    | .path | .output | .config => value ≠ ""
    | .logLevel => logLevels.contains value
    | .format => formatNames.contains value
    | .failOn => (Severity.ofName? value).isSome
    | .workers => (workers? value).isSome
    | .noIgnore => true
  if accepted then .ok ()
  else if p = .workers then .error .rejectedNumber
  else .error .invalidValue

/-! ## Levels -/

/-- The main line, and the line of each command. -/
inductive Level where
  | main
  | init
  | analyze
  | html
deriving Repr, DecidableEq

namespace Level

/-- The options of a level.  Two of them belong to all levels. -/
def options : Level → List Parameter
  | .main => [.logLevel, .workers]
  | .init => [.logLevel, .workers]
  | .analyze => [.format, .output, .config, .failOn, .noIgnore, .logLevel, .workers]
  | .html => [.output, .logLevel, .workers]

/-- The option with a long name. -/
def long? (level : Level) (name : String) : Option Parameter :=
  level.options.find? (·.long? == some name)

/-- The option with a short name. -/
def short? (level : Level) (c : Char) : Option Parameter :=
  level.options.find? (·.short? == some c)

/-- The level that a word of the main line opens. -/
def command? : String → Option Level
  | "init" => some .init
  | "analyze" => some .analyze
  | "html" => some .html
  | _ => none

/-- The word that asks for help in the place of a command. -/
def helpWord : String := "help"

/-- The words that have a meaning in the place of a command. -/
def commandWords : List String :=
  ["init", "analyze", "html", helpWord]

/-- Whether a word is close to one that has a meaning in the place of a command. -/
def resemblesCommand (word : String) : Bool :=
  commandWords.any fun w =>
    (Binary64.ofDecimal false 7 (-1)).lt (Text.similarity word.toList w.toList)

end Level

end MatlabQuality.Command
