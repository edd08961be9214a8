import MatlabQuality.Command.Arguments

/-!
# Reading a command line

Words are taken from left to right.  An option without an attached value waits for the next word,
and what was given last is not looked at before the next option or path has been read, so that an
unknown option is noticed before a bad value that stands just before it.

## Main definitions

* `Line` — what has been read of one level.
* `Line.take` — a line with one parameter more.
* `readLevel` — the words of one level.
* `parse` — what a command line says.
-/

namespace MatlabQuality.Command

/-! ## Lines -/

/-- What has been read of one level. -/
structure Line where
  /-- The parameters that have been taken, with their values. -/
  given : List (Parameter × String)
  /-- The parameter that was read last, with its value if it has come, while it is not taken. -/
  pending : Option (Parameter × Option String)
  /-- Whether a path has been read. -/
  hasPath : Bool
  /-- Whether all further words are paths. -/
  pathsOnly : Bool
deriving Repr, DecidableEq

namespace Line

/-- Nothing has been read. -/
def empty : Line := ⟨[], none, false, false⟩

/-- The value of a parameter, if it has been taken. -/
def value? (line : Line) (p : Parameter) : Option String :=
  line.given.lookup p

/-- A line with a parameter taken: it must have a value, must be new, and its value must be
one it takes. -/
def add (line : Line) (p : Parameter) (value : Option String) : Except Stop Line :=
  match value with
  | none => .error .invalidValue
  | some v =>
    if (line.value? p).isSome then .error .repeated
    else do
      p.check v
      return { line with given := (p, v) :: line.given }

/-- A line with its pending parameter taken. -/
def settle (line : Line) : Except Stop Line :=
  match line.pending with
  | none => .ok line
  | some (p, value) => { line with pending := none }.add p value

/-- A line with a parameter taken after its pending one. -/
def take (line : Line) (p : Parameter) (value : String) : Except Stop Line := do
  (← line.settle).add p (some value)

/-- A line that waits for the value of an option. -/
def await (line : Line) (p : Parameter) : Except Stop Line := do
  return { ← line.settle with pending := some (p, none) }

/-- The option whose value is the next word, if the line waits for one. -/
def awaited? (line : Line) : Option Parameter :=
  match line.pending with
  | some (p, none) => some p
  | _ => none

end Line

/-! ## Words -/

/-- What a flag is recorded as. -/
def flagValue : String := "true"

/-- A line after an option by its long name, with the value attached to it if there is one. -/
def readLong (level : Level) (line : Line) (name : String) (attached : Option String) :
    Except Stop Line :=
  match level.long? name with
  | some p =>
    match p.takesValue, attached with
    | true, some v => line.take p v
    | true, none => line.await p
    | false, some _ => .error .unwantedValue
    | false, none => line.take p flagValue
  | none =>
    if name = "help" || (name = "version" && level = .main) then
      match attached with
      | some _ => .error .unwantedValue
      | none => do
        let _ ← line.settle
        .error (if name = "help" then .help else .version)
    else .error .unknownArgument

/-- A line after the options of a word by their short names.  What follows the name of an option
that takes a value is its value, with or without an equals sign. -/
def readShort (level : Level) (line : Line) : List Char → Except Stop Line
  | [] => .ok line
  | c :: rest =>
    match level.short? c with
    | some p =>
      match rest with
      | [] => line.await p
      | '=' :: value => line.take p (String.ofList value)
      | value => line.take p (String.ofList value)
    | none =>
      if c = 'h' || (c = 'V' && level = .main) then do
        let _ ← line.settle
        .error (if c = 'h' then .help else .version)
      else .error .unknownArgument

/-- A line after a path. -/
def readPath (level : Level) (line : Line) (word : String) : Except Stop Line :=
  if line.hasPath then
    if level = .main && !(line.pathsOnly && Level.commandWords.contains word)
        && Level.resemblesCommand word then
      .error .unknownCommand
    else .error .unknownArgument
  else do
    return { ← line.settle with pending := some (.path, some word), hasPath := true }

/-- The name and the attached value of a long option, whose dashes have been removed. -/
def splitLong (cs : List Char) : String × Option String :=
  (String.ofList (cs.takeWhile (· ≠ '=')),
    match cs.dropWhile (· ≠ '=') with
    | _ :: value => some (String.ofList value)
    | [] => none)

/-- A line after a word that opens no command. -/
def readWord (level : Level) (line : Line) (word : String) : Except Stop Line :=
  if line.pathsOnly then readPath level line word
  else
    match word.toList with
    | ['-', '-'] => .ok { line with pathsOnly := true }
    | '-' :: '-' :: cs =>
      let (name, attached) := splitLong cs
      readLong level line name attached
    | '-' :: c :: cs => readShort level line (c :: cs)
    | _ =>
      match line.awaited? with
      | some p => .ok { line with pending := some (p, some word) }
      | none => readPath level line word

/-! ## Levels -/

/-- The stop that a request for help comes to: every word names a command, the first on the main
line and none on the line of a command. -/
def helpStop : List String → Stop
  | [] => .help
  | [word] => if Level.commandWords.contains word then .help else .unknownCommand
  | _ :: _ :: _ => .unknownCommand

/-- The words of one level, up to the word that opens a command, and the words after it. -/
def readLevel (level : Level) (line : Line) :
    List String → Except Stop (Line × Option (Level × List String))
  | [] => .ok (line, none)
  | word :: rest =>
    let opens := level = .main && !line.pathsOnly && line.awaited?.isNone
    if opens && word = Level.helpWord then .error (helpStop rest)
    else
      match (if opens then Level.command? word else none) with
      | some command => .ok (line, some (command, rest))
      | none => do readLevel level (← readWord level line word) rest

/-- The parameters of the line of a command, if there is a command. -/
def readCommand : Option (Level × List String) → Except Stop (Option (Level × Line))
  | none => .ok none
  | some (level, words) => do
    let (line, _) ← readLevel level .empty words
    return some (level, ← line.settle)

/-! ## The whole line -/

/-- The command a line of parameters describes. -/
def Level.command (level : Level) (line : Line) : Option Action :=
  match level with
  | .main => none
  | .init => some .init
  | .analyze =>
    some (.analyze
      { format := (line.value? .format).getD "json"
        output := line.value? .output
        config := line.value? .config
        failOn := (line.value? .failOn).bind Severity.ofName?
        noIgnore := (line.value? .noIgnore).isSome })
  | .html => some (.html (line.value? .output))

/-- What a main line and the line of a command say.  A parameter of both is taken from the
second. -/
def describe (main : Line) (command : Option (Level × Line)) : CommandLine :=
  let value := fun p => (command.bind fun (_, line) => line.value? p).or (main.value? p)
  { path := (value .path).getD "."
    logLevel := (value .logLevel).getD "warn"
    workers := ((value .workers).bind workers?).getD 8
    command := command.bind fun (level, line) => level.command line }

/-- What a command line says.  The line of a command is settled before the main line. -/
def parse (words : List String) : Except Stop CommandLine := do
  let (main, rest) ← readLevel .main .empty words
  let command ← readCommand rest
  return describe (← main.settle) command

end MatlabQuality.Command
