import MatlabQuality.Ignore.Glob
import MatlabQuality.Text.Blank
import MatlabQuality.Text.Split

/-!
# Ignore rules

An ignore file holds one rule to a line.  A rule ignores what its glob matches, or re-includes it;
the last rule that matches decides.

## Main definitions

* `IgnoreRule`, `IgnoreRule.ofLine?` — one rule.
* `rulesOfBytes` — the rules of an ignore file.
* `Verdict`, `judge` — what the rules of a file say of a path.
-/

namespace MatlabQuality.Ignore

open MatlabQuality.Text

/-- One rule of an ignore file. -/
structure IgnoreRule where
  glob : Glob
  /-- Whether the rule re-includes what it matches. -/
  includes : Bool
  /-- Whether the rule is about directories only. -/
  directoriesOnly : Bool

/-- A line without the blanks at its end, unless an escaped space is the last of them. -/
def trimLine (line : List Char) : List Char :=
  match line.reverse with
  | ' ' :: '\\' :: _ => line
  | _ => trimEnd line

/-- Whether a text starts with another. -/
def startsWith (start : String) (cs : List Char) : Bool :=
  start.toList.isPrefixOf cs

/-- Whether a text ends with another. -/
def endsWith (ending : String) (cs : List Char) : Bool :=
  ending.toList.isSuffixOf cs

/-- A pattern without the slash at its end, and without a backslash before that. -/
def dropFinalSlash (pattern : List Char) : List Char :=
  match pattern.reverse with
  | '/' :: '\\' :: rest => rest.reverse
  | '/' :: rest => rest.reverse
  | _ => pattern

/-- The pattern that is matched against whole paths.  Without a slash it holds at every depth, and
what is below a directory does not include the directory. -/
def wholePattern (anchored : Bool) (pattern : List Char) : List Char :=
  let deep :=
    if !anchored && !pattern.contains '/'
        && !(startsWith "**/" pattern || pattern = "**".toList) then
      "**/".toList ++ pattern
    else pattern
  if endsWith "/**" deep then deep ++ "/*".toList else deep

/-- The marks at the start of a line: whether it re-includes, whether it is anchored, and the
pattern after them. -/
def readMarks (line : List Char) : Bool × Bool × List Char :=
  match line with
  | '\\' :: '!' :: _ => (false, false, line.drop 1)
  | '\\' :: '#' :: _ => (false, false, line.drop 1)
  | '!' :: '/' :: rest => (true, true, rest)
  | '!' :: rest => (true, false, rest)
  | '/' :: rest => (false, true, rest)
  | _ => (false, false, line)

/-- The rule of a line, unless it is a comment, empty, or no pattern. -/
def IgnoreRule.ofLine? (line : List Char) : Option IgnoreRule :=
  let line' := trimLine line
  if startsWith "#" line || line'.isEmpty then none
  else
    let (includes, anchored, pattern) := readMarks line'
    let directoriesOnly := endsWith "/" pattern
    (Glob.parse? (wholePattern anchored (dropFinalSlash pattern))).map fun glob =>
      { glob, includes, directoriesOnly }

/-! ## Files -/

/-- A line without the carriage return before its line feed. -/
def dropReturn (line : List (Option Char)) : List (Option Char) :=
  if line.getLast? = some (some '\r') then line.dropLast else line

/-- The lines of a file's bytes, up to the first with a malformed sequence, which is `none` among
characters.  What follows the last line feed has no carriage return to lose. -/
def readableLines (bytes : List UInt8) : List (List Char) :=
  let lines := splitOn (some '\n') (Utf8.pieces bytes)
  let bare := lines.dropLast.map dropReturn ++ lines.getLast?.toList
  (bare.takeWhile fun line => line.all Option.isSome).map (·.filterMap id)

/-- The rules of an ignore file.  Byte order marks at its start are passed over. -/
def rulesOfBytes (bytes : List UInt8) : List IgnoreRule :=
  match readableLines bytes with
  | [] => []
  | first :: rest =>
    (first.dropWhile (· = '\uFEFF') :: rest).filterMap IgnoreRule.ofLine?

/-! ## Verdicts -/

/-- What rules say of a path. -/
inductive Verdict where
  | ignored
  | included
deriving Repr, DecidableEq

/-- What the last of some rules that matches a path says of it. -/
def judge (rules : List IgnoreRule) (path : List UInt8) (isDirectory : Bool) : Option Verdict :=
  (rules.reverse.find? fun rule =>
    (isDirectory || !rule.directoriesOnly) && rule.glob.accepts path).map fun rule =>
    if rule.includes then .included else .ignored

end MatlabQuality.Ignore
