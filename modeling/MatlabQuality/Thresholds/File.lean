import MatlabQuality.Files.Tree
import MatlabQuality.Text.Case
import MatlabQuality.Text.Utf8
import MatlabQuality.Thresholds.Read

/-!
# Files of thresholds

Thresholds are kept in a file, by its extension in TOML or in JSON.  A directory has one of two
files for what is below it; where that cannot be used, the defaults hold.

## Main definitions

* `Thresholds.LoadError` — why a file gives no thresholds.
* `Thresholds.load` — the thresholds of a file.
* `Thresholds.projectFile?`, `Thresholds.project` — the file and the thresholds of a directory.
-/

namespace MatlabQuality.Thresholds

open MatlabQuality.Files

/-- Why a file gives no thresholds. -/
inductive LoadError where
  /-- There is no file, or it is not well-formed text. -/
  | unreadable
  | malformedToml
  | malformedJson
  | invalid (cause : Invalid)
deriving DecidableEq

/-- Whether a path has the extension of TOML files, in any case. -/
def isTomlPath (path : String) : Bool :=
  match Path.extension? path with
  | some ext => Text.equalsIgnoringCase ext.toList "toml".toList
  | none => false

/-- The limits that a text of a file with a path holds, valid or not. -/
def ofFileText (path : String) (text : List Char) : Except LoadError Thresholds :=
  if isTomlPath path then
    match ofTomlText? text with
    | some t => .ok t
    | none => .error .malformedToml
  else
    match ofJsonText? text with
    | some t => .ok t
    | none => .error .malformedJson

/-- The limits of a file, which must make sense. -/
def load (v : View) (path : String) : Except LoadError Thresholds :=
  match (v.bytes? path).bind Text.Utf8.decode? with
  | none => .error .unreadable
  | some text =>
    match ofFileText path text with
    | .error e => .error e
    | .ok t =>
      match t.validate with
      | .ok () => .ok t
      | .error cause => .error (.invalid cause)

/-! ## Directories -/

/-- The name of the file that is written for a directory. -/
def projectFileName : String := "mlquality.toml"

/-- The names of the files that a directory may have, in the order in which they are looked for. -/
def projectFileNames : List String :=
  [projectFileName, ".mlqualityrc.json"]

/-- The file of a directory. -/
def projectFile? (v : View) (directory : String) : Option String :=
  (projectFileNames.map (Path.join directory)).find? v.isFile

/-- The limits that hold below a directory: those of its file, or else the defaults. -/
def project (v : View) (directory : String) : Thresholds :=
  match projectFile? v directory with
  | none => default
  | some path =>
    match load v path with
    | .ok t => t
    | .error _ => default

end MatlabQuality.Thresholds
