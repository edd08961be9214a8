import MatlabQuality.Files.Discovery
import MatlabQuality.Files.Workers
import MatlabQuality.Report.Run
import MatlabQuality.Text.LineEnding

/-!
# Analyzing files

Files are read and analyzed each on its own, by several workers.  A file that cannot be read is
left out and noted.

## Main definitions

* `View.readSource?` — the text of a source file.
* `analyzeRead` — what is learnt from one file, given what came of reading it.
* `analyzeAll` — the run over some files, given what comes of reading each.
* `View.analyzeFiles`, `View.analyzeBelow` — the run over some files, and over all below a path.
-/

namespace MatlabQuality.Files

/-- The text of a source file. -/
def View.readSource? (v : View) (path : String) : Option (List Char) :=
  (v.bytes? path).map Text.ofSourceBytes

/-- A source file that cannot be read. -/
structure Unreadable where
  path : String
deriving Repr, DecidableEq

/-- What is said of a source file that cannot be read. -/
def Unreadable.message (e : Unreadable) : String :=
  "Failed to read " ++ e.path

/-- What is learnt from one file, given what came of reading it. -/
def analyzeRead (t : Thresholds) (path : String) (source? : Option (List Char)) :
    Except Unreadable FileAnalysis :=
  match source? with
  | some source => .ok (analyzeSource path source t)
  | none => .error ⟨path⟩

/-- The run over some files, from what came of each. -/
def runOfOutcomes (outcomes : List (Except Unreadable FileAnalysis)) : Run :=
  { Run.ofAnalyses (outcomes.filterMap Except.toOption) with
    skipped := outcomes.filterMap fun
      | .ok _ => none
      | .error e => some e.path }

/-- The run over some files, in their order, given what comes of reading the bytes of each. -/
def analyzeAll (read : String → Option (List UInt8)) (t : Thresholds) (workers : Nat)
    (paths : List String) : Run :=
  runOfOutcomes (mapShared workers
    (fun path => analyzeRead t path ((read path).map Text.ofSourceBytes)) paths)

/-- What is learnt from one file, if it can be read. -/
def View.analyzeFile (v : View) (t : Thresholds) (path : String) :
    Except Unreadable FileAnalysis :=
  analyzeRead t path (v.readSource? path)

/-- The run over some files, in their order. -/
def View.analyzeFiles (v : View) (t : Thresholds) (workers : Nat) (paths : List String) : Run :=
  analyzeAll v.bytes? t workers paths

/-- The run over all source files below a path. -/
def View.analyzeBelow (v : View) (t : Thresholds) (workers : Nat) (respectIgnores : Bool)
    (root : String) : Except Missing Run :=
  (v.sources root respectIgnores).map (v.analyzeFiles t workers)

end MatlabQuality.Files
