import MatlabQuality.Command.Outcome

/-!
# The program

What a command line can ask about is read from the disk into a tree, the command line is carried
out there, and what it changed is written back.

## Main definitions

* `Disk.recordPath`, `Disk.recordBelow` — a tree with more of the disk in it.
* `Disk.read`, `Disk.write` — the part of the disk that a command line asks about, and changes to
  it.
* `main` — the program.
-/

namespace MatlabQuality.Disk

open MatlabQuality.Files

/-- A path on the disk. -/
def onDisk (path : String) :=
  (IO.FS.DirEntry.mk path "").root

/-- The place of a path without links. -/
def placeOf (path : String) : Place :=
  (Path.pieces path).filter (· ≠ "")

/-- The path without links that a path leads to, if it leads to something. -/
def realPath? (path : String) : IO (Option String) := do
  try
    let real ← IO.FS.realPath path
    if ← real.pathExists then return some real.toString else return none
  catch _ => return none

/-- Whether the contents of a file by its name can matter. -/
def isWanted (name : String) : Bool :=
  let names := Ignore.ignoreFiles.filterMap Path.fileName? ++ Thresholds.projectFileNames
  isSource name || names.contains name

/-- A tree with the directories above a place. -/
def recordAbove (t : Tree) (place : Place) : Tree :=
  (List.range place.length).foldl
    (fun t n => if (t.get? (place.take n)).isSome then t else t.put (place.take n) .directory) t

/-- A tree with what stands at a path without links. -/
def recordReal (t : Tree) (real : String) (wanted : Bool) : IO Tree := do
  let place := placeOf real
  let t := recordAbove t place
  if (t.get? place).isSome then return t
  if ← (onDisk real).isDir then return t.put place .directory
  if wanted then
    try
      let bytes ← IO.FS.readBinFile real
      return t.put place (.file bytes.toList)
    catch _ => return t
  return t.put place (.file [])

/-- A tree with what a path leads to, and with the link at its end, if it ends in one. -/
def recordEnd (t : Tree) (path : String) (wanted : Bool) : IO Tree := do
  let some real ← realPath? path | return t
  let t ← recordReal t real wanted
  let some name := Path.fileName? path | return t
  let some directory ← realPath? (((Path.parent? path).filter (· ≠ "")).getD ".") | return t
  let place := placeOf directory ++ [name]
  if place = placeOf real || (t.get? place).isSome then return t
  return (recordAbove t place).put place (.link real)

/-- A tree with everything on the way of a path. -/
def recordPath (t : Tree) (path : String) : IO Tree := do
  let pieces := Path.pieces path
  (List.range pieces.length).foldlM
    (fun t n => recordEnd t (Path.ofPieces (pieces.take (n + 1))) (n + 1 = pieces.length)) t

/-- A tree with everything below a directory.  Links are not entered. -/
partial def recordBelow (t : Tree) (directory : String) : IO Tree := do
  let entries ← try (onDisk directory).readDir catch _ => pure #[]
  entries.foldlM
    (fun t entry => do
      let path := Path.join directory entry.fileName
      let t ← recordEnd t path (isWanted entry.fileName)
      match t.get? (placeOf path) with
      | some .directory => recordBelow t path
      | _ => return t) t

/-- The paths that a command line may look at. -/
def mentioned (line : Command.CommandLine) : List String :=
  let directory := (Path.parent? line.path).getD "."
  let named := match line.command with
    | some (.analyze options) => options.output.toList ++ options.config.toList
    | some (.html output) => output.toList
    | _ => []
  line.path :: named
    ++ [Path.withExtension line.path "html", "quality_report.json", "quality_report.txt",
      "quality_report.html"]
    ++ [line.path, directory].flatMap (fun d => Thresholds.projectFileNames.map (Path.join d))

/-- The part of the disk that a command line asks about. -/
def read (words : List String) : IO View := do
  let here ← IO.FS.realPath "."
  let place := placeOf here.toString
  let t := recordAbove Tree.empty (place ++ ["."])
  let .ok line := Command.parse words | return ⟨t, place⟩
  let t ← (mentioned line).foldlM recordPath t
  let some top ← realPath? line.path | return ⟨t, place⟩
  let found := placeOf top
  let above := (List.range found.length).map fun n => View.absolutePath (found.take n)
  let t ← (above.flatMap fun d => Ignore.ignoreFiles.map (Path.join d)).foldlM recordPath t
  return ⟨← recordBelow t top, place⟩

/-- The entries of a tree that are not in another. -/
def changes (before after : Tree) : List (Place × Entry) :=
  after.entries.filter fun (place, e) => before.get? place ≠ some e

/-- Changes written to the disk. -/
def write (before after : Tree) : IO Unit :=
  (changes before after).forM fun (place, e) =>
    match e with
    | .directory => IO.FS.createDirAll (View.absolutePath place)
    | .file bytes => IO.FS.writeBinFile (View.absolutePath place) (ByteArray.mk bytes.toArray)
    | .link _ => pure ()

/-- The time on the clock: that of a file just made. -/
def now : IO Timestamp := do
  let (_, path) ← IO.FS.createTempFile
  let time := (← path.metadata).modified
  IO.FS.removeFile path
  return Timestamp.ofSeconds time.sec.toNat

end MatlabQuality.Disk

open MatlabQuality in
/-- The program. -/
def main (words : List String) : IO UInt32 := do
  let before ← Disk.read words
  let (after, outcome) := Command.runLine before (← Disk.now) words
  Disk.write before.tree after.tree
  IO.print outcome.output
  IO.eprint outcome.errors
  return UInt32.ofNat outcome.status
