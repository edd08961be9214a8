import MatlabQuality.Ignore.Scope

/-!
# Finding source files

All source files below a directory, in the order of their paths.  Links are not entered, but a
link to a file is a file.

## Main definitions

* `isSource` — whether a path has the extension of source files.
* `Tree.below` — the entries below a place.
* `View.sources` — the source files below a path.
-/

namespace MatlabQuality.Files

open MatlabQuality.Ignore

/-- The extension of source files. -/
def sourceExtension : String := "m"

/-- Whether a path has the extension of source files. -/
def isSource (path : String) : Bool :=
  Path.extension? path = some sourceExtension

/-- The ways to the entries on the way of some names: their beginnings, the whole included. -/
def beginnings (names : List String) : List (List String) :=
  (List.range names.length).map fun n => names.take (n + 1)

/-- Whether names lead from a place through directories only. -/
def Tree.isReached (t : Tree) (top : Place) (names : List String) : Bool :=
  (List.range names.length).all fun n => t.get? (top ++ names.take n) = some .directory

/-- The names that lead from a place to the entries below it, in no particular order. -/
def Tree.below (t : Tree) (top : Place) : List (List String) :=
  t.entries.filterMap fun (place, _) =>
    if top.isPrefixOf place && top.length < place.length
        && t.isReached top (place.drop top.length) then
      some (place.drop top.length)
    else none

/-- The entries below a directory that is searched.  Where ignore rules are respected, what is
passed over is left out with everything below it. -/
def listed (s : Search) (respectIgnores : Bool) : List (List String) :=
  (s.tree.below s.top).filter fun names =>
    !respectIgnores || (beginnings names).all fun way => !s.skips way

/-- Whether one path is not after another. -/
def notAfter (a b : String) : Bool :=
  Path.compare a b != .gt

/-- The path that stands for the standard input, below which nothing is found. -/
def standardInput : String := "-"

/-- The source files below a directory. -/
def View.sourcesBelow (v : View) (root : String) (top : Place) (respectIgnores : Bool) :
    List String :=
  let s : Search := ⟨v.tree, root, top⟩
  let paths := (listed s respectIgnores).map s.path
  (paths.filter fun path => v.isFile path && isSource path).mergeSort notAfter

/-- There is nothing where a path leads. -/
structure Missing where
  path : String
deriving Repr, DecidableEq

/-- What is said of a path that leads nowhere. -/
def Missing.message (m : Missing) : String :=
  "Path does not exist: " ++ m.path

/-- The source files below a path.  A file is found by its own path, whatever the ignore rules
say. -/
def View.sources (v : View) (root : String) (respectIgnores : Bool) :
    Except Missing (List String) :=
  match v.place? root with
  | none => .error ⟨root⟩
  | some top =>
    if v.isFile root then .ok (if isSource root then [root] else [])
    else if Path.samePath root standardInput then .ok []
    else .ok (v.sourcesBelow root top respectIgnores)

end MatlabQuality.Files
