import MatlabQuality.Files.Path

/-!
# File trees

A tree says what stands at each place.  A place is the list of names from the top; the top itself
is a directory.  Paths are followed from a working directory, through links, to a place.

## Main definitions

* `Entry`, `Tree` — what stands at a place, and at all places.
* `Tree.get?` — the entry at a place.
* `Tree.put`, `Tree.drop` — a tree with one entry changed, and without a place and all below it.
* `Tree.follow` — the place a path leads to.
* `View` — a tree with a working directory, and what paths show in it.
* `View.write?`, `View.makeDirectory`, `View.remove?`, `View.link?` — changed trees.
-/

namespace MatlabQuality.Files

/-- What stands at a place. -/
inductive Entry where
  | file (bytes : List UInt8)
  | directory
  /-- A link to another path. -/
  | link (target : String)
deriving Repr, DecidableEq

/-- The names from the top of a tree to an entry. -/
abbrev Place := List String

/-- What stands at each place below the top. -/
structure Tree where
  entries : List (Place × Entry)
deriving Repr, DecidableEq

namespace Tree

/-- Nothing but the top. -/
def empty : Tree := ⟨[]⟩

/-- The entry at a place.  The top is a directory. -/
def get? (t : Tree) (place : Place) : Option Entry :=
  if place = [] then some .directory else t.entries.lookup place

/-- The tree with one entry changed. -/
def put (t : Tree) (place : Place) (e : Entry) : Tree :=
  ⟨t.entries.filter (fun (p, _) => p != place) ++ [(place, e)]⟩

/-- The tree without a place and without all below it. -/
def drop (t : Tree) (place : Place) : Tree :=
  ⟨t.entries.filter fun (p, _) => !place.isPrefixOf p⟩

/-! ## Following paths -/

/-- Why a path leads nowhere. -/
inductive Fault where
  /-- Something on the way is missing. -/
  | missing
  /-- Something on the way is no directory. -/
  | notDirectory
  /-- There are too many links on the way. -/
  | linked
deriving Repr, DecidableEq

/-- The place that pieces of a path lead to from a place, with at most `links` links on the way.
The last piece may name an entry that does not exist. -/
def walk (t : Tree) (links : Nat) (here : Place) : List String → Except Fault Place
  | [] => .ok here
  | piece :: rest =>
    if t.get? here ≠ some .directory then .error .notDirectory
    else if piece = "" ∨ piece = "." then walk t links here rest
    else if piece = ".." then walk t links here.dropLast rest
    else
      match t.get? (here ++ [piece]) with
      | none => if rest = [] then .ok (here ++ [piece]) else .error .missing
      | some (.link target) =>
        match links with
        | 0 => .error .linked
        | links + 1 =>
          let start := if Path.isAbsolute target then [] else here
          walk t links start (Path.pieces target ++ rest)
      | some _ => walk t links (here ++ [piece]) rest
termination_by pieces => (links, pieces.length)

/-- How many links may be on the way of a path. -/
def maxLinks : Nat := 40

/-- The place that a path leads to from a directory.  The empty path leads nowhere. -/
def follow (t : Tree) (here : Place) (path : String) : Except Fault Place :=
  if path = "" then .error .missing
  else walk t maxLinks (if Path.isAbsolute path then [] else here) (Path.pieces path)

end Tree

/-! ## Views -/

/-- A tree with a working directory. -/
structure View where
  tree : Tree
  workingDirectory : Place
deriving Repr, DecidableEq

namespace View

/-- The place of an entry that exists, by a path. -/
def place? (v : View) (path : String) : Option Place :=
  match v.tree.follow v.workingDirectory path with
  | .ok place => if (v.tree.get? place).isSome then some place else none
  | .error _ => none

/-- The entry a path leads to. -/
def entry? (v : View) (path : String) : Option Entry :=
  (v.place? path).bind v.tree.get?

/-- Whether a path leads to something. -/
def pathExists (v : View) (path : String) : Bool :=
  (v.entry? path).isSome

/-- The bytes of the file a path leads to. -/
def bytes? (v : View) (path : String) : Option (List UInt8) :=
  match v.entry? path with
  | some (.file bytes) => some bytes
  | _ => none

/-- Whether a path leads to a file. -/
def isFile (v : View) (path : String) : Bool :=
  (v.bytes? path).isSome

/-- Whether a path leads to a directory. -/
def isDirectory (v : View) (path : String) : Bool :=
  v.entry? path = some .directory

/-- The absolute path of a place. -/
def absolutePath (place : Place) : String :=
  "/" ++ Path.ofPieces place

/-! ## Changes -/

/-- The view with a file written: an old file is replaced, and the directory has to exist. -/
def write? (v : View) (path : String) (bytes : List UInt8) : Option View :=
  match v.tree.follow v.workingDirectory path with
  | .ok place =>
    match v.tree.get? place with
    | some .directory => none
    | _ => some { v with tree := v.tree.put place (.file bytes) }
  | .error _ => none

/-- The place of the last name of a path, in the directory that the rest of it leads to.  A link
there is not followed, and nothing has to stand there. -/
def newPlace (v : View) (path : String) : Except Tree.Fault Place :=
  let named := ((Path.pieces path).reverse.dropWhile (· = "")).reverse
  match named.getLast? with
  | none | some "." | some ".." => v.tree.follow v.workingDirectory path
  | some name => do
    let start := if Path.isAbsolute path then [] else v.workingDirectory
    let place ← v.tree.walk Tree.maxLinks start named.dropLast
    match v.tree.get? place with
    | none => .error .missing
    | some .directory => .ok (place ++ [name])
    | some _ => .error .notDirectory

/-- The outcome of making a single directory. -/
inductive Made where
  | made (v : View)
  /-- The directory it belongs to is missing. -/
  | parentMissing
  | failed

/-- A single directory made, where nothing stands yet. -/
def makeOne (v : View) (path : String) : Made :=
  match v.newPlace path with
  | .ok place =>
    if (v.tree.get? place).isSome then .failed
    else .made { v with tree := v.tree.put place .directory }
  | .error .missing => .parentMissing
  | .error _ => .failed

/-- The view with a directory made along with those it belongs to, as far as they are missing, and
whether the directory is there afterwards.  Every step takes one component off the path, and
`depth` bounds their number. -/
def makeDirectoryWithin (v : View) : Nat → String → View × Bool
  | 0, _ => (v, false)
  | depth + 1, path =>
    if path = "" then (v, true)
    else
      match v.makeOne path with
      | .made v => (v, true)
      | .failed => (v, v.isDirectory path)
      | .parentMissing =>
        match Path.parent? path with
        | none => (v, false)
        | some parent =>
          match v.makeDirectoryWithin depth parent with
          | (v, false) => (v, false)
          | (v, true) =>
            match v.makeOne path with
            | .made v => (v, true)
            | _ => (v, v.isDirectory path)

/-- The view with a directory made along with those it belongs to, as far as they are missing, and
whether the directory is there afterwards. -/
def makeDirectory (v : View) (path : String) : View × Bool :=
  v.makeDirectoryWithin ((Path.components path).length + 2) path

/-- The view without an entry and all below it.  A link is removed, not what it leads to. -/
def remove? (v : View) (path : String) : Option View :=
  match v.newPlace path with
  | .ok place =>
    if place ≠ [] ∧ (v.tree.get? place).isSome then some { v with tree := v.tree.drop place }
    else none
  | .error _ => none

/-- The view with a link made, where nothing stands yet. -/
def link? (v : View) (path target : String) : Option View :=
  match v.newPlace path with
  | .ok place =>
    if (v.tree.get? place).isSome then none
    else some { v with tree := v.tree.put place (.link target) }
  | .error _ => none

end View

end MatlabQuality.Files
