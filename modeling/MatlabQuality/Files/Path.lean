import MatlabQuality.Text.Split

/-!
# Paths

A path is a text.  Its components are what stands between slashes; empty pieces and single dots
name nothing, except that a dot at the very start of a relative path is kept.  Two paths are the
same path when their components are equal, and paths are ordered component by component.

## Main definitions

* `Component`, `components` — what a path is made of.
* `fileName?`, `extension?`, `parent?` — parts of a path.
* `join`, `withExtension` — paths made from paths.
* `samePath`, `compare` — equality and order by components.
-/

namespace MatlabQuality.Path

/-- A part of a path, in the order in which parts are compared. -/
inductive Component where
  /-- The root directory. -/
  | root
  /-- The directory a relative path starts from, written as a dot. -/
  | here
  /-- The parent directory. -/
  | up
  /-- An entry of a directory. -/
  | name (s : String)
deriving Repr, DecidableEq

/-- The place of a component among the four sorts. -/
def Component.rank : Component → Nat
  | .root => 0
  | .here => 1
  | .up => 2
  | .name _ => 3

/-- The order of components. -/
def Component.compare : Component → Component → Ordering
  | .name a, .name b => Ord.compare a b
  | a, b => Ord.compare a.rank b.rank

/-- The pieces of a path between slashes. -/
def pieces (path : String) : List String :=
  (Text.splitOn '/' path.toList).map String.ofList

/-- Whether a path starts at the root. -/
def isAbsolute (path : String) : Bool :=
  path.toList.head? = some '/'

/-- The component a piece names, unless it names none. -/
def component? : String → Option Component
  | "" => none
  | "." => none
  | ".." => some .up
  | s => some (.name s)

/-- The components of a path. -/
def components (path : String) : List Component :=
  match pieces path with
  | "" :: rest =>
    if isAbsolute path then .root :: rest.filterMap component? else rest.filterMap component?
  | "." :: rest => .here :: rest.filterMap component?
  | all => all.filterMap component?

/-- Whether two texts are the same path. -/
def samePath (a b : String) : Bool :=
  components a = components b

/-- The order of lists of components: the first difference decides. -/
def compareComponents : List Component → List Component → Ordering
  | [], [] => .eq
  | [], _ :: _ => .lt
  | _ :: _, [] => .gt
  | a :: as, b :: bs =>
    match a.compare b with
    | .eq => compareComponents as bs
    | o => o

/-- The order of paths, component by component. -/
def compare (a b : String) : Ordering :=
  compareComponents (components a) (components b)

/-- The name of the entry a path ends in. -/
def fileName? (path : String) : Option String :=
  match (components path).getLast? with
  | some (.name s) => some s
  | _ => none

/-- A file name before and after its last dot.  A name has no extension without a dot, or when its
only dot comes first. -/
def splitName (name : String) : String × Option String :=
  let reversed := name.toList.reverse
  let after := reversed.takeWhile (· ≠ '.')
  match reversed.dropWhile (· ≠ '.') with
  | _ :: c :: before => (String.ofList (c :: before).reverse, some (String.ofList after.reverse))
  | _ => (name, none)

/-- The extension of the entry a path ends in. -/
def extension? (path : String) : Option String :=
  (fileName? path).bind fun name => (splitName name).2

/-- A path joined to a directory; an absolute path replaces it. -/
def join (directory path : String) : String :=
  if isAbsolute path || directory = "" then path
  else if directory.toList.getLast? = some '/' then directory ++ path
  else directory ++ "/" ++ path

/-- The pieces of a path without the last ones that name nothing.  The first piece of a path is
kept. -/
def trimPieces (pieces : List String) : List String :=
  match pieces with
  | [] => []
  | first :: rest =>
    first :: (rest.reverse.dropWhile fun s => s = "" || s = ".").reverse

/-- The text of pieces. -/
def ofPieces (ps : List String) : String :=
  "/".intercalate ps

/-- The path without its last component, if it has one other than the root. -/
def parent? (path : String) : Option String :=
  match components path with
  | [] => none
  | [.root] => none
  | _ =>
    let kept := trimPieces (trimPieces (pieces path)).dropLast
    if isAbsolute path && kept = [""] then some "/" else some (ofPieces kept)

/-- The path with the extension of its last entry replaced, or added where there is none.  A path
that ends in no entry stays as it is. -/
def withExtension (path extension : String) : String :=
  match fileName? path with
  | none => path
  | some name =>
    let kept := (trimPieces (pieces path)).dropLast
    ofPieces (kept ++ [(splitName name).1 ++ "." ++ extension])

end MatlabQuality.Path
