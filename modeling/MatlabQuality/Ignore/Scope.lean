import MatlabQuality.Files.Tree
import MatlabQuality.Ignore.Rule

/-!
# Which ignore rules hold where

The ignore files of a directory hold for everything below it.  There are three of them, from the
strongest to the weakest, and of the same file the nearest directory decides.  The directories
above the one that is searched are asked last, with absolute paths.

## Main definitions

* `Search` — a directory that is searched for entries.
* `Scope`, `Search.scopes` — a directory whose ignore files are asked about an entry.
* `Scope.verdict?` — what one ignore file says of an entry.
* `Search.skips` — whether an entry is passed over.
-/

namespace MatlabQuality.Ignore

open MatlabQuality.Files MatlabQuality.Text

/-! ## Texts of paths -/

/-- A text without another at its start, where it stands there. -/
def dropStart (start text : String) : String :=
  if start.toList.isPrefixOf text.toList then
    String.ofList (text.toList.drop start.toList.length)
  else text

/-- A path without a dot and a slash at its start. -/
def dropHere (path : String) : String :=
  dropStart "./" path

/-- A path as the rules of a directory see it.  A bare name is seen as it is, and so is every path
from the working directory. -/
def relativeTo (directory path : String) : String :=
  let path := dropHere path
  let directory := dropHere directory
  if Path.samePath directory "." || !path.toList.contains '/' then path
  else if directory.toList.isPrefixOf path.toList then
    dropStart "/" (dropStart directory path)
  else path

/-! ## Searches -/

/-- A directory that is searched. -/
structure Search where
  tree : Tree
  /-- The path of the directory, as it was asked for. -/
  root : String
  /-- The place that the path leads to. -/
  top : Place

/-- A directory whose ignore files are asked about an entry. -/
structure Scope where
  place : Place
  /-- The path of the directory. -/
  directory : String
  /-- The path of the entry. -/
  path : String
deriving Repr, DecidableEq

/-- The ignore files of a directory, the strongest first. -/
def ignoreFiles : List String :=
  [".ignore", ".gitignore", ".git/info/exclude"]

/-- What one ignore file of a directory says of an entry. -/
def Scope.verdict? (tree : Tree) (isDirectory : Bool) (file : String) (scope : Scope) :
    Option Verdict :=
  match View.bytes? ⟨tree, scope.place⟩ file with
  | none => none
  | some bytes =>
    judge (rulesOfBytes bytes) (Utf8.encode (relativeTo scope.directory scope.path).toList)
      isDirectory

namespace Search

/-- The path of an entry, by the names that lead to it. -/
def path (s : Search) (names : List String) : String :=
  names.foldl Path.join s.root

/-- The absolute path of an entry. -/
def absolutePath (s : Search) (names : List String) : String :=
  let path := dropHere (s.path names)
  Path.join (View.absolutePath s.top)
    (if Path.samePath s.root "." then path
     else dropStart "/" (dropStart (dropHere s.root) path))

/-- The directories from the one an entry stands in up to the one that is searched. -/
def innerScopes (s : Search) (names : List String) : List Scope :=
  (List.range names.length).reverse.map fun depth =>
    { place := s.top ++ names.take depth
      directory := s.path (names.take depth)
      path := dropHere (s.path names) }

/-- The directories above the one that is searched, the nearest first. -/
def outerScopes (s : Search) (names : List String) : List Scope :=
  (List.range s.top.length).reverse.map fun depth =>
    { place := s.top.take depth
      directory := View.absolutePath (s.top.take depth)
      path := s.absolutePath names }

/-- The directories whose ignore files are asked about an entry, the nearest first. -/
def scopes (s : Search) (names : List String) : List Scope :=
  s.innerScopes names ++ s.outerScopes names

/-- Whether an entry is a directory.  A link to one is not. -/
def isDirectory (s : Search) (names : List String) : Bool :=
  s.tree.get? (s.top ++ names) = some .directory

/-- What the ignore files say of an entry.  A stronger file is heard before a weaker one, and of
the same file that of the nearest directory. -/
def verdict? (s : Search) (names : List String) : Option Verdict :=
  ignoreFiles.findSome? fun file =>
    (s.scopes names).findSome? (Scope.verdict? s.tree (s.isDirectory names) file)

/-- Whether a name starts with a dot. -/
def isHidden (name : String) : Bool :=
  name.toList.head? = some '.'

/-- Whether an entry is passed over: it is ignored, or it is hidden and not re-included. -/
def skips (s : Search) (names : List String) : Bool :=
  match s.verdict? names with
  | some .ignored => true
  | some .included => false
  | none => names.getLast?.any isHidden

end Search

end MatlabQuality.Ignore
