import MatlabQuality.Toml.Value

/-!
# What the keys of TOML define

A key may be defined once.  A table may be opened by one header, and parts of it may be opened by
dotted keys or by longer headers, but not by both.  A scope is the list of what has been defined
so far, each thing by its path from the top.

## Main definitions

* `Item` — what a path is defined as.
* `Scope` — what has been defined, and the table that keys belong to.
* `Scope.define?`, `Scope.openTable?`, `Scope.openArray?` — a scope one statement further.
-/

namespace MatlabQuality.Toml

/-- What a path is defined as. -/
inductive Item where
  | value (v : Value)
  /-- A table: whether a header still may open it, and whether dotted keys made it. -/
  | table (implicit dotted : Bool)
  /-- A list of tables; what is defined below it belongs to the last of them. -/
  | tables

/-- What has been defined so far. -/
structure Scope where
  items : List (List String × Item)
  /-- The path of the table that keys belong to. -/
  current : List String

namespace Scope

/-- Nothing is defined, and keys belong to the top. -/
def empty : Scope := ⟨[], []⟩

/-- What a path is defined as. -/
def item? (s : Scope) (path : List String) : Option Item :=
  s.items.lookup path

/-- A scope with a definition more. -/
def add (s : Scope) (path : List String) (item : Item) : Scope :=
  { s with items := (path, item) :: s.items }

/-- A scope after passing through the tables `keys` below `base`.  Those that are missing are
made; a value cannot be passed through, and dotted keys cannot pass a table with a header. -/
def descend? (s : Scope) (dotted : Bool) (base : List String) : List String → Option Scope
  | [] => some s
  | key :: keys =>
    let path := base ++ [key]
    match s.item? path with
    | none => (s.add path (.table true dotted)).descend? dotted path keys
    | some (.value _) => none
    | some .tables => s.descend? dotted path keys
    | some (.table implicit _) =>
      if dotted && !implicit then none else s.descend? dotted path keys

/-- Whether keys may be put into the table at a path below the current one: dotted keys only into
a table that dotted keys made. -/
def accepts (s : Scope) (below : List String) : Bool :=
  below.isEmpty ||
    match s.item? (s.current ++ below) with
    | some (.table _ dotted) => dotted
    | _ => false

/-- A key of the current table given a value. -/
def define? (s : Scope) (keys : List String) (v : Value) : Option Scope := do
  let below := keys.dropLast
  let s ← s.descend? true s.current below
  let path := s.current ++ keys
  if s.accepts below && (s.item? path).isNone then return s.add path (.value v) else none

/-- A table opened by its header. -/
def openTable? (s : Scope) (keys : List String) : Option Scope := do
  let s ← s.descend? false [] keys.dropLast
  match s.item? keys with
  | none => return { s.add keys (.table false false) with current := keys }
  | some (.table true false) => return { s.add keys (.table false false) with current := keys }
  | _ => none

/-- A further table of a list, opened by its header.  What was defined in the one before is out
of reach. -/
def openArray? (s : Scope) (keys : List String) : Option Scope := do
  let s ← s.descend? false [] keys.dropLast
  match s.item? keys with
  | none => return { s.add keys .tables with current := keys }
  | some .tables =>
    return {
      items := s.items.filter fun (path, _) => !(keys.isPrefixOf path && keys != path)
      current := keys }
  | _ => none

end Scope

end MatlabQuality.Toml
