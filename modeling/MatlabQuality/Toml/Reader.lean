import MatlabQuality.Toml.Scope

/-!
# Reading TOML

## Main definitions

* `readValue?` — the value a text starts with.
* `readStatements?` — the statements of a text, taken into a scope one after the other.
* `read?` — what a text defines.
-/

namespace MatlabQuality.Toml

/-! ## Values -/

/-- The members of a table on one line define each key once. -/
def consistent (members : List (List String × Value)) : Bool :=
  (members.foldlM (fun (s : Scope) (keys, v) => s.define? keys v) Scope.empty).isSome

mutual

/-- The value a text starts with, inside `depth` arrays and tables. -/
def readValue? : Nat → Nat → List Char → Option (Value × List Char)
  | 0, _, _ => none
  | fuel + 1, depth, cs =>
    match cs with
    | '"' :: _ => (string? cs).map fun (s, rest) => (.string (String.ofList s), rest)
    | '\'' :: _ => (string? cs).map fun (s, rest) => (.string (String.ofList s), rest)
    | '[' :: rest =>
      if depth + 1 < depthBound then
        (readElements? fuel (depth + 1) rest).map fun (vs, rest) => (.array vs, rest)
      else none
    | '\x7b' :: rest =>
      if depth + 1 < depthBound then do
        match skipBlanks rest with
        | '\x7d' :: rest => some (.table [], rest)
        | rest =>
          let (ms, rest) ← readMembers? fuel (depth + 1) rest
          if consistent ms then return (.table ms, rest) else none
      else none
    | 't' :: 'r' :: 'u' :: 'e' :: rest => some (.boolean true, rest)
    | 'f' :: 'a' :: 'l' :: 's' :: 'e' :: rest => some (.boolean false, rest)
    | _ =>
      ((dateTime? cs).map fun (d, rest) => (.dateTime d, rest)).or
        (((float? cs).map fun (x, rest) => (.float x, rest)).or
          ((integer? cs).map fun (i, rest) => (.integer i, rest)))

/-- The elements of an array after its opening bracket; the last may be followed by a comma. -/
def readElements? : Nat → Nat → List Char → Option (List Value × List Char)
  | 0, _, _ => none
  | fuel + 1, depth, cs =>
    match skipLines cs.length cs with
    | ']' :: rest => some ([], rest)
    | cs => do
      let (v, rest) ← readValue? fuel depth cs
      match skipLines rest.length rest with
      | ']' :: rest => some ([v], rest)
      | ',' :: rest => do
        let (vs, rest) ← readElements? fuel depth rest
        return (v :: vs, rest)
      | _ => none

/-- The members of a table on one line up to its closing brace; there is at least one. -/
def readMembers? : Nat → Nat → List Char → Option (List (List String × Value) × List Char)
  | 0, _, _ => none
  | fuel + 1, depth, cs => do
    let (keys, rest) ← keyPath? cs
    match rest with
    | '=' :: rest =>
      let (v, rest) ← readValue? fuel depth (skipBlanks rest)
      match skipBlanks rest with
      | '\x7d' :: rest => some ([(keys, v)], rest)
      | ',' :: rest => do
        let (ms, rest) ← readMembers? fuel depth rest
        return ((keys, v) :: ms, rest)
      | _ => none
    | _ => none

end

/-! ## Statements -/

/-- A scope after the statement a text starts with, and what is left after its line. -/
def readStatement? (s : Scope) (cs : List Char) : Option (Scope × List Char) :=
  match cs with
  | '[' :: '[' :: rest => do
    let (keys, rest) ← keyPath? rest
    match rest with
    | ']' :: ']' :: rest =>
      let rest ← lineEnd? rest
      let s ← s.openArray? keys
      return (s, rest)
    | _ => none
  | '[' :: rest => do
    let (keys, rest) ← keyPath? rest
    match rest with
    | ']' :: rest =>
      let rest ← lineEnd? rest
      let s ← s.openTable? keys
      return (s, rest)
    | _ => none
  | _ => do
    let (keys, rest) ← keyPath? cs
    match rest with
    | '=' :: rest =>
      let (v, rest) ← readValue? (2 * cs.length + 2) 0 (skipBlanks rest)
      let rest ← lineEnd? rest
      let s ← s.define? keys v
      return (s, rest)
    | _ => none

/-- A scope after the statements of a text; empty lines and comments are passed over. -/
def readStatements? : Nat → Scope → List Char → Option Scope
  | 0, _, _ => none
  | fuel + 1, s, cs =>
    match skipBlanks cs with
    | [] => some s
    | rest =>
      match lineEnd? rest with
      | some rest => readStatements? fuel s rest
      | none => do
        let (s, rest) ← readStatement? s rest
        readStatements? fuel s rest

/-- What a text defines.  A byte order mark at its start is passed over. -/
def read? (cs : List Char) : Option Scope :=
  let cs := match cs with
    | '\uFEFF' :: rest => rest
    | cs => cs
  readStatements? (cs.length + 1) Scope.empty cs

end MatlabQuality.Toml
