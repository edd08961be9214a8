import MatlabQuality.Source.Block

/-!
# Functions

A declaration is recognised on one line: the word `function`, perhaps output names and an equals
sign, a name, and a parameter list in parentheses.  A body runs to the closer that no opener
after the declaration accounts for, or to the end of the source.

## Main definitions

* `Declaration`, `Declaration.ofLine?` — the name and the parameter text of a declaration.
* `countParameters` — the parameters of a parameter text.
* `bodyLength` — the lines from a declaration to the closer of its body.
* `FunctionRecord`, `scanFunctions` — the functions of a source.
-/

namespace MatlabQuality.Source

open MatlabQuality.Text

/-! ## Declarations -/

/-- What a declaration declares. -/
structure Declaration where
  name : List Char
  /-- The text between the parentheses. -/
  parameters : List Char
deriving Repr, DecidableEq

namespace Declaration

/-- A name, perhaps blanks, and a parameter list that ends at the first closing parenthesis. -/
def signature? (cs : List Char) : Option Declaration :=
  let name := cs.takeWhile isWord
  match trimStart (cs.dropWhile isWord) with
  | '(' :: rest =>
    if name ≠ [] ∧ ')' ∈ rest then some ⟨name, rest.takeWhile (· ≠ ')')⟩ else none
  | _ => none

/-- Perhaps blanks, an equals sign, perhaps blanks, and a signature. -/
def assigned? (cs : List Char) : Option Declaration :=
  match trimStart cs with
  | '=' :: rest => signature? (trimStart rest)
  | _ => none

/-- Output names up to a closing bracket, the first one that an assigned signature follows. -/
def bracketed? : List Char → Option Declaration
  | [] => none
  | c :: rest =>
    if c = ']' then (assigned? rest).or (bracketed? rest) else bracketed? rest

/-- What follows the word `function` and the blanks after it: bracketed outputs, one output, or
no output. -/
def ofHeader? : List Char → Option Declaration
  | '[' :: rest => bracketed? rest
  | cs =>
    if leadingWord cs = [] then none
    else (assigned? (cs.dropWhile isWord)).or (signature? cs)

/-- The declaration a line starts with, if it does: anything may follow the parameter list. -/
def ofLine? (line : List Char) : Option Declaration :=
  let start := trimStart line
  let rest := start.dropWhile isWord
  if leadingWord start = "function".toList ∧ trimStart rest ≠ rest then
    ofHeader? (trimStart rest)
  else none

end Declaration

/-- The number of parameters in a parameter text: its pieces between commas that are not all
blank. -/
def countParameters (parameters : List Char) : Nat :=
  (splitOn ',' parameters).countP fun piece => !isAllBlank piece

/-! ## Bodies -/

/-- The number of lines up to and including the first closer that `level` open blocks and the
openers on the way do not account for; all lines, if there is none. -/
def linesToClose (level : Nat) : List (List Char) → Nat
  | [] => 0
  | line :: rest =>
    if opensBlock line then 1 + linesToClose (level + 1) rest
    else if closesBlock line then
      if level = 0 then 1 else 1 + linesToClose (level - 1) rest
    else 1 + linesToClose level rest

/-- The length of a function from its declaration to its closer, given the lines that follow the
declaration. -/
def bodyLength (following : List (List Char)) : Nat :=
  1 + linesToClose 0 following

/-- A function of a source. -/
structure FunctionRecord where
  name : String
  /-- The line of the declaration, counted from one. -/
  declarationLine : Nat
  parameterCount : Nat
  /-- The lines from the declaration to the closer, both counted. -/
  bodyLength : Nat
deriving Repr, DecidableEq

/-- The functions declared on some lines, the first of which has number `number`. -/
def functionsFrom (number : Nat) : List (List Char) → List FunctionRecord
  | [] => []
  | line :: rest =>
    match Declaration.ofLine? line with
    | some d =>
      ⟨String.ofList d.name, number, countParameters d.parameters, bodyLength rest⟩
        :: functionsFrom (number + 1) rest
    | none => functionsFrom (number + 1) rest

/-- The functions of a source, in the order of their declarations. -/
def scanFunctions (source : List Char) : List FunctionRecord :=
  functionsFrom 1 (lines source)

end MatlabQuality.Source
