import MatlabQuality.Text.Blank
import MatlabQuality.Text.Split

/-!
# Kinds of lines

Every physical line of a source is blank, a comment, or code.

## Main definitions

* `LineKind`, `LineKind.ofLine` — the kind of a line.
* `LineCounts`, `countLines` — how many lines of each kind a source has.
-/

namespace MatlabQuality.Source

open MatlabQuality.Text

/-- The kind of a physical line. -/
inductive LineKind where
  /-- Anything that is neither a comment nor blank. -/
  | code
  /-- The first character that is not blank is the comment sign. -/
  | comment
  /-- Nothing but blanks. -/
  | blank
deriving Repr, DecidableEq

/-- The sign that starts a comment. -/
def commentSign : Char := '%'

/-- The kind of a line, read off its first character that is not blank. -/
def LineKind.ofLine (line : List Char) : LineKind :=
  match trim line with
  | [] => .blank
  | c :: _ => if c = commentSign then .comment else .code

/-- How many lines of each kind a source has. -/
structure LineCounts where
  code : Nat
  comment : Nat
  blank : Nat
deriving Repr, DecidableEq

/-- The kinds of the physical lines of a source, in order. -/
def lineKinds (source : List Char) : List LineKind :=
  (lines source).map LineKind.ofLine

/-- How many physical lines of each kind a source has. -/
def countLines (source : List Char) : LineCounts :=
  let kinds := lineKinds source
  ⟨kinds.count .code, kinds.count .comment, kinds.count .blank⟩

/-- All lines of a source. -/
def LineCounts.total (counts : LineCounts) : Nat :=
  counts.code + counts.comment + counts.blank

end MatlabQuality.Source
