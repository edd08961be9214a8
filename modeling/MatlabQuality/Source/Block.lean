import MatlabQuality.Text.Blank
import MatlabQuality.Text.Split
import MatlabQuality.Text.Word

/-!
# Blocks

A line opens a block when its first word is one of six keywords, and closes one when `end` is all
it holds.  Nothing is known of strings, comments or continued lines: a line is judged alone.

## Main definitions

* `opensBlock`, `closesBlock` — openers and closers.
* `nestingStep`, `maxNesting` — how deep a source nests its blocks.
-/

namespace MatlabQuality.Source

open MatlabQuality.Text

/-- The words that open a block at the start of a line. -/
def openingWords : List (List Char) :=
  ["if".toList, "for".toList, "while".toList, "switch".toList, "try".toList, "function".toList]

/-- The text of a line that closes a block. -/
def closingText : List Char :=
  "end".toList

/-- The longest run of word characters a text starts with. -/
def leadingWord (cs : List Char) : List Char :=
  cs.takeWhile isWord

/-- A line opens a block when its first word is an opening word. -/
def opensBlock (line : List Char) : Bool :=
  openingWords.contains (leadingWord (trim line))

/-- A line closes a block when it holds the closing word and nothing else. -/
def closesBlock (line : List Char) : Bool :=
  trim line == closingText

/-- The depth and the greatest depth so far, one line further.  A closer without an opener leaves
the depth at zero. -/
def nestingStep (state : Nat × Nat) (line : List Char) : Nat × Nat :=
  if opensBlock line then (state.1 + 1, max state.2 (state.1 + 1))
  else if closesBlock line then (state.1 - 1, state.2)
  else state

/-- The greatest depth of blocks in a source.  A function counts as a block. -/
def maxNesting (source : List Char) : Nat :=
  ((lines source).foldl nestingStep (0, 0)).2

end MatlabQuality.Source
