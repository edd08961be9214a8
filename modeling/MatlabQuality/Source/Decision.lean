import MatlabQuality.Text.Split
import MatlabQuality.Text.Word

/-!
# Decisions

The cyclomatic complexity of a source is one more than its decision words and short-circuit
operators, wherever they stand.

## Main definitions

* `foldCase` — the simple case folding of the letters that decision words have.
* `cyclomaticComplexity` — one, plus the decisions of a source.
-/

namespace MatlabQuality.Source

open MatlabQuality.Text

/-- The words that decide, in lower case. -/
def decisionWords : List (List Char) :=
  ["if".toList, "elseif".toList, "while".toList, "for".toList, "case".toList, "catch".toList]

/-- Simple case folding, as far as it can yield an ASCII letter: the ASCII capitals, the long s
and the Kelvin sign.  Every other character folds to something no decision word holds. -/
def foldCase (c : Char) : Char :=
  if 'A' ≤ c && c ≤ 'Z' then Char.ofNat (c.toNat + 32)
  else if c = '\u017F' then 's'
  else if c = '\u212A' then 'k'
  else c

/-- Whether a word decides, in any case of its letters. -/
def isDecisionWord (word : List Char) : Bool :=
  decisionWords.contains (word.map foldCase)

/-- One, plus the decision words and the disjoint short-circuit operators of a source. -/
def cyclomaticComplexity (source : List Char) : Nat :=
  1 + (wordRuns source).countP isDecisionWord + (pairs '&' source + pairs '|' source)

end MatlabQuality.Source
