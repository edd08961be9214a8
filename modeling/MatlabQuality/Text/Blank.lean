/-!
# Blank characters

A character is blank when it has the White_Space property.  Trimming a text removes the blanks at
its two ends and nothing in between.

## Main definitions

* `isBlank` — the twenty-five blank characters.
* `trimStart`, `trimEnd`, `trim` — a text without the blanks at its ends.
-/

namespace MatlabQuality.Text

/-- Characters with the White_Space property: five controls, the space, and the spaces and line
separators beyond ASCII.  Zero-width characters and the byte order mark are not blank. -/
def isBlank (c : Char) : Bool :=
  let n := c.toNat
  (9 ≤ n && n ≤ 13) || n == 0x20 || n == 0x85 || n == 0xA0 || n == 0x1680
    || (0x2000 ≤ n && n ≤ 0x200A) || n == 0x2028 || n == 0x2029 || n == 0x202F
    || n == 0x205F || n == 0x3000

/-- The text from its first character that is not blank. -/
def trimStart (cs : List Char) : List Char :=
  cs.dropWhile isBlank

/-- The text up to its last character that is not blank. -/
def trimEnd (cs : List Char) : List Char :=
  (cs.reverse.dropWhile isBlank).reverse

/-- The text without blanks at either end. -/
def trim (cs : List Char) : List Char :=
  trimEnd (trimStart cs)

/-- Whether a text has nothing but blanks. -/
def isAllBlank (cs : List Char) : Bool :=
  cs.all isBlank

@[simp] theorem trim_nil : trim [] = [] := rfl

/-- A line feed is blank, so it never survives at an end. -/
theorem isBlank_lineFeed : isBlank '\n' = true := by decide

end MatlabQuality.Text
