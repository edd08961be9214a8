/-!
# Letter case

Lower-casing as far as the names of this library need it: they are ASCII, and outside ASCII only
the Kelvin sign lower-cases to an ASCII letter.

## Main definitions

* `lowerAscii` — a character in lower case, if that is an ASCII letter.
* `equalsIgnoringCase` — equality with a name, up to the case of ASCII letters alone.
-/

namespace MatlabQuality.Text

/-- A character in lower case, wherever that is an ASCII letter. -/
def lowerAscii (c : Char) : Char :=
  if 'A' ≤ c && c ≤ 'Z' then Char.ofNat (c.toNat + 32)
  else if c = '\u212A' then 'k'
  else c

/-- A name in lower case. -/
def lowered (s : String) : String :=
  String.ofList (s.toList.map lowerAscii)

/-- Whether two texts agree up to the case of ASCII letters. -/
def equalsIgnoringCase (cs ds : List Char) : Bool :=
  cs.map Char.toLower == ds.map Char.toLower

end MatlabQuality.Text
