import MatlabQuality.Json.Number

/-!
# JSON values

## Main definitions

* `Value` — a JSON value, with the members of an object in the order they are written.
* `Value.ofBinary64` — the value of a number; infinities and not-a-number have none but null.
-/

namespace MatlabQuality.Json

open MatlabQuality.Number

/-- The text of a string literal; none when an escape names half of a surrogate pair, which is well
formed and stands for no text. -/
abbrev StringLiteral := Option String

/-- A JSON value. -/
inductive Value where
  | null
  | bool (b : Bool)
  | number (n : Numeral)
  | string (s : StringLiteral)
  | array (elements : List Value)
  /-- The members in the order they are written; a key may occur more than once. -/
  | object (members : List (StringLiteral × Value))

namespace Value

/-- The value of a text. -/
def ofString (s : String) : Value :=
  .string (some s)

/-- The value of a count. -/
def ofNat (n : Nat) : Value :=
  .number (.ofNat n)

/-- The value of a number. -/
def ofBinary64 : Binary64 → Value
  | .finite negative a => .number (.ofMagnitude negative a)
  | _ => .null

/-- An object from named members. -/
def record (members : List (String × Value)) : Value :=
  .object (members.map fun (key, value) => (some key, value))

end Value

end MatlabQuality.Json
