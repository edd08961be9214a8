import MatlabQuality.Json.Value

/-!
# Writing JSON

A value is written over several lines, each level indented by two spaces; an empty array or object
stays on one line.

## Main definitions

* `writeString` — a string literal.
* `Value.write` — a value at a level of indentation.
* `Value.pretty` — a value as a text.
-/

namespace MatlabQuality.Json

/-- A hexadecimal digit, in lower case. -/
def hexDigit (n : Nat) : Char :=
  if n < 10 then Char.ofNat ('0'.toNat + n) else Char.ofNat ('a'.toNat + (n - 10))

/-- A character inside a string literal: quotes, backslashes and controls are escaped. -/
def escapeChar (c : Char) : List Char :=
  if c = '"' then ['\\', '"']
  else if c = '\\' then ['\\', '\\']
  else if c.toNat = 0x08 then ['\\', 'b']
  else if c.toNat = 0x09 then ['\\', 't']
  else if c.toNat = 0x0A then ['\\', 'n']
  else if c.toNat = 0x0C then ['\\', 'f']
  else if c.toNat = 0x0D then ['\\', 'r']
  else if c.toNat < 0x20 then
    ['\\', 'u', '0', '0', hexDigit (c.toNat / 16), hexDigit (c.toNat % 16)]
  else [c]

/-- The string literal of a text. -/
def writeString (cs : List Char) : List Char :=
  '"' :: cs.flatMap escapeChar ++ ['"']

/-- A string literal; half a surrogate pair cannot be written and leaves an empty text. -/
def writeStringLiteral (s : StringLiteral) : List Char :=
  writeString (s.getD "").toList

/-- A new line at a level of indentation. -/
def newLine (level : Nat) : List Char :=
  '\n' :: List.replicate (2 * level) ' '

mutual

/-- A value at a level of indentation. -/
def Value.write (level : Nat) : Value → List Char
  | .null => "null".toList
  | .bool true => "true".toList
  | .bool false => "false".toList
  | .number n => n.chars
  | .string s => writeStringLiteral s
  | .array [] => "[]".toList
  | .array (v :: vs) =>
    '[' :: newLine (level + 1) ++ v.write (level + 1) ++ writeElements level vs
  | .object [] => "\x7b\x7d".toList
  | .object ((key, v) :: ms) =>
    '\x7b' :: newLine (level + 1) ++ writeStringLiteral key ++ [':', ' '] ++ v.write (level + 1)
      ++ writeMembers level ms

/-- The elements of an array after its first, and the closing bracket. -/
def writeElements (level : Nat) : List Value → List Char
  | [] => newLine level ++ [']']
  | v :: vs => ',' :: newLine (level + 1) ++ v.write (level + 1) ++ writeElements level vs

/-- The members of an object after its first, and the closing brace. -/
def writeMembers (level : Nat) : List (StringLiteral × Value) → List Char
  | [] => newLine level ++ ['\x7d']
  | (key, v) :: ms =>
    ',' :: newLine (level + 1) ++ writeStringLiteral key ++ [':', ' '] ++ v.write (level + 1)
      ++ writeMembers level ms

end

/-- A value as a text. -/
def Value.pretty (v : Value) : String :=
  String.ofList (v.write 0)

end MatlabQuality.Json
