import MatlabQuality.Json.Reader

/-!
# Characters, strings and keys of TOML

Every reader here takes the characters that are left and returns what it read with what is left
after it.

## Main definitions

* `isBlank`, `skipBlanks`, `newline?`, `lineEnd?`, `skipLines` — what stands between values.
* `basicString?`, `literalString?` — strings on one line.
* `multilineBasic?`, `multilineLiteral?` — strings over several lines.
* `keyPath?` — a key, or several joined by dots.
-/

namespace MatlabQuality.Toml

/-! ## Blanks, comments and lines -/

/-- The blanks inside a line. -/
def isBlank (c : Char) : Bool :=
  c = ' ' || c = '\t'

/-- What is left after the blanks of a line. -/
def skipBlanks (cs : List Char) : List Char :=
  cs.dropWhile isBlank

/-- Whether a character may stand in a comment: no control but the tab. -/
def isPrintable (c : Char) : Bool :=
  c = '\t' || (0x20 ≤ c.toNat && c.toNat ≠ 0x7F)

/-- What is left after a line ending. -/
def newline? : List Char → Option (List Char)
  | '\n' :: rest => some rest
  | '\r' :: '\n' :: rest => some rest
  | _ => none

/-- What is left after a comment, if one stands here. -/
def skipComment : List Char → List Char
  | '#' :: rest => rest.dropWhile isPrintable
  | cs => cs

/-- What is left after the rest of a line: blanks, a comment, and the line ending or the end. -/
def lineEnd? (cs : List Char) : Option (List Char) :=
  match skipComment (skipBlanks cs) with
  | [] => some []
  | rest => newline? rest

/-- What is left after blanks, comments and line endings, in any number.  A comment has to end its
line. -/
def skipLines : Nat → List Char → List Char
  | 0, cs => cs
  | fuel + 1, cs =>
    match newline? (skipComment (skipBlanks cs)) with
    | some rest => skipLines fuel rest
    | none => skipBlanks cs

/-! ## Strings on one line -/

/-- The value of some hexadecimal digits. -/
def hexValue? (cs : List Char) : Option Nat :=
  cs.foldlM (fun value c => (Json.hexValue? c).map (16 * value + ·)) 0

/-- The character of a code point, unless it is a surrogate or too large. -/
def charOf? (n : Nat) : Option Char :=
  if n < 0xD800 || (0xDFFF < n && n < 0x110000) then some (Char.ofNat n) else none

/-- The character of an escape after its backslash. -/
def escape? : List Char → Option (Char × List Char)
  | 'b' :: rest => some ('\x08', rest)
  | 't' :: rest => some ('\t', rest)
  | 'n' :: rest => some ('\n', rest)
  | 'f' :: rest => some ('\x0c', rest)
  | 'r' :: rest => some ('\r', rest)
  | '"' :: rest => some ('"', rest)
  | '\\' :: rest => some ('\\', rest)
  | 'u' :: a :: b :: c :: d :: rest => do
    let code ← hexValue? [a, b, c, d]
    let char ← charOf? code
    return (char, rest)
  | 'U' :: a :: b :: c :: d :: e :: f :: g :: h :: rest => do
    let code ← hexValue? [a, b, c, d, e, f, g, h]
    let char ← charOf? code
    return (char, rest)
  | _ => none

/-- The text of a basic string after its opening quote. -/
def basicString? : Nat → List Char → Option (List Char × List Char)
  | 0, _ => none
  | fuel + 1, cs =>
    match cs with
    | [] => none
    | '"' :: rest => some ([], rest)
    | '\\' :: rest => do
      let (char, rest) ← escape? rest
      let (text, rest) ← basicString? fuel rest
      return (char :: text, rest)
    | c :: rest =>
      if isPrintable c then do
        let (text, rest) ← basicString? fuel rest
        return (c :: text, rest)
      else none

/-- The text of a literal string after its opening quote. -/
def literalString? (cs : List Char) : Option (List Char × List Char) :=
  match cs.dropWhile fun c => isPrintable c && c ≠ '\'' with
  | '\'' :: rest => some (cs.takeWhile fun c => isPrintable c && c ≠ '\'', rest)
  | _ => none

/-! ## Strings over several lines -/

/-- What is left after the first line ending of a string over several lines, which is no part of
it. -/
def skipFirstNewline (cs : List Char) : List Char :=
  (newline? cs).getD cs

/-- What is left after a backslash at the end of a line: all blanks and line endings that
follow. -/
def skipFold : Nat → List Char → List Char
  | 0, cs => cs
  | fuel + 1, cs =>
    match newline? (skipBlanks cs) with
    | some rest => skipFold fuel rest
    | none => skipBlanks cs

/-- The text of a string over several lines after its opening quotes.  One or two quotes are text;
so are one or two before the three that close the string. -/
def multiline? (quote : Char) (escapes : Bool) : Nat → List Char → Option (List Char × List Char)
  | 0, _ => none
  | fuel + 1, cs =>
    let quotes := cs.takeWhile (· = quote)
    match quotes.length with
    | 0 =>
      match newline? cs with
      | some rest => do
        let (text, rest) ← multiline? quote escapes fuel rest
        return ('\n' :: text, rest)
      | none =>
        match cs with
        | [] => none
        | c :: rest =>
          if c = '\\' && escapes then
            match newline? (skipBlanks rest) with
            | some rest => multiline? quote escapes fuel (skipFold fuel rest)
            | none => do
              let (char, rest) ← escape? rest
              let (text, rest) ← multiline? quote escapes fuel rest
              return (char :: text, rest)
          else if isPrintable c then do
            let (text, rest) ← multiline? quote escapes fuel rest
            return (c :: text, rest)
          else none
    | n + 1 =>
      if n + 1 < 3 then do
        let (text, rest) ← multiline? quote escapes fuel (cs.drop (n + 1))
        return (quotes ++ text, rest)
      else
        let kept := min (n + 1 - 3) 2
        some (List.replicate kept quote, cs.drop (kept + 3))

/-- The string a text starts with. -/
def string? (cs : List Char) : Option (List Char × List Char) :=
  match cs with
  | '"' :: '"' :: '"' :: rest => multiline? '"' true (cs.length + 1) (skipFirstNewline rest)
  | '\'' :: '\'' :: '\'' :: rest => multiline? '\'' false (cs.length + 1) (skipFirstNewline rest)
  | '"' :: rest => basicString? (cs.length + 1) rest
  | '\'' :: rest => literalString? rest
  | _ => none

/-! ## Keys -/

/-- The characters of a key without quotes. -/
def isKeyChar (c : Char) : Bool :=
  c.isAlphanum || c = '-' || c = '_'

/-- One key. -/
def key? (cs : List Char) : Option (String × List Char) :=
  match cs with
  | '"' :: rest => (basicString? (cs.length + 1) rest).map fun (k, rest) => (String.ofList k, rest)
  | '\'' :: rest => (literalString? rest).map fun (k, rest) => (String.ofList k, rest)
  | _ =>
    match cs.takeWhile isKeyChar with
    | [] => none
    | k => some (String.ofList k, cs.dropWhile isKeyChar)

/-- Keys joined by dots, with blanks around each. -/
def keyParts? : Nat → List Char → Option (List String × List Char)
  | 0, _ => none
  | fuel + 1, cs => do
    let (key, rest) ← key? (skipBlanks cs)
    match skipBlanks rest with
    | '.' :: rest =>
      let (keys, rest) ← keyParts? fuel rest
      return (key :: keys, rest)
    | rest => return ([key], rest)

/-- The first number of parts, and the first depth of values, that is too many. -/
def depthBound : Nat := 80

/-- A key, or several joined by dots. -/
def keyPath? (cs : List Char) : Option (List String × List Char) := do
  let (keys, rest) ← keyParts? (cs.length + 1) cs
  if keys.length < depthBound then return (keys, rest) else none

end MatlabQuality.Toml
