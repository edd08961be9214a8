import MatlabQuality.Number.Binary64
import MatlabQuality.Report.Timestamp
import MatlabQuality.Toml.Lexical

/-!
# Values of TOML

## Main definitions

* `Value` — a value.
* `integer?`, `float?`, `dateTime?` — the numbers and dates a text starts with.
-/

namespace MatlabQuality.Toml

open MatlabQuality.Number

/-- A value. -/
inductive Value where
  | string (s : String)
  | integer (i : Int)
  | float (x : Binary64)
  | boolean (b : Bool)
  /-- A date, a time or both, as written. -/
  | dateTime (written : String)
  | array (elements : List Value)
  /-- A table on one line: its keys and their values. -/
  | table (members : List (List String × Value))

/-! ## Integers -/

/-- The further digits of a number, without the single underscores between digits. -/
def moreDigits (isDigit : Char → Bool) : List Char → List Char × List Char
  | '_' :: c :: rest =>
    if isDigit c then
      let (digits, left) := moreDigits isDigit rest
      (c :: digits, left)
    else ([], '_' :: c :: rest)
  | c :: rest =>
    if isDigit c then
      let (digits, left) := moreDigits isDigit rest
      (c :: digits, left)
    else ([], c :: rest)
  | [] => ([], [])

/-- At least one digit. -/
def digits? (isDigit : Char → Bool) : List Char → Option (List Char × List Char)
  | c :: rest =>
    if isDigit c then
      let (digits, left) := moreDigits isDigit rest
      some (c :: digits, left)
    else none
  | [] => none

/-- A sign, if one stands here: whether it is a minus. -/
def sign : List Char → Bool × List Char
  | '+' :: rest => (false, rest)
  | '-' :: rest => (true, rest)
  | cs => (false, cs)

/-- The digits of a decimal integer: a zero stands alone. -/
def wholeDigits? : List Char → Option (List Char × List Char)
  | '0' :: rest => some (['0'], rest)
  | cs => digits? isAsciiDigit cs

/-- An integer, if it fits 64 bits with a sign. -/
def fitting? (i : Int) : Option Int :=
  if -(Nat.pow 2 63 : Int) ≤ i ∧ i < (Nat.pow 2 63 : Int) then some i else none

/-- The value of digits in a base. -/
def inBase? (base : Nat) (digits : List Char) : Option Nat :=
  digits.foldlM (fun value c => (Json.hexValue? c).map (base * value + ·)) 0

/-- An integer in a base, after its mark. -/
def basedInteger? (base : Nat) (isDigit : Char → Bool) (cs : List Char) :
    Option (Int × List Char) := do
  let (digits, rest) ← digits? isDigit cs
  let n ← inBase? base digits
  let i ← fitting? n
  return (i, rest)

/-- Whether a character is a hexadecimal digit. -/
def isHexDigit (c : Char) : Bool :=
  (Json.hexValue? c).isSome

/-- The integer a text starts with.  Only a decimal integer has a sign. -/
def integer? : List Char → Option (Int × List Char)
  | '0' :: 'x' :: rest => basedInteger? 16 isHexDigit rest
  | '0' :: 'o' :: rest => basedInteger? 8 (fun c => '0' ≤ c && c ≤ '7') rest
  | '0' :: 'b' :: rest => basedInteger? 2 (fun c => c = '0' || c = '1') rest
  | cs => do
    let (negative, rest) := sign cs
    let (digits, rest) ← wholeDigits? rest
    let n := ofDigits digits
    let i ← fitting? (if negative then -(n : Int) else n)
    return (i, rest)

/-! ## Floats -/

/-- The exponent of a float, if one stands here. -/
def exponent? : List Char → Option (Int × List Char)
  | c :: rest =>
    if c = 'e' || c = 'E' then do
      let (negative, rest) := sign rest
      let (digits, rest) ← digits? isAsciiDigit rest
      let n := ofDigits digits
      return (if negative then -(n : Int) else n, rest)
    else none
  | [] => none

/-- The digits after the point of a float. -/
def fraction? : List Char → Option (List Char × List Char)
  | '.' :: rest => digits? isAsciiDigit rest
  | _ => none

/-- The float of its parts.  A positive number too large to be finite is refused. -/
def floatOf? (negative : Bool) (whole fraction : List Char) (exponent : Int) : Option Binary64 :=
  let x := Binary64.ofDecimal negative (ofDigits (whole ++ fraction)) (exponent - fraction.length)
  if x = .infinite false then none else some x

/-- A float that is written in words. -/
def specialFloat? (cs : List Char) : Option (Binary64 × List Char) :=
  let (negative, rest) := sign cs
  match rest with
  | 'i' :: 'n' :: 'f' :: rest => some (.infinite negative, rest)
  | 'n' :: 'a' :: 'n' :: rest => some (.nan, rest)
  | _ => none

/-- A float in digits: with an exponent, or with a fraction and perhaps an exponent. -/
def digitFloat? (cs : List Char) : Option (Binary64 × List Char) := do
  let (negative, rest) := sign cs
  let (whole, rest) ← wholeDigits? rest
  match fraction? rest with
  | some (fraction, rest) =>
    let (e, rest) := (exponent? rest).getD (0, rest)
    let x ← floatOf? negative whole fraction e
    return (x, rest)
  | none =>
    let (e, rest) ← exponent? rest
    let x ← floatOf? negative whole [] e
    return (x, rest)

/-- The float a text starts with. -/
def float? (cs : List Char) : Option (Binary64 × List Char) :=
  (digitFloat? cs).or (specialFloat? cs)

/-! ## Dates and times -/

/-- What is left after a day of the calendar. -/
def skipDate? (cs : List Char) : Option (List Char) := do
  let (year, rest) ← Timestamp.readFour? cs
  let rest ← Timestamp.readOneOf? ['-'] rest
  let (month, rest) ← Timestamp.readTwo? rest
  let rest ← Timestamp.readOneOf? ['-'] rest
  let (day, rest) ← Timestamp.readTwo? rest
  if 1 ≤ month && month ≤ 12 && 1 ≤ day && day ≤ Timestamp.daysIn year month then return rest
  else none

/-- What is left after a time of day. -/
def skipTime? (cs : List Char) : Option (List Char) := do
  let (hour, rest) ← Timestamp.readTwo? cs
  let rest ← Timestamp.readOneOf? [':'] rest
  let (minute, rest) ← Timestamp.readTwo? rest
  let rest ← Timestamp.readOneOf? [':'] rest
  let (second, rest) ← Timestamp.readTwo? rest
  let rest := (Timestamp.skipFraction? rest).getD rest
  if hour ≤ 23 && minute ≤ 59 && second ≤ 60 then return rest else none

/-- What is left after an offset from universal time. -/
def skipOffset? (cs : List Char) : Option (List Char) :=
  match cs with
  | '\u2212' :: _ => none
  | _ => (Timestamp.readOffset? cs).map (·.2)

/-- What is left after a time of day that follows a date. -/
def skipTimeOfDate? (cs : List Char) : Option (List Char) := do
  let rest ← Timestamp.readOneOf? ['T', 't', ' '] cs
  let rest ← skipTime? rest
  return (skipOffset? rest).getD rest

/-- What is left after a date, a time, or a date with a time and perhaps an offset. -/
def skipDateTime? (cs : List Char) : Option (List Char) :=
  match skipDate? cs with
  | some rest => some ((skipTimeOfDate? rest).getD rest)
  | none => skipTime? cs

/-- The date and time a text starts with. -/
def dateTime? (cs : List Char) : Option (String × List Char) :=
  (skipDateTime? cs).map fun rest => (String.ofList (cs.take (cs.length - rest.length)), rest)

end MatlabQuality.Toml
