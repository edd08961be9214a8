import MatlabQuality.Number.Digits

/-!
# Timestamps

A timestamp is a local date and time, to the second, with its offset from universal time.  The
instant that it names is the local time less the offset, and is not held apart from them.

## Main definitions

* `Timestamp` — the fields of a timestamp.
* `Timestamp.ofSeconds` — the timestamp of a clock.
* `Timestamp.read?` — a timestamp from its written form, in which a fraction of a second may stand.
* `Timestamp.write` — the written form.
* `Timestamp.prose` — the month by its name and the twelve-hour clock.
-/

namespace MatlabQuality

open MatlabQuality.Number

/-- A local date and time with its offset from universal time.  Instead of the local time the
instant could be held: with the offset each of them gives the other. -/
structure Timestamp where
  year : Nat
  month : Nat
  day : Nat
  hour : Nat
  minute : Nat
  /-- The second, sixty for a leap second. -/
  second : Nat
  /-- The offset from universal time, in minutes. -/
  offset : Int
deriving Repr, DecidableEq

namespace Timestamp

/-- Whether a year has a day more than the others. -/
def isLeapYear (year : Nat) : Bool :=
  year % 4 = 0 && (year % 100 ≠ 0 || year % 400 = 0)

/-- The days of a month. -/
def daysIn (year month : Nat) : Nat :=
  match month with
  | 2 => if isLeapYear year then 29 else 28
  | 4 | 6 | 9 | 11 => 30
  | _ => 31

/-! ## Clocks -/

/-- The date of a day, as year, month and day.  Days are counted from the first of January 1970;
years are taken to start in March, so that the day that only leap years have comes last. -/
def dateOfDay (day : Nat) : Nat × Nat × Nat :=
  let days := day + 719468
  let inEra := days % 146097
  let yearOfEra := (inEra - inEra / 1460 + inEra / 36524 - inEra / 146096) / 365
  let inYear := inEra - (365 * yearOfEra + yearOfEra / 4 - yearOfEra / 100)
  let index := (5 * inYear + 2) / 153
  let month := if index < 10 then index + 3 else index - 9
  let year := yearOfEra + days / 146097 * 400
  (if month ≤ 2 then year + 1 else year, month, inYear - (153 * index + 2) / 5 + 1)

/-- The timestamp, in universal time, of a number of seconds since the start of 1970. -/
def ofSeconds (seconds : Nat) : Timestamp :=
  let (year, month, day) := dateOfDay (seconds / 86400)
  let inDay := seconds % 86400
  ⟨year, month, day, inDay / 3600, inDay / 60 % 60, inDay % 60, 0⟩

/-! ## Reading -/

/-- A number of exactly two digits, and what follows it. -/
def readTwo? : List Char → Option (Nat × List Char)
  | a :: b :: rest =>
    if isAsciiDigit a && isAsciiDigit b then some (ofDigits [a, b], rest) else none
  | _ => none

/-- A number of exactly four digits, and what follows it. -/
def readFour? : List Char → Option (Nat × List Char)
  | a :: b :: c :: d :: rest =>
    if [a, b, c, d].all isAsciiDigit then some (ofDigits [a, b, c, d], rest) else none
  | _ => none

/-- One of some characters, and what follows it. -/
def readOneOf? (choices : List Char) : List Char → Option (List Char)
  | c :: rest => if choices.contains c then some rest else none
  | [] => none

/-- What follows a fraction of a second, if one stands here; it has at least one digit. -/
def skipFraction? : List Char → Option (List Char)
  | '.' :: rest =>
    match rest with
    | c :: more => if isAsciiDigit c then some (more.dropWhile isAsciiDigit) else none
    | [] => none
  | cs => some cs

/-- Hours and minutes of an offset, in minutes.  An offset is less than a day. -/
def readOffsetSize? (cs : List Char) : Option (Nat × List Char) := do
  let (hours, rest) ← readTwo? cs
  let rest ← readOneOf? [':'] rest
  let (minutes, rest) ← readTwo? rest
  if hours ≤ 23 && minutes ≤ 59 then return (60 * hours + minutes, rest) else none

/-- An offset: the letter of universal time, or a signed size.  The minus sign has two forms. -/
def readOffset? : List Char → Option (Int × List Char)
  | c :: rest =>
    if c = 'Z' || c = 'z' then some (0, rest)
    else if c = '+' then (readOffsetSize? rest).map fun (m, rest) => ((m : Int), rest)
    else if c = '-' || c = '\u2212' then
      (readOffsetSize? rest).map fun (m, rest) => (-(m : Int), rest)
    else none
  | [] => none

/-- Whether the fields of a timestamp name a day and a time. -/
def isValid (t : Timestamp) : Bool :=
  1 ≤ t.month && t.month ≤ 12 && 1 ≤ t.day && t.day ≤ daysIn t.year t.month
    && t.hour ≤ 23 && t.minute ≤ 59 && t.second ≤ 60

/-- The timestamp of a text. -/
def read? (cs : List Char) : Option Timestamp := do
  let (year, rest) ← readFour? cs
  let rest ← readOneOf? ['-'] rest
  let (month, rest) ← readTwo? rest
  let rest ← readOneOf? ['-'] rest
  let (day, rest) ← readTwo? rest
  let rest ← readOneOf? ['T', 't', ' '] rest
  let (hour, rest) ← readTwo? rest
  let rest ← readOneOf? [':'] rest
  let (minute, rest) ← readTwo? rest
  let rest ← readOneOf? [':'] rest
  let (second, rest) ← readTwo? rest
  let rest ← skipFraction? rest
  let (offset, rest) ← readOffset? rest
  let t : Timestamp := ⟨year, month, day, hour, minute, second, offset⟩
  if rest.isEmpty && t.isValid then return t else none

/-! ## Writing -/

/-- A number below a hundred in two digits. -/
def twoDigits (n : Nat) : List Char :=
  [digitChar (n / 10 % 10), digitChar (n % 10)]

/-- A number below ten thousand in four digits. -/
def fourDigits (n : Nat) : List Char :=
  twoDigits (n / 100) ++ twoDigits (n % 100)

/-- The written form of a timestamp; universal time has a positive offset of nought. -/
def writeChars (t : Timestamp) : List Char :=
  fourDigits t.year ++ ['-'] ++ twoDigits t.month ++ ['-'] ++ twoDigits t.day ++ ['T']
    ++ twoDigits t.hour ++ [':'] ++ twoDigits t.minute ++ [':'] ++ twoDigits t.second
    ++ [if t.offset < 0 then '-' else '+'] ++ twoDigits (t.offset.natAbs / 60) ++ [':']
    ++ twoDigits (t.offset.natAbs % 60)

/-- The written form of a timestamp. -/
def write (t : Timestamp) : String :=
  String.ofList t.writeChars

/-- The name of a month. -/
def monthName : Nat → String
  | 1 => "January"
  | 2 => "February"
  | 3 => "March"
  | 4 => "April"
  | 5 => "May"
  | 6 => "June"
  | 7 => "July"
  | 8 => "August"
  | 9 => "September"
  | 10 => "October"
  | 11 => "November"
  | _ => "December"

/-- An hour on the twelve-hour clock. -/
def clockHour (hour : Nat) : Nat :=
  if hour % 12 = 0 then 12 else hour % 12

/-- The month by its name, and the time on the twelve-hour clock. -/
def prose (t : Timestamp) : String :=
  monthName t.month ++ " " ++ String.ofList (twoDigits t.day) ++ ", "
    ++ String.ofList (fourDigits t.year) ++ " at " ++ String.ofList (twoDigits (clockHour t.hour))
    ++ ":" ++ String.ofList (twoDigits t.minute) ++ (if t.hour < 12 then " AM" else " PM")

end Timestamp

end MatlabQuality
