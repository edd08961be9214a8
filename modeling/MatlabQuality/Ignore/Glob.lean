import MatlabQuality.Text.Utf8

/-!
# Globs

A glob is a list of tokens that match the bytes of a path from end to end.  What a token matches is
given by the rests it can leave: the bytes after each beginning that it matches.

## Main definitions

* `Token`, `Glob` — what a glob is made of.
* `Glob.rests` — the bytes a glob can leave.
* `Glob.accepts` — whether a glob matches a path.
* `Glob.parse?` — the glob of a pattern.
-/

namespace MatlabQuality.Ignore

open MatlabQuality.Text

/-! ## Tokens -/

/-- A part of a glob. -/
inductive Token where
  | literal (c : Char)
  /-- One byte of a name. -/
  | any
  /-- Any bytes of a name. -/
  | anyInName
  /-- Nothing, or directories up to a slash. -/
  | leadingDirectories
  /-- A slash and all that follows. -/
  | everythingBelow
  /-- A slash, or directories between two slashes. -/
  | innerDirectories
  /-- One byte that is in some ranges, or in none of them. -/
  | oneOf (negated : Bool) (ranges : List (Char × Char))
  /-- One of several globs. -/
  | oneGlob (choices : List (List Token))

/-- A pattern for paths. -/
abbrev Glob := List Token

/-- The byte between the names of a path. -/
def slash : UInt8 := 0x2F

/-- The byte ranges of a range of characters.  The bytes of a character beyond ASCII stand for
themselves, and the range goes from the last byte of the first character to the first byte of the
last. -/
def byteRanges (range : Char × Char) : List (UInt8 × UInt8) :=
  if range.1 = range.2 then (Utf8.encode [range.1]).map fun b => (b, b)
  else
    let low := (Utf8.encode [range.1]).reverse
    let high := Utf8.encode [range.2]
    match low, high with
    | l :: lows, h :: highs => (l, h) :: (lows ++ highs).map fun b => (b, b)
    | _, _ => []

/-- Whether a byte is in one of some ranges of characters. -/
def inClass (ranges : List (Char × Char)) (b : UInt8) : Bool :=
  (ranges.flatMap byteRanges).any fun (low, high) => low ≤ b && b ≤ high

/-! ## Matching -/

/-- What is left after each beginning without a slash. -/
def restsInName : List UInt8 → List (List UInt8)
  | [] => [[]]
  | b :: rest => (b :: rest) :: if b = slash then [] else restsInName rest

/-- What is left after each slash. -/
def restsAfterSlashes : List UInt8 → List (List UInt8)
  | [] => []
  | b :: rest => if b = slash then rest :: restsAfterSlashes rest else restsAfterSlashes rest

/-- What is left after each beginning. -/
def allRests : List UInt8 → List (List UInt8)
  | [] => [[]]
  | b :: rest => (b :: rest) :: allRests rest

/-- What is left after some bytes. -/
def restAfter? : List UInt8 → List UInt8 → Option (List UInt8)
  | [], bytes => some bytes
  | _ :: _, [] => none
  | a :: as, b :: bytes => if a = b then restAfter? as bytes else none

mutual

/-- Whether a token has nothing to match: a choice among globs that all have nothing to match. -/
def Token.isVoid : Token → Bool
  | .oneGlob choices => allVoid choices
  | _ => false

/-- Whether no token of a glob has anything to match. -/
def Glob.isVoid : Glob → Bool
  | [] => true
  | token :: rest => token.isVoid && Glob.isVoid rest

/-- Whether no glob has anything to match. -/
def allVoid : List Glob → Bool
  | [] => true
  | g :: rest => Glob.isVoid g && allVoid rest

end

mutual

/-- What a token can leave. -/
def Token.rests : Token → List UInt8 → List (List UInt8)
  | .literal c, bytes => (restAfter? (Utf8.encode [c]) bytes).toList
  | .any, bytes =>
    match bytes with
    | b :: rest => if b = slash then [] else [rest]
    | [] => []
  | .anyInName, bytes => restsInName bytes
  | .leadingDirectories, bytes => bytes :: restsAfterSlashes bytes
  | .everythingBelow, bytes =>
    match bytes with
    | b :: rest => if b = slash then allRests rest else []
    | [] => []
  | .innerDirectories, bytes =>
    match bytes with
    | b :: rest => if b = slash then rest :: restsAfterSlashes rest else []
    | [] => []
  | .oneOf negated ranges, bytes =>
    match bytes with
    | b :: rest => if inClass ranges b != negated then [rest] else []
    | [] => []
  | .oneGlob choices, bytes =>
    if allVoid choices then [bytes] else restsOfChoices choices bytes

/-- What a glob can leave. -/
def Glob.rests : Glob → List UInt8 → List (List UInt8)
  | [], bytes => [bytes]
  | token :: rest, bytes =>
    ((Token.rests token bytes).flatMap (Glob.rests rest)).eraseDups

/-- What a choice among globs can leave.  Those that have nothing to match are no choice. -/
def restsOfChoices : List Glob → List UInt8 → List (List UInt8)
  | [], _ => []
  | g :: gs, bytes =>
    (if Glob.isVoid g then [] else Glob.rests g bytes) ++ restsOfChoices gs bytes

end

/-- Whether a glob matches the bytes of a path.  Leading directories alone match every path. -/
def Glob.accepts (g : Glob) (path : List UInt8) : Bool :=
  match g with
  | [.leadingDirectories] => true
  | g => (Glob.rests g path).contains []

/-! ## Parsing -/

/-- A choice while it is read: the globs before, and the tokens of the present one. -/
structure Frame where
  before : List Glob
  present : Glob

/-- What has been read: the innermost choice, and those around it.  The outermost is the pattern
itself. -/
structure Reading where
  inner : Frame
  outer : List Frame

namespace Reading

/-- Nothing has been read. -/
def empty : Reading := ⟨⟨[], []⟩, []⟩

/-- A token more. -/
def push (r : Reading) (token : Token) : Reading :=
  { r with inner := { r.inner with present := r.inner.present ++ [token] } }

/-- Another token in the place of the last one. -/
def replaceLast (r : Reading) (token : Token) : Reading :=
  { r with inner := { r.inner with present := r.inner.present.dropLast ++ [token] } }

/-- Whether a choice is open. -/
def inChoice (r : Reading) : Bool :=
  !r.outer.isEmpty

/-- A choice opened. -/
def openChoice (r : Reading) : Reading :=
  ⟨⟨[], []⟩, r.inner :: r.outer⟩

/-- The next glob of a choice begun. -/
def nextChoice (r : Reading) : Reading :=
  { r with inner := ⟨r.inner.before ++ [r.inner.present], []⟩ }

/-- The innermost choice closed. -/
def closeChoice? (r : Reading) : Option Reading :=
  match r.outer with
  | [] => none
  | frame :: outer =>
    some (Reading.push ⟨frame, outer⟩ (.oneGlob (r.inner.before ++ [r.inner.present])))

end Reading

/-- The outcome of reading a class. -/
inductive ClassReading where
  | closed (ranges : List (Char × Char)) (rest : List Char)
  /-- There is no closing bracket. -/
  | unclosed
  /-- A range ends before it starts. -/
  | disordered

/-- The ranges of a class after its opening bracket and negation.  A bracket or a dash that comes
first, and a dash that comes last, stand for themselves. -/
def readClass (ranges : List (Char × Char)) (first inRange : Bool) : List Char → ClassReading
  | [] => .unclosed
  | c :: rest =>
    if c = ']' && !first then
      .closed (if inRange then ranges ++ [('-', '-')] else ranges) rest
    else if c = '-' && !first && !inRange then readClass ranges false true rest
    else if inRange then
      match ranges.getLast? with
      | some (low, _) =>
        if c < low then .disordered
        else readClass (ranges.dropLast ++ [(low, c)]) false false rest
      | none => .unclosed
    else readClass (ranges ++ [(c, c)]) false false rest

/-- Two stars, and what follows them.  Between slashes or ends of a glob they stand for
directories, and elsewhere for the bytes of a name.  The character before them decides, and the
result says which character was read last. -/
def readStars (r : Reading) (before : Option Char) (rest : List Char) :
    Reading × Char × List Char :=
  let names := ((r.push .anyInName).push .anyInName, '*', rest)
  if r.inner.present.isEmpty then
    match rest with
    | [] => (r.push .leadingDirectories, '*', [])
    | '/' :: rest => (r.push .leadingDirectories, '/', rest)
    | _ => names
  else if before ≠ some '/' && !(r.inChoice && (before = some ',' || before = some '\x7b')) then
    names
  else
    let directories := fun (token : Token) =>
      match r.inner.present.getLast? with
      | some .leadingDirectories => r
      | some .everythingBelow => r
      | _ => r.replaceLast token
    match rest with
    | [] => (directories .everythingBelow, '*', [])
    | '/' :: rest => (directories .innerDirectories, '/', rest)
    | c :: _ =>
      if r.inChoice && (c = ',' || c = '\x7d') then (directories .everythingBelow, '*', rest)
      else names

/-- The reading of a pattern.  `before` is the character read last, and `brackets` says whether
brackets still open classes: once one is not closed, they all stand for themselves. -/
def readPattern (r : Reading) (before : Option Char) (brackets : Bool) :
    Nat → List Char → Option Reading
  | _, [] => some r
  | 0, _ :: _ => none
  | fuel + 1, c :: rest =>
    let go := fun (r : Reading) => readPattern r (some c) brackets fuel
    if c = '?' then go (r.push .any) rest
    else if c = '*' then
      match rest with
      | '*' :: rest =>
        let (r, last, rest) := readStars r before rest
        readPattern r (some last) brackets fuel rest
      | _ => go (r.push .anyInName) rest
    else if c = '[' && brackets then
      let negated := rest.head? = some '!' || rest.head? = some '^'
      match readClass [] true false (if negated then rest.drop 1 else rest) with
      | .closed ranges rest =>
        readPattern (r.push (.oneOf negated ranges)) (some ']') brackets fuel rest
      | .unclosed => readPattern (r.push (.literal c)) (some c) false fuel rest
      | .disordered => none
    else if c = '\x7b' then go r.openChoice rest
    else if c = '\x7d' then
      match r.closeChoice? with
      | some r => go r rest
      | none => none
    else if c = ',' && r.inChoice then go r.nextChoice rest
    else if c = '\\' then
      match rest with
      | [] => none
      | e :: rest => readPattern (r.push (.literal e)) (some e) brackets fuel rest
    else go (r.push (.literal c)) rest

/-- The glob of a pattern, unless a choice is not closed or not opened, a range is out of order,
or nothing follows a backslash. -/
def Glob.parse? (pattern : List Char) : Option Glob :=
  match readPattern .empty none true (pattern.length + 1) pattern with
  | some r => if r.inChoice then none else some r.inner.present
  | none => none

end MatlabQuality.Ignore
