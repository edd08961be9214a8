/-!
# UTF-8

Bytes are read as a list of pieces: a piece is a character, or a maximal malformed sequence that
starts no character.  The two ways of reading bytes differ only in what they make of malformed
pieces.

## Main definitions

* `pieces` — the characters and malformed sequences of some bytes.
* `decode?` — the text, if nothing is malformed.
* `decodeDropping` — the text of the characters alone.
* `encode` — the bytes of a text.
-/

namespace MatlabQuality.Text.Utf8

/-- Whether a byte continues a sequence. -/
def isContinuation (b : UInt8) : Bool :=
  0x80 ≤ b && b ≤ 0xBF

/-- How many bytes a sequence has after its second one, and the least and greatest second byte,
for a byte that starts a sequence of more than one byte.  The bounds exclude overlong forms,
surrogates and values past the last code point. -/
def leadInfo (b : UInt8) : Option (Nat × UInt8 × UInt8) :=
  if 0xC2 ≤ b && b ≤ 0xDF then some (0, 0x80, 0xBF)
  else if b == 0xE0 then some (1, 0xA0, 0xBF)
  else if b == 0xED then some (1, 0x80, 0x9F)
  else if 0xE1 ≤ b && b ≤ 0xEF then some (1, 0x80, 0xBF)
  else if b == 0xF0 then some (2, 0x90, 0xBF)
  else if b == 0xF4 then some (2, 0x80, 0x8F)
  else if 0xF1 ≤ b && b ≤ 0xF3 then some (2, 0x80, 0xBF)
  else none

/-- The value of the low `bits` bits of a byte. -/
def low (bits : Nat) (b : UInt8) : Nat :=
  b.toNat % Nat.pow 2 bits

/-- The pieces of some bytes, `none` for each maximal malformed sequence: a byte that starts no
sequence, or the longest proper beginning of one. -/
def pieces : List UInt8 → List (Option Char)
  | [] => []
  | a :: rest =>
    if a < 0x80 then some (Char.ofNat a.toNat) :: pieces rest
    else
      match leadInfo a with
      | none => none :: pieces rest
      | some (more, least, greatest) =>
        match rest with
        | [] => [none]
        | b :: rest =>
          if least ≤ b && b ≤ greatest then
            match more, rest with
            | 0, rest => some (Char.ofNat (low 5 a * 64 + low 6 b)) :: pieces rest
            | _ + 1, [] => [none]
            | more + 1, c :: rest =>
              if isContinuation c then
                match more, rest with
                | 0, rest =>
                  some (Char.ofNat ((low 4 a * 64 + low 6 b) * 64 + low 6 c)) :: pieces rest
                | _ + 1, [] => [none]
                | _ + 1, d :: rest =>
                  if isContinuation d then
                    some (Char.ofNat (((low 3 a * 64 + low 6 b) * 64 + low 6 c) * 64 + low 6 d))
                      :: pieces rest
                  else none :: pieces (d :: rest)
              else none :: pieces (c :: rest)
          else none :: pieces (b :: rest)

/-- The text of some bytes, if they are well formed. -/
def decode? (bytes : List UInt8) : Option (List Char) :=
  (pieces bytes).mapM id

/-- The text of the well-formed sequences of some bytes. -/
def decodeDropping (bytes : List UInt8) : List Char :=
  (pieces bytes).filterMap id

/-- The bytes of a text. -/
def encode (cs : List Char) : List UInt8 :=
  cs.flatMap String.utf8EncodeChar

@[simp] theorem encode_nil : encode [] = [] := rfl

@[simp] theorem encode_append (cs ds : List Char) : encode (cs ++ ds) = encode cs ++ encode ds := by
  simp [encode]

end MatlabQuality.Text.Utf8
