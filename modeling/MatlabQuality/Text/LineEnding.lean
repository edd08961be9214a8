import MatlabQuality.Text.Utf8

/-!
# Line endings and source bytes

A source text uses line feeds only.  The bytes of a file become a source text by leaving out what
is malformed and by turning every other line ending into a line feed.

## Main definitions

* `unifyLineEndings` — one line feed for each line ending.
* `ofSourceBytes` — the source text of a file's bytes.
-/

namespace MatlabQuality.Text

/-- A text with one line feed for each carriage return and line feed pair, and for each carriage
return alone. -/
def unifyLineEndings : List Char → List Char
  | '\r' :: '\n' :: rest => '\n' :: unifyLineEndings rest
  | '\r' :: rest => '\n' :: unifyLineEndings rest
  | c :: rest => c :: unifyLineEndings rest
  | [] => []

/-- The source text of a file's bytes: malformed sequences are left out, line endings unified. -/
def ofSourceBytes (bytes : List UInt8) : List Char :=
  unifyLineEndings (Utf8.decodeDropping bytes)

/-- A unified text has no carriage return. -/
theorem carriageReturn_notMem_unifyLineEndings (cs : List Char) :
    '\r' ∉ unifyLineEndings cs := by
  fun_induction unifyLineEndings cs <;> simp_all [eq_comm]

end MatlabQuality.Text
