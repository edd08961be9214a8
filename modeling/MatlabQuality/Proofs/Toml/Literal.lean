import MatlabQuality.Proofs.Number.Recovery
import MatlabQuality.Toml.Reader

/-!
# Number literals of TOML

A literal is read up to whatever cannot be a part of it.  What starts with digits is neither text
nor a date, and a point or an exponent tells a float from a whole number, so one literal has one
reading.

## Main definitions

* `EndsValue` — what can follow a value on its line.
* `Literal` — a whole number, or digits with a point or an exponent.
* `Literal.chars`, `Literal.value?` — how a literal is written, and what it stands for.

## Main statements

* `dateTime?_eq_none` — digits without the marks of a date or a time are none.
* `digitFloat?_append`, `integer?_append` — a point or an exponent makes a float, and digits alone
  a whole number.
* `readValue?_literal` — a literal is read as what it stands for.
-/

namespace MatlabQuality.Toml

open MatlabQuality.Number

/-! ## What follows a value -/

/-- What can follow a value on its line: a blank, a comment, or the end of the line. -/
def EndsValue (rest : List Char) : Prop :=
  ∀ c, rest.head? = some c → c ∈ [' ', '\t', '#', '\n', '\r']

/-- What does not go on with the digits before it. -/
def EndsDigits (rest : List Char) : Prop :=
  ∀ c, rest.head? = some c → isAsciiDigit c = false ∧ c ≠ '_'

theorem EndsValue.endsDigits {rest : List Char} (h : EndsValue rest) : EndsDigits rest := by
  have hall : ∀ c ∈ [' ', '\t', '#', '\n', '\r'], isAsciiDigit c = false ∧ c ≠ '_' := by decide
  exact fun c hc => hall c (h c hc)

theorem ne_of_isAsciiDigit {c d : Char} (hc : isAsciiDigit c = true)
    (hd : isAsciiDigit d = false) : c ≠ d := by
  rintro rfl
  exact absurd (hd.symm.trans hc) Bool.false_ne_true

/-! ## Digits -/

theorem moreDigits_cons {c : Char} (hc : c ≠ '_') (cs : List Char) :
    moreDigits isAsciiDigit (c :: cs) =
      if isAsciiDigit c then
        (c :: (moreDigits isAsciiDigit cs).1, (moreDigits isAsciiDigit cs).2)
      else ([], c :: cs) := by
  rw [moreDigits]
  intro d rest heq
  exact absurd heq hc

theorem moreDigits_append {digits rest : List Char}
    (hdigits : ∀ c ∈ digits, isAsciiDigit c = true) (hrest : EndsDigits rest) :
    moreDigits isAsciiDigit (digits ++ rest) = (digits, rest) := by
  induction digits with
  | nil =>
    cases rest with
    | nil => rfl
    | cons c rest =>
      obtain ⟨hdigit, hunderscore⟩ := hrest c rfl
      rw [List.nil_append, moreDigits_cons hunderscore, hdigit]
      rfl
  | cons d digits ih =>
    obtain ⟨hd, hdigits⟩ := List.forall_mem_cons.1 hdigits
    have hunderscore : d ≠ '_' := ne_of_isAsciiDigit hd (by decide)
    rw [List.cons_append, moreDigits_cons hunderscore, if_pos hd, ih hdigits]

theorem digits?_append {digits rest : List Char} (hne : digits ≠ [])
    (hdigits : ∀ c ∈ digits, isAsciiDigit c = true) (hrest : EndsDigits rest) :
    digits? isAsciiDigit (digits ++ rest) = some (digits, rest) := by
  obtain ⟨d, digits, rfl⟩ := List.exists_cons_of_ne_nil hne
  obtain ⟨hd, hdigits⟩ := List.forall_mem_cons.1 hdigits
  rw [List.cons_append, digits?, if_pos hd, moreDigits_append hdigits hrest]

/-- The digits before a point, of which a zero stands alone, are read. -/
theorem wholeDigits?_append {w : Written} (h : w.IsDigits) {rest : List Char}
    (hrest : EndsDigits rest) : wholeDigits? (w.whole ++ rest) = some (w.whole, rest) := by
  obtain ⟨d, digits, hwhole⟩ := List.exists_cons_of_ne_nil h.whole_ne_nil
  by_cases hzero : d = '0'
  · have hsingle : w.whole = ['0'] := h.whole_head (by rw [hwhole, hzero]; rfl)
    rw [hsingle]
    rfl
  · rw [← digits?_append h.whole_ne_nil h.whole_digits hrest, hwhole, List.cons_append,
      wholeDigits?]
    intro more heq
    exact absurd (List.cons.inj heq).1 hzero

theorem sign_of_isAsciiDigit {c : Char} (hc : isAsciiDigit c = true) (cs : List Char) :
    sign (c :: cs) = (false, c :: cs) := by
  rw [sign]
  · intro rest heq
    exact ne_of_isAsciiDigit hc (by decide) (List.cons.inj heq).1
  · intro rest heq
    exact ne_of_isAsciiDigit hc (by decide) (List.cons.inj heq).1

/-- The sign of a literal, before its digits. -/
def signChars (negative : Bool) : List Char :=
  if negative then ['-'] else []

theorem sign_append (negative : Bool) {digits : List Char} (hne : digits ≠ [])
    (hdigits : ∀ c ∈ digits, isAsciiDigit c = true) (rest : List Char) :
    sign (signChars negative ++ (digits ++ rest)) = (negative, digits ++ rest) := by
  cases negative with
  | true => rfl
  | false =>
    obtain ⟨d, digits, rfl⟩ := List.exists_cons_of_ne_nil hne
    exact sign_of_isAsciiDigit (hdigits d List.mem_cons_self) _

theorem signedDecimal_eq (i : ℤ) :
    signedDecimal false i = signChars (i < 0) ++ decimalDigits i.natAbs := by
  rw [signedDecimal, signChars]
  by_cases hi : i < 0
  · simp [hi]
  · simp [hi]

/-- The digits of a size, with their sign, say the number. -/
theorem signed_natAbs_eq (i : ℤ) :
    (if decide (i < 0) = true then -(i.natAbs : ℤ) else i.natAbs) = i := by
  by_cases hi : i < 0
  · simp only [hi, decide_true, if_true]
    omega
  · simp only [hi, decide_false, Bool.false_eq_true, if_false]
    omega

/-! ## Dates -/

/-- Behind the digits that a text starts with stands no mark of a date or a time. -/
def NoDate (cs : List Char) : Prop :=
  ∀ c, (cs.dropWhile isAsciiDigit).head? = some c → c ≠ '-' ∧ c ≠ ':'

theorem NoDate.of_cons {c : Char} {cs : List Char} (hc : isAsciiDigit c = true)
    (h : NoDate (c :: cs)) : NoDate cs := by
  rw [NoDate, List.dropWhile_cons_of_pos hc] at h
  exact h

theorem NoDate.readOneOf?_eq_none {cs : List Char} (h : NoDate cs) {mark : Char}
    (hmark : mark = '-' ∨ mark = ':') : Timestamp.readOneOf? [mark] cs = none := by
  cases cs with
  | nil => rfl
  | cons c cs =>
    have hne : c ≠ mark := by
      rintro rfl
      have hdigit : isAsciiDigit c = false := by rcases hmark with rfl | rfl <;> decide
      obtain ⟨hdash, hcolon⟩ := h c (by rw [List.dropWhile_cons_of_neg (by simp [hdigit])]; rfl)
      exact hmark.elim hdash hcolon
    simp [Timestamp.readOneOf?, hne]

theorem NoDate.of_readTwo? {cs rest : List Char} (h : NoDate cs) {n : ℕ}
    (hread : Timestamp.readTwo? cs = some (n, rest)) : NoDate rest := by
  unfold Timestamp.readTwo? at hread
  split at hread
  · split_ifs at hread with hdigits
    simp only [Bool.and_eq_true] at hdigits
    obtain ⟨-, rfl⟩ := Prod.mk.inj (Option.some.inj hread)
    exact (h.of_cons hdigits.1).of_cons hdigits.2
  · cases hread

theorem NoDate.of_readFour? {cs rest : List Char} (h : NoDate cs) {n : ℕ}
    (hread : Timestamp.readFour? cs = some (n, rest)) : NoDate rest := by
  unfold Timestamp.readFour? at hread
  split at hread
  · split_ifs at hread with hdigits
    simp only [List.all_cons, List.all_nil, Bool.and_true, Bool.and_eq_true] at hdigits
    obtain ⟨-, rfl⟩ := Prod.mk.inj (Option.some.inj hread)
    obtain ⟨ha, hb, hc, hd⟩ := hdigits
    exact (((h.of_cons ha).of_cons hb).of_cons hc).of_cons hd
  · cases hread

/-- **Digits without the marks of a date or a time are none.** -/
theorem dateTime?_eq_none {cs : List Char} (h : NoDate cs) : dateTime? cs = none := by
  have hdate : skipDate? cs = none := by
    rw [skipDate?]
    cases hyear : Timestamp.readFour? cs with
    | none => rfl
    | some read => simp [(h.of_readFour? hyear).readOneOf?_eq_none (.inl rfl)]
  have htime : skipTime? cs = none := by
    rw [skipTime?]
    cases hhour : Timestamp.readTwo? cs with
    | none => rfl
    | some read => simp [(h.of_readTwo? hhour).readOneOf?_eq_none (.inr rfl)]
  rw [dateTime?, skipDateTime?, hdate]
  simp [htime]

theorem dateTime?_minus (cs : List Char) : dateTime? ('-' :: cs) = none := by
  have hyear : Timestamp.readFour? ('-' :: cs) = none := by
    unfold Timestamp.readFour?
    split
    · next heq => rw [← (List.cons.inj heq).1]; rfl
    · rfl
  have hhour : Timestamp.readTwo? ('-' :: cs) = none := by
    unfold Timestamp.readTwo?
    split
    · next heq => rw [← (List.cons.inj heq).1]; rfl
    · rfl
  rw [dateTime?, skipDateTime?, skipDate?, hyear, skipTime?, hhour]
  rfl

/-! ## Parts of a literal -/

/-- The characters of a power of ten. -/
def exponentChars : Option ℤ → List Char
  | none => []
  | some e => 'e' :: signedDecimal false e

/-- The characters of a written size behind its first digits. -/
def tailChars (w : Written) : List Char :=
  (if w.fraction.isEmpty then [] else '.' :: w.fraction) ++ exponentChars w.exponent

theorem chars_eq_append (w : Written) : w.chars false = w.whole ++ tailChars w := by
  rw [Written.chars, tailChars, List.append_assoc]
  rfl

/-- What stands behind the digits of a fraction. -/
theorem head?_exponentChars_append {e : Option ℤ} {rest : List Char} (hrest : EndsValue rest)
    {c : Char} (hc : (exponentChars e ++ rest).head? = some c) :
    c ∈ ['e', ' ', '\t', '#', '\n', '\r'] := by
  cases e with
  | some e =>
    obtain rfl : 'e' = c := Option.some.inj hc
    exact List.mem_cons_self
  | none => exact List.mem_cons_of_mem _ (hrest c hc)

/-- What stands behind the first digits of a literal. -/
theorem head?_tailChars_append {w : Written} {rest : List Char} (hrest : EndsValue rest) {c : Char}
    (hc : (tailChars w ++ rest).head? = some c) :
    c ∈ ['.', 'e', ' ', '\t', '#', '\n', '\r'] := by
  obtain ⟨whole, fraction, exponent⟩ := w
  cases fraction with
  | cons d ds =>
    obtain rfl : '.' = c := Option.some.inj hc
    exact List.mem_cons_self
  | nil => exact List.mem_cons_of_mem _ (head?_exponentChars_append hrest hc)

theorem endsDigits_exponentChars_append (e : Option ℤ) {rest : List Char}
    (hrest : EndsValue rest) : EndsDigits (exponentChars e ++ rest) := by
  have hall : ∀ c ∈ ['e', ' ', '\t', '#', '\n', '\r'], isAsciiDigit c = false ∧ c ≠ '_' := by
    decide
  exact fun c hc => hall c (head?_exponentChars_append hrest hc)

theorem endsDigits_tailChars_append (w : Written) {rest : List Char} (hrest : EndsValue rest) :
    EndsDigits (tailChars w ++ rest) := by
  have hall : ∀ c ∈ ['.', 'e', ' ', '\t', '#', '\n', '\r'], isAsciiDigit c = false ∧ c ≠ '_' := by
    decide
  exact fun c hc => hall c (head?_tailChars_append hrest hc)

theorem noDate_append {w : Written} (h : w.IsDigits) {rest : List Char} (hrest : EndsValue rest) :
    NoDate (w.whole ++ (tailChars w ++ rest)) := by
  have hall : ∀ c ∈ ['.', 'e', ' ', '\t', '#', '\n', '\r'],
      isAsciiDigit c = false ∧ c ≠ '-' ∧ c ≠ ':' := by decide
  intro c hc
  rw [List.dropWhile_append_of_pos h.whole_digits] at hc
  cases hbehind : tailChars w ++ rest with
  | nil =>
    rw [hbehind] at hc
    cases hc
  | cons d ds =>
    obtain ⟨hdigit, hmarks⟩ := hall d (head?_tailChars_append hrest (by rw [hbehind]; rfl))
    rw [hbehind, List.dropWhile_cons_of_neg (by simp [hdigit])] at hc
    obtain rfl : d = c := Option.some.inj hc
    exact hmarks

theorem exponent?_eq_none {rest : List Char} (hrest : EndsValue rest) : exponent? rest = none := by
  cases rest with
  | nil => rfl
  | cons c rest =>
    have hall : ∀ c ∈ [' ', '\t', '#', '\n', '\r'], c ≠ 'e' ∧ c ≠ 'E' := by decide
    obtain ⟨hlower, hupper⟩ := hall c (hrest c rfl)
    simp [exponent?, hlower, hupper]

/-- A power of ten is read. -/
theorem exponent?_append (e : Option ℤ) {rest : List Char} (hrest : EndsValue rest) :
    exponent? (exponentChars e ++ rest) = e.map (·, rest) := by
  cases e with
  | none => exact exponent?_eq_none hrest
  | some e =>
    have hdigits : ∀ c ∈ decimalDigits e.natAbs, isAsciiDigit c = true :=
      fun _ => isAsciiDigit_of_mem_decimalDigits
    have hsign : sign (signedDecimal false e ++ rest) =
        (decide (e < 0), decimalDigits e.natAbs ++ rest) := by
      rw [signedDecimal_eq, List.append_assoc, sign_append _ (decimalDigits_ne_nil _) hdigits]
    have hread := digits?_append (decimalDigits_ne_nil e.natAbs) hdigits hrest.endsDigits
    rw [exponentChars, List.cons_append, exponent?]
    simp only [decide_true, Bool.true_or, if_true, hsign, hread, Option.bind_eq_bind,
      Option.bind_some, ofDigits_decimalDigits, signed_natAbs_eq]
    rfl

theorem fraction?_eq_none {rest : List Char} (h : rest.head? ≠ some '.') :
    fraction? rest = none := by
  unfold fraction?
  split
  · exact absurd rfl h
  · rfl

/-- The sign and the first digits of a literal are read. -/
theorem sign_whole_append (negative : Bool) {w : Written} (h : w.IsDigits) (rest : List Char) :
    sign (signChars negative ++ (w.whole ++ rest)) = (negative, w.whole ++ rest) :=
  sign_append negative h.whole_ne_nil h.whole_digits rest

/-- **A point or an exponent makes a float.** -/
theorem digitFloat?_append (negative : Bool) {w : Written} (h : w.IsDigits)
    (hpart : w.fraction ≠ [] ∨ w.exponent ≠ none) (hfinite : w.value negative ≠ .infinite false)
    {rest : List Char} (hrest : EndsValue rest) :
    digitFloat? (signChars negative ++ (w.whole ++ (tailChars w ++ rest))) =
      some (w.value negative, rest) := by
  have hwhole := wholeDigits?_append h (endsDigits_tailChars_append w hrest)
  have hexponent := exponent?_append w.exponent hrest
  have hvalue : floatOf? negative w.whole w.fraction (w.exponent.getD 0) =
      some (w.value negative) := if_neg hfinite
  simp only [digitFloat?, sign_whole_append negative h, hwhole, Option.bind_eq_bind,
    Option.bind_some]
  cases hfraction : w.fraction with
  | cons d ds =>
    have hread : fraction? (tailChars w ++ rest) =
        some (w.fraction, exponentChars w.exponent ++ rest) := by
      have hdigits := digits?_append (hfraction ▸ List.cons_ne_nil d ds) h.fraction_digits
        (endsDigits_exponentChars_append w.exponent hrest)
      rw [tailChars, hfraction, List.append_assoc]
      rwa [hfraction] at hdigits
    have hpower : (exponent? (exponentChars w.exponent ++ rest)).getD
        (0, exponentChars w.exponent ++ rest) = (w.exponent.getD 0, rest) := by
      rw [hexponent]
      cases w.exponent with
      | none => rfl
      | some e => rfl
    simp only [hread, hpower, hvalue, Option.bind_some]
    rfl
  | nil =>
    obtain ⟨e, he⟩ := Option.ne_none_iff_exists'.1 (hpart.resolve_left (· hfraction))
    have htail : tailChars w = exponentChars w.exponent := by rw [tailChars, hfraction]; rfl
    have hnone : fraction? (exponentChars w.exponent ++ rest) = none :=
      fraction?_eq_none (by rw [he]; exact fun h => absurd (Option.some.inj h) (by decide))
    rw [hfraction, he, Option.getD_some] at hvalue
    rw [he, Option.map_some] at hexponent
    rw [he] at hnone
    simp only [htail, he, hnone, hexponent, hvalue, Option.bind_some]
    rfl

/-- Digits without a point or an exponent make no float. -/
theorem digitFloat?_eq_none (negative : Bool) {w : Written} (h : w.IsDigits) {rest : List Char}
    (hrest : EndsValue rest) :
    digitFloat? (signChars negative ++ (w.whole ++ rest)) = none := by
  have hwhole := wholeDigits?_append h hrest.endsDigits
  have hpoint : fraction? rest = none := by
    refine fraction?_eq_none fun hhead => ?_
    exact absurd (hrest '.' hhead) (by decide)
  simp only [digitFloat?, sign_whole_append negative h, hwhole, hpoint, exponent?_eq_none hrest,
    Option.bind_eq_bind, Option.bind_some, Option.bind_none]

theorem specialFloat?_eq_none (negative : Bool) {w : Written} (h : w.IsDigits)
    (rest : List Char) : specialFloat? (signChars negative ++ (w.whole ++ rest)) = none := by
  obtain ⟨d, ds, hwhole⟩ := List.exists_cons_of_ne_nil h.whole_ne_nil
  have hd : isAsciiDigit d = true := h.whole_digits d (hwhole ▸ List.mem_cons_self)
  simp only [specialFloat?, sign_whole_append negative h]
  rw [hwhole, List.cons_append]
  split
  · next heq => exact absurd (List.cons.inj heq).1 (ne_of_isAsciiDigit hd (by decide))
  · next heq => exact absurd (List.cons.inj heq).1 (ne_of_isAsciiDigit hd (by decide))
  · rfl

/-- **Digits alone make a whole number**, if it fits. -/
theorem integer?_append (negative : Bool) {w : Written} (h : w.IsDigits) {rest : List Char}
    (hrest : EndsValue rest) :
    integer? (signChars negative ++ (w.whole ++ rest)) =
      (fitting? (if negative then -(ofDigits w.whole : ℤ) else ofDigits w.whole)).map
        (·, rest) := by
  have hwhole := wholeDigits?_append h hrest.endsDigits
  have hplain : ∀ mark more, mark ∉ [' ', '\t', '#', '\n', '\r'] →
      signChars negative ++ (w.whole ++ rest) ≠ '0' :: mark :: more := by
    intro mark more hmark heq
    cases negative with
    | true => exact absurd (List.cons.inj heq).1 (by decide)
    | false =>
      obtain ⟨d, ds, hcons⟩ := List.exists_cons_of_ne_nil h.whole_ne_nil
      rw [signChars, if_neg Bool.false_ne_true, List.nil_append] at heq
      obtain rfl : d = '0' := by
        rw [hcons] at heq
        exact (List.cons.inj heq).1
      have hzero : w.whole = ['0'] := h.whole_head (by rw [hcons]; rfl)
      rw [hzero] at heq
      have hhead : rest = mark :: more := (List.cons.inj heq).2
      exact hmark (hrest mark (by rw [hhead]; rfl))
  rw [integer?, sign_whole_append negative h]
  · simp only [hwhole, Option.bind_eq_bind, Option.bind_some]
    rw [Option.map_eq_bind]
    rfl
  · exact fun more heq => hplain 'x' more (by decide) heq
  · exact fun more heq => hplain 'o' more (by decide) heq
  · exact fun more heq => hplain 'b' more (by decide) heq

/-! ## Literals -/

/-- A number as it can be written in a text. -/
inductive Literal where
  | integer (i : ℤ)
  /-- Digits with a point or an exponent. -/
  | decimal (negative : Bool) (written : Written)

namespace Literal

/-- Whether a literal has a sign. -/
def negative : Literal → Bool
  | integer i => i < 0
  | decimal negative _ => negative

/-- The digits of a literal. -/
def written : Literal → Written
  | integer i => ⟨decimalDigits i.natAbs, [], none⟩
  | decimal _ written => written

/-- The characters of a literal. -/
def chars (l : Literal) : List Char :=
  signChars l.negative ++ l.written.chars false

/-- The value a literal stands for; a whole number that does not fit has none. -/
def value? : Literal → Option Value
  | integer i => (fitting? i).map .integer
  | decimal negative written => some (.float (written.value negative))

theorem isSome_value?_integer {i : ℤ} :
    (integer i).value?.isSome ↔ -2 ^ 63 ≤ i ∧ i < 2 ^ 63 := by
  rw [value?, fitting?, Option.isSome_map]
  split_ifs with hfits
  · exact iff_of_true rfl hfits
  · exact iff_of_false Bool.false_ne_true hfits

theorem value?_integer_eq {i : ℤ} (h : (integer i).value?.isSome) :
    (integer i).value? = some (.integer i) := by
  have hfits : fitting? i = some i := if_pos (isSome_value?_integer.1 h)
  rw [value?, hfits, Option.map_some]

/-- A literal with a point or an exponent has digits around its point, and it is not too large. -/
def WellFormed : Literal → Prop
  | integer _ => True
  | decimal negative written =>
    written.IsDigits ∧ (written.fraction ≠ [] ∨ written.exponent ≠ none) ∧
      written.value negative ≠ .infinite false

theorem WellFormed.isDigits {l : Literal} (h : l.WellFormed) : l.written.IsDigits := by
  cases l with
  | decimal negative written => exact h.1
  | integer i =>
    refine ⟨fun _ => isAsciiDigit_of_mem_decimalDigits, decimalDigits_ne_nil _, fun hzero => ?_,
      fun _ hc => absurd hc List.not_mem_nil⟩
    by_cases hi : i.natAbs = 0
    · rw [written, hi]
      rfl
    · exact absurd hzero (head?_decimalDigits_ne hi)

theorem chars_append (l : Literal) (rest : List Char) :
    l.chars ++ rest =
      signChars l.negative ++ (l.written.whole ++ (tailChars l.written ++ rest)) := by
  rw [chars, chars_eq_append, List.append_assoc, List.append_assoc]

/-- What a literal starts with. -/
theorem WellFormed.exists_chars_eq_cons {l : Literal} (h : l.WellFormed) :
    ∃ c cs, l.chars = c :: cs ∧ (c = '-' ∨ isAsciiDigit c = true) := by
  obtain ⟨d, ds, hwhole⟩ := List.exists_cons_of_ne_nil h.isDigits.whole_ne_nil
  rw [chars, chars_eq_append, hwhole]
  cases l.negative with
  | true => exact ⟨'-', _, rfl, .inl rfl⟩
  | false => exact ⟨d, _, rfl, .inr (h.isDigits.whole_digits d (hwhole ▸ List.mem_cons_self))⟩

theorem WellFormed.dateTime?_eq_none {l : Literal} (h : l.WellFormed) {rest : List Char}
    (hrest : EndsValue rest) : dateTime? (l.chars ++ rest) = none := by
  rw [chars_append]
  cases l.negative with
  | true => exact dateTime?_minus _
  | false => exact Toml.dateTime?_eq_none (noDate_append h.isDigits hrest)

end Literal

/-- What starts a number starts nothing else. -/
theorem readValue?_of_startsNumber {c : Char} (hc : c = '-' ∨ isAsciiDigit c = true)
    (fuel depth : ℕ) (cs : List Char) :
    readValue? (fuel + 1) depth (c :: cs) =
      ((dateTime? (c :: cs)).map fun p => (.dateTime p.1, p.2)).or
        (((float? (c :: cs)).map fun p => (.float p.1, p.2)).or
          ((integer? (c :: cs)).map fun p => (.integer p.1, p.2))) := by
  have hne : ∀ {d : Char} {ds : List Char}, c :: cs = d :: ds →
      ¬ (d ≠ '-' ∧ isAsciiDigit d = false) := by
    rintro d ds heq ⟨hdash, hdigit⟩
    obtain rfl := (List.cons.inj heq).1
    exact hc.elim hdash fun hc => absurd (hdigit.symm.trans hc) Bool.false_ne_true
  rw [readValue?]
  · exact fun _ heq => hne heq (by decide)
  · exact fun _ heq => hne heq (by decide)
  · exact fun _ heq => hne heq (by decide)
  · exact fun _ heq => hne heq (by decide)
  · exact fun _ heq => hne heq (by decide)
  · exact fun _ heq => hne heq (by decide)

/-- **A literal is read as the value it stands for**, and what follows it is left. -/
theorem readValue?_literal {l : Literal} (h : l.WellFormed) (fuel depth : ℕ) {rest : List Char}
    (hrest : EndsValue rest) :
    readValue? (fuel + 1) depth (l.chars ++ rest) = l.value?.map (·, rest) := by
  have hread : readValue? (fuel + 1) depth (l.chars ++ rest) =
      ((float? (l.chars ++ rest)).map fun p => (.float p.1, p.2)).or
        ((integer? (l.chars ++ rest)).map fun p => (.integer p.1, p.2)) := by
    have hdate := h.dateTime?_eq_none hrest
    obtain ⟨c, cs, hcons, hc⟩ := h.exists_chars_eq_cons
    rw [hcons, List.cons_append] at hdate ⊢
    rw [readValue?_of_startsNumber hc, hdate]
    rfl
  have hspecial := specialFloat?_eq_none l.negative h.isDigits (tailChars l.written ++ rest)
  rw [hread, Literal.chars_append, float?, hspecial, Option.or_none]
  cases l with
  | decimal negative written =>
    have hfloat := digitFloat?_append negative h.1 h.2.1 h.2.2 hrest
    simp only [Literal.negative, Literal.written, hfloat]
    rfl
  | integer i =>
    have hfloat := digitFloat?_eq_none (decide (i < 0)) h.isDigits hrest
    have hinteger := integer?_append (decide (i < 0)) h.isDigits hrest
    simp only [Literal.written, ofDigits_decimalDigits, signed_natAbs_eq] at hfloat hinteger
    have htail : tailChars ⟨decimalDigits i.natAbs, [], none⟩ = [] := rfl
    simp only [Literal.negative, Literal.written, htail, List.nil_append, hfloat, hinteger,
      Literal.value?, Option.map_map]
    rfl

end MatlabQuality.Toml
