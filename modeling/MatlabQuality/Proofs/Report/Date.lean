import Mathlib.Data.List.Infix
import Mathlib.Tactic.IntervalCases
import MatlabQuality.Proofs.Number.Digits
import MatlabQuality.Proofs.Report.Template
import MatlabQuality.Proofs.Text.Span

/-!
# The date of a report

A date has many written forms: the letter between date and time, a fraction of a second and the
spelling of the offset are free.  The reader accepts exactly these forms and keeps the digits that
they have in common, so what a report has as its date is one of them, is read back as the same
date, and is shown on the page with its own digits.

## Main definitions

* `Zone`, `DateText` — a written offset, and a written date.
* `DateText.stamp` — the timestamp that a written date names.
* `DateText.plain` — the form that a report has.
* `DateText.IsShownAs` — a date in prose.
* `KeepsDate` — what becomes of a date in a report.

## Main statements

* `Timestamp.read?_eq_some_iff` — the reader accepts exactly the written dates.
* `DateText.writeChars_stamp` — a timestamp is written with the digits it was read from.
* `keepsDate_ofRun` — a report keeps its date in every format.
-/

namespace MatlabQuality

open MatlabQuality.Number MatlabQuality.Text

/-! ## Written dates -/

/-- A number of ASCII digits. -/
def IsDigits (count : ℕ) (cs : List Char) : Prop :=
  cs.length = count ∧ ∀ c ∈ cs, isAsciiDigit c = true

instance (count : ℕ) (cs : List Char) : Decidable (IsDigits count cs) :=
  inferInstanceAs (Decidable (_ ∧ _))

/-- A fraction of a second: nothing, or a point and at least one digit. -/
def IsFraction (cs : List Char) : Prop :=
  cs = [] ∨ ∃ c digits, cs = '.' :: c :: digits ∧ ∀ c' ∈ c :: digits, isAsciiDigit c' = true

/-- A written offset from universal time. -/
inductive Zone where
  /-- The letter of universal time. -/
  | universal (letter : Char)
  /-- A sign, hours and minutes. -/
  | numeric (sign : Char) (hours minutes : List Char)

namespace Zone

/-- The characters of an offset. -/
def chars : Zone → List Char
  | .universal letter => [letter]
  | .numeric sign hours minutes => sign :: (hours ++ ':' :: minutes)

/-- The letter is a capital or a small one, the minus sign has two forms, and an offset is less than
a day. -/
def WellFormed : Zone → Prop
  | .universal letter => letter ∈ ['Z', 'z']
  | .numeric sign hours minutes =>
    sign ∈ ['+', '-', '\u2212'] ∧ IsDigits 2 hours ∧ IsDigits 2 minutes ∧ ofDigits hours ≤ 23 ∧
      ofDigits minutes ≤ 59

/-- The offset in minutes. -/
def offset : Zone → ℤ
  | .universal _ => 0
  | .numeric sign hours minutes =>
    if sign = '+' then 60 * ofDigits hours + ofDigits minutes
    else -(60 * ofDigits hours + ofDigits minutes)

/-- The same offset with a sign and digits; nought has a plus sign. -/
def plain : Zone → Zone
  | .universal _ => .numeric '+' ['0', '0'] ['0', '0']
  | .numeric sign hours minutes =>
    .numeric (if (numeric sign hours minutes).offset < 0 then '-' else '+') hours minutes

end Zone

/-- A written date and time. -/
structure DateText where
  year : List Char
  month : List Char
  day : List Char
  /-- What stands between date and time. -/
  separator : Char
  hour : List Char
  minute : List Char
  second : List Char
  /-- The fraction of a second with its point, or nothing. -/
  fraction : List Char
  zone : Zone

namespace DateText

/-- The characters of a written date. -/
def chars (d : DateText) : List Char :=
  d.year ++ '-' :: (d.month ++ '-' :: (d.day ++ d.separator :: (d.hour ++ ':' :: (d.minute ++
    ':' :: (d.second ++ (d.fraction ++ d.zone.chars))))))

/-- The timestamp that a written date names. -/
def stamp (d : DateText) : Timestamp :=
  ⟨ofDigits d.year, ofDigits d.month, ofDigits d.day, ofDigits d.hour, ofDigits d.minute,
    ofDigits d.second, d.zone.offset⟩

/-- What a written date must be like: the digits name a day of the calendar and a time, in which a
leap second may stand anywhere. -/
structure WellFormed (d : DateText) : Prop where
  year : IsDigits 4 d.year
  month : IsDigits 2 d.month
  day : IsDigits 2 d.day
  separator : d.separator ∈ ['T', 't', ' ']
  hour : IsDigits 2 d.hour
  minute : IsDigits 2 d.minute
  second : IsDigits 2 d.second
  fraction : IsFraction d.fraction
  zone : d.zone.WellFormed
  month_bounds : 1 ≤ ofDigits d.month ∧ ofDigits d.month ≤ 12
  day_bounds : 1 ≤ ofDigits d.day ∧
    ofDigits d.day ≤ Timestamp.daysIn (ofDigits d.year) (ofDigits d.month)
  hour_le : ofDigits d.hour ≤ 23
  minute_le : ofDigits d.minute ≤ 59
  second_le : ofDigits d.second ≤ 60

/-- The form that a report has: the same digits, without a fraction. -/
def plain (d : DateText) : DateText :=
  { d with separator := 'T', fraction := [], zone := d.zone.plain }

end DateText

/-! ## Digits -/

theorem IsDigits.exists_two {cs : List Char} (h : IsDigits 2 cs) :
    ∃ a b, cs = [a, b] ∧ isAsciiDigit a = true ∧ isAsciiDigit b = true := by
  obtain ⟨hlength, hdigits⟩ := h
  obtain ⟨a, b, rfl⟩ := List.length_eq_two.1 hlength
  exact ⟨a, b, rfl, hdigits a (by simp), hdigits b (by simp)⟩

theorem IsDigits.exists_four {cs : List Char} (h : IsDigits 4 cs) :
    ∃ front back, cs = front ++ back ∧ IsDigits 2 front ∧ IsDigits 2 back := by
  obtain ⟨hlength, hdigits⟩ := h
  refine ⟨cs.take 2, cs.drop 2, (List.take_append_drop 2 cs).symm, ⟨?_, ?_⟩, ⟨?_, ?_⟩⟩
  · simp [hlength]
  · exact fun c hc => hdigits c (List.mem_of_mem_take hc)
  · simp [hlength]
  · exact fun c hc => hdigits c (List.mem_of_mem_drop hc)

theorem ofDigits_two (a b : Char) : ofDigits [a, b] = 10 * digitValue a + digitValue b := by
  simp [ofDigits]

theorem IsDigits.ofDigits_lt {cs : List Char} (h : IsDigits 2 cs) : ofDigits cs < 100 := by
  obtain ⟨a, b, rfl, ha, hb⟩ := h.exists_two
  have := digitValue_lt ha
  have := digitValue_lt hb
  rw [ofDigits_two]
  omega

/-- **Two digits are written as they were read.** -/
theorem IsDigits.twoDigits_ofDigits {cs : List Char} (h : IsDigits 2 cs) :
    Timestamp.twoDigits (ofDigits cs) = cs := by
  obtain ⟨a, b, rfl, ha, hb⟩ := h.exists_two
  have := digitValue_lt ha
  have := digitValue_lt hb
  have htens : (10 * digitValue a + digitValue b) / 10 % 10 = digitValue a := by omega
  have hones : (10 * digitValue a + digitValue b) % 10 = digitValue b := by omega
  rw [ofDigits_two, Timestamp.twoDigits, htens, hones, digitChar_digitValue ha,
    digitChar_digitValue hb]

/-- So are four. -/
theorem IsDigits.fourDigits_ofDigits {cs : List Char} (h : IsDigits 4 cs) :
    Timestamp.fourDigits (ofDigits cs) = cs := by
  obtain ⟨front, back, rfl, hfront, hback⟩ := h.exists_four
  have hvalue := ofDigits_append front back
  rw [hback.1] at hvalue
  have hlt := hback.ofDigits_lt
  have hhundreds : ofDigits (front ++ back) / 100 = ofDigits front := by omega
  have hrest : ofDigits (front ++ back) % 100 = ofDigits back := by omega
  rw [Timestamp.fourDigits, hhundreds, hrest, hfront.twoDigits_ofDigits, hback.twoDigits_ofDigits]

/-! ## Reading -/

namespace Timestamp

section Parts

variable {cs rest : List Char} {n : ℕ}

theorem readTwo?_append {digits : List Char} (h : IsDigits 2 digits) (rest : List Char) :
    readTwo? (digits ++ rest) = some (ofDigits digits, rest) := by
  obtain ⟨a, b, rfl, ha, hb⟩ := h.exists_two
  simp [readTwo?, ha, hb]

theorem exists_of_readTwo? (h : readTwo? cs = some (n, rest)) :
    ∃ digits, IsDigits 2 digits ∧ cs = digits ++ rest ∧ n = ofDigits digits := by
  unfold readTwo? at h
  split at h
  · next a b tail =>
    split at h
    · next hdigits =>
      obtain ⟨rfl, rfl⟩ := Prod.mk.inj (Option.some.inj h)
      exact ⟨[a, b], ⟨rfl, by simpa using hdigits⟩, rfl, rfl⟩
    · cases h
  · cases h

theorem readFour?_append {digits : List Char} (h : IsDigits 4 digits) (rest : List Char) :
    readFour? (digits ++ rest) = some (ofDigits digits, rest) := by
  obtain ⟨front, back, rfl, hfront, hback⟩ := h.exists_four
  obtain ⟨a, b, rfl, ha, hb⟩ := hfront.exists_two
  obtain ⟨c, d, rfl, hc, hd⟩ := hback.exists_two
  simp [readFour?, ha, hb, hc, hd]

theorem exists_of_readFour? (h : readFour? cs = some (n, rest)) :
    ∃ digits, IsDigits 4 digits ∧ cs = digits ++ rest ∧ n = ofDigits digits := by
  unfold readFour? at h
  split at h
  · next a b c d tail =>
    split at h
    · next hdigits =>
      obtain ⟨rfl, rfl⟩ := Prod.mk.inj (Option.some.inj h)
      exact ⟨[a, b, c, d], ⟨rfl, List.all_eq_true.1 hdigits⟩, rfl, rfl⟩
    · cases h
  · cases h

theorem readOneOf?_cons {choices : List Char} {c : Char} (h : c ∈ choices) (rest : List Char) :
    readOneOf? choices (c :: rest) = some rest := by
  simp [readOneOf?, h]

theorem exists_of_readOneOf? {choices : List Char} (h : readOneOf? choices cs = some rest) :
    ∃ c ∈ choices, cs = c :: rest := by
  unfold readOneOf? at h
  split at h
  · next c tail =>
    split at h
    · next hmem =>
      obtain rfl := Option.some.inj h
      exact ⟨c, by simpa using hmem, rfl⟩
    · cases h
  · cases h

/-- A fraction is skipped up to what cannot belong to it. -/
theorem skipFraction?_append {fraction : List Char} (h : IsFraction fraction)
    (hpoint : rest.head? ≠ some '.') (hrest : ∀ c ∈ rest.head?, isAsciiDigit c = false) :
    skipFraction? (fraction ++ rest) = some rest := by
  rcases h with rfl | ⟨c, digits, rfl, hdigits⟩
  · unfold skipFraction?
    split
    · next tail heq =>
      rw [List.nil_append] at heq
      simp [heq] at hpoint
    · rfl
  · have hspan : IsSpan isAsciiDigit digits rest :=
      ⟨fun c' hc' => hdigits c' (List.mem_cons_of_mem c hc'), hrest⟩
    simp [skipFraction?, hdigits c List.mem_cons_self, hspan.dropWhile_eq]

theorem exists_of_skipFraction? (h : skipFraction? cs = some rest) :
    ∃ fraction, IsFraction fraction ∧ cs = fraction ++ rest := by
  unfold skipFraction? at h
  split at h
  · split at h
    · next c more =>
      split at h
      · next hc =>
        obtain rfl := Option.some.inj h
        refine ⟨'.' :: c :: more.takeWhile isAsciiDigit, .inr ⟨c, _, rfl, ?_⟩, ?_⟩
        · rw [List.forall_mem_cons]
          exact ⟨hc, fun _ => List.mem_takeWhile_imp⟩
        · simp
      · cases h
    · cases h
  · obtain rfl := Option.some.inj h
    exact ⟨[], .inl rfl, rfl⟩

theorem readOffsetSize?_append {hours minutes : List Char} (hhours : IsDigits 2 hours)
    (hminutes : IsDigits 2 minutes) (hhour : ofDigits hours ≤ 23) (hminute : ofDigits minutes ≤ 59)
    (rest : List Char) :
    readOffsetSize? (hours ++ ':' :: (minutes ++ rest)) =
      some (60 * ofDigits hours + ofDigits minutes, rest) := by
  simp [readOffsetSize?, readTwo?_append hhours, readTwo?_append hminutes,
    readOneOf?_cons (List.mem_singleton_self ':'), hhour, hminute]

/-- A sign is put before hours and minutes that are read. -/
theorem exists_of_map_readOffsetSize? (signed : ℕ → ℤ) {offset : ℤ}
    (h : (readOffsetSize? cs).map (fun (m, rest) => (signed m, rest)) = some (offset, rest)) :
    ∃ hours minutes, IsDigits 2 hours ∧ IsDigits 2 minutes ∧ ofDigits hours ≤ 23 ∧
      ofDigits minutes ≤ 59 ∧ cs = hours ++ ':' :: (minutes ++ rest) ∧
      offset = signed (60 * ofDigits hours + ofDigits minutes) := by
  obtain ⟨⟨size, r₀⟩, hsize, heq⟩ := Option.map_eq_some_iff.1 h
  obtain ⟨rfl, rfl⟩ := Prod.mk.inj heq
  unfold readOffsetSize? at hsize
  obtain ⟨⟨hour, r₁⟩, hhour, hsize⟩ := Option.bind_eq_some_iff.1 hsize
  obtain ⟨r₂, hcolon, hsize⟩ := Option.bind_eq_some_iff.1 hsize
  obtain ⟨⟨minute, r₃⟩, hminute, h⟩ := Option.bind_eq_some_iff.1 hsize
  obtain ⟨hours, hhours, rfl, rfl⟩ := exists_of_readTwo? hhour
  obtain ⟨c, hc, rfl⟩ := exists_of_readOneOf? hcolon
  obtain rfl := List.mem_singleton.1 hc
  obtain ⟨minutes, hminutes, rfl, rfl⟩ := exists_of_readTwo? hminute
  dsimp only at h
  split at h
  · next hbounds =>
    rw [Bool.and_eq_true, decide_eq_true_iff, decide_eq_true_iff] at hbounds
    obtain ⟨rfl, rfl⟩ := Prod.mk.inj (Option.some.inj h)
    exact ⟨hours, minutes, hhours, hminutes, hbounds.1, hbounds.2, rfl, rfl⟩
  · cases h

/-- **A written offset is read.** -/
theorem readOffset?_append {zone : Zone} (h : zone.WellFormed) (rest : List Char) :
    readOffset? (zone.chars ++ rest) = some (zone.offset, rest) := by
  cases zone with
  | universal letter =>
    simp only [Zone.WellFormed, List.mem_cons, List.not_mem_nil, or_false] at h
    rcases h with rfl | rfl <;> rfl
  | numeric sign hours minutes =>
    obtain ⟨hsign, hhours, hminutes, hhour, hminute⟩ := h
    have hsize := readOffsetSize?_append hhours hminutes hhour hminute rest
    simp only [List.mem_cons, List.not_mem_nil, or_false] at hsign
    rcases hsign with rfl | rfl | rfl
    all_goals simp [readOffset?, Zone.chars, Zone.offset, hsize]

/-- **What is read as an offset is a written one.** -/
theorem exists_of_readOffset? {offset : ℤ} (h : readOffset? cs = some (offset, rest)) :
    ∃ zone : Zone, zone.WellFormed ∧ cs = zone.chars ++ rest ∧ offset = zone.offset := by
  unfold readOffset? at h
  split at h
  · next c tail =>
    split at h
    · next hletter =>
      obtain ⟨rfl, rfl⟩ := Prod.mk.inj (Option.some.inj h)
      exact ⟨.universal c, by simpa [Zone.WellFormed] using hletter, rfl, rfl⟩
    · split at h
      · next hplus =>
        obtain ⟨hours, minutes, hhours, hminutes, hhour, hminute, rfl, rfl⟩ :=
          exists_of_map_readOffsetSize? (fun m => (m : ℤ)) h
        exact ⟨.numeric c hours minutes, ⟨by simp [hplus], hhours, hminutes, hhour, hminute⟩,
          by simp [Zone.chars], by simp [Zone.offset, hplus]⟩
      · split at h
        · next hplus hminus =>
          obtain ⟨hours, minutes, hhours, hminutes, hhour, hminute, rfl, rfl⟩ :=
            exists_of_map_readOffsetSize? (fun m => -(m : ℤ)) h
          have hsign : c ∈ ['+', '-', '\u2212'] :=
            List.mem_cons_of_mem _ (by simpa using hminus)
          exact ⟨.numeric c hours minutes, ⟨hsign, hhours, hminutes, hhour, hminute⟩,
            by simp [Zone.chars], by simp [Zone.offset, hplus]⟩
        · cases h
  · cases h

end Parts

/-! ## The reader accepts the written dates -/

/-- No offset starts with a point or a digit. -/
theorem head?_chars {zone : Zone} (h : zone.WellFormed) :
    zone.chars.head? ≠ some '.' ∧ ∀ c ∈ zone.chars.head?, isAsciiDigit c = false := by
  have hall : ∀ c ∈ ['Z', 'z', '+', '-', '\u2212'], c ≠ '.' ∧ isAsciiDigit c = false := by decide
  obtain ⟨c, tail, hchars, hmem⟩ : ∃ c tail, zone.chars = c :: tail ∧
      c ∈ ['Z', 'z', '+', '-', '\u2212'] := by
    cases zone with
    | universal letter => exact ⟨letter, [], rfl, List.mem_append_left ['+', '-', '\u2212'] h⟩
    | numeric sign hours minutes =>
      exact ⟨sign, _, rfl, List.mem_append_right ['Z', 'z'] h.1⟩
  rw [hchars]
  exact ⟨by simpa using (hall c hmem).1, stops_cons (hall c hmem).2 tail⟩

theorem isValid_stamp_iff {d : DateText} :
    d.stamp.isValid = true ↔
      (1 ≤ ofDigits d.month ∧ ofDigits d.month ≤ 12) ∧
        (1 ≤ ofDigits d.day ∧ ofDigits d.day ≤ daysIn (ofDigits d.year) (ofDigits d.month)) ∧
        ofDigits d.hour ≤ 23 ∧ ofDigits d.minute ≤ 59 ∧ ofDigits d.second ≤ 60 := by
  simp only [isValid, Bool.and_eq_true, decide_eq_true_eq, and_assoc]
  rfl

/-- **A written date is read.** -/
theorem read?_chars {d : DateText} (h : d.WellFormed) : read? d.chars = some d.stamp := by
  obtain ⟨hpoint, hdigit⟩ := head?_chars h.zone
  have hzone := readOffset?_append h.zone []
  rw [List.append_nil] at hzone
  have hvalid := isValid_stamp_iff.2 ⟨h.month_bounds, h.day_bounds, h.hour_le, h.minute_le,
    h.second_le⟩
  have hdash := readOneOf?_cons (List.mem_singleton_self '-')
  have hcolon := readOneOf?_cons (List.mem_singleton_self ':')
  -- Each part is read in front of the ones behind it.
  refine Option.bind_eq_some_iff.2 ⟨_, readFour?_append h.year _, ?_⟩
  refine Option.bind_eq_some_iff.2 ⟨_, hdash _, ?_⟩
  refine Option.bind_eq_some_iff.2 ⟨_, readTwo?_append h.month _, ?_⟩
  refine Option.bind_eq_some_iff.2 ⟨_, hdash _, ?_⟩
  refine Option.bind_eq_some_iff.2 ⟨_, readTwo?_append h.day _, ?_⟩
  refine Option.bind_eq_some_iff.2 ⟨_, readOneOf?_cons h.separator _, ?_⟩
  refine Option.bind_eq_some_iff.2 ⟨_, readTwo?_append h.hour _, ?_⟩
  refine Option.bind_eq_some_iff.2 ⟨_, hcolon _, ?_⟩
  refine Option.bind_eq_some_iff.2 ⟨_, readTwo?_append h.minute _, ?_⟩
  refine Option.bind_eq_some_iff.2 ⟨_, hcolon _, ?_⟩
  refine Option.bind_eq_some_iff.2 ⟨_, readTwo?_append h.second _, ?_⟩
  refine Option.bind_eq_some_iff.2 ⟨_, skipFraction?_append h.fraction hpoint hdigit, ?_⟩
  refine Option.bind_eq_some_iff.2 ⟨_, hzone, ?_⟩
  exact if_pos hvalid

/-- **What is read as a date is a written one.** -/
theorem exists_of_read? {cs : List Char} {t : Timestamp} (h : read? cs = some t) :
    ∃ d : DateText, d.WellFormed ∧ d.chars = cs ∧ d.stamp = t := by
  unfold read? at h
  -- The parts in the order in which they are read, each with what is left behind it.
  obtain ⟨⟨_, r₁⟩, h₁, k₁⟩ := Option.bind_eq_some_iff.1 h
  obtain ⟨r₂, hfirst, k₂⟩ := Option.bind_eq_some_iff.1 k₁
  obtain ⟨⟨_, r₃⟩, h₃, k₃⟩ := Option.bind_eq_some_iff.1 k₂
  obtain ⟨r₄, hsecond, k₄⟩ := Option.bind_eq_some_iff.1 k₃
  obtain ⟨⟨_, r₅⟩, h₅, k₅⟩ := Option.bind_eq_some_iff.1 k₄
  obtain ⟨r₆, h₆, k₆⟩ := Option.bind_eq_some_iff.1 k₅
  obtain ⟨⟨_, r₇⟩, h₇, k₇⟩ := Option.bind_eq_some_iff.1 k₆
  obtain ⟨r₈, hthird, k₈⟩ := Option.bind_eq_some_iff.1 k₇
  obtain ⟨⟨_, r₉⟩, h₉, k₉⟩ := Option.bind_eq_some_iff.1 k₈
  obtain ⟨r₁₀, hfourth, k₁₀⟩ := Option.bind_eq_some_iff.1 k₉
  obtain ⟨⟨_, r₁₁⟩, h₁₁, k₁₁⟩ := Option.bind_eq_some_iff.1 k₁₀
  obtain ⟨r₁₂, h₁₂, k₁₂⟩ := Option.bind_eq_some_iff.1 k₁₁
  obtain ⟨⟨_, r₁₃⟩, h₁₃, hrest⟩ := Option.bind_eq_some_iff.1 k₁₂
  obtain ⟨year, hyear, rfl, rfl⟩ := exists_of_readFour? h₁
  obtain ⟨month, hmonth, rfl, rfl⟩ := exists_of_readTwo? h₃
  obtain ⟨day, hday, rfl, rfl⟩ := exists_of_readTwo? h₅
  obtain ⟨separator, hseparator, rfl⟩ := exists_of_readOneOf? h₆
  obtain ⟨hour, hhour, rfl, rfl⟩ := exists_of_readTwo? h₇
  obtain ⟨minute, hminute, rfl, rfl⟩ := exists_of_readTwo? h₉
  obtain ⟨second, hseconds, rfl, rfl⟩ := exists_of_readTwo? h₁₁
  obtain ⟨fraction, hfraction, rfl⟩ := exists_of_skipFraction? h₁₂
  obtain ⟨zone, hzone, rfl, rfl⟩ := exists_of_readOffset? h₁₃
  obtain ⟨c₁, hc₁, rfl⟩ := exists_of_readOneOf? hfirst
  obtain ⟨c₂, hc₂, rfl⟩ := exists_of_readOneOf? hsecond
  obtain ⟨c₃, hc₃, rfl⟩ := exists_of_readOneOf? hthird
  obtain ⟨c₄, hc₄, rfl⟩ := exists_of_readOneOf? hfourth
  obtain rfl := List.mem_singleton.1 hc₁
  obtain rfl := List.mem_singleton.1 hc₂
  obtain rfl := List.mem_singleton.1 hc₃
  obtain rfl := List.mem_singleton.1 hc₄
  dsimp only at hrest
  split at hrest
  · next hend =>
    obtain rfl := Option.some.inj hrest
    rw [Bool.and_eq_true, List.isEmpty_iff] at hend
    obtain ⟨rfl, hvalid⟩ := hend
    let d : DateText := ⟨year, month, day, separator, hour, minute, second, fraction, zone⟩
    obtain ⟨hmonths, hdays, hbounds⟩ := (isValid_stamp_iff (d := d)).1 hvalid
    refine ⟨d, ⟨hyear, hmonth, hday, hseparator, hhour, hminute, hseconds, hfraction, hzone,
      hmonths, hdays, hbounds.1, hbounds.2.1, hbounds.2.2⟩, ?_, rfl⟩
    simp [d, DateText.chars]
  · cases hrest

/-- **The reader accepts exactly the written dates.** -/
theorem read?_eq_some_iff {cs : List Char} {t : Timestamp} :
    read? cs = some t ↔ ∃ d : DateText, d.WellFormed ∧ d.chars = cs ∧ d.stamp = t := by
  refine ⟨exists_of_read?, ?_⟩
  rintro ⟨d, hd, rfl, rfl⟩
  exact read?_chars hd

end Timestamp

/-! ## A date is written with its own digits -/

theorem IsDigits.zeros : IsDigits 2 ['0', '0'] := by decide

theorem Zone.wellFormed_plain {zone : Zone} (h : zone.WellFormed) : zone.plain.WellFormed := by
  cases zone with
  | universal letter => exact ⟨by simp, .zeros, .zeros, by decide, by decide⟩
  | numeric sign hours minutes =>
    refine ⟨?_, h.2⟩
    split <;> simp

/-- The sign is the one of the offset. -/
theorem Zone.offset_plain (zone : Zone) : zone.plain.offset = zone.offset := by
  cases zone with
  | universal letter => rfl
  | numeric sign hours minutes =>
    have hoffset : (numeric sign hours minutes).offset =
        if sign = '+' then (60 * ofDigits hours + ofDigits minutes : ℤ)
        else -(60 * ofDigits hours + ofDigits minutes : ℤ) := rfl
    rw [Zone.plain]
    by_cases hnegative : (numeric sign hours minutes).offset < 0
    · rw [if_pos hnegative, hoffset, Zone.offset, if_neg (by decide), if_neg]
      rintro rfl
      rw [if_pos rfl] at hoffset
      omega
    · rw [if_neg hnegative, Zone.offset, if_pos rfl]
      split at hoffset <;> omega

/-- An offset is written with its own digits. -/
theorem Zone.chars_plain {zone : Zone} (h : zone.WellFormed) :
    zone.plain.chars =
      (if zone.offset < 0 then '-' else '+') ::
        (Timestamp.twoDigits (zone.offset.natAbs / 60) ++
          ':' :: Timestamp.twoDigits (zone.offset.natAbs % 60)) := by
  cases zone with
  | universal letter =>
    have hoffset : (universal letter).offset = 0 := rfl
    have hnought : Timestamp.twoDigits 0 = ['0', '0'] := by decide
    simp [Zone.plain, Zone.chars, hoffset, hnought]
  | numeric sign hours minutes =>
    obtain ⟨-, hhours, hminutes, -, hminute⟩ := h
    have hsize : (numeric sign hours minutes).offset.natAbs =
        60 * ofDigits hours + ofDigits minutes := by
      rw [Zone.offset]
      split <;> omega
    have hdiv : (60 * ofDigits hours + ofDigits minutes) / 60 = ofDigits hours := by omega
    have hmod : (60 * ofDigits hours + ofDigits minutes) % 60 = ofDigits minutes := by omega
    rw [hsize, hdiv, hmod, hhours.twoDigits_ofDigits, hminutes.twoDigits_ofDigits]
    rfl

namespace DateText

variable {d : DateText}

theorem wellFormed_plain (h : d.WellFormed) : d.plain.WellFormed :=
  { h with
    separator := by simp [plain]
    fraction := .inl rfl
    zone := Zone.wellFormed_plain h.zone }

theorem stamp_plain (d : DateText) : d.plain.stamp = d.stamp := by
  rw [stamp, stamp, plain, Zone.offset_plain]

/-- **A timestamp is written with the digits it was read from.** -/
theorem writeChars_stamp (h : d.WellFormed) : d.stamp.writeChars = d.plain.chars := by
  have hzone := Zone.chars_plain h.zone
  simp only [Timestamp.writeChars, stamp, h.year.fourDigits_ofDigits, h.month.twoDigits_ofDigits,
    h.day.twoDigits_ofDigits, h.hour.twoDigits_ofDigits, h.minute.twoDigits_ofDigits,
    h.second.twoDigits_ofDigits, chars, plain, hzone, List.append_assoc, List.cons_append,
    List.nil_append]
  rfl

end DateText

/-! ## Dates in prose -/

/-- The names of the months. -/
def monthNames : List String :=
  ["January", "February", "March", "April", "May", "June", "July", "August", "September", "October",
    "November", "December"]

/-- A written date in prose: the month by its name, and the time on a clock whose first hour, after
midnight and after noon, is twelve. -/
def DateText.IsShownAs (d : DateText) (shown : String) : Prop :=
  ∃ name clock, monthNames[ofDigits d.month - 1]? = some name ∧ IsDigits 2 clock ∧
    1 ≤ ofDigits clock ∧ ofDigits clock ≤ 12 ∧ ofDigits clock % 12 = ofDigits d.hour % 12 ∧
    shown = name ++ " " ++ String.ofList d.day ++ ", " ++ String.ofList d.year ++ " at "
      ++ String.ofList clock ++ ":" ++ String.ofList d.minute
      ++ (if ofDigits d.hour < 12 then " AM" else " PM")

theorem digit_digitChar :
    ∀ n < 10, isAsciiDigit (digitChar n) = true ∧ digitValue (digitChar n) = n := by
  decide

theorem isDigits_twoDigits (n : ℕ) : IsDigits 2 (Timestamp.twoDigits n) := by
  refine ⟨rfl, fun c hc => ?_⟩
  simp only [Timestamp.twoDigits, List.mem_cons, List.not_mem_nil, or_false] at hc
  rcases hc with rfl | rfl <;> exact (digit_digitChar _ (Nat.mod_lt _ (by decide))).1

theorem ofDigits_twoDigits {n : ℕ} (h : n < 100) : ofDigits (Timestamp.twoDigits n) = n := by
  rw [Timestamp.twoDigits, ofDigits_two, (digit_digitChar _ (Nat.mod_lt _ (by decide))).2,
    (digit_digitChar _ (Nat.mod_lt _ (by decide))).2]
  omega

theorem getElem?_monthNames {month : ℕ} (h : 1 ≤ month ∧ month ≤ 12) :
    monthNames[month - 1]? = some (Timestamp.monthName month) := by
  obtain ⟨hlow, hhigh⟩ := h
  interval_cases month <;> rfl

/-- The hour after midnight and the one after noon are twelve, the others count from there. -/
theorem clockHour_spec (hour : ℕ) :
    1 ≤ Timestamp.clockHour hour ∧ Timestamp.clockHour hour ≤ 12 ∧
      Timestamp.clockHour hour % 12 = hour % 12 := by
  unfold Timestamp.clockHour
  split <;> omega

/-- **A date is shown in prose.** -/
theorem DateText.isShownAs_prose {d : DateText} (h : d.WellFormed) : d.IsShownAs d.stamp.prose := by
  obtain ⟨hlow, hhigh, hmod⟩ := clockHour_spec (ofDigits d.hour)
  have hclock := ofDigits_twoDigits (Nat.lt_of_le_of_lt hhigh (by decide : 12 < 100))
  refine ⟨_, Timestamp.twoDigits (Timestamp.clockHour (ofDigits d.hour)),
    getElem?_monthNames h.month_bounds, isDigits_twoDigits _, ?_, ?_, ?_, ?_⟩
  · rw [hclock]
    exact hlow
  · rw [hclock]
    exact hhigh
  · rw [hclock]
    exact hmod
  · simp only [Timestamp.prose, stamp, h.day.twoDigits_ofDigits, h.year.fourDigits_ofDigits,
      h.minute.twoDigits_ofDigits]
    rfl

/-! ## Dates on the page -/

theorem IsDigits.isUnescaped {n : ℕ} {cs : List Char} (h : IsDigits n cs) :
    IsUnescaped (String.ofList cs) := by
  apply IsUnescaped.of_forall (p := isAsciiDigit) (by decide)
  rw [String.toList_ofList]
  exact h.2

/-- The name of a month starts with a letter and needs no entity. -/
theorem isUnescaped_of_mem_monthNames {name : String} (h : name ∈ monthNames) :
    IsUnescaped name ∧ ∃ c rest, name.toList = c :: rest ∧ isAsciiDigit c = false := by
  simp only [monthNames, List.mem_cons, List.not_mem_nil, or_false] at h
  rcases h with rfl | rfl | rfl | rfl | rfl | rfl | rfl | rfl | rfl | rfl | rfl | rfl
  all_goals
    refine ⟨.literal rfl (by decide), ?_⟩
    rw [String.toList_ofList]
    exact ⟨_, _, rfl, by decide⟩

theorem DateText.IsShownAs.isUnescaped {d : DateText} {shown : String} (hd : d.WellFormed)
    (h : d.IsShownAs shown) : IsUnescaped shown := by
  obtain ⟨name, clock, hname, hclock, -, -, -, rfl⟩ := h
  have hmonth := (isUnescaped_of_mem_monthNames (List.mem_of_getElem? hname)).1
  have hhalf : IsUnescaped (if ofDigits d.hour < 12 then " AM" else " PM") := by
    split <;> exact .literal rfl (by decide)
  refine .append (.append (.append (.append (.append (.append (.append (.append (.append
    hmonth ?_) hd.day.isUnescaped) ?_) hd.year.isUnescaped) ?_) hclock.isUnescaped) ?_)
    hd.minute.isUnescaped) hhalf
  all_goals exact .literal rfl (by decide)

/-- Prose starts with a letter, and a written date with a digit. -/
theorem DateText.IsShownAs.ne_chars {d d' : DateText} {shown : String} (hd' : d'.WellFormed)
    (h : d.IsShownAs shown) : shown ≠ String.ofList d'.chars := by
  obtain ⟨name, clock, hname, -, -, -, -, rfl⟩ := h
  obtain ⟨-, c, rest, hletter, hc⟩ := isUnescaped_of_mem_monthNames (List.mem_of_getElem? hname)
  obtain ⟨digit, digits, hyear⟩ := List.exists_cons_of_length_pos (hd'.year.1 ▸ (by decide : 0 < 4))
  have hdigit := hd'.year.2 digit (hyear ▸ List.mem_cons_self)
  intro heq
  have hhead := congrArg (fun s => s.toList.head?) heq
  simp only [String.toList_append, hletter, chars, hyear, String.toList_ofList, List.cons_append,
    List.head?_cons, Option.some.injEq] at hhead
  rw [← hhead, hc] at hdigit
  cases hdigit

/-! ## The date of a report -/

/-- What becomes of a written date in a report. -/
structure KeepsDate (d : DateText) (report : Report) : Prop where
  /-- The report has the local date and time of the date, to the second, and its offset. -/
  analysisDate_eq : report.analysisDate = String.ofList d.plain.chars
  /-- The date of the report is read as the date was. -/
  read?_analysisDate : Timestamp.read? report.analysisDate.toList = some d.stamp
  /-- A report at the time that is read from it has the same date. -/
  rebuilt : ∀ (run : Run) (t : Timestamp), Timestamp.read? report.analysisDate.toList = some t →
    (Report.ofRun run t).analysisDate = report.analysisDate
  /-- The header of the page has the date in prose. -/
  header : ∃ shown, d.IsShownAs shown ∧ shown ≠ report.analysisDate ∧
    Page.render (Page.header report) =
      "<div class=\"header\">\n    <h1>MATLAB Code Quality Analysis</h1>\n"
        ++ "    <p class=\"timestamp\">Generated on " ++ shown ++ "</p>\n</div>\n"
  /-- The header is part of the page. -/
  header_infix : (Page.render (Page.header report)).toList <:+: report.pageText.toList

theorem Page.render_header_infix (report : Report) :
    (render (header report)).toList <:+: report.pageText.toList := by
  rw [Report.pageText, toList_render, toList_render, ofReport]
  simp only [List.append_assoc, chars_append]
  exact ⟨chars head ++ chars [.markup "<body>\n<div class=\"container\">\n"], _, by
    simp only [List.append_assoc]; rfl⟩

/-- A report at the time of a date keeps it. -/
theorem DateText.WellFormed.keepsDate {d : DateText} (h : d.WellFormed) (run : Run) :
    KeepsDate d (Report.ofRun run d.stamp) := by
  have hdate : (Report.ofRun run d.stamp).analysisDate = String.ofList d.plain.chars :=
    congrArg String.ofList (d.writeChars_stamp h)
  have hread : Timestamp.read? (Report.ofRun run d.stamp).analysisDate.toList = some d.stamp := by
    rw [hdate, String.toList_ofList, Timestamp.read?_chars (wellFormed_plain h), stamp_plain]
  have hshown := isShownAs_prose h
  refine ⟨hdate, hread, fun run' t ht => ?_, ⟨_, hshown, ?_, ?_⟩, Page.render_header_infix _⟩
  · rw [hread] at ht
    obtain rfl := Option.some.inj ht
    rfl
  · rw [hdate]
    exact hshown.ne_chars (wellFormed_plain h)
  · simp only [Page.header, Page.displayDate, hread, Page.render, List.map_cons, List.map_nil,
      Page.Piece.render, (hshown.isUnescaped h).escape_eq, String.join_cons, String.join_nil,
      String.append_assoc, String.append_empty]

/-- **A report keeps its date**: the reader accepts the written dates, whatever their form, and a
report at the time of one has its digits, is read back as it and shows it in prose. -/
theorem keepsDate_ofRun :
    (∀ (cs : List Char) (t : Timestamp), Timestamp.read? cs = some t ↔
      ∃ d : DateText, d.WellFormed ∧ d.chars = cs ∧ d.stamp = t) ∧
    ∀ d : DateText, d.WellFormed → ∀ run : Run, KeepsDate d (Report.ofRun run d.stamp) :=
  ⟨fun _ _ => Timestamp.read?_eq_some_iff, fun _ h run => h.keepsDate run⟩

/-- A leap second on the last day of February in the first of all years, a minute less than a day
behind universal time. -/
def leapSecondText : DateText where
  year := ['0', '0', '0', '0']
  month := ['0', '2']
  day := ['2', '9']
  separator := 't'
  hour := ['1', '2']
  minute := ['5', '9']
  second := ['6', '0']
  fraction := ['.', '9', '9']
  zone := .numeric '\u2212' ['2', '3'] ['5', '9']

theorem wellFormed_leapSecondText : leapSecondText.WellFormed where
  year := by decide
  month := by decide
  day := by decide
  separator := by decide
  hour := by decide
  minute := by decide
  second := by decide
  fraction := .inr ⟨'9', ['9'], rfl, by decide⟩
  zone := ⟨by decide, by decide, by decide, by decide, by decide⟩
  month_bounds := by decide
  day_bounds := by decide
  hour_le := by decide
  minute_le := by decide
  second_le := by decide

theorem keepsDate_ofRun_leapSecond :
    Timestamp.read? "0000-02-29t12:59:60.99\u221223:59".toList = some leapSecondText.stamp ∧
      KeepsDate leapSecondText (Report.ofRun (Run.ofAnalyses []) leapSecondText.stamp) ∧
      (Report.ofRun (Run.ofAnalyses []) leapSecondText.stamp).analysisDate =
        "0000-02-29T12:59:60-23:59" := by
  have hkeeps := keepsDate_ofRun.2 leapSecondText wellFormed_leapSecondText (Run.ofAnalyses [])
  refine ⟨?_, hkeeps, hkeeps.analysisDate_eq⟩
  rw [String.toList_ofList]
  exact (keepsDate_ofRun.1 _ _).2 ⟨leapSecondText, wellFormed_leapSecondText, rfl, rfl⟩

end MatlabQuality
