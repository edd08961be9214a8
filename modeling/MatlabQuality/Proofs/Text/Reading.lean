import MatlabQuality.Proofs.Text.Lines
import MatlabQuality.Proofs.Text.Trim
import MatlabQuality.Source.Literal

/-!
# Readings that blanks cut

The words of a text, its doubled characters and its number literals are read from the whole text
at once, across line feeds.  They still see no further than a blank: what such a reading makes of
a text is put together from what it makes of the two sides of any blank.  That one law says that
line feeds separate, and that blanks at the ends of a line are nothing.

## Main definitions

* `CutAtBlanks` — a reading that is put together at every blank.

## Main statements

* `CutAtBlanks.apply_eq_of_trim_lines_eq` — such a reading depends on the trimmed lines alone.
* `cutAtBlanks_wordRuns`, `cutAtBlanks_pairs`, `cutAtBlanks_literals` — the three readings.
-/

namespace MatlabQuality.Text

/-- A reading that is put together, by `join`, from the two sides of any blank; reading nothing
is neutral. -/
structure CutAtBlanks {β : Type} (join : β → β → β) (read : List Char → β) : Prop where
  cut : ∀ xs b ys, isBlank b = true → read (xs ++ b :: ys) = join (read xs) (read ys)
  nil_join : ∀ cs, join (read []) (read cs) = read cs
  join_nil : ∀ cs, join (read cs) (read []) = read cs

namespace CutAtBlanks

variable {β : Type} {join : β → β → β} {read : List Char → β}

/-- Trimming takes nothing away from such a reading. -/
theorem apply_trim (h : CutAtBlanks join read) (cs : List Char) : read (trim cs) = read cs := by
  refine Text.apply_trim ?_ ?_ cs
  · intro b cs hb
    rw [← List.nil_append (b :: cs), h.cut _ b _ hb, h.nil_join]
  · intro cs b hb
    rw [h.cut cs b [] hb, h.join_nil]

/-- Trimming each of some joined lines takes nothing away: every line feed cuts. -/
theorem apply_joinWith_map_trim (h : CutAtBlanks join read) (ls : List (List Char)) :
    read (joinWith ['\n'] (ls.map trim)) = read (joinWith ['\n'] ls) := by
  induction ls with
  | nil => rfl
  | cons l ls ih =>
    by_cases hnil : ls = []
    · subst hnil
      exact h.apply_trim l
    · have hnil' : ls.map trim ≠ [] := by simpa using hnil
      rw [List.map_cons, joinWith_cons hnil', joinWith_cons hnil, List.singleton_append,
        List.singleton_append, h.cut _ _ _ isBlank_lineFeed, h.cut _ _ _ isBlank_lineFeed,
        h.apply_trim, ih]

/-- **A reading that blanks cut depends on the trimmed lines of a text alone.** -/
theorem apply_eq_of_trim_lines_eq (h : CutAtBlanks join read) {cs ds : List Char}
    (heq : (lines cs).map trim = (lines ds).map trim) : read cs = read ds := by
  rw [← joinWith_lines cs, ← joinWith_lines ds, ← h.apply_joinWith_map_trim, heq,
    h.apply_joinWith_map_trim]

end CutAtBlanks

/-! ## Words -/

/-- A character that belongs to no word is a segment of its own, and the segments on its two sides
do not touch. -/
theorem segments_append_other {b : Char} (hb : isWord b = false) (xs ys : List Char) :
    segments (xs ++ b :: ys) = segments xs ++ .other b :: segments ys := by
  induction xs with
  | nil => simp [segments, hb]
  | cons c xs ih =>
    rw [List.cons_append, segments, segments, ih]
    by_cases hc : isWord c = true
    · rw [if_pos hc, if_pos hc]
      -- A word grows to the left only, so only the first segment matters.
      cases segments xs with
      | nil => rfl
      | cons s rest => cases s <;> rfl
    · rw [if_neg hc, if_neg hc]
      rfl

theorem cutAtBlanks_wordRuns : CutAtBlanks (· ++ ·) wordRuns where
  cut xs b ys hb := by
    have hother : Segment.word? (.other b) = none := rfl
    simp [wordRuns, segments_append_other (isWord_of_isBlank hb), hother]
  nil_join cs := by simp [wordRuns, segments]
  join_nil cs := by simp [wordRuns, segments]

/-! ## Doubled characters -/

theorem pairs_cons_of_ne {b c : Char} (h : b ≠ c) (cs : List Char) :
    pairs c (b :: cs) = pairs c cs := by
  cases cs with
  | nil => rfl
  | cons d cs => simp [pairs, h]

/-- Another character separates the occurrences of a doubled one. -/
theorem pairs_append_of_ne {b c : Char} (h : b ≠ c) (xs ys : List Char) :
    pairs c (xs ++ b :: ys) = pairs c xs + pairs c ys := by
  fun_induction pairs c xs with
  | case1 a d rest hpair ih =>
    rw [List.cons_append, List.cons_append, pairs, if_pos hpair, ih, Nat.add_assoc]
  | case2 a d rest hpair ih =>
    rw [List.cons_append, List.cons_append, pairs, if_neg hpair, ← ih]
    rfl
  | case3 xs hshort =>
    match xs, hshort with
    | [], _ => simp [pairs_cons_of_ne h]
    | [a], _ => simp [pairs, h, pairs_cons_of_ne h]
    | a :: d :: rest, hshort => exact absurd rfl (hshort a d rest)

theorem cutAtBlanks_pairs {c : Char} (hc : isBlank c = false) :
    CutAtBlanks (· + ·) (pairs c) where
  cut xs _ ys hb := pairs_append_of_ne (ne_of_isBlank hb hc) xs ys
  nil_join cs := by simp [pairs]
  join_nil cs := by simp [pairs]

end MatlabQuality.Text

namespace MatlabQuality.Source

open MatlabQuality.Text

/-! ## Number literals -/

/-- A point and a word, which make a fraction of what follows a whole part. -/
def StartsFraction (ss : List Segment) : Prop :=
  ∃ part rest, ss = .other '.' :: .word part :: rest

/-- A word that no fraction follows is read alone. -/
theorem literalsOf_word {ss : List Segment} (h : ¬StartsFraction ss) (whole : List Char) :
    literalsOf (.word whole :: ss) =
      if isNumeral whole then whole :: literalsOf ss else literalsOf ss := by
  rw [literalsOf]
  intro part rest heq
  exact h ⟨part, rest, heq⟩

/-- A character other than a point does not turn what is before it into a fraction. -/
theorem not_startsFraction_append {b : Char} (hb : b ≠ '.') {ss : List Segment}
    (h : ¬StartsFraction ss) (ts : List Segment) : ¬StartsFraction (ss ++ .other b :: ts) := by
  rintro ⟨part, rest, heq⟩
  match ss, h with
  | [], _ => simp [hb] at heq
  | [s], _ => simp at heq
  | s :: s' :: ss, h =>
    simp only [List.cons_append, List.cons.injEq] at heq
    exact h ⟨part, ss, by rw [heq.1, heq.2.1]⟩

/-- Only a point joins two words to one literal: any other character between them separates. -/
theorem literalsOf_append_other {b : Char} (hb : b ≠ '.') (ss ts : List Segment) :
    literalsOf (ss ++ .other b :: ts) = literalsOf ss ++ literalsOf ts := by
  fun_induction literalsOf ss with
  | case1 whole part rest hwhole hpart ih => simp [literalsOf, hwhole, hpart, ih]
  | case2 whole part rest hwhole hpart ih =>
    simp only [List.cons_append] at ih ⊢
    rw [literalsOf, if_pos hwhole, if_neg hpart, ih]
  | case3 whole part rest hwhole ih =>
    simp only [List.cons_append] at ih ⊢
    rw [literalsOf, if_neg hwhole, ih]
  | case4 whole rest hshape hwhole ih =>
    have hrest : ¬StartsFraction rest := fun ⟨part, rest', heq⟩ => hshape part rest' heq
    rw [List.cons_append, literalsOf_word (not_startsFraction_append hb hrest ts), if_pos hwhole,
      ih]
    rfl
  | case5 whole rest hshape hwhole ih =>
    have hrest : ¬StartsFraction rest := fun ⟨part, rest', heq⟩ => hshape part rest' heq
    rw [List.cons_append, literalsOf_word (not_startsFraction_append hb hrest ts), if_neg hwhole,
      ih]
  | case6 c rest ih => simp [literalsOf, ih]
  | case7 => simp [literalsOf]

theorem cutAtBlanks_literals : CutAtBlanks (· ++ ·) literals where
  cut xs b ys hb := by
    rw [literals, segments_append_other (isWord_of_isBlank hb),
      literalsOf_append_other (ne_of_isBlank hb (by decide))]
    rfl
  nil_join cs := rfl
  join_nil cs := by simp [literals, segments, literalsOf]

end MatlabQuality.Source
