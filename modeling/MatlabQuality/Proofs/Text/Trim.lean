import MatlabQuality.Source.Block

/-!
# Trimming

Blanks are no word characters, and trimming takes one blank after the other off an end.  A reading
of texts that one blank at an end does not change is therefore not changed by trimming, and that is
how every later module shows that a reading is blind to indentation.

## Main statements

* `isWord_of_isBlank` — no blank is a word character.
* `apply_trimStart`, `apply_trimEnd` — what one blank does not change, trimming does not change.
* `leadingWord_trim` — the first word of a line stands where its indentation ends.
-/

namespace MatlabQuality.Text

/-! ## Blanks -/

/-- The code points of the blanks. -/
def blankCodePoints : List Nat :=
  List.range' 9 5 ++ [0x20, 0x85, 0xA0, 0x1680] ++ List.range' 0x2000 11
    ++ [0x2028, 0x2029, 0x202F, 0x205F, 0x3000]

theorem toNat_mem_blankCodePoints {c : Char} (h : isBlank c = true) :
    c.toNat ∈ blankCodePoints := by
  simp only [isBlank, Bool.or_eq_true, Bool.and_eq_true, decide_eq_true_eq, beq_iff_eq] at h
  simp only [blankCodePoints, List.mem_append, List.mem_range'_1, List.mem_cons,
    List.not_mem_nil, or_false]
  omega

/-- No blank is a word character. -/
theorem isWord_of_isBlank {c : Char} (h : isBlank c = true) : isWord c = false := by
  have hall : ∀ n ∈ blankCodePoints, inRanges wordRanges n = false := by decide +kernel
  exact hall _ (toNat_mem_blankCodePoints h)

/-- A character that is not blank is no blank. -/
theorem ne_of_isBlank {b c : Char} (hb : isBlank b = true) (hc : isBlank c = false) : b ≠ c := by
  rintro rfl
  simp [hb] at hc

/-! ## One blank at an end -/

theorem trimStart_cons_of_isBlank {b : Char} (hb : isBlank b = true) (cs : List Char) :
    trimStart (b :: cs) = trimStart cs := by
  simp [trimStart, hb]

theorem trimStart_cons_of_not_isBlank {c : Char} (hc : isBlank c = false) (cs : List Char) :
    trimStart (c :: cs) = c :: cs := by
  simp [trimStart, hc]

theorem trimEnd_append_blank {b : Char} (hb : isBlank b = true) (cs : List Char) :
    trimEnd (cs ++ [b]) = trimEnd cs := by
  simp [trimEnd, hb]

theorem trimEnd_append_not_blank {c : Char} (hc : isBlank c = false) (cs : List Char) :
    trimEnd (cs ++ [c]) = cs ++ [c] := by
  simp [trimEnd, hc]

/-- A blank at the end of a text is one of its leading blanks or stays where it is. -/
theorem trimStart_append_blank {b : Char} (hb : isBlank b = true) (cs : List Char) :
    trimStart (cs ++ [b]) = trimStart cs ++ [b] ∨
      trimStart cs = [] ∧ trimStart (cs ++ [b]) = [] := by
  induction cs with
  | nil => exact .inr ⟨rfl, by simp [trimStart, hb]⟩
  | cons c cs ih =>
    by_cases hc : isBlank c = true
    · rw [List.cons_append, trimStart_cons_of_isBlank hc, trimStart_cons_of_isBlank hc]
      exact ih
    · have hc : isBlank c = false := by simpa using hc
      rw [List.cons_append, trimStart_cons_of_not_isBlank hc, trimStart_cons_of_not_isBlank hc]
      exact .inl rfl

theorem trim_cons_blank {b : Char} (hb : isBlank b = true) (cs : List Char) :
    trim (b :: cs) = trim cs := by
  rw [trim, trimStart_cons_of_isBlank hb, trim]

theorem trim_append_blank {b : Char} (hb : isBlank b = true) (cs : List Char) :
    trim (cs ++ [b]) = trim cs := by
  rcases trimStart_append_blank hb cs with h | ⟨h, h'⟩
  · rw [trim, h, trimEnd_append_blank hb, trim]
  · rw [trim, h', trim, h]

/-! ## Readings that blanks at an end do not change -/

section Readings

variable {β : Type} {read : List Char → β}

/-- **What a blank in front does not change, indentation does not change.** -/
theorem apply_trimStart (h : ∀ b cs, isBlank b = true → read (b :: cs) = read cs)
    (cs : List Char) : read (trimStart cs) = read cs := by
  induction cs with
  | nil => rfl
  | cons c cs ih =>
    by_cases hc : isBlank c = true
    · rw [trimStart_cons_of_isBlank hc, h c cs hc, ih]
    · rw [trimStart_cons_of_not_isBlank (by simpa using hc)]

/-- **What a blank at the end does not change, trailing blanks do not change.** -/
theorem apply_trimEnd (h : ∀ cs b, isBlank b = true → read (cs ++ [b]) = read cs)
    (cs : List Char) : read (trimEnd cs) = read cs := by
  -- The last character decides, so the induction is on the reversed text.
  rw [← List.reverse_reverse cs]
  induction cs.reverse with
  | nil => rfl
  | cons c cs ih =>
    rw [List.reverse_cons]
    by_cases hc : isBlank c = true
    · rw [trimEnd_append_blank hc, h _ c hc, ih]
    · rw [trimEnd_append_not_blank (by simpa using hc)]

/-- What a blank at neither end changes, trimming does not change. -/
theorem apply_trim (hstart : ∀ b cs, isBlank b = true → read (b :: cs) = read cs)
    (hend : ∀ cs b, isBlank b = true → read (cs ++ [b]) = read cs) (cs : List Char) :
    read (trim cs) = read cs := by
  rw [trim, apply_trimEnd hend, apply_trimStart hstart]

end Readings

/-- Trimming once is enough. -/
@[simp] theorem trim_trim (cs : List Char) : trim (trim cs) = trim cs :=
  apply_trim (fun _ cs hb => trim_cons_blank hb cs) (fun cs _ hb => trim_append_blank hb cs) cs

/-! ## The first word of a line -/

/-- A run of word characters ends at a blank. -/
theorem takeWhile_isWord_append_blank {b : Char} (hb : isBlank b = true) (cs : List Char) :
    (cs ++ [b]).takeWhile isWord = cs.takeWhile isWord := by
  induction cs with
  | nil => simp [isWord_of_isBlank hb]
  | cons c cs ih =>
    by_cases hc : isWord c = true
    · simp [hc, ih]
    · simp [hc]

end MatlabQuality.Text

namespace MatlabQuality.Source

open MatlabQuality.Text

/-- The first word of a line stands where its indentation ends. -/
theorem leadingWord_trim (line : List Char) :
    leadingWord (trim line) = leadingWord (trimStart line) :=
  apply_trimEnd (fun cs _ hb => takeWhile_isWord_append_blank hb cs) (trimStart line)

end MatlabQuality.Source
