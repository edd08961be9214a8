import MatlabQuality.Proofs.Text.Trim
import MatlabQuality.Source.Function

/-!
# Declarations and blanks

A declaration is read from an untrimmed line, with optional parts that are tried in turn.  It ends
at a closing parenthesis, so blanks after it are never reached, and blanks before it are skipped:
the declaration of a line is the declaration of the trimmed line.  A line that declares a function
also opens a block, although openers are recognised by another rule.

## Main statements

* `Declaration.ofLine?_trim` — blanks at the ends of a line do not change its declaration.
* `opensBlock_of_ofLine?` — every declaration opens a block.
* `not_opensBlock_of_closesBlock` — no line both opens and closes a block.
-/

namespace MatlabQuality.Source

open MatlabQuality.Text

namespace Declaration

variable {b : Char}

theorem dropWhile_isWord_append_blank (hb : isBlank b = true) (cs : List Char) :
    (cs ++ [b]).dropWhile isWord = cs.dropWhile isWord ++ [b] := by
  induction cs with
  | nil => simp [isWord_of_isBlank hb]
  | cons c cs ih =>
    by_cases hc : isWord c = true
    · simp [hc, ih]
    · simp [hc]

/-- The parameter text ends at the first closing parenthesis, whatever follows it. -/
theorem takeWhile_append_of_mem {cs : List Char} (h : ')' ∈ cs) (ds : List Char) :
    (cs ++ ds).takeWhile (· ≠ ')') = cs.takeWhile (· ≠ ')') := by
  induction cs with
  | nil => simp at h
  | cons c cs ih =>
    by_cases hc : c = ')'
    · simp [hc]
    · have hmem : ')' ∈ cs := by simpa [Ne.symm hc] using h
      simpa [hc] using ih hmem

/-! ## A blank at the end

Each part of the grammar is skipped over or ends before the blank. -/

theorem signature?_append_blank (hb : isBlank b = true) (cs : List Char) :
    signature? (cs ++ [b]) = signature? cs := by
  have hopen : b ≠ '(' := ne_of_isBlank hb (by decide)
  have hclose : ')' ≠ b := (ne_of_isBlank hb (by decide)).symm
  simp only [signature?, takeWhile_isWord_append_blank hb, dropWhile_isWord_append_blank hb]
  rcases trimStart_append_blank hb (cs.dropWhile isWord) with h | ⟨h, h'⟩
  · rw [h]
    cases trimStart (cs.dropWhile isWord) with
    | nil => simp [hopen]
    | cons c rest =>
      by_cases hc : c = '('
      · subst hc
        by_cases hmem : ')' ∈ rest
        · have hparameters := takeWhile_append_of_mem hmem [b]
          simp only [List.cons_append, List.mem_append, hmem, true_or, and_true, hparameters]
        · simp [hmem, hclose]
      · simp [hc]
  · rw [h, h']

theorem assigned?_append_blank (hb : isBlank b = true) (cs : List Char) :
    assigned? (cs ++ [b]) = assigned? cs := by
  have hequals : b ≠ '=' := ne_of_isBlank hb (by decide)
  simp only [assigned?]
  rcases trimStart_append_blank hb cs with h | ⟨h, h'⟩
  · rw [h]
    cases trimStart cs with
    | nil => simp [hequals]
    | cons c rest =>
      by_cases hc : c = '='
      · subst hc
        rcases trimStart_append_blank hb rest with hr | ⟨hr, hr'⟩
        · simp [hr, signature?_append_blank hb]
        · simp [hr, hr']
      · simp [hc]
  · rw [h, h']

theorem bracketed?_append_blank (hb : isBlank b = true) (cs : List Char) :
    bracketed? (cs ++ [b]) = bracketed? cs := by
  have hbracket : b ≠ ']' := ne_of_isBlank hb (by decide)
  induction cs with
  | nil => simp [bracketed?, hbracket]
  | cons c cs ih => simp [bracketed?, assigned?_append_blank hb, ih]

theorem ofHeader?_of_ne_bracket {c : Char} (h : c ≠ '[') (cs : List Char) :
    ofHeader? (c :: cs) =
      if leadingWord (c :: cs) = [] then none
      else (assigned? ((c :: cs).dropWhile isWord)).or (signature? (c :: cs)) := by
  simp [ofHeader?, h]

theorem ofHeader?_append_blank (hb : isBlank b = true) (cs : List Char) :
    ofHeader? (cs ++ [b]) = ofHeader? cs := by
  have hbracket : b ≠ '[' := ne_of_isBlank hb (by decide)
  cases cs with
  | nil => simp [ofHeader?, hbracket, leadingWord, isWord_of_isBlank hb]
  | cons c cs =>
    by_cases hc : c = '['
    · subst hc
      simp [ofHeader?, bracketed?_append_blank hb]
    · have hword := takeWhile_isWord_append_blank hb (c :: cs)
      have hrest := dropWhile_isWord_append_blank hb (c :: cs)
      have hsignature := signature?_append_blank hb (c :: cs)
      simp only [List.cons_append] at hword hrest hsignature ⊢
      rw [ofHeader?_of_ne_bracket hc, ofHeader?_of_ne_bracket hc, leadingWord, leadingWord, hword,
        hrest, hsignature, assigned?_append_blank hb]

/-- What follows the keyword, with the blanks that must stand between. -/
theorem spaced_append_blank (hb : isBlank b = true) (rest : List Char) :
    (if trimStart (rest ++ [b]) ≠ rest ++ [b] then ofHeader? (trimStart (rest ++ [b])) else none) =
      if trimStart rest ≠ rest then ofHeader? (trimStart rest) else none := by
  cases rest with
  | nil => simp [trimStart, hb, ofHeader?, leadingWord]
  | cons c rest =>
    by_cases hc : isBlank c = true
    · have hskip : ∀ cs : List Char, trimStart (c :: cs) ≠ c :: cs := by
        intro cs heq
        have hle : (trimStart cs).length ≤ cs.length := (List.dropWhile_suffix _).length_le
        rw [← trimStart_cons_of_isBlank hc cs, heq, List.length_cons] at hle
        omega
      rw [List.cons_append, if_pos (hskip _), if_pos (hskip _), ← List.cons_append]
      rcases trimStart_append_blank hb (c :: rest) with h | ⟨h, h'⟩
      · rw [h, ofHeader?_append_blank hb]
      · rw [h, h']
    · have hc : isBlank c = false := by simpa using hc
      simp [trimStart_cons_of_not_isBlank hc]

theorem ofLine?_append_blank (hb : isBlank b = true) (line : List Char) :
    ofLine? (line ++ [b]) = ofLine? line := by
  rcases trimStart_append_blank hb line with h | ⟨h, h'⟩
  · simp only [ofLine?, h, leadingWord, takeWhile_isWord_append_blank hb,
      dropWhile_isWord_append_blank hb]
    by_cases hword : (trimStart line).takeWhile isWord = "function".toList
    · simp only [hword, true_and]
      exact spaced_append_blank hb _
    · simp only [hword, false_and, if_false]
  · simp [ofLine?, h, h']

/-! ## Blanks at both ends -/

theorem ofLine?_cons_blank (hb : isBlank b = true) (line : List Char) :
    ofLine? (b :: line) = ofLine? line := by
  simp only [ofLine?, trimStart_cons_of_isBlank hb]

/-- **Blanks at the ends of a line do not change its declaration.** -/
theorem ofLine?_trim (line : List Char) : ofLine? (trim line) = ofLine? line :=
  apply_trim (fun _ cs hb => ofLine?_cons_blank hb cs) (fun cs _ hb => ofLine?_append_blank hb cs)
    line

/-- A declaration starts with its keyword. -/
theorem leadingWord_of_ofLine? {line : List Char} {d : Declaration} (h : ofLine? line = some d) :
    leadingWord (trimStart line) = "function".toList := by
  simp only [ofLine?] at h
  split at h
  · next hstart => exact hstart.1
  · cases h

end Declaration

/-! ## Openers and closers -/

/-- **Every declaration opens a block.** -/
theorem opensBlock_of_ofLine? {line : List Char} {d : Declaration}
    (h : Declaration.ofLine? line = some d) : opensBlock line = true := by
  rw [opensBlock, leadingWord_trim, Declaration.leadingWord_of_ofLine? h]
  decide

/-- No line both opens and closes a block. -/
theorem not_opensBlock_of_closesBlock {line : List Char} (h : closesBlock line = true) :
    opensBlock line = false := by
  have htrim : trim line = closingText := by simpa [closesBlock] using h
  rw [opensBlock, htrim]
  decide

end MatlabQuality.Source
