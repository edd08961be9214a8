import MatlabQuality.Proofs.Text.Runs

/-!
# Number literals

A text is read literal by literal: it starts with a character between words, with a word that is no
numeral, or with a literal.  The segments of a source and a search for numbers are two such
readings.  The search takes digits between two edges of words, with a fraction where there is one;
it tries the fraction first and drops it where its digits go on as a longer word.

## Main definitions

* `StartsPart`, `IsLiteral` — what a literal is, in front of the rest of a text.
* `numberPattern` — what is searched for.

## Main statements

* `isWord_of_isDigit` — digits are word characters.
* `literal_induction` — a text is read literal by literal.
* `literals_of_isLiteral`, `occurrences_of_isLiteral` — a literal is read, and found.
* `map_takeWhile_occurrences` — the search finds the literals.
-/

namespace MatlabQuality.Text

/-! ## Digits are word characters -/

/-- Whether some ranges lie within others, both in increasing order: those that end within the first
of the others are passed, and the next one begins no earlier than it. -/
def rangesWithin : List (Nat × Nat) → List (Nat × Nat) → Bool
  | [], _ => true
  | _ :: _, [] => false
  | r :: rs, (first, last) :: ranges =>
    first ≤ r.1 && rangesWithin ((r :: rs).dropWhile (·.2 ≤ last)) ranges

/-- Ranges that end before a code point can be left out. -/
theorem inRanges_dropWhile {rs : List (Nat × Nat)} {n last : Nat} (hlast : last < n)
    (h : inRanges rs n = true) : inRanges (rs.dropWhile (·.2 ≤ last)) n = true := by
  induction rs with
  | nil => exact h
  | cons r rs ih =>
    by_cases hends : r.2 ≤ last
    · rw [List.dropWhile_cons_of_pos (by simpa using hends)]
      apply ih
      have hnot : ¬n ≤ r.2 := by omega
      by_cases hfirst : n < r.1
      · simp [inRanges, hfirst] at h
      · simpa [inRanges, hfirst, hnot] using h
    · rwa [List.dropWhile_cons_of_neg (by simpa using hends)]

/-- **Ranges within others** hold no code point besides theirs. -/
theorem inRanges_of_rangesWithin {rs ranges : List (Nat × Nat)} {n : Nat}
    (hwithin : rangesWithin rs ranges = true) (h : inRanges rs n = true) :
    inRanges ranges n = true := by
  induction ranges generalizing rs with
  | nil =>
    cases rs with
    | nil => exact h
    | cons r rs => simp [rangesWithin] at hwithin
  | cons range ranges ih =>
    cases rs with
    | nil => simp [inRanges] at h
    | cons r rs =>
      have hfirst : ¬n < r.1 := by
        intro hlt
        simp [inRanges, hlt] at h
      rw [rangesWithin, Bool.and_eq_true, decide_eq_true_eq] at hwithin
      rw [inRanges, if_neg (by omega)]
      split
      · rfl
      · next hlast => exact ih hwithin.2 (inRanges_dropWhile (by omega) h)

theorem isWord_of_isDigit {c : Char} (h : isDigit c = true) : isWord c = true :=
  inRanges_of_rangesWithin (by decide +kernel) h

end MatlabQuality.Text

namespace MatlabQuality.Source

open MatlabQuality.Text

/-! ## Reading literals -/

/-- A text starts with what makes a fraction of a whole part before it: a point, and a numeral that
is a whole word. -/
def StartsPart (cs : List Char) : Prop :=
  ∃ part rest, cs = '.' :: (part ++ rest) ∧ isNumeral part = true ∧ IsSpan isWord part rest

/-- `literal`, before `rest`, is a literal with the whole part `whole`. -/
inductive IsLiteral (whole : List Char) : List Char → List Char → Prop where
  /-- A numeral that no fraction follows. -/
  | whole {rest : List Char} (hwhole : isNumeral whole = true) (hspan : IsSpan isWord whole rest)
    (hrest : ¬StartsPart rest) : IsLiteral whole whole rest
  /-- A numeral with a fraction. -/
  | fraction {part rest : List Char} (hwhole : isNumeral whole = true)
    (hpart : isNumeral part = true) (hspan : IsSpan isWord part rest) :
    IsLiteral whole (whole ++ '.' :: part) rest

section Reading

variable {whole literal part rest xs ys : List Char}

theorem isNumeral_iff : isNumeral xs = true ↔ xs ≠ [] ∧ ∀ c ∈ xs, isDigit c = true := by
  simp [isNumeral]

theorem isWord_point : isWord '.' = false := by
  decide

/-- A numeral ends at a point. -/
theorem isSpan_numeral_point (h : isNumeral xs = true) (ys : List Char) :
    IsSpan isWord xs ('.' :: ys) :=
  ⟨fun c hc => isWord_of_isDigit ((isNumeral_iff.1 h).2 c hc), stops_cons isWord_point ys⟩

/-- No word goes on behind a literal. -/
theorem IsLiteral.stops (h : IsLiteral whole literal rest) : rest.head?.any isWord = false := by
  cases h with
  | whole hwhole hspan hrest => exact any_eq_false_iff.2 hspan.stops
  | fraction hwhole hpart hspan => exact any_eq_false_iff.2 hspan.stops

/-- **A text is read literal by literal**: it is empty, or it starts with a character between words,
with a word that is no numeral, or with a literal. -/
@[elab_as_elim]
theorem literal_induction {motive : List Char → Prop} (nil : motive [])
    (other : ∀ c cs, isWord c = false → motive cs → motive (c :: cs))
    (word : ∀ xs ys, xs ≠ [] → IsSpan isWord xs ys → isNumeral xs = false → motive ys →
      motive (xs ++ ys))
    (literal : ∀ whole text rest, IsLiteral whole text rest → motive rest → motive (text ++ rest))
    (cs : List Char) : motive cs := by
  induction hlength : cs.length using Nat.strongRecOn generalizing cs with
  | ind n ih =>
    subst hlength
    cases cs with
    | nil => exact nil
    | cons c cs =>
      by_cases hc : isWord c = true
      · obtain ⟨xs, ys, hcs, hne, hspan⟩ :
            ∃ xs ys, c :: cs = xs ++ ys ∧ xs ≠ [] ∧ IsSpan isWord xs ys :=
          ⟨_, _, List.takeWhile_append_dropWhile.symm, by simp [hc],
            IsSpan.takeWhile_dropWhile isWord (c :: cs)⟩
        have hpos := List.length_pos_of_ne_nil hne
        rw [hcs] at ih ⊢
        cases hwhole : isNumeral xs with
        | false =>
          exact word xs ys hne hspan hwhole (ih ys.length (by simp; omega) ys rfl)
        | true =>
          by_cases hpart : StartsPart ys
          · obtain ⟨part, rest, rfl, hnumeral, hends⟩ := hpart
            have hrest := ih rest.length (by simp; omega) rest rfl
            have happend : xs ++ '.' :: (part ++ rest) = (xs ++ '.' :: part) ++ rest := by simp
            rw [happend]
            exact literal xs _ rest (.fraction hwhole hnumeral hends) hrest
          · have hrest := ih ys.length (by simp; omega) ys rfl
            exact literal xs xs ys (.whole hwhole hspan hpart) hrest
      · exact other c cs (by simpa using hc) (ih cs.length (by simp) cs rfl)

/-! ### The laws of the reading -/

theorem literals_cons {c : Char} (hc : isWord c = false) (cs : List Char) :
    literals (c :: cs) = literals cs := by
  simp [literals, segments, hc, literalsOf]

theorem literals_of_not_isNumeral (hne : xs ≠ []) (h : IsSpan isWord xs ys)
    (hnot : isNumeral xs = false) : literals (xs ++ ys) = literals ys := by
  rw [literals, segments_of_isSpan hne h, literals]
  by_cases hfraction : StartsFraction (segments ys)
  · obtain ⟨part, ss, heq⟩ := hfraction
    rw [heq, literalsOf]
    simp [hnot]
  · rw [literalsOf_word hfraction]
    simp [hnot]

/-- What the segments show as a fraction is one in the text. -/
theorem startsPart_of_segments {ss : List Segment}
    (h : segments xs = .other '.' :: .word part :: ss) (hpart : isNumeral part = true) :
    StartsPart xs := by
  obtain ⟨ys, rfl, hys⟩ := exists_of_segments_eq_other h
  obtain ⟨rest, rfl, hspan⟩ := exists_of_segments_eq_word hys
  exact ⟨part, rest, rfl, hpart, hspan⟩

/-- **A literal is read as its whole part.** -/
theorem literals_of_isLiteral (h : IsLiteral whole literal rest) :
    literals (literal ++ rest) = whole :: literals rest := by
  cases h with
  | whole hwhole hspan hrest =>
    rw [literals, segments_of_isSpan (isNumeral_iff.1 hwhole).1 hspan, literals]
    by_cases hfraction : StartsFraction (segments rest)
    · obtain ⟨part, ss, heq⟩ := hfraction
      have hpart : isNumeral part = false := by
        by_contra hnumeral
        exact hrest (startsPart_of_segments heq (by simpa using hnumeral))
      rw [heq, literalsOf]
      simp [hwhole, hpart]
    · rw [literalsOf_word hfraction]
      simp [hwhole]
  | @fraction part rest hwhole hpart hspan =>
    have happend : whole ++ '.' :: part ++ rest = whole ++ '.' :: (part ++ rest) := by simp
    have hpoint : segments ('.' :: (part ++ rest)) = .other '.' :: .word part :: segments rest := by
      rw [segments, if_neg (by simp [isWord_point]),
        segments_of_isSpan (isNumeral_iff.1 hpart).1 hspan]
    rw [happend, literals, segments_of_isSpan (isNumeral_iff.1 hwhole).1
      (isSpan_numeral_point hwhole _), hpoint, literalsOf, if_pos hwhole, if_pos hpart, literals]

end Reading

/-! ## Searching for numbers -/

/-- A point and digits. -/
def fractionPattern : Pattern :=
  .seq (.char (· == '.')) (.many isDigit)

/-- Digits between two edges of words, with a fraction if there is one. -/
def numberPattern : Pattern :=
  .bounded (.seq (.many isDigit) (.alt fractionPattern .empty))

section Search

variable {before? : Option Char} {way : List Char × List Char}
  {xs ys whole literal rest : List Char}

theorem head?_ne_point_or (ys : List Char) :
    (∀ c ∈ ys.head?, c ≠ '.') ∨ ∃ zs, ys = '.' :: zs := by
  cases ys with
  | nil => simp
  | cons c zs =>
    by_cases hc : c = '.'
    · exact .inr ⟨zs, by rw [hc]⟩
    · exact .inl (by simpa using hc)

/-- A fraction starts with a point. -/
theorem ways_fractionPattern_of_head? (h : ∀ c ∈ ys.head?, c ≠ '.') :
    fractionPattern.ways before? ys = [] := by
  cases ys with
  | nil => rfl
  | cons c ys => simp [fractionPattern, Pattern.ways, h c rfl]

theorem ways_fractionPattern_point (ys : List Char) :
    fractionPattern.ways before? ('.' :: ys) =
      (Pattern.runWays isDigit ys).map fun way => ('.' :: way.1, way.2) := by
  simp [fractionPattern, Pattern.ways]

theorem mem_ways_fractionPattern (hway : way ∈ fractionPattern.ways before? ys) :
    ∃ part, way.1 = '.' :: part ∧ isNumeral part = true := by
  rcases head?_ne_point_or ys with hpoint | ⟨zs, rfl⟩
  · rw [ways_fractionPattern_of_head? hpoint] at hway
    exact absurd hway List.not_mem_nil
  · rw [ways_fractionPattern_point] at hway
    obtain ⟨digits, hdigits, rfl⟩ := List.mem_map.1 hway
    exact ⟨digits.1, rfl, isNumeral_iff.2 (Pattern.all_of_mem_runWays hdigits)⟩

/-- A number ends in a digit. -/
theorem wordLast_numberPattern
    (hway : way ∈ (Pattern.seq (.many isDigit) (.alt fractionPattern .empty)).ways before? ys) :
    way.1 ≠ [] ∧ ∀ c ∈ way.1.getLast?, isWord c = true := by
  rw [Pattern.ways] at hway
  obtain ⟨first, hfirst, hway⟩ := List.mem_flatMap.1 hway
  obtain ⟨next, hnext, rfl⟩ := List.mem_map.1 hway
  obtain ⟨hne, hall⟩ := Pattern.all_of_mem_runWays hfirst
  refine ⟨by simp [hne], ?_⟩
  intro c hc
  apply isWord_of_isDigit
  rcases Pattern.mem_ways_alt.1 hnext with hfraction | hempty
  · obtain ⟨part, hpoint, hpart⟩ := mem_ways_fractionPattern hfraction
    obtain ⟨hpartne, hpartall⟩ := isNumeral_iff.1 hpart
    rw [hpoint, List.append_cons, List.getLast?_append_of_ne_nil _ hpartne] at hc
    exact hpartall c (List.mem_of_getLast? hc)
  · obtain ⟨hnil, -⟩ := Pattern.mem_ways_empty.1 hempty
    rw [hnil, List.append_nil] at hc
    exact hall c (List.mem_of_getLast? hc)

/-- Of the ways to go on behind digits, no word goes on behind those that start behind the word. -/
theorem filter_ways_fractionPattern_alt :
    ((fractionPattern.alt .empty).ways before? ys).filter Pattern.endsWord =
      if ys.head?.any isWord then []
      else (fractionPattern.ways before? ys).filter Pattern.endsWord ++ [([], ys)] := by
  rw [Pattern.ways, Pattern.ways, List.filter_append]
  cases hstops : ys.head?.any isWord with
  | false => simp [Pattern.endsWord, hstops]
  | true =>
    have hpoint : ∀ c ∈ ys.head?, c ≠ '.' := by
      rintro c hc rfl
      rw [Option.mem_def.1 hc] at hstops
      simp [isWord_point] at hstops
    simp [ways_fractionPattern_of_head? hpoint, Pattern.endsWord, hstops]

/-- A fraction that ends with a word is the word behind the point. -/
theorem filter_ways_fractionPattern_point (h : IsSpan isWord xs ys) :
    (fractionPattern.ways before? ('.' :: (xs ++ ys))).filter Pattern.endsWord =
      if isNumeral xs then [('.' :: xs, ys)] else [] := by
  rw [ways_fractionPattern_point, Pattern.filter_endsWord_map ('.' :: ·),
    Pattern.filter_endsWord_runWays (fun _ => isWord_of_isDigit) h, ← isNumeral]
  split
  · rfl
  · rfl

/-- Where no fraction starts, none is found. -/
theorem filter_ways_fractionPattern_of_not_startsPart (h : ¬StartsPart ys) :
    (fractionPattern.ways before? ys).filter Pattern.endsWord = [] := by
  rcases head?_ne_point_or ys with hpoint | ⟨zs, rfl⟩
  · rw [ways_fractionPattern_of_head? hpoint, List.filter_nil]
  · have hspan := IsSpan.takeWhile_dropWhile isWord zs
    have hcut : zs = zs.takeWhile isWord ++ zs.dropWhile isWord :=
      List.takeWhile_append_dropWhile.symm
    rw [hcut, filter_ways_fractionPattern_point hspan, if_neg]
    intro hpart
    exact h ⟨_, _, congrArg ('.' :: ·) hcut, hpart, hspan⟩

/-- **The ways of a number at a word**: the word has to be a numeral, and a fraction is taken with
it rather than not. -/
theorem ways_numberPattern (hne : xs ≠ []) (h : IsSpan isWord xs ys) :
    numberPattern.ways none (xs ++ ys) =
      if isNumeral xs then
        ((fractionPattern.ways (xs.getLast?.or none) ys).filter Pattern.endsWord ++ [([], ys)]).map
          fun way : List Char × List Char => (xs ++ way.1, way.2)
      else [] := by
  have hedge : isEdge none (xs ++ ys) = true := by
    obtain ⟨c, xs, rfl⟩ := List.exists_cons_of_ne_nil hne
    simp [isEdge, h.all c List.mem_cons_self]
  have hstops : ¬ys.head?.any isWord = true := by
    simp [any_eq_false_iff.2 h.stops]
  have hwithin : ∀ before? cs, cs.head?.any isWord = true →
      ((fractionPattern.alt .empty).ways before? cs).filter Pattern.endsWord = [] := by
    intro before? cs hcs
    rw [filter_ways_fractionPattern_alt, if_pos hcs]
  rw [numberPattern, Pattern.ways_bounded_of_wordLast (fun _ _ _ => wordLast_numberPattern) hedge,
    Pattern.filter_endsWord_seq_many (fun _ => isWord_of_isDigit) hwithin h,
    filter_ways_fractionPattern_alt, if_neg hstops]
  rfl

/-- A search for numbers looks at the beginnings of words only. -/
theorem startsWords_numberPattern : numberPattern.StartsWords := by
  apply Pattern.startsWords_bounded
  intro before? cs hways
  by_contra hcs
  apply hways
  have hstops : ∀ c ∈ cs.head?, isDigit c = false := by
    intro c hc
    by_contra hdigit
    apply hcs
    rw [Option.mem_def.1 hc]
    exact isWord_of_isDigit (by simpa using hdigit)
  rw [Pattern.ways, Pattern.ways, Pattern.runWays_of_head? hstops, List.flatMap_nil]

theorem occurrences_of_not_isNumeral (hne : xs ≠ []) (h : IsSpan isWord xs ys)
    (hnot : isNumeral xs = false) :
    numberPattern.occurrences (xs ++ ys) = numberPattern.occurrences ys := by
  apply startsWords_numberPattern.occurrences_of_ways_eq_nil h
  rw [ways_numberPattern hne h, if_neg (by simp [hnot])]

/-- **A literal is found whole**: with its fraction, if it has one. -/
theorem occurrences_of_isLiteral (h : IsLiteral whole literal rest) :
    numberPattern.occurrences (literal ++ rest) = literal :: numberPattern.occurrences rest := by
  cases h with
  | whole hwhole hspan hrest =>
    have hne := (isNumeral_iff.1 hwhole).1
    apply startsWords_numberPattern.occurrences_of_ways_eq_cons hne hspan.stops
    rw [ways_numberPattern hne hspan, if_pos hwhole,
      filter_ways_fractionPattern_of_not_startsPart hrest, List.nil_append, List.map_singleton,
      List.append_nil]
  | @fraction part rest hwhole hpart hspan =>
    have hne := (isNumeral_iff.1 hwhole).1
    apply startsWords_numberPattern.occurrences_of_ways_eq_cons (by simp) hspan.stops
    rw [List.append_assoc, List.cons_append, ways_numberPattern hne (isSpan_numeral_point hwhole _),
      if_pos hwhole, filter_ways_fractionPattern_point hspan, if_pos hpart]
    rfl

/-- A literal is cut at its point. -/
theorem takeWhile_of_isLiteral (h : IsLiteral whole literal rest) :
    literal.takeWhile (· ≠ '.') = whole := by
  have hpoint : ∀ c ∈ whole, isNumeral whole = true → c ≠ '.' := by
    rintro c hc hwhole rfl
    have hword := isWord_of_isDigit ((isNumeral_iff.1 hwhole).2 _ hc)
    simp [isWord_point] at hword
  cases h with
  | whole hwhole hspan hrest =>
    rw [List.takeWhile_eq_self_iff]
    intro c hc
    simpa using hpoint c hc hwhole
  | fraction hwhole hpart hspan =>
    rw [List.takeWhile_append_of_pos]
    · simp
    · intro c hc
      simpa using hpoint c hc hwhole

/-- **The search finds the literals**: what it takes, cut at the point, are their whole parts. -/
theorem map_takeWhile_occurrences (source : List Char) :
    (numberPattern.occurrences source).map (·.takeWhile (· ≠ '.')) = literals source := by
  induction source using literal_induction with
  | nil => rfl
  | other c cs hc ih => rw [startsWords_numberPattern.occurrences_cons hc, literals_cons hc, ih]
  | word xs ys hne hspan hnot ih =>
    rw [occurrences_of_not_isNumeral hne hspan hnot, literals_of_not_isNumeral hne hspan hnot, ih]
  | literal whole text rest hliteral ih =>
    rw [occurrences_of_isLiteral hliteral, literals_of_isLiteral hliteral, List.map_cons, ih,
      takeWhile_of_isLiteral hliteral]

end Search

end MatlabQuality.Source
