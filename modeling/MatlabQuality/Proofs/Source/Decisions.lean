import MatlabQuality.Proofs.Text.Runs
import MatlabQuality.Source.Decision

/-!
# Counting decisions

Decisions are the words of a source that decide, and its doubled signs.  Both can be searched for by
a pattern: a deciding word in any case between two edges of words, and a sign twice in a row.  The
searches come to the same as counting maximal runs, because a deciding word that stands between
edges is a whole run of word characters, and because disjoint pairs use up a run of one sign.

## Main definitions

* `caseVariants` — the characters that differ from a small letter in case alone.
* `decisionPattern`, `doubled` — what is searched for.

## Main statements

* `foldCase_eq_iff` — what folds to a letter.
* `occurrences_decisionPattern` — the search finds the runs that decide.
* `length_occurrences_doubled` — the search for a doubled sign finds every pair.
* `cyclomaticComplexity_eq_runs` — complexity, by runs and by searches.
-/

namespace MatlabQuality.Source

open MatlabQuality.Text

/-! ## Case -/

/-- The small ASCII letters. -/
def smallLetters : List Char :=
  "abcdefghijklmnopqrstuvwxyz".toList

/-- The characters whose simple case folding is a small ASCII letter: the letter and its capital,
and besides them the long s and the Kelvin sign. -/
def caseVariants (letter : Char) : List Char :=
  [letter, letter.toUpper] ++
    (if letter = 's' then ['\u017F'] else []) ++ (if letter = 'k' then ['\u212A'] else [])

/-- The characters that case folding changes. -/
def changedByFolding : List Char :=
  "ABCDEFGHIJKLMNOPQRSTUVWXYZ".toList ++ ['\u017F', '\u212A']

theorem foldCase_of_notMem {c : Char} (h : c ∉ changedByFolding) : foldCase c = c := by
  have hcapital : ¬('A' ≤ c ∧ c ≤ 'Z') := by
    rintro ⟨hfirst, hlast⟩
    have hbounds : 65 ≤ c.toNat ∧ c.toNat ≤ 90 := ⟨hfirst, hlast⟩
    have hcapitals : ∀ n ∈ List.range' 65 26, Char.ofNat n ∈ changedByFolding := by decide
    have hmem := hcapitals c.toNat (by rw [List.mem_range'_1]; omega)
    rw [Char.ofNat_toNat] at hmem
    exact h hmem
  have hlong : c ≠ '\u017F' := by
    rintro rfl
    exact h (by decide)
  have hkelvin : c ≠ '\u212A' := by
    rintro rfl
    exact h (by decide)
  simp [foldCase, hcapital, hlong, hkelvin]

/-- **What folds to a letter** is one of the variants of the letter. -/
theorem foldCase_eq_iff {c letter : Char} (hletter : letter ∈ smallLetters) :
    foldCase c = letter ↔ c ∈ caseVariants letter := by
  by_cases hc : c ∈ changedByFolding
  · have hchanged : ∀ c ∈ changedByFolding, ∀ letter ∈ smallLetters,
        foldCase c = letter ↔ c ∈ caseVariants letter := by decide +kernel
    exact hchanged c hc letter hletter
  · have hvariants : ∀ letter ∈ smallLetters, ∀ v ∈ caseVariants letter,
        v = letter ∨ v ∈ changedByFolding := by decide +kernel
    rw [foldCase_of_notMem hc]
    constructor
    · rintro rfl
      exact List.mem_append_left _ (List.mem_append_left _ List.mem_cons_self)
    · intro hmem
      exact (hvariants letter hletter c hmem).resolve_right hc

/-- A word decides when its letters are variants of those of a deciding word. -/
theorem isDecisionWord_iff {xs : List Char} :
    isDecisionWord xs = true ↔ ∃ word ∈ decisionWords,
      List.Forall₂ (fun c letter => (caseVariants letter).contains c = true) xs word := by
  have hletters : ∀ word ∈ decisionWords, ∀ letter ∈ word, letter ∈ smallLetters := by
    decide +kernel
  have hspelled : ∀ word : List Char, (∀ letter ∈ word, letter ∈ smallLetters) →
      ∀ xs : List Char, xs.map foldCase = word ↔
        List.Forall₂ (fun c letter => (caseVariants letter).contains c = true) xs word := by
    intro word
    induction word with
    | nil => simp
    | cons letter word ih =>
      intro hword xs
      cases xs with
      | nil => simp
      | cons c xs =>
        have hrest := ih (fun l hl => hword l (List.mem_cons_of_mem letter hl)) xs
        rw [List.map_cons, List.cons.injEq, hrest, List.forall₂_cons,
          foldCase_eq_iff (hword letter List.mem_cons_self), List.contains_iff_mem]
  rw [isDecisionWord, List.contains_iff_mem]
  constructor
  · intro h
    exact ⟨_, h, (hspelled _ (hletters _ h) xs).1 rfl⟩
  · rintro ⟨word, hword, hxs⟩
    rwa [(hspelled word (hletters word hword) xs).2 hxs]

/-! ## Searching for words that decide -/

/-- A deciding word in any case, between two edges of words. -/
def decisionPattern : Pattern :=
  .bounded (.words (fun c letter => (caseVariants letter).contains c) decisionWords)

/-- A word that decides is a word. -/
theorem isWord_of_isDecisionWord {xs : List Char} (h : isDecisionWord xs = true) :
    xs ≠ [] ∧ ∀ c ∈ xs, isWord c = true := by
  have hletters : ∀ word ∈ decisionWords, word ≠ [] ∧ ∀ letter ∈ word, letter ∈ smallLetters := by
    decide +kernel
  have hvariants : ∀ letter ∈ smallLetters, ∀ c ∈ caseVariants letter, isWord c = true := by
    decide +kernel
  rw [isDecisionWord, List.contains_iff_mem] at h
  obtain ⟨hne, hsmall⟩ := hletters _ h
  constructor
  · rintro rfl
    exact hne rfl
  · intro c hc
    have hletter := hsmall (foldCase c) (List.mem_map_of_mem hc)
    exact hvariants _ hletter c ((foldCase_eq_iff hletter).1 rfl)

theorem mem_ways_decisionPattern {before? : Option Char} {cs taken rest : List Char} :
    (taken, rest) ∈ decisionPattern.ways before? cs ↔
      isEdge before? cs = true ∧ isDecisionWord taken = true ∧ cs = taken ++ rest ∧
        IsSpan isWord taken rest := by
  rw [decisionPattern, Pattern.ways_bounded]
  by_cases hedge : isEdge before? cs = true
  · rw [if_pos hedge, List.mem_filter, Pattern.mem_ways_words, ← isDecisionWord_iff]
    constructor
    · rintro ⟨⟨htaken, heq⟩, hend⟩
      obtain ⟨hne, hall⟩ := isWord_of_isDecisionWord htaken
      rw [isEdge_getLast?_iff hne fun c hc => hall c (List.mem_of_getLast? hc)] at hend
      exact ⟨hedge, htaken, heq, hall, hend⟩
    · rintro ⟨-, htaken, heq, hspan⟩
      obtain ⟨hne, hall⟩ := isWord_of_isDecisionWord htaken
      rw [isEdge_getLast?_iff hne fun c hc => hall c (List.mem_of_getLast? hc)]
      exact ⟨⟨htaken, heq⟩, hspan.stops⟩
  · simp [hedge]

theorem startsWords_decisionPattern : decisionPattern.StartsWords := by
  apply Pattern.startsWords_bounded
  intro before? cs hways
  obtain ⟨⟨taken, rest⟩, hmem⟩ := List.exists_mem_of_ne_nil _ hways
  obtain ⟨hspelled, rfl⟩ := Pattern.mem_ways_words.1 hmem
  obtain ⟨hne, hall⟩ := isWord_of_isDecisionWord (isDecisionWord_iff.2 hspelled)
  obtain ⟨c, taken, rfl⟩ := List.exists_cons_of_ne_nil hne
  simp [hall c List.mem_cons_self]

/-- **The search passes from word to word**: what it takes at a word is the whole word. -/
theorem readsRuns_decisionPattern :
    ReadsRuns isWord (fun xs found => if isDecisionWord xs then xs :: found else found)
      decisionPattern.occurrences where
  skip c cs hc := startsWords_decisionPattern.occurrences_cons hc cs
  run xs ys hne h := by
    have hway : ∀ way ∈ decisionPattern.ways none (xs ++ ys),
        way = (xs, ys) ∧ isDecisionWord xs = true := by
      rintro ⟨taken, rest⟩ hmem
      obtain ⟨-, htaken, heq, hspan⟩ := mem_ways_decisionPattern.1 hmem
      obtain ⟨rfl, rfl⟩ := h.inj hspan heq
      exact ⟨rfl, htaken⟩
    cases hways : decisionPattern.ways none (xs ++ ys) with
    | nil =>
      have hnot : ¬isDecisionWord xs = true := by
        intro hxs
        obtain ⟨c, xs, rfl⟩ := List.exists_cons_of_ne_nil hne
        have hedge : isEdge none (c :: xs ++ ys) = true := by
          simp [isEdge, h.all c List.mem_cons_self]
        have hmem := mem_ways_decisionPattern.2 ⟨hedge, hxs, rfl, h⟩
        rw [hways] at hmem
        exact List.not_mem_nil hmem
      rw [if_neg hnot]
      exact startsWords_decisionPattern.occurrences_of_ways_eq_nil h hways
    | cons way more =>
      obtain ⟨rfl, hxs⟩ := hway way (by rw [hways]; exact List.mem_cons_self)
      rw [if_pos hxs]
      exact startsWords_decisionPattern.occurrences_of_ways_eq_cons hne h.stops hways

/-- **The search finds the words that decide**, and nothing else. -/
theorem occurrences_decisionPattern (cs : List Char) :
    decisionPattern.occurrences cs = ((runs isWord cs).map (·.text)).filter isDecisionWord := by
  rw [readsRuns_decisionPattern.eq_foldr cs]
  induction runs isWord cs with
  | nil => rfl
  | cons s rs ih => rw [List.foldr_cons, ih, List.map_cons, List.filter_cons]

/-! ## Searching for doubled signs -/

/-- A character twice in a row. -/
def doubled (c : Char) : Pattern :=
  .seq (.char (· == c)) (.char (· == c))

/-- **The search for a doubled sign finds every pair.** -/
theorem length_occurrences_doubled (c : Char) (before? : Option Char) (cs : List Char) :
    ((doubled c).occurrencesFrom 0 before? cs).length = pairs c cs := by
  fun_induction pairs c cs generalizing before? with
  | case1 a b rest hpair ih =>
    obtain ⟨rfl, rfl⟩ := hpair
    have hways : (doubled b).ways before? ([b, b] ++ rest) = [([b, b], rest)] := by
      simp [doubled, Pattern.ways]
    have hfound := Pattern.occurrencesFrom_of_ways_eq_cons (by simp) hways
    rw [List.cons_append, List.cons_append, List.nil_append] at hfound
    rw [hfound, List.length_cons, ih, Nat.add_comm]
  | case2 a b rest hpair ih =>
    have hways : (doubled c).ways before? (a :: b :: rest) = [] := by
      by_cases ha : a = c
      · have hb : b ≠ c := fun hb => hpair ⟨ha, hb⟩
        simp [doubled, Pattern.ways, ha, hb]
      · simp [doubled, Pattern.ways, ha]
    rw [Pattern.occurrencesFrom_of_ways_eq_nil hways, ih]
  | case3 cs hshort =>
    cases cs with
    | nil => rfl
    | cons a cs =>
      cases cs with
      | nil =>
        have hways : (doubled c).ways before? [a] = [] := by
          by_cases ha : a = c <;> simp [doubled, Pattern.ways, ha]
        rw [Pattern.occurrencesFrom_of_ways_eq_nil hways]
        rfl
      | cons b rest => exact absurd rfl (hshort a b rest)

/-- **Complexity is counted by runs**: one, the maximal runs of word characters that fold to a
deciding word, and half of each maximal run of one of the two signs.  It is what the searches for
deciding words and doubled signs find. -/
theorem cyclomaticComplexity_eq_runs (source : List Char) :
    (∀ p, ListsRuns p source (runs p source)) ∧
    cyclomaticComplexity source =
      1 + (runs isWord source).countP (fun run => decisionWords.contains (run.text.map foldCase)) +
        ((runs (· == '&') source).map (·.text.length / 2)).sum +
        ((runs (· == '|') source).map (·.text.length / 2)).sum ∧
    cyclomaticComplexity source =
      1 + (decisionPattern.occurrences source).length +
        (((doubled '&').occurrences source).length +
          ((doubled '|').occurrences source).length) := by
  have hwords : (wordRuns source).countP isDecisionWord =
      (runs isWord source).countP fun run => isDecisionWord run.text := by
    rw [wordRuns_eq_map_runs, List.countP_map]
    rfl
  refine ⟨fun p => listsRuns_runs p source, ?_, ?_⟩
  · rw [cyclomaticComplexity, hwords, pairs_eq_sum_runs, pairs_eq_sum_runs, ← Nat.add_assoc]
    rfl
  · rw [cyclomaticComplexity, wordRuns_eq_map_runs, occurrences_decisionPattern,
      List.countP_eq_length_filter, Pattern.occurrences, Pattern.occurrences,
      length_occurrences_doubled, length_occurrences_doubled]

end MatlabQuality.Source
