import Mathlib.Data.List.Forall2
import MatlabQuality.Proofs.Text.Span

/-!
# Patterns

A pattern can match a text at a place in several ways.  They are tried in the order of preference:
the first of two patterns before the second, a longer run before a shorter one.  A search takes the
first way at the first place that has one, and goes on behind what it took.

The patterns of this library are tied to words: they hold between two edges of words, and what they
take starts with a word character.  A search for such a pattern looks at the beginnings of words
only.

## Main definitions

* `Pattern`, `Pattern.ways` — a pattern, and the ways in which it matches at a place.
* `Pattern.occurrences` — what a search takes, from left to right.
* `Pattern.bounded` — a pattern between two edges of words.
* `Pattern.StartsWords` — a pattern that matches at beginnings of words only.

## Main statements

* `Pattern.ways_bounded` — the edges select among the ways of what is between them.
* `Pattern.filter_endsWord_runWays`, `Pattern.filter_endsWord_seq_many` — a run that ends with a
  word is the word, alone or with what comes next.
* `Pattern.StartsWords.occurrences_of_ways_eq_nil`,
  `Pattern.StartsWords.occurrences_of_ways_eq_cons` — a word is skipped or taken.
-/

namespace MatlabQuality.Text

/-- A pattern of characters. -/
inductive Pattern where
  /-- Nothing. -/
  | empty
  /-- One character of a class. -/
  | char (p : Char → Bool)
  /-- Characters of a class, at least one and as many as possible. -/
  | many (p : Char → Bool)
  /-- The edge of a word: a word character stands on one side only. -/
  | edge
  /-- A pattern and then another. -/
  | seq (first second : Pattern)
  /-- A pattern or else another. -/
  | alt (first second : Pattern)

/-- Whether an edge of a word lies between a character, if there is one, and a text. -/
def isEdge (before? : Option Char) (cs : List Char) : Bool :=
  before?.any isWord != cs.head?.any isWord

theorem any_eq_false_iff {p : Char → Bool} {o : Option Char} :
    o.any p = false ↔ ∀ c ∈ o, p c = false := by
  cases o <;> simp

/-- What ends in a word character ends at an edge where no word goes on. -/
theorem isEdge_getLast?_iff {xs : List Char} (hne : xs ≠ [])
    (hlast : ∀ c ∈ xs.getLast?, isWord c = true) (before? : Option Char) (ys : List Char) :
    isEdge (xs.getLast?.or before?) ys = true ↔ ∀ c ∈ ys.head?, isWord c = false := by
  obtain ⟨c, hc⟩ := Option.ne_none_iff_exists'.1 (mt List.getLast?_eq_none_iff.1 hne)
  have hword := hlast c hc
  cases ys with
  | nil => simp [isEdge, hc, hword]
  | cons d ys => simp [isEdge, hc, hword]

namespace Pattern

/-! ## Ways to match -/

/-- What a run of a class can take of a text and what it leaves, the longest run first. -/
def runWays (p : Char → Bool) : List Char → List (List Char × List Char)
  | [] => []
  | c :: cs =>
    if p c then (runWays p cs).map (fun way => (c :: way.1, way.2)) ++ [([c], cs)] else []

/-- What a pattern can take of a text and what it leaves, in the order of preference.  The
character before the text matters to edges. -/
def ways : Pattern → Option Char → List Char → List (List Char × List Char)
  | .empty, _, cs => [([], cs)]
  | .char _, _, [] => []
  | .char p, _, c :: cs => if p c then [([c], cs)] else []
  | .many p, _, cs => runWays p cs
  | .edge, before?, cs => if isEdge before? cs then [([], cs)] else []
  | .seq first second, before?, cs =>
    (first.ways before? cs).flatMap fun way =>
      (second.ways (way.1.getLast?.or before?) way.2).map fun next => (way.1 ++ next.1, next.2)
  | .alt first second, before?, cs => first.ways before? cs ++ second.ways before? cs

section Equations

variable (p : Char → Bool) (first second : Pattern) (before? : Option Char) (c : Char)
  (cs : List Char)

theorem ways_empty : empty.ways before? cs = [([], cs)] := rfl

theorem ways_char_nil : (char p).ways before? [] = [] := rfl

theorem ways_char_cons : (char p).ways before? (c :: cs) = if p c then [([c], cs)] else [] := rfl

theorem ways_many : (many p).ways before? cs = runWays p cs := rfl

theorem ways_edge : edge.ways before? cs = if isEdge before? cs then [([], cs)] else [] := rfl

theorem ways_seq : (seq first second).ways before? cs =
    (first.ways before? cs).flatMap fun way =>
      (second.ways (way.1.getLast?.or before?) way.2).map fun next => (way.1 ++ next.1, next.2) :=
  rfl

theorem ways_alt : (alt first second).ways before? cs =
    first.ways before? cs ++ second.ways before? cs :=
  rfl

end Equations

/-- One character after the other, each of its own class. -/
def spell : List (Char → Bool) → Pattern
  | [] => .empty
  | p :: ps => .seq (.char p) (spell ps)

/-- One of some patterns, the earlier ones preferred. -/
def oneOf : List Pattern → Pattern
  | [] => .char fun _ => false
  | pattern :: patterns => .alt pattern (oneOf patterns)

/-- One of some words, where `same` says which characters spell a letter of a word. -/
def words (same : Char → Char → Bool) (ws : List (List Char)) : Pattern :=
  oneOf (ws.map fun word => spell (word.map fun letter c => same c letter))

/-- A pattern between two edges of words. -/
def bounded (body : Pattern) : Pattern :=
  .seq .edge (.seq body .edge)

/-- Whether no word goes on behind what a way takes. -/
def endsWord (way : List Char × List Char) : Bool :=
  !way.2.head?.any isWord

/-- What is taken before does not matter to where a way ends. -/
theorem filter_endsWord_map (f : List Char → List Char) (l : List (List Char × List Char)) :
    (l.map fun way => (f way.1, way.2)).filter endsWord =
      (l.filter endsWord).map fun way => (f way.1, way.2) :=
  List.filter_map

section Ways

variable {p : Char → Bool} {before? : Option Char} {c : Char} {cs taken rest : List Char}

@[simp] theorem mem_ways_empty :
    (taken, rest) ∈ empty.ways before? cs ↔ taken = [] ∧ rest = cs := by
  simp [ways_empty]

theorem mem_ways_char : (taken, rest) ∈ (char p).ways before? cs ↔
    ∃ c, p c = true ∧ taken = [c] ∧ cs = c :: rest := by
  cases cs with
  | nil => simp [ways_char_nil]
  | cons d cs =>
    by_cases hd : p d = true
    · simp only [ways_char_cons, if_pos hd, List.mem_singleton, Prod.mk.injEq]
      constructor
      · rintro ⟨rfl, rfl⟩
        exact ⟨d, hd, rfl, rfl⟩
      · rintro ⟨c, -, rfl, heq⟩
        obtain ⟨rfl, rfl⟩ := List.cons.inj heq
        exact ⟨rfl, rfl⟩
    · simp only [ways_char_cons, if_neg hd, List.not_mem_nil, false_iff]
      rintro ⟨c, hc, -, heq⟩
      obtain ⟨rfl, -⟩ := List.cons.inj heq
      exact hd hc

theorem mem_ways_alt {first second : Pattern} {way : List Char × List Char} :
    way ∈ (alt first second).ways before? cs ↔
      way ∈ first.ways before? cs ∨ way ∈ second.ways before? cs := by
  rw [ways_alt, List.mem_append]

theorem mem_ways_oneOf {patterns : List Pattern} {way : List Char × List Char} :
    way ∈ (oneOf patterns).ways before? cs ↔
      ∃ pattern ∈ patterns, way ∈ pattern.ways before? cs := by
  induction patterns with
  | nil => cases cs <;> simp [oneOf, ways_char_nil, ways_char_cons]
  | cons pattern patterns ih => simp [oneOf, mem_ways_alt, ih]

/-- **A spelling is matched in one way at most**, character by character. -/
theorem mem_ways_spell {ps : List (Char → Bool)} :
    (taken, rest) ∈ (spell ps).ways before? cs ↔
      List.Forall₂ (fun c p => p c = true) taken ps ∧ cs = taken ++ rest := by
  induction ps generalizing before? cs taken with
  | nil =>
    simp only [spell, mem_ways_empty, List.forall₂_nil_right_iff]
    constructor
    · rintro ⟨rfl, rfl⟩
      exact ⟨rfl, rfl⟩
    · rintro ⟨rfl, rfl⟩
      exact ⟨rfl, rfl⟩
  | cons p ps ih =>
    simp only [spell, ways_seq, List.mem_flatMap, List.mem_map, Prod.exists, Prod.mk.injEq]
    constructor
    · rintro ⟨first, after, hfirst, next, rest', hnext, rfl, rfl⟩
      obtain ⟨c, hc, rfl, rfl⟩ := mem_ways_char.1 hfirst
      obtain ⟨hps, rfl⟩ := ih.1 hnext
      exact ⟨.cons hc hps, rfl⟩
    · rintro ⟨hall, rfl⟩
      cases hall with
      | cons hc hps =>
        exact ⟨[_], _, mem_ways_char.2 ⟨_, hc, rfl, rfl⟩, _, rest, ih.2 ⟨hps, rfl⟩, rfl, rfl⟩

end Ways

/-- **A word is taken in one of its spellings.** -/
theorem mem_ways_words {same : Char → Char → Bool} {ws : List (List Char)}
    {before? : Option Char} {cs taken rest : List Char} :
    (taken, rest) ∈ (words same ws).ways before? cs ↔
      (∃ word ∈ ws, List.Forall₂ (fun c letter => same c letter = true) taken word) ∧
        cs = taken ++ rest := by
  simp only [words, mem_ways_oneOf, List.mem_map, exists_exists_and_eq_and, mem_ways_spell,
    List.forall₂_map_right_iff]
  constructor
  · rintro ⟨word, hword, hspelled, heq⟩
    exact ⟨⟨word, hword, hspelled⟩, heq⟩
  · rintro ⟨⟨word, hword, hspelled⟩, heq⟩
    exact ⟨word, hword, hspelled, heq⟩

/-- An edge selects among the ways of what is before it. -/
theorem ways_seq_edge (body : Pattern) (before? : Option Char) (cs : List Char) :
    (seq body edge).ways before? cs =
      (body.ways before? cs).filter fun way => isEdge (way.1.getLast?.or before?) way.2 := by
  simp only [ways_seq, ways_edge]
  induction body.ways before? cs with
  | nil => rfl
  | cons way more ih =>
    rw [List.flatMap_cons, ih, List.filter_cons]
    by_cases hedge : isEdge (way.1.getLast?.or before?) way.2 = true <;> simp [hedge]

/-- Of the character before a place it matters only whether it is a word character. -/
theorem ways_congr {before? before?' : Option Char} (h : before?.any isWord = before?'.any isWord)
    (pattern : Pattern) (cs : List Char) :
    pattern.ways before? cs = pattern.ways before?' cs := by
  induction pattern generalizing before? before?' cs with
  | empty => rfl
  | char p => cases cs <;> rfl
  | many p => rfl
  | edge => simp [ways_edge, isEdge, h]
  | seq first second ihfirst ihsecond =>
    rw [ways_seq, ways_seq, ihfirst h]
    refine List.flatMap_congr fun way _ => ?_
    have hlast : (way.1.getLast?.or before?).any isWord =
        (way.1.getLast?.or before?').any isWord := by
      cases way.1.getLast? with
      | none => exact h
      | some c => rfl
    rw [ihsecond hlast]
  | alt first second ihfirst ihsecond => rw [ways_alt, ways_alt, ihfirst h, ihsecond h]

/-- **The edges select among the ways of what is between them.** -/
theorem ways_bounded (body : Pattern) (before? : Option Char) (cs : List Char) :
    body.bounded.ways before? cs =
      if isEdge before? cs then
        (body.ways before? cs).filter fun way => isEdge (way.1.getLast?.or before?) way.2
      else [] := by
  rw [← ways_seq_edge, bounded, ways_seq, ways_edge]
  by_cases hedge : isEdge before? cs = true <;> simp [hedge]

/-- Where what is taken ends in a word character, the second edge asks that the word ends there. -/
theorem ways_bounded_of_wordLast {body : Pattern}
    (hlast : ∀ before? cs, ∀ way ∈ body.ways before? cs,
      way.1 ≠ [] ∧ ∀ c ∈ way.1.getLast?, isWord c = true)
    {before? : Option Char} {cs : List Char} (hedge : isEdge before? cs = true) :
    body.bounded.ways before? cs = (body.ways before? cs).filter endsWord := by
  rw [ways_bounded, if_pos hedge]
  apply List.filter_congr
  intro way hway
  obtain ⟨hne, hword⟩ := hlast before? cs way hway
  rw [Bool.eq_iff_iff, isEdge_getLast?_iff hne hword, endsWord, Bool.not_eq_true', any_eq_false_iff]

/-! ## Runs -/

theorem runWays_of_head? {p : Char → Bool} {cs : List Char} (h : ∀ c ∈ cs.head?, p c = false) :
    runWays p cs = [] := by
  cases cs with
  | nil => rfl
  | cons c cs => simp [runWays, h c rfl]

/-- What a run takes is of the class. -/
theorem all_of_mem_runWays {p : Char → Bool} {cs : List Char} {way : List Char × List Char}
    (h : way ∈ runWays p cs) : way.1 ≠ [] ∧ ∀ c ∈ way.1, p c = true := by
  induction cs generalizing way with
  | nil => simp [runWays] at h
  | cons c cs ih =>
    by_cases hc : p c = true
    · rw [runWays, if_pos hc] at h
      rcases List.mem_append.1 h with hmem | hmem
      · obtain ⟨way, hway, rfl⟩ := List.mem_map.1 hmem
        refine ⟨List.cons_ne_nil c way.1, ?_⟩
        intro d hd
        rcases List.mem_cons.1 hd with rfl | hd
        · exact hc
        · exact (ih hway).2 d hd
      · obtain rfl := List.mem_singleton.1 hmem
        simpa using hc
    · simp [runWays, hc] at h

/-- **A run that ends with a word** is the word: a shorter one has more of the word behind it. -/
theorem filter_endsWord_runWays {p : Char → Bool} (hp : ∀ c, p c = true → isWord c = true)
    {xs ys : List Char} (h : IsSpan isWord xs ys) :
    (runWays p (xs ++ ys)).filter endsWord =
      if !xs.isEmpty && xs.all p then [(xs, ys)] else [] := by
  induction xs with
  | nil =>
    have hstop : ∀ c ∈ ys.head?, p c = false := by
      intro c hc
      by_contra hpc
      have hword := hp c (by simpa using hpc)
      simp [h.stops c hc] at hword
    simp [runWays_of_head? hstop]
  | cons c xs ih =>
    rw [List.cons_append, runWays]
    by_cases hc : p c = true
    · rw [if_pos hc, List.filter_append, filter_endsWord_map (c :: ·), ih h.tail]
      cases xs with
      | nil =>
        have hstops : ys.head?.any isWord = false := any_eq_false_iff.2 h.stops
        simp [hc, endsWord, hstops]
      | cons d xs =>
        have hd := h.tail.all d List.mem_cons_self
        by_cases hall : (d :: xs).all p = true
        · simp [hc, hall, endsWord, hd]
        · simp [hc, hall, endsWord, hd]
    · simp [hc]

/-- What gives nothing can be left out. -/
theorem flatMap_filter_of_eq_nil {α β : Type} {p : α → Bool} {f : α → List β} {l : List α}
    (h : ∀ a ∈ l, p a = false → f a = []) : (l.filter p).flatMap f = l.flatMap f := by
  induction l with
  | nil => rfl
  | cons a l ih =>
    have hrest := ih fun b hb => h b (List.mem_cons_of_mem a hb)
    cases hpa : p a with
    | false => rw [List.filter_cons_of_neg (by simp [hpa]), hrest, List.flatMap_cons,
        h a List.mem_cons_self hpa, List.nil_append]
    | true => rw [List.filter_cons_of_pos hpa, List.flatMap_cons, List.flatMap_cons, hrest]

/-- **A run and what comes next end with a word** when the run is the word, if what comes next does
not go on within a word. -/
theorem filter_endsWord_seq_many {p : Char → Bool} (hp : ∀ c, p c = true → isWord c = true)
    {next : Pattern} (hnext : ∀ before? cs, cs.head?.any isWord = true →
      (next.ways before? cs).filter endsWord = [])
    {xs ys : List Char} (h : IsSpan isWord xs ys) (before? : Option Char) :
    ((seq (many p) next).ways before? (xs ++ ys)).filter endsWord =
      if !xs.isEmpty && xs.all p then
        ((next.ways (xs.getLast?.or before?) ys).filter endsWord).map
          fun way => (xs ++ way.1, way.2)
      else [] := by
  have hwithin : ∀ way ∈ (many p).ways before? (xs ++ ys), endsWord way = false →
      ((next.ways (way.1.getLast?.or before?) way.2).map
        fun way' => (way.1 ++ way'.1, way'.2)).filter endsWord = [] := by
    intro way _ hway
    rw [filter_endsWord_map (way.1 ++ ·), hnext _ _ (by simpa [endsWord] using hway),
      List.map_nil]
  rw [ways_seq, List.filter_flatMap, ← flatMap_filter_of_eq_nil hwithin, ways_many,
    filter_endsWord_runWays hp h]
  split
  · rw [List.flatMap_singleton, filter_endsWord_map (xs ++ ·)]
  · rfl

/-! ## Searching -/

/-- What a search takes of a text from left to right, when the first `skip` characters are taken
already.  A way that takes nothing does not count. -/
def occurrencesFrom (pattern : Pattern) : Nat → Option Char → List Char → List (List Char)
  | _, _, [] => []
  | skip + 1, _, c :: cs => occurrencesFrom pattern skip (some c) cs
  | 0, before?, c :: cs =>
    match pattern.ways before? (c :: cs) with
    | (d :: taken, _) :: _ => (d :: taken) :: occurrencesFrom pattern taken.length (some c) cs
    | _ => occurrencesFrom pattern 0 (some c) cs

/-- What a search for a pattern takes of a text, from left to right. -/
def occurrences (pattern : Pattern) (cs : List Char) : List (List Char) :=
  pattern.occurrencesFrom 0 none cs

section Search

variable {pattern : Pattern} {before? : Option Char}

/-- What is taken already is skipped. -/
theorem occurrencesFrom_length_append (before? : Option Char) (xs ys : List Char) :
    pattern.occurrencesFrom xs.length before? (xs ++ ys) =
      pattern.occurrencesFrom 0 (xs.getLast?.or before?) ys := by
  induction xs generalizing before? with
  | nil => rfl
  | cons c xs ih =>
    rw [List.length_cons, List.cons_append, occurrencesFrom, ih]
    cases xs with
    | nil => rfl
    | cons d xs => simp [List.getLast?_cons]

/-- A place without a match is passed by. -/
theorem occurrencesFrom_of_ways_eq_nil {c : Char} {cs : List Char}
    (h : pattern.ways before? (c :: cs) = []) :
    pattern.occurrencesFrom 0 before? (c :: cs) = pattern.occurrencesFrom 0 (some c) cs := by
  rw [occurrencesFrom, h]

theorem occurrencesFrom_congr {before?' : Option Char}
    (h : before?.any isWord = before?'.any isWord) (cs : List Char) :
    pattern.occurrencesFrom 0 before? cs = pattern.occurrencesFrom 0 before?' cs := by
  cases cs with
  | nil => rfl
  | cons c cs => rw [occurrencesFrom, occurrencesFrom, ways_congr h]

/-- The preferred way is taken, and the search goes on behind it. -/
theorem occurrencesFrom_of_ways_eq_cons {xs ys : List Char} {more : List (List Char × List Char)}
    (hne : xs ≠ []) (h : pattern.ways before? (xs ++ ys) = (xs, ys) :: more) :
    pattern.occurrencesFrom 0 before? (xs ++ ys) =
      xs :: pattern.occurrencesFrom 0 xs.getLast? ys := by
  obtain ⟨c, xs, rfl⟩ := List.exists_cons_of_ne_nil hne
  rw [List.cons_append] at h ⊢
  rw [occurrencesFrom, h]
  dsimp only
  rw [occurrencesFrom_length_append]
  cases xs with
  | nil => rfl
  | cons d xs => simp [List.getLast?_cons]

end Search

/-! ## Searching for words -/

/-- A pattern that matches at beginnings of words only. -/
def StartsWords (pattern : Pattern) : Prop :=
  ∀ before? cs, pattern.ways before? cs ≠ [] →
    before?.any isWord = false ∧ cs.head?.any isWord = true

/-- A pattern between edges that takes a word character first matches at beginnings of words
only. -/
theorem startsWords_bounded {body : Pattern}
    (h : ∀ before? cs, body.ways before? cs ≠ [] → cs.head?.any isWord = true) :
    StartsWords body.bounded := by
  intro before? cs hways
  rw [ways_bounded] at hways
  by_cases hedge : isEdge before? cs = true
  · rw [if_pos hedge] at hways
    have hbody : body.ways before? cs ≠ [] := by
      intro hnil
      simp [hnil] at hways
    have hfirst := h before? cs hbody
    refine ⟨?_, hfirst⟩
    simpa [isEdge, hfirst] using hedge
  · simp [hedge] at hways

namespace StartsWords

variable {pattern : Pattern} (h : StartsWords pattern)

include h

theorem ways_eq_nil_of_head? {cs : List Char} (hcs : ∀ c ∈ cs.head?, isWord c = false)
    (before? : Option Char) : pattern.ways before? cs = [] := by
  by_contra hne
  have hword := (h before? cs hne).2
  cases cs with
  | nil => simp at hword
  | cons c cs => simp [hcs c rfl] at hword

theorem ways_eq_nil_of_before {b : Char} (hb : isWord b = true) (cs : List Char) :
    pattern.ways (some b) cs = [] := by
  by_contra hne
  have hbefore := (h (some b) cs hne).1
  simp [hb] at hbefore

/-- Between words the character before a place does not matter. -/
theorem occurrencesFrom_stop {cs : List Char} (hcs : ∀ c ∈ cs.head?, isWord c = false)
    (before? : Option Char) :
    pattern.occurrencesFrom 0 before? cs = pattern.occurrences cs := by
  cases cs with
  | nil => rfl
  | cons c cs =>
    rw [occurrences, occurrencesFrom_of_ways_eq_nil (h.ways_eq_nil_of_head? hcs before?),
      occurrencesFrom_of_ways_eq_nil (h.ways_eq_nil_of_head? hcs none)]

/-- A character between words is passed by. -/
theorem occurrences_cons {c : Char} (hc : isWord c = false) (cs : List Char) :
    pattern.occurrences (c :: cs) = pattern.occurrences cs := by
  rw [occurrences, occurrencesFrom_of_ways_eq_nil (h.ways_eq_nil_of_head? (stops_cons hc cs) none)]
  exact occurrencesFrom_congr (by simp [hc]) cs

/-- The rest of a word is passed by. -/
theorem occurrencesFrom_within {b : Char} (hb : isWord b = true) {xs ys : List Char}
    (hspan : IsSpan isWord xs ys) :
    pattern.occurrencesFrom 0 (some b) (xs ++ ys) = pattern.occurrences ys := by
  induction xs generalizing b with
  | nil => exact h.occurrencesFrom_stop hspan.stops (some b)
  | cons c xs ih =>
    have hc := hspan.all c List.mem_cons_self
    rw [List.cons_append, occurrencesFrom_of_ways_eq_nil (h.ways_eq_nil_of_before hb _),
      ih hc hspan.tail]

/-- **A word at whose beginning there is no match is skipped.** -/
theorem occurrences_of_ways_eq_nil {xs ys : List Char} (hspan : IsSpan isWord xs ys)
    (hways : pattern.ways none (xs ++ ys) = []) :
    pattern.occurrences (xs ++ ys) = pattern.occurrences ys := by
  cases xs with
  | nil => rfl
  | cons c xs =>
    have hc := hspan.all c List.mem_cons_self
    rw [List.cons_append] at hways ⊢
    rw [occurrences, occurrencesFrom_of_ways_eq_nil hways, h.occurrencesFrom_within hc hspan.tail]

/-- **A match that ends between words is taken**, and the search goes on behind it. -/
theorem occurrences_of_ways_eq_cons {xs ys : List Char} {more : List (List Char × List Char)}
    (hne : xs ≠ []) (hys : ∀ c ∈ ys.head?, isWord c = false)
    (hways : pattern.ways none (xs ++ ys) = (xs, ys) :: more) :
    pattern.occurrences (xs ++ ys) = xs :: pattern.occurrences ys := by
  rw [occurrences, occurrencesFrom_of_ways_eq_cons hne hways, h.occurrencesFrom_stop hys]

end StartsWords

end Pattern

end MatlabQuality.Text
