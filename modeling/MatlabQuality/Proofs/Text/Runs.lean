import Mathlib.Algebra.GroupWithZero.Nat
import MatlabQuality.Proofs.Text.Pattern
import MatlabQuality.Proofs.Text.Reading

/-!
# Maximal runs

A maximal run of a class of characters is a stretch of a text that holds characters of the class
alone and that none of them touches on either side.  The runs of a text are found by asking of
every place whether one begins there.

Words are the runs of word characters, and what a reading makes of a text often depends on the runs
of some class alone.  Such a reading is a fold over the runs.

## Main definitions

* `Stretch` — a part of a text, with what stands before it and after it.
* `IsRun`, `runs`, `ListsRuns` — maximal runs, and the list of them.
* `ReadsRuns` — a reading that passes from run to run.

## Main statements

* `listsRuns_runs` — `runs` lists the maximal runs from left to right.
* `ReadsRuns.eq_foldr` — such a reading is a fold over the runs.
* `wordRuns_eq_map_runs` — the words of a text are its runs of word characters.
* `pairs_eq_sum_runs` — each run of a character holds half as many pairs as characters.
-/

namespace MatlabQuality.Text

/-- A part of a text. -/
structure Stretch where
  before : List Char
  text : List Char
  after : List Char
deriving Repr, DecidableEq

/-- A stretch of a text is a maximal run of a class of characters. -/
structure IsRun (p : Char → Bool) (source : List Char) (s : Stretch) : Prop where
  source_eq : source = s.before ++ (s.text ++ s.after)
  ne_nil : s.text ≠ []
  isSpan : IsSpan p s.text s.after
  starts : ∀ c ∈ s.before.getLast?, p c = false

/-- The maximal runs that begin behind `before`: each place where the class begins is the beginning
of one. -/
def runsFrom (p : Char → Bool) (before : List Char) : List Char → List Stretch
  | [] => []
  | c :: cs =>
    if p c && !before.getLast?.any p then
      ⟨before, (c :: cs).takeWhile p, (c :: cs).dropWhile p⟩ :: runsFrom p (before ++ [c]) cs
    else runsFrom p (before ++ [c]) cs

/-- The maximal runs of a class of characters, from left to right. -/
def runs (p : Char → Bool) (source : List Char) : List Stretch :=
  runsFrom p [] source

/-- A list of stretches holds the maximal runs of a text and nothing else, from left to right. -/
structure ListsRuns (p : Char → Bool) (source : List Char) (rs : List Stretch) : Prop where
  increasing : rs.Pairwise fun r s => r.before.length < s.before.length
  mem_iff : ∀ s, s ∈ rs ↔ IsRun p source s

section Runs

variable {p : Char → Bool} {before cs xs ys : List Char} {c : Char} {s : Stretch}

/-- A run begins at a place where the class begins, and it is then the longest one from there. -/
theorem isRun_at_iff :
    IsRun p (before ++ c :: cs) s ∧ s.before.length = before.length ↔
      (p c && !before.getLast?.any p) = true ∧
        s = ⟨before, (c :: cs).takeWhile p, (c :: cs).dropWhile p⟩ := by
  rw [Bool.and_eq_true, Bool.not_eq_true', any_eq_false_iff]
  constructor
  · rintro ⟨⟨heq, hne, hspan, hstarts⟩, hlength⟩
    obtain ⟨first, text, after⟩ := s
    obtain ⟨rfl, hrest⟩ := List.append_inj heq hlength.symm
    dsimp only at hne hspan hstarts hrest
    refine ⟨⟨?_, hstarts⟩, ?_⟩
    · obtain ⟨d, text, rfl⟩ := List.exists_cons_of_ne_nil hne
      obtain ⟨rfl, -⟩ := List.cons.inj hrest
      exact hspan.all c List.mem_cons_self
    · rw [hrest, hspan.takeWhile_eq, hspan.dropWhile_eq]
  · rintro ⟨⟨hc, hstarts⟩, rfl⟩
    refine ⟨⟨?_, ?_, IsSpan.takeWhile_dropWhile p (c :: cs), hstarts⟩, rfl⟩
    · rw [List.takeWhile_append_dropWhile]
    · simp [hc]

/-- **The runs that begin behind a place** are those with at least so much before them. -/
theorem mem_runsFrom_iff :
    s ∈ runsFrom p before cs ↔ IsRun p (before ++ cs) s ∧ before.length ≤ s.before.length := by
  induction cs generalizing before with
  | nil =>
    simp only [runsFrom, List.not_mem_nil, false_iff]
    rintro ⟨⟨heq, hne, -, -⟩, hle⟩
    have hlength := congrArg List.length heq
    have hpos := List.length_pos_of_ne_nil hne
    simp only [List.length_append, List.append_nil] at hlength
    omega
  | cons c cs ih =>
    have hcons : s ∈ runsFrom p before (c :: cs) ↔
        (IsRun p (before ++ c :: cs) s ∧ s.before.length = before.length) ∨
          s ∈ runsFrom p (before ++ [c]) cs := by
      rw [isRun_at_iff, runsFrom]
      split
      · next hbegins => simp [hbegins]
      · next hbegins => simp [hbegins]
    rw [hcons, ih, List.append_assoc, List.singleton_append, List.length_append,
      List.length_singleton]
    constructor
    · rintro (⟨hrun, hlength⟩ | ⟨hrun, hle⟩)
      · exact ⟨hrun, hlength.ge⟩
      · exact ⟨hrun, by omega⟩
    · rintro ⟨hrun, hle⟩
      rcases Nat.eq_or_lt_of_le hle with heq | hlt
      · exact .inl ⟨hrun, heq.symm⟩
      · exact .inr ⟨hrun, hlt⟩

theorem pairwise_runsFrom (before cs : List Char) :
    (runsFrom p before cs).Pairwise fun r s => r.before.length < s.before.length := by
  induction cs generalizing before with
  | nil => exact .nil
  | cons c cs ih =>
    rw [runsFrom]
    split
    · refine List.pairwise_cons.2 ⟨?_, ih (before ++ [c])⟩
      intro s hs
      have hle := (mem_runsFrom_iff.1 hs).2
      rw [List.length_append, List.length_singleton] at hle
      exact hle
    · exact ih (before ++ [c])

/-- **The maximal runs of a text are listed from left to right.** -/
theorem listsRuns_runs (p : Char → Bool) (source : List Char) :
    ListsRuns p source (runs p source) where
  increasing := pairwise_runsFrom [] source
  mem_iff s := by simp [runs, mem_runsFrom_iff]

/-! ## From run to run -/

/-- No run begins at a character outside the class. -/
theorem runsFrom_cons_of_not (hc : p c = false) (before cs : List Char) :
    runsFrom p before (c :: cs) = runsFrom p (before ++ [c]) cs := by
  simp [runsFrom, hc]

/-- No run begins within a run. -/
theorem runsFrom_within (hbefore : before.getLast?.any p = true) (h : IsSpan p xs ys) :
    runsFrom p before (xs ++ ys) = runsFrom p (before ++ xs) ys := by
  induction xs generalizing before with
  | nil => simp
  | cons c xs ih =>
    have hc := h.all c List.mem_cons_self
    rw [List.cons_append, runsFrom, if_neg (by simp [hbefore]), ih (by simp [hc]) h.tail,
      List.append_assoc, List.singleton_append]

/-- **A run is listed, and then the runs behind it.** -/
theorem runsFrom_of_isSpan (hbefore : before.getLast?.any p = false) (hne : xs ≠ [])
    (h : IsSpan p xs ys) :
    runsFrom p before (xs ++ ys) = ⟨before, xs, ys⟩ :: runsFrom p (before ++ xs) ys := by
  obtain ⟨c, xs, rfl⟩ := List.exists_cons_of_ne_nil hne
  have hc := h.all c List.mem_cons_self
  rw [List.cons_append, runsFrom, if_pos (by simp [hc, hbefore]), ← List.cons_append,
    h.takeWhile_eq, h.dropWhile_eq, runsFrom_within (by simp [hc]) h.tail, List.append_assoc,
    List.singleton_append]

end Runs

/-- A reading that passes over what is outside a class, and that `step` puts together from a run
and the reading of what is behind it. -/
structure ReadsRuns {β : Type} (p : Char → Bool) (step : List Char → β → β)
    (read : List Char → β) : Prop where
  skip : ∀ c cs, p c = false → read (c :: cs) = read cs
  run : ∀ xs ys, xs ≠ [] → IsSpan p xs ys → read (xs ++ ys) = step xs (read ys)

namespace ReadsRuns

variable {β : Type} {p : Char → Bool} {step : List Char → β → β} {read : List Char → β}

/-- Behind a place within a run, the rest of the run is passed over. -/
theorem foldr_runsFrom (h : ReadsRuns p step read) (before cs : List Char) :
    (runsFrom p before cs).foldr (fun s => step s.text) (read []) =
      if before.getLast?.any p then read (cs.dropWhile p) else read cs := by
  induction cs generalizing before with
  | nil => simp [runsFrom]
  | cons c cs ih =>
    cases hc : p c with
    | false =>
      rw [runsFrom_cons_of_not hc, ih]
      simp [hc, h.skip c cs hc]
    | true =>
      have hrest : (runsFrom p (before ++ [c]) cs).foldr (fun s => step s.text) (read []) =
          read (cs.dropWhile p) := by
        rw [ih]
        simp [hc]
      cases hbefore : before.getLast?.any p with
      | true =>
        rw [runsFrom, if_neg (by simp [hbefore]), hrest, if_pos rfl,
          List.dropWhile_cons_of_pos hc]
      | false =>
        have hspan := IsSpan.takeWhile_dropWhile p (c :: cs)
        have hread := h.run _ _ (by simp [hc]) hspan
        rw [List.takeWhile_append_dropWhile, List.dropWhile_cons_of_pos hc] at hread
        rw [runsFrom, if_pos (by simp [hc, hbefore]), List.foldr_cons, hrest, hread]
        rfl

/-- **A reading that passes from run to run is a fold over the runs.** -/
theorem eq_foldr (h : ReadsRuns p step read) (cs : List Char) :
    read cs = (runs p cs).foldr (fun s => step s.text) (read []) := by
  rw [runs, h.foldr_runsFrom]
  simp

end ReadsRuns

/-! ## Words -/

/-- A text that starts with a word has it as its first segment. -/
theorem segments_of_isSpan {xs ys : List Char} (hne : xs ≠ []) (h : IsSpan isWord xs ys) :
    segments (xs ++ ys) = .word xs :: segments ys := by
  induction xs with
  | nil => exact absurd rfl hne
  | cons c xs ih =>
    have hc := h.all c List.mem_cons_self
    rw [List.cons_append, segments, if_pos hc]
    by_cases hnil : xs = []
    · -- What follows is no word, so the word ends here.
      subst hnil
      cases ys with
      | nil => rfl
      | cons d ys => simp [segments, h.stops d rfl]
    · rw [ih hnil h.tail]

/-- A text whose first segment is a character between words starts with the character. -/
theorem exists_of_segments_eq_other {cs : List Char} {c : Char} {ss : List Segment}
    (h : segments cs = .other c :: ss) : ∃ rest, cs = c :: rest ∧ segments rest = ss := by
  cases cs with
  | nil => simp [segments] at h
  | cons d cs =>
    by_cases hd : isWord d = true
    · have hspan := IsSpan.takeWhile_dropWhile isWord (d :: cs)
      have hsegments := segments_of_isSpan (by simp [hd]) hspan
      rw [List.takeWhile_append_dropWhile, h] at hsegments
      simp at hsegments
    · rw [segments, if_neg hd] at h
      obtain ⟨hother, hrest⟩ := List.cons.inj h
      exact ⟨cs, by rw [Segment.other.inj hother], hrest⟩

/-- A text whose first segment is a word starts with the word. -/
theorem exists_of_segments_eq_word {cs part : List Char} {ss : List Segment}
    (h : segments cs = .word part :: ss) : ∃ rest, cs = part ++ rest ∧ IsSpan isWord part rest := by
  have hspan := IsSpan.takeWhile_dropWhile isWord cs
  by_cases hne : cs.takeWhile isWord = []
  · cases cs with
    | nil => simp [segments] at h
    | cons c cs =>
      have hc : isWord c = false := by
        by_contra hword
        simp [hword] at hne
      simp [segments, hc] at h
  · have hsegments := segments_of_isSpan hne hspan
    rw [List.takeWhile_append_dropWhile, h] at hsegments
    obtain ⟨hpart, -⟩ := List.cons.inj hsegments
    obtain rfl := Segment.word.inj hpart
    exact ⟨cs.dropWhile isWord, List.takeWhile_append_dropWhile.symm, hspan⟩

theorem readsRuns_wordRuns : ReadsRuns isWord List.cons wordRuns where
  skip c cs hc := by
    rw [wordRuns, segments, if_neg (by simp [hc])]
    rfl
  run xs ys hne h := by simp [wordRuns, segments_of_isSpan hne h, Segment.word?]

/-- **The words of a text are its runs of word characters.** -/
theorem wordRuns_eq_map_runs (cs : List Char) : wordRuns cs = (runs isWord cs).map (·.text) := by
  rw [readsRuns_wordRuns.eq_foldr cs]
  induction runs isWord cs with
  | nil => rfl
  | cons s rs ih => rw [List.foldr_cons, ih, List.map_cons]

/-! ## Doubled characters -/

/-- A run of a character holds half as many pairs as characters. -/
theorem pairs_of_isSpan {c : Char} {xs ys : List Char} (h : IsSpan (· == c) xs ys) :
    pairs c (xs ++ ys) = xs.length / 2 + pairs c ys := by
  match xs, h with
  | [], _ => simp
  | [a], h =>
    cases ys with
    | nil => simp [pairs]
    | cons d ys =>
      have hd : d ≠ c := by simpa using h.stops d rfl
      simp [pairs, hd]
  | a :: b :: xs, h =>
    have ha : a = c := by simpa using h.all a List.mem_cons_self
    have hb : b = c := by simpa using h.tail.all b List.mem_cons_self
    rw [List.cons_append, List.cons_append, pairs, if_pos ⟨ha, hb⟩, pairs_of_isSpan h.tail.tail]
    simp only [List.length_cons]
    omega

theorem readsRuns_pairs (c : Char) :
    ReadsRuns (· == c) (fun xs count => xs.length / 2 + count) (pairs c) where
  skip d cs hd := pairs_cons_of_ne (by simpa using hd) cs
  run _ _ _ h := pairs_of_isSpan h

/-- **Pairs are counted run by run.** -/
theorem pairs_eq_sum_runs (c : Char) (cs : List Char) :
    pairs c cs = ((runs (· == c) cs).map (·.text.length / 2)).sum := by
  rw [(readsRuns_pairs c).eq_foldr cs]
  induction runs (· == c) cs with
  | nil => rfl
  | cons s rs ih => rw [List.foldr_cons, ih, List.map_cons, List.sum_cons]

end MatlabQuality.Text
