import MatlabQuality.Proofs.Source.Concatenation
import MatlabQuality.Proofs.Source.Literals

/-!
# Unexplained values by runs

Number literals can be told from the maximal runs of word characters alone: a run of digits is the
whole part of a literal, unless it follows the point of a whole part, and then it is a fraction.
That describes the whole parts by themselves, but only by those further to the left, so there is one
list of them.  The unexplained values come from the whole parts by collecting, which keeps first
occurrences.

## Main definitions

* `AreWholes` — the whole parts among the maximal runs.
* `Collected` — what is known of collected values.

## Main statements

* `AreWholes.unique`, `exists_areWholes_runsFrom` — the whole parts are determined by the runs, and
  they are what is read.
* `foldl_addUnexplained_eq_eraseDups` — collecting keeps first occurrences.
* `magicNumbers_append_isLiteral` — a literal whose value is there already.
* `magicNumbers_eq_runs` — the unexplained values, by runs and by the search.
-/

namespace MatlabQuality.Source

open MatlabQuality.Text MatlabQuality.Number

/-! ## Literals among the runs -/

/-- Between one stretch and another there is a point and nothing else. -/
def FollowsPoint (whole part : Stretch) : Prop :=
  part.before = whole.before ++ (whole.text ++ ['.'])

instance (whole part : Stretch) : Decidable (FollowsPoint whole part) :=
  inferInstanceAs (Decidable (_ = _))

/-- Of the runs of word characters of a text, these are the whole parts of literals: the numerals
but for those that follow the point of a whole part, which are fractions. -/
def AreWholes (rs wholes : List Stretch) : Prop :=
  wholes = rs.filter fun s => isNumeral s.text ∧ ¬∃ whole ∈ wholes, FollowsPoint whole s

section Runs

variable {rs wholes wholes' : List Stretch} {whole s : Stretch}

theorem FollowsPoint.length_lt (h : FollowsPoint whole s) :
    whole.before.length + whole.text.length < s.before.length := by
  have hlength := congrArg List.length h
  simp only [List.length_append, List.length_singleton] at hlength
  omega

theorem AreWholes.mem_iff (h : AreWholes rs wholes) :
    s ∈ wholes ↔ s ∈ rs ∧ isNumeral s.text = true ∧ ¬∃ whole ∈ wholes, FollowsPoint whole s := by
  conv_lhs => rw [h]
  simp only [List.mem_filter, decide_eq_true_eq]

/-- **The whole parts are determined by the runs**: whether a run is one is told by what stands
further to the left. -/
theorem AreWholes.unique (h : AreWholes rs wholes) (h' : AreWholes rs wholes') :
    wholes = wholes' := by
  have hmem : ∀ n, ∀ s : Stretch, s.before.length = n → (s ∈ wholes ↔ s ∈ wholes') := by
    intro n
    induction n using Nat.strongRecOn with
    | ind n ih =>
      rintro s rfl
      have hfollows : (∃ whole ∈ wholes, FollowsPoint whole s) ↔
          ∃ whole ∈ wholes', FollowsPoint whole s := by
        refine exists_congr fun whole => and_congr_left fun hpoint => ?_
        have hlt := hpoint.length_lt
        exact ih _ (by omega) whole rfl
      rw [h.mem_iff, h'.mem_iff, hfollows]
  calc wholes
      = rs.filter fun s => isNumeral s.text ∧ ¬∃ whole ∈ wholes, FollowsPoint whole s := h
    _ = rs.filter fun s => isNumeral s.text ∧ ¬∃ whole ∈ wholes', FollowsPoint whole s := by
        apply List.filter_congr
        intro s _
        rw [decide_eq_decide]
        refine and_congr_right fun _ => not_congr (exists_congr fun whole => ?_)
        rw [hmem _ whole rfl]
    _ = wholes' := h'.symm

/-- **A whole part comes before those behind it**, when the runs between them follow its point and
no numeral behind them does. -/
theorem AreWholes.cons (h : AreWholes rs wholes) (hwhole : isNumeral whole.text = true)
    (hafter : ∀ s ∈ rs, whole.before.length ≤ s.before.length) (parts : List Stretch)
    (hparts : ∀ s ∈ parts, FollowsPoint whole s)
    (hrest : ∀ s ∈ rs, isNumeral s.text = true → ¬FollowsPoint whole s) :
    AreWholes (whole :: (parts ++ rs)) (whole :: wholes) := by
  have hfirst : ¬∃ earlier ∈ whole :: wholes, FollowsPoint earlier whole := by
    rintro ⟨earlier, hmem, hpoint⟩
    have hlt := hpoint.length_lt
    rcases List.mem_cons.1 hmem with rfl | hmem
    · omega
    · have hle := hafter earlier (h.mem_iff.1 hmem).1
      omega
  have hnone : parts.filter (fun s =>
      isNumeral s.text ∧ ¬∃ earlier ∈ whole :: wholes, FollowsPoint earlier s) = [] := by
    rw [List.filter_eq_nil_iff]
    intro s hs
    simp [hparts s hs]
  have hothers : rs.filter (fun s =>
      isNumeral s.text ∧ ¬∃ earlier ∈ whole :: wholes, FollowsPoint earlier s) = wholes := by
    conv_rhs => rw [h]
    apply List.filter_congr
    intro s hs
    rw [decide_eq_decide]
    refine and_congr_right fun hnumeral => not_congr ?_
    simp [hrest s hs hnumeral]
  rw [AreWholes, List.filter_cons_of_pos (by simpa using ⟨hwhole, by simpa using hfirst⟩),
    List.filter_append, hnone, hothers, List.nil_append]

/-- At a place outside words, a word starts a run. -/
theorem runsFrom_of_word {xs ys before : List Char} (hne : xs ≠ []) (h : IsSpan isWord xs ys)
    (hbefore : before.getLast?.any isWord = false ∨ (xs ++ ys).head?.any isWord = false) :
    runsFrom isWord before (xs ++ ys) = ⟨before, xs, ys⟩ :: runsFrom isWord (before ++ xs) ys := by
  refine runsFrom_of_isSpan (hbefore.resolve_right ?_) hne h
  obtain ⟨c, xs, rfl⟩ := List.exists_cons_of_ne_nil hne
  simp [h.all c List.mem_cons_self]

/-- **A literal at a place outside words** has its whole part as the first run there, and the run of
its fraction is passed over. -/
theorem exists_areWholes_cons {before whole literal rest : List Char} {wholes : List Stretch}
    (hbefore : before.getLast?.any isWord = false ∨ (literal ++ rest).head?.any isWord = false)
    (hliteral : IsLiteral whole literal rest)
    (h : AreWholes (runsFrom isWord (before ++ literal) rest) wholes) :
    ∃ first, first.text = whole ∧
      AreWholes (runsFrom isWord before (literal ++ rest)) (first :: wholes) := by
  have hbehind : ∀ s ∈ runsFrom isWord (before ++ literal) rest,
      before.length + literal.length ≤ s.before.length := by
    intro s hs
    have hle := (mem_runsFrom_iff.1 hs).2
    rwa [List.length_append] at hle
  have hafter : ∀ s ∈ runsFrom isWord (before ++ literal) rest,
      before.length ≤ s.before.length :=
    fun s hs => Nat.le_trans (Nat.le_add_right _ _) (hbehind s hs)
  cases hliteral with
  | whole hwhole hspan hrest =>
    refine ⟨⟨before, whole, rest⟩, rfl, ?_⟩
    rw [runsFrom_of_word (isNumeral_iff.1 hwhole).1 hspan hbefore]
    refine h.cons hwhole hafter [] (List.forall_mem_nil _) ?_
    intro s hs hnumeral hpoint
    have hrun := (mem_runsFrom_iff.1 hs).1
    have heq := hrun.source_eq
    rw [hpoint] at heq
    have hcut : rest = '.' :: (s.text ++ s.after) := by simpa using heq
    exact hrest ⟨s.text, s.after, hcut, hnumeral, hrun.isSpan⟩
  | @fraction part rest hwhole hpart hspan =>
    have hends := isSpan_numeral_point hwhole (part ++ rest)
    have hpos := List.length_pos_of_ne_nil (isNumeral_iff.1 hpart).1
    have hplace : before ++ (whole ++ '.' :: part) = before ++ whole ++ ['.'] ++ part := by simp
    refine ⟨⟨before, whole, '.' :: (part ++ rest)⟩, rfl, ?_⟩
    rw [hplace] at h hafter
    rw [List.append_assoc, List.cons_append] at hbefore ⊢
    rw [runsFrom_of_word (isNumeral_iff.1 hwhole).1 hends hbefore,
      runsFrom_cons_of_not isWord_point,
      runsFrom_of_isSpan (by simp [isWord_point]) (isNumeral_iff.1 hpart).1 hspan]
    refine h.cons hwhole hafter [⟨before ++ whole ++ ['.'], part, rest⟩] ?_ ?_
    · simp [FollowsPoint]
    · -- What follows the point is the fraction, and these runs begin behind it.
      intro s hs _ hpoint
      rw [← hplace] at hs
      have hle := hbehind s hs
      rw [hpoint] at hle
      simp only [List.length_append, List.length_cons, List.length_nil] at hle
      omega

/-- **The literals read from a place** have whole parts among the runs that begin behind it. -/
theorem exists_areWholes_runsFrom (cs before : List Char)
    (hbefore : before.getLast?.any isWord = false ∨ cs.head?.any isWord = false) :
    ∃ wholes, AreWholes (runsFrom isWord before cs) wholes ∧
      wholes.map (·.text) = literals cs := by
  induction cs using literal_induction generalizing before with
  | nil => exact ⟨[], rfl, rfl⟩
  | other c cs hc ih =>
    rw [runsFrom_cons_of_not hc, literals_cons hc]
    exact ih (before ++ [c]) (.inl (by simp [hc]))
  | word xs ys hne hspan hnot ih =>
    obtain ⟨wholes, hwholes, htexts⟩ := ih (before ++ xs) (.inr (any_eq_false_iff.2 hspan.stops))
    refine ⟨wholes, ?_, ?_⟩
    · rw [runsFrom_of_word hne hspan hbefore, AreWholes,
        List.filter_cons_of_neg (by simp [hnot])]
      exact hwholes
    · rw [htexts, literals_of_not_isNumeral hne hspan hnot]
  | literal whole text rest hliteral ih =>
    obtain ⟨wholes, hwholes, htexts⟩ := ih (before ++ text) (.inr hliteral.stops)
    obtain ⟨first, rfl, hfirst⟩ := exists_areWholes_cons hbefore hliteral hwholes
    refine ⟨first :: wholes, hfirst, ?_⟩
    rw [literals_of_isLiteral hliteral, List.map_cons, htexts]

end Runs

/-! ## Values -/

/-- What is known of the values collected so far: none is there twice, and none explains itself. -/
structure Collected (seen : List Nat) : Prop where
  nodup : seen.Nodup
  notMem : ∀ value ∈ acceptableValues, value ∉ seen

namespace Collected

variable {seen : List Nat}

theorem addUnexplained (h : Collected seen) (value : Nat) :
    Collected (addUnexplained seen value) := by
  by_cases hknown : value ∈ acceptableValues ∨ value ∈ seen
  · rwa [addUnexplained_of_mem hknown]
  · obtain ⟨haccepted, hseen⟩ := not_or.1 hknown
    rw [addUnexplained_of_notMem haccepted hseen]
    refine ⟨List.nodup_append.2 ⟨h.nodup, by simp, ?_⟩, ?_⟩
    · intro a ha b hb
      rw [List.mem_singleton.1 hb]
      rintro rfl
      exact hseen ha
    · intro a ha hmem
      rcases List.mem_append.1 hmem with hmem | hmem
      · exact h.notMem a ha hmem
      · rw [List.mem_singleton.1 hmem] at ha
        exact haccepted ha

theorem foldl_addUnexplained (h : Collected seen) (values : List Nat) :
    Collected (values.foldl Source.addUnexplained seen) := by
  induction values generalizing seen with
  | nil => exact h
  | cons value values ih => exact ih (h.addUnexplained value)

end Collected

theorem collected_magicNumbers (source : List Char) : Collected (magicNumbers source) :=
  Collected.foldl_addUnexplained ⟨.nil, fun _ _ => List.not_mem_nil⟩ _

/-- **Collecting keeps first occurrences** of the values that do not explain themselves. -/
theorem foldl_addUnexplained_eq_eraseDups (values : List Nat) :
    values.foldl addUnexplained [] = (values.filter (· ∉ acceptableValues)).eraseDups := by
  induction values using List.reverseRecOn with
  | nil => rfl
  | append_singleton values value ih =>
    rw [List.foldl_append, ih, List.foldl_cons, List.foldl_nil, List.filter_append,
      List.eraseDups_append]
    by_cases haccepted : value ∈ acceptableValues
    · rw [addUnexplained_of_mem (.inl haccepted)]
      simp [haccepted]
    · have hmem : value ∈ (values.filter (· ∉ acceptableValues)).eraseDups ↔ value ∈ values := by
        rw [List.mem_eraseDups, List.mem_filter]
        simp [haccepted]
      by_cases hseen : value ∈ values
      · rw [addUnexplained_of_mem (.inr (hmem.2 hseen))]
        simp [haccepted, hseen, List.removeAll]
      · rw [addUnexplained_of_notMem haccepted (mt hmem.1 hseen)]
        simp [haccepted, hseen, List.removeAll, List.eraseDups_cons]

/-- The values of some whole parts: those of ASCII digits have one, and those below the bound are
taken. -/
theorem filterMap_wholeValue?_eq {texts : List (List Char)} (h : ∀ text ∈ texts, text ≠ []) :
    texts.filterMap wholeValue? =
      ((texts.filter (·.all isAsciiDigit)).map ofDigits).filter (· < 2 ^ 128) := by
  induction texts with
  | nil => rfl
  | cons text texts ih =>
    have hrest := ih fun t ht => h t (List.mem_cons_of_mem text ht)
    have hne : text.isEmpty = false := by simpa using h text List.mem_cons_self
    have hbound : literalBound = 2 ^ 128 := rfl
    by_cases hascii : text.all isAsciiDigit = true
    · have hread : readNat? text = some (ofDigits text) := by simp [readNat?, hne, hascii]
      rw [List.filter_cons, if_pos hascii, List.map_cons]
      by_cases hlt : ofDigits text < 2 ^ 128
      · have hvalue : wholeValue? text = some (ofDigits text) := by
          rw [wholeValue?, hread, hbound]
          exact if_pos hlt
        rw [List.filterMap_cons_some hvalue, List.filter_cons_of_pos (by simpa using hlt), hrest]
      · have hvalue : wholeValue? text = none := by
          rw [wholeValue?, hread, hbound]
          exact if_neg hlt
        rw [List.filterMap_cons_none hvalue, List.filter_cons_of_neg (by simpa using hlt), hrest]
    · have hvalue : wholeValue? text = none := by simp [wholeValue?, readNat?, hne, hascii]
      rw [List.filterMap_cons_none hvalue, hrest, List.filter_cons, if_neg hascii]

/-- **A literal whose value is there already changes nothing**, behind a character that separates
it. -/
theorem magicNumbers_append_isLiteral {source whole literal rest : List Char} {gap : Char}
    {value : Nat} (hgap : isWord gap = false) (hpoint : gap ≠ '.')
    (hliteral : IsLiteral whole literal rest) (hvalue : wholeValue? whole = some value)
    (hmem : value ∈ magicNumbers source) :
    magicNumbers (source ++ gap :: (literal ++ rest)) = magicNumbers (source ++ gap :: rest) := by
  have hcut : ∀ cs, literals (source ++ gap :: cs) = literals source ++ literals cs := by
    intro cs
    rw [literals, segments_append_other hgap, literalsOf_append_other hpoint]
    rfl
  have hknown : addUnexplained (magicNumbers source) value = magicNumbers source :=
    addUnexplained_of_mem (.inr hmem)
  rw [magicNumbers] at hknown
  rw [magicNumbers, magicNumbers, hcut, hcut, literals_of_isLiteral hliteral, List.filterMap_append,
    List.filterMap_append, List.filterMap_cons_some hvalue, List.foldl_append, List.foldl_append,
    List.foldl_cons, hknown]

/-- **The unexplained values are read from the runs**: the numerals among the maximal runs of word
characters, without fractions, have whole parts; those of ASCII digits below the bound have values;
and of the values that do not explain themselves each is kept at its first occurrence.  A search for
numbers finds the same whole parts.  So no value is there twice or explains itself, and a literal
whose value is there already changes nothing. -/
theorem magicNumbers_eq_runs (source : List Char) :
    ListsRuns isWord source (runs isWord source) ∧
    ∃ wholes, (∀ ss, AreWholes (runs isWord source) ss ↔ ss = wholes) ∧
      (numberPattern.occurrences source).map (·.takeWhile (· ≠ '.')) = wholes.map (·.text) ∧
      magicNumbers source =
        (((((wholes.map (·.text)).filter (·.all isAsciiDigit)).map ofDigits).filter
          (· < 2 ^ 128)).filter (· ∉ [0, 1, 2, 3, 10, 100, 255])).eraseDups ∧
      (magicNumbers source).Nodup ∧
      (∀ value ∈ [0, 1, 2, 3, 10, 100, 255], value ∉ magicNumbers source) ∧
      ∀ gap whole literal rest value, isWord gap = false → gap ≠ '.' →
        IsLiteral whole literal rest → wholeValue? whole = some value →
        value ∈ magicNumbers source →
        magicNumbers (source ++ gap :: (literal ++ rest)) =
          magicNumbers (source ++ gap :: rest) := by
  obtain ⟨wholes, hwholes, htexts⟩ := exists_areWholes_runsFrom source [] (.inl rfl)
  have hne : ∀ text ∈ literals source, text ≠ [] := by
    intro text htext
    rw [← htexts] at htext
    obtain ⟨s, hs, rfl⟩ := List.mem_map.1 htext
    exact (mem_runsFrom_iff.1 (hwholes.mem_iff.1 hs).1).1.ne_nil
  have hcollected := collected_magicNumbers source
  refine ⟨listsRuns_runs isWord source, wholes, ?_, ?_, ?_, hcollected.nodup, hcollected.notMem, ?_⟩
  · intro ss
    constructor
    · intro hss
      exact hss.unique hwholes
    · rintro rfl
      exact hwholes
  · rw [map_takeWhile_occurrences, htexts]
  · rw [magicNumbers, foldl_addUnexplained_eq_eraseDups, filterMap_wholeValue?_eq hne, htexts]
    rfl
  · intro gap whole literal rest value hgap hpoint hliteral hvalue hmem
    exact magicNumbers_append_isLiteral hgap hpoint hliteral hvalue hmem

/-- A fraction is skipped, also in front of a further point, but not behind a word that is no
numeral. -/
example : magicNumbers "12.5x = 7.9.42 + x1.5 + 7;".toList = [12, 7, 42, 5] := by
  decide +kernel

end MatlabQuality.Source
