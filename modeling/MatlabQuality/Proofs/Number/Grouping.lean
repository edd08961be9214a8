import MatlabQuality.Proofs.Number.Digits
import MatlabQuality.Proofs.Text.Lines

/-!
# Digits in groups of three

Commas are set from left to right, each by the number of digits behind it, so all groups but the
first have three digits, and the first has the rest.  That determines the text: there is one way to
cut digits so.

## Main definitions

* `InThrees` — the first group has one to three characters, each other one has three.

## Main statements

* `splitOn_groupThrees` — the groups of a run of digits.
* `InThrees.eq_of_flatten_eq` — digits are cut in one way.
* `eq_grouped_iff` — a number in groups of three.
-/

namespace MatlabQuality.Number

open MatlabQuality.Text

/-! ## Groups -/

/-- The first group has one to three characters, and each other one has three. -/
def InThrees : List (List Char) → Prop
  | [] => False
  | first :: others =>
    1 ≤ first.length ∧ first.length ≤ 3 ∧ ∀ group ∈ others, group.length = 3

section Groups

variable {cs : List Char} {groups groups' : List (List Char)}

theorem length_flatten_of_forall_length_eq (h : ∀ group ∈ groups, group.length = 3) :
    groups.flatten.length = 3 * groups.length := by
  rw [List.length_flatten, List.map_congr_left h, List.map_const', List.sum_replicate_nat,
    Nat.mul_comm]

/-- **Digits are cut in one way.** -/
theorem InThrees.eq_of_flatten_eq (h : InThrees groups) (h' : InThrees groups')
    (heq : groups.flatten = groups'.flatten) : groups = groups' := by
  match groups, groups' with
  | first :: others, first' :: others' =>
    obtain ⟨hpos, hle, hthree⟩ := h
    obtain ⟨hpos', hle', hthree'⟩ := h'
    have hlength := congrArg List.length heq
    simp only [List.flatten_cons, List.length_append, length_flatten_of_forall_length_eq hthree,
      length_flatten_of_forall_length_eq hthree'] at hlength
    -- The first groups have the same remainder by three, and so have as many groups behind them.
    have hfirst : first.length = first'.length := by omega
    have hothers : others.length = others'.length := by omega
    obtain ⟨rfl, hflatten⟩ := List.append_inj heq hfirst
    have hlengths : others.map List.length = others'.map List.length := by
      rw [List.map_congr_left hthree, List.map_congr_left hthree', List.map_const', List.map_const',
        hothers]
    rw [List.eq_iff_flatten_eq.2 ⟨hflatten, hlengths⟩]

/-- **The groups of a run of digits**: the first has what remains of the digits by groups of
three. -/
theorem splitOn_groupThrees (hne : cs ≠ []) (hcomma : ',' ∉ cs) :
    ∃ first others, splitOn ',' (groupThrees cs) = first :: others ∧
      first.length = (cs.length - 1) % 3 + 1 ∧ ∀ group ∈ others, group.length = 3 := by
  fun_induction groupThrees cs with
  | case1 => exact absurd rfl hne
  | case2 c rest hcut ih =>
    obtain ⟨hc, hrest⟩ := List.ne_and_not_mem_of_not_mem_cons hcomma
    obtain ⟨first, others, hsplit, hfirst, hothers⟩ := ih hcut.2 hrest
    have hpos := List.length_pos_iff.2 hcut.2
    refine ⟨[c], first :: others, ?_, ?_, ?_⟩
    · rw [splitOn_cons_of_ne hc.symm (splitOn_cons_sep ',' _), hsplit]
    · simp only [List.length_cons, List.length_nil]
      omega
    · intro group hgroup
      rcases List.mem_cons.1 hgroup with rfl | hgroup
      · omega
      · exact hothers group hgroup
  | case3 c rest hcut ih =>
    obtain ⟨hc, hrest⟩ := List.ne_and_not_mem_of_not_mem_cons hcomma
    by_cases hnil : rest = []
    · subst hnil
      exact ⟨[c], [], splitOn_cons_of_ne hc.symm rfl, rfl, List.forall_mem_nil _⟩
    · obtain ⟨first, others, hsplit, hfirst, hothers⟩ := ih hnil hrest
      have hmod : rest.length % 3 ≠ 0 := fun hmod => hcut ⟨hmod, hnil⟩
      refine ⟨c :: first, others, splitOn_cons_of_ne hc.symm hsplit, ?_, hothers⟩
      simp only [List.length_cons, hfirst]
      omega

theorem inThrees_splitOn_groupThrees (hne : cs ≠ []) (hcomma : ',' ∉ cs) :
    InThrees (splitOn ',' (groupThrees cs)) := by
  obtain ⟨first, others, hsplit, hfirst, hothers⟩ := splitOn_groupThrees hne hcomma
  rw [hsplit]
  exact ⟨by omega, by omega, hothers⟩

theorem filter_groupThrees (hcomma : ',' ∉ cs) : (groupThrees cs).filter (· ≠ ',') = cs := by
  fun_induction groupThrees cs with
  | case1 => rfl
  | case2 c rest _ ih =>
    obtain ⟨hc, hrest⟩ := List.ne_and_not_mem_of_not_mem_cons hcomma
    rw [List.filter_cons_of_pos (by simpa using hc.symm), List.filter_cons_of_neg (by simp),
      ih hrest]
  | case3 c rest _ ih =>
    obtain ⟨hc, hrest⟩ := List.ne_and_not_mem_of_not_mem_cons hcomma
    rw [List.filter_cons_of_pos (by simpa using hc.symm), ih hrest]

/-- No comma stands at an end of text in groups of three. -/
theorem InThrees.not_comma (h : InThrees (splitOn ',' cs)) :
    cs.head? ≠ some ',' ∧ cs.getLast? ≠ some ',' := by
  constructor
  · intro hhead
    obtain ⟨rest, rfl⟩ := List.head?_eq_some_iff.1 hhead
    rw [splitOn_cons_sep] at h
    exact absurd h.1 (by decide)
  · intro hlast
    obtain ⟨before, rfl⟩ := List.getLast?_eq_some_iff.1 hlast
    obtain ⟨first, others, hsplit⟩ := exists_splitOn_eq_cons ',' before
    rw [splitOn_append_sep, hsplit] at h
    exact absurd (h.2.2 [] (by simp)) (by decide)

end Groups

/-! ## Numbers -/

theorem comma_notMem_decimalDigits (n : ℕ) : ',' ∉ decimalDigits n := by
  intro hmem
  exact absurd (isAsciiDigit_of_mem_decimalDigits hmem) (by decide)

theorem filter_grouped (n : ℕ) : (grouped n).toList.filter (· ≠ ',') = decimalDigits n := by
  rw [grouped, String.toList_ofList, filter_groupThrees (comma_notMem_decimalDigits n)]

theorem inThrees_grouped (n : ℕ) : InThrees (splitOn ',' (grouped n).toList) := by
  rw [grouped, String.toList_ofList]
  exact inThrees_splitOn_groupThrees (decimalDigits_ne_nil n) (comma_notMem_decimalDigits n)

/-- **A number in groups of three** is the one text with its digits and groups of this kind. -/
theorem eq_grouped_iff {n : ℕ} {text : String} :
    text = grouped n ↔
      text.toList.filter (· ≠ ',') = decimalDigits n ∧ InThrees (splitOn ',' text.toList) := by
  constructor
  · rintro rfl
    exact ⟨filter_grouped n, inThrees_grouped n⟩
  · rintro ⟨hdigits, hthrees⟩
    have hflatten :
        (splitOn ',' text.toList).flatten = (splitOn ',' (grouped n).toList).flatten := by
      rw [flatten_splitOn, flatten_splitOn, hdigits, filter_grouped]
    have hpieces := hthrees.eq_of_flatten_eq (inThrees_grouped n) hflatten
    have hjoined := congrArg (joinWith [',']) hpieces
    rw [joinWith_splitOn, joinWith_splitOn] at hjoined
    exact String.toList_inj.1 hjoined

theorem grouped_injective {m n : ℕ} (h : grouped m = grouped n) : m = n := by
  have hdigits := congrArg (fun text : String => text.toList.filter (· ≠ ',')) h
  simp only [filter_grouped] at hdigits
  rw [← ofDigits_decimalDigits m, hdigits, ofDigits_decimalDigits]

/-- **A number in groups of three** is its decimal form without the commas, and its groups have
three digits but for the first, which has one to three.  It is the only such text, so distinct
numbers are never written alike, and no comma stands at an end. -/
theorem grouped_in_threes (n : ℕ) :
    String.ofList ((grouped n).toList.filter (· ≠ ',')) = toString n ∧
    (∃ first others, splitOn ',' (grouped n).toList = first :: others ∧
      (1 ≤ first.length ∧ first.length ≤ 3) ∧ (∀ group ∈ others, group.length = 3) ∧
      ∀ group ∈ first :: others, ∀ c ∈ group, isAsciiDigit c = true) ∧
    (∀ text : String, String.ofList (text.toList.filter (· ≠ ',')) = toString n →
      InThrees (splitOn ',' text.toList) → text = grouped n) ∧
    (∀ m, grouped m = grouped n → m = n) ∧
    (grouped n).toList.head? ≠ some ',' ∧ (grouped n).toList.getLast? ≠ some ',' := by
  have hdecimal : toString n = String.ofList (decimalDigits n) := rfl
  have hthrees := inThrees_grouped n
  refine ⟨by rw [filter_grouped, hdecimal], ?_, ?_, fun m => grouped_injective, hthrees.not_comma⟩
  · obtain ⟨first, others, hsplit⟩ := exists_splitOn_eq_cons ',' (grouped n).toList
    have hdigits : ∀ group ∈ splitOn ',' (grouped n).toList, ∀ c ∈ group,
        isAsciiDigit c = true := by
      intro group hgroup c hc
      have hmem : c ∈ (splitOn ',' (grouped n).toList).flatten := List.mem_flatten_of_mem hgroup hc
      rw [flatten_splitOn, filter_grouped] at hmem
      exact isAsciiDigit_of_mem_decimalDigits hmem
    rw [hsplit] at hthrees hdigits
    exact ⟨first, others, hsplit, ⟨hthrees.1, hthrees.2.1⟩, hthrees.2.2, hdigits⟩
  · intro text htext hgroups
    rw [hdecimal] at htext
    exact eq_grouped_iff.2 ⟨String.ofList_injective htext, hgroups⟩

/-- A number of digits that is a multiple of three. -/
example : grouped 100200 = "100,200" := by
  decide

end MatlabQuality.Number
