import MatlabQuality.Proofs.Thresholds.Entries

/-!
# Commented files of limits

The commented file of some limits has one line for each of them.  Read again it gives the limits,
whatever the size and the sign of the comment share, as long as the whole limits fit the numbers
that such a file can hold.

## Main definitions

* `Thresholds.wholeLimits` — the five limits that are whole numbers.
* `Thresholds.entries` — the limits as entries, in the order of the file.

## Main statements

* `Thresholds.writes_commentedToml` — the file writes the entries.
* `Thresholds.ofTomlText?_commentedToml` — the file holds the limits that it was written for.
-/

namespace MatlabQuality.Thresholds

open MatlabQuality.Number MatlabQuality.Toml

/-- The five limits that are whole numbers. -/
def wholeLimits (t : Thresholds) : List ℕ :=
  [t.maxFunctionLength, t.maxParameters, t.maxNestingDepth, t.maxCyclomaticComplexity,
    t.magicNumberThreshold]

/-! ## Numbers -/

/-- A share is finite. -/
theorem exists_eq_finite_of_isShare {x : Binary64} (h : isShare x = true) :
    ∃ negative a, x = .finite negative a := by
  obtain ⟨zero, hzero, -⟩ := Binary64.exists_ofNat_eq (n := 0) (by decide)
  obtain ⟨one, hone, -⟩ := Binary64.exists_ofNat_eq (n := 1) (by decide)
  obtain ⟨hlow, hhigh⟩ := Bool.and_eq_true_iff.1 h
  cases x with
  | finite negative a => exact ⟨negative, a, rfl⟩
  | nan =>
    change Binary64.le (.ofNat 0) .nan = true at hlow
    rw [hzero] at hlow
    cases hlow
  | infinite negative =>
    change Binary64.le (.ofNat 0) _ = true at hlow
    change Binary64.le _ (.ofNat 1) = true at hhigh
    rw [hzero] at hlow
    rw [hone] at hhigh
    cases negative with
    | true => cases hlow
    | false => cases hhigh

theorem chars_natCast (n : ℕ) : (Literal.integer n).chars = decimalDigits n := by
  have hsign : decide ((n : ℤ) < 0) = false := decide_eq_false (by omega)
  rw [Literal.chars, Literal.negative, hsign, chars_eq_append]
  exact List.append_nil _

/-- The literal of a finite number. -/
def literalOf (negative : Bool) (a : Magnitude) : Literal :=
  .decimal negative (exact.parts a)

theorem wellFormed_literalOf (negative : Bool) (a : Magnitude) :
    (literalOf negative a).WellFormed := by
  obtain ⟨hdigits, hpart, hvalue⟩ := @Layout.parts_spec exact rfl a
  refine ⟨hdigits, hpart, ?_⟩
  rw [hvalue]
  exact fun h => nomatch h

theorem chars_literalOf (negative : Bool) (a : Magnitude) :
    (literalOf negative a).chars = exact.writeChars (.finite negative a) := by
  rfl

/-! ## Lines -/

/-- A line that holds a comment. -/
def IsCommentLine (cs : List Char) : Prop :=
  cs = '#' :: (cs.tail.dropLast ++ ['\n']) ∧ ∀ c ∈ cs.tail.dropLast, isPrintable c = true

instance (cs : List Char) : Decidable (IsCommentLine cs) :=
  inferInstanceAs (Decidable (_ ∧ _))

theorem writes_comment {entries : List (String × Literal)} {line rest : List Char}
    (hline : IsCommentLine line) (hrest : Writes entries rest) : Writes entries (line ++ rest) := by
  have hends : EndsLine ([] ++ ('#' :: line.tail.dropLast ++ '\n' :: rest)) rest :=
    .intro (fun _ hc => absurd hc List.not_mem_nil) (.present hline.2) (.newline rest)
  rw [hline.1]
  simpa using Writes.pass hends hrest

/-- A blank line, a comment and a key with its number. -/
theorem writes_commented {entries : List (String × Literal)} {heading start : String}
    {key : String} {l : Literal} {rest : List Char}
    (hheading : heading.toList = '\n' :: heading.toList.tail ∧ IsCommentLine heading.toList.tail)
    (hkey : IsBareKey key) (hstart : start.toList = key.toList ++ [' ', '=', ' '])
    (hl : l.WellFormed) (hrest : Writes entries rest) :
    Writes ((key, l) :: entries)
      (heading.toList ++ (start.toList ++ (l.chars ++ ("\n".toList ++ rest)))) := by
  have hblank : ∀ c ∈ [' '], isBlank c = true := by decide
  have hnone : ∀ c ∈ ([] : List Char), isBlank c = true := by decide
  have hentry : Writes ((key, l) :: entries) _ :=
    .entry hkey hl hnone hblank hblank (.intro hnone .absent (.newline rest)) hrest
  have hline := Writes.pass (.intro hnone .absent (.newline _)) (writes_comment hheading.2 hentry)
  rw [hheading.1, hstart]
  simpa [entryChars] using hline

/-- The limits as entries, in the order of the file; the comment share is finite. -/
def entries (t : Thresholds) (negative : Bool) (a : Magnitude) : List (String × Literal) :=
  [("max_function_length", .integer t.maxFunctionLength),
    ("max_parameters", .integer t.maxParameters),
    ("max_nesting_depth", .integer t.maxNestingDepth),
    ("max_cyclomatic_complexity", .integer t.maxCyclomaticComplexity),
    ("min_comment_ratio", literalOf negative a),
    ("magic_number_threshold", .integer t.magicNumberThreshold)]

/-- **The commented file writes the limits, one to a line.** -/
theorem writes_commentedToml {t : Thresholds} {negative : Bool} {a : Magnitude}
    (h : t.minCommentRatio = .finite negative a) :
    Writes (t.entries negative a) t.commentedToml.toList := by
  unfold commentedToml
  simp only [String.toList_append, List.append_assoc, decimal, Layout.write, String.toList_ofList,
    h, ← chars_natCast, ← chars_literalOf]
  refine writes_comment (by decide +kernel) (writes_comment (by decide +kernel) ?_)
  refine writes_commented (by decide +kernel) (by decide) (by decide) trivial ?_
  refine writes_commented (by decide +kernel) (by decide) (by decide) trivial ?_
  refine writes_commented (by decide +kernel) (by decide) (by decide) trivial ?_
  refine writes_commented (by decide +kernel) (by decide) (by decide) trivial ?_
  refine writes_commented (by decide +kernel) (by decide) (by decide)
    (wellFormed_literalOf negative a) ?_
  rw [← List.append_nil "\n".toList]
  exact writes_commented (by decide +kernel) (by decide) (by decide) trivial .nil

/-! ## Reading again -/

theorem nodup_entries (t : Thresholds) (negative : Bool) (a : Magnitude) :
    ((t.entries negative a).map Prod.fst).Nodup := by
  simp [entries]

theorem isAssignment_entries (t : Thresholds) (negative : Bool) (a : Magnitude) :
    IsAssignment (t.entries negative a) := by
  simp [IsAssignment, entries, wholeKeys, keys]

/-- The numbers of the entries fit when the whole limits do. -/
theorem forall_isSome_value?_iff (t : Thresholds) (negative : Bool) (a : Magnitude) :
    (∀ e ∈ t.entries negative a, e.2.value?.isSome) ↔ ∀ n ∈ t.wholeLimits, n < 2 ^ 63 := by
  have hfits : ∀ n : ℕ, (Literal.integer n).value?.isSome ↔ n < 2 ^ 63 := by
    intro n
    rw [Literal.isSome_value?_integer]
    omega
  have hshare : (literalOf negative a).value?.isSome := rfl
  simp only [entries, wholeLimits, List.forall_mem_cons, hfits, hshare, true_and,
    List.not_mem_nil, false_imp_iff, implies_true]

theorem ofEntries_entries {t : Thresholds} {negative : Bool} {a : Magnitude}
    (h : t.minCommentRatio = .finite negative a) : ofEntries (t.entries negative a) = t := by
  have hshare : (exact.parts a).value negative = t.minCommentRatio := by
    rw [h, (@Layout.parts_spec exact rfl a).2.2]
  simp [ofEntries, limitOf, shareOf, numberOf, entries, literalOf, List.lookup_cons, hshare]

/-- A commented file with limits that fit holds these limits. -/
theorem ofTomlText?_commentedToml_of_fits {t : Thresholds} {negative : Bool} {a : Magnitude}
    (h : t.minCommentRatio = .finite negative a) (hfits : ∀ n ∈ t.wholeLimits, n < 2 ^ 63) :
    ofTomlText? t.commentedToml.toList = some t := by
  have hvalues := (forall_isSome_value?_iff t negative a).2 hfits
  rw [ofTomlText?_of_writes (writes_commentedToml h) (nodup_entries t negative a) hvalues
    (isAssignment_entries t negative a), ofEntries_entries h]

/-- **The commented file of limits that make sense holds these limits**, if every whole limit fits
a signed number of 64 bits, and it holds none otherwise. -/
theorem ofTomlText?_commentedToml {t : Thresholds} (h : t.validate = .ok ()) :
    ofTomlText? t.commentedToml.toList =
      if ∀ n ∈ t.wholeLimits, n < 2 ^ 63 then some t else none := by
  obtain ⟨negative, a, hratio⟩ : ∃ negative a, t.minCommentRatio = .finite negative a := by
    refine exists_eq_finite_of_isShare ?_
    by_contra hshare
    rw [validate, Bool.eq_false_of_not_eq_true hshare] at h
    cases h
  split_ifs with hfits
  · exact ofTomlText?_commentedToml_of_fits hratio hfits
  · refine ofTomlText?_eq_none (writes_commentedToml hratio) fun hgood => hfits ?_
    exact (forall_isSome_value?_iff t negative a).1 hgood.2

/-- Negative zero comes back with its sign beside the largest limit that fits, and the least share
above zero is lost with the first limit that does not. -/
theorem ofTomlText?_commentedToml_bounds :
    ofTomlText? (commentedToml ⟨2 ^ 63 - 1, 0, 4, 10, .zero true, 1⟩).toList =
        some ⟨2 ^ 63 - 1, 0, 4, 10, .zero true, 1⟩ ∧
      ofTomlText? (commentedToml ⟨2 ^ 63, 0, 4, 10, .ofDecimal false 5 (-324), 1⟩).toList =
        none := by
  have hzero : validate ⟨2 ^ 63 - 1, 0, 4, 10, .zero true, 1⟩ = .ok () := by decide +kernel
  have hleast : validate ⟨2 ^ 63, 0, 4, 10, .ofDecimal false 5 (-324), 1⟩ = .ok () := by
    decide +kernel
  constructor
  · rw [ofTomlText?_commentedToml hzero, if_pos (by decide)]
  · rw [ofTomlText?_commentedToml hleast, if_neg (by decide)]

end MatlabQuality.Thresholds
