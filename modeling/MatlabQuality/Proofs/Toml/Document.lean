import Mathlib.Data.List.DropRight
import MatlabQuality.Proofs.Toml.Literal

/-!
# Texts of keys and numbers

A text of lines `key = number`, with blank lines and comments between them and blanks around every
part, is read line by line.  It defines each key as its number, unless a key comes twice or a whole
number does not fit.

## Main definitions

* `EndsLine` — the rest of a line, and what is left after it.
* `IsBareKey` — a key without quotes.
* `Writes` — a text writes some entries, in order.

## Main statements

* `readStatement?_entry` — one line defines its key.
* `Writes.readStatements?_eq` — a text defines its entries one after the other.
* `Writes.exists_read?_eq` — entries with different keys and fitting numbers are all defined.
* `Writes.read?_eq_none` — any other entries are refused.
-/

namespace MatlabQuality.Toml

open MatlabQuality.Number

/-! ## Ends of lines -/

/-- A comment, or none. -/
inductive IsComment : List Char → Prop where
  | absent : IsComment []
  | present {text : List Char} (h : ∀ c ∈ text, isPrintable c = true) : IsComment ('#' :: text)

/-- A line ending, or the end of the text, and what is left after it. -/
inductive IsEnding : List Char → List Char → Prop where
  | newline (rest : List Char) : IsEnding ('\n' :: rest) rest
  | returnNewline (rest : List Char) : IsEnding ('\r' :: '\n' :: rest) rest
  | finish : IsEnding [] []

/-- The rest of a line, which is blank up to a comment, and what is left after it. -/
inductive EndsLine : List Char → List Char → Prop where
  | intro {blanks comment ending rest : List Char} (hblanks : ∀ c ∈ blanks, isBlank c = true)
      (hcomment : IsComment comment) (hending : IsEnding ending rest) :
      EndsLine (blanks ++ (comment ++ ending)) rest

theorem skipBlanks_append {blanks : List Char} (h : ∀ c ∈ blanks, isBlank c = true)
    (cs : List Char) : skipBlanks (blanks ++ cs) = skipBlanks cs :=
  List.dropWhile_append_of_pos h

theorem skipBlanks_cons {c : Char} (h : isBlank c = false) (cs : List Char) :
    skipBlanks (c :: cs) = c :: cs :=
  List.dropWhile_cons_of_neg (by simp [h])

theorem lineEnd?_skipBlanks (cs : List Char) : lineEnd? (skipBlanks cs) = lineEnd? cs := by
  have htwice : skipBlanks (skipBlanks cs) = skipBlanks cs := List.dropWhile_idempotent _ cs
  rw [lineEnd?, htwice, ← lineEnd?]

theorem IsEnding.head?_mem {ending rest : List Char} (h : IsEnding ending rest) {c : Char}
    (hc : ending.head? = some c) : c ∈ ['\n', '\r'] := by
  cases h with
  | newline =>
    obtain rfl : '\n' = c := Option.some.inj hc
    decide
  | returnNewline =>
    obtain rfl : '\r' = c := Option.some.inj hc
    decide
  | finish => cases hc

/-- What a comment or the end of a line starts with. -/
theorem head?_comment_append {comment ending rest : List Char} (hcomment : IsComment comment)
    (hending : IsEnding ending rest) {c : Char} (hc : (comment ++ ending).head? = some c) :
    c ∈ ['#', '\n', '\r'] := by
  cases hcomment with
  | absent => exact List.mem_cons_of_mem _ (hending.head?_mem hc)
  | present =>
    obtain rfl : '#' = c := Option.some.inj hc
    exact List.mem_cons_self

theorem skipBlanks_comment_append {comment ending rest : List Char} (hcomment : IsComment comment)
    (hending : IsEnding ending rest) : skipBlanks (comment ++ ending) = comment ++ ending := by
  have hall : ∀ c ∈ ['#', '\n', '\r'], isBlank c = false := by decide
  cases hcons : comment ++ ending with
  | nil => rfl
  | cons c cs =>
    exact skipBlanks_cons (hall c (head?_comment_append hcomment hending (by rw [hcons]; rfl))) cs

theorem skipComment_append {comment ending rest : List Char} (hcomment : IsComment comment)
    (hending : IsEnding ending rest) : skipComment (comment ++ ending) = ending := by
  have hprintable : ending.dropWhile isPrintable = ending := by
    cases hending with
    | newline => rfl
    | returnNewline => rfl
    | finish => rfl
  cases hcomment with
  | absent =>
    cases hending with
    | newline => rfl
    | returnNewline => rfl
    | finish => rfl
  | present htext =>
    rw [List.cons_append, skipComment, List.dropWhile_append_of_pos htext, hprintable]

/-- **The rest of a line is passed over.** -/
theorem EndsLine.lineEnd?_eq {cs rest : List Char} (h : EndsLine cs rest) :
    lineEnd? cs = some rest := by
  cases h with
  | intro hblanks hcomment hending =>
    rw [lineEnd?, skipBlanks_append hblanks, skipBlanks_comment_append hcomment hending,
      skipComment_append hcomment hending]
    cases hending with
    | newline => rfl
    | returnNewline => rfl
    | finish => rfl

/-- What the rest of a line starts with. -/
theorem EndsLine.endsValue {cs rest : List Char} (h : EndsLine cs rest) : EndsValue cs := by
  cases h with
  | @intro blanks comment ending _ hblanks hcomment hending =>
    intro c hc
    cases blanks with
    | nil =>
      exact List.mem_cons_of_mem _ (List.mem_cons_of_mem _
        (head?_comment_append hcomment hending hc))
    | cons b blanks =>
      obtain rfl : b = c := Option.some.inj hc
      have hblank := hblanks b List.mem_cons_self
      simp only [isBlank, Bool.or_eq_true, decide_eq_true_eq] at hblank
      rcases hblank with rfl | rfl <;> decide

theorem EndsLine.length_le {cs rest : List Char} (h : EndsLine cs rest) :
    rest.length ≤ cs.length ∧ (rest ≠ [] → rest.length < cs.length) := by
  cases h with
  | intro hblanks hcomment hending =>
    cases hending with
    | newline => simp only [List.length_append, List.length_cons]; omega
    | returnNewline => simp only [List.length_append, List.length_cons]; omega
    | finish => exact ⟨Nat.zero_le _, fun h => absurd rfl h⟩

/-! ## One entry -/

/-- A key that needs no quotes. -/
def IsBareKey (key : String) : Prop :=
  key.toList ≠ [] ∧ ∀ c ∈ key.toList, isKeyChar c = true

instance (key : String) : Decidable (IsBareKey key) :=
  inferInstanceAs (Decidable (_ ∧ _))

/-- A character of a key is none that a statement could start with in another way. -/
theorem ne_of_isKeyChar {c d : Char} (hc : isKeyChar c = true) (hd : isKeyChar d = false) :
    c ≠ d := by
  rintro rfl
  exact absurd (hd.symm.trans hc) Bool.false_ne_true

theorem isBlank_of_isKeyChar {c : Char} (hc : isKeyChar c = true) : isBlank c = false := by
  have hspace : c ≠ ' ' := ne_of_isKeyChar hc (by decide)
  have htab : c ≠ '\t' := ne_of_isKeyChar hc (by decide)
  simp [isBlank, hspace, htab]

/-- A key ends no line. -/
theorem lineEnd?_of_isKeyChar {c : Char} (hc : isKeyChar c = true) (cs : List Char) :
    lineEnd? (c :: cs) = none := by
  have hcomment : skipComment (c :: cs) = c :: cs := by
    rw [skipComment]
    exact fun _ heq => ne_of_isKeyChar hc (by decide) (List.cons.inj heq).1
  have hnewline : newline? (c :: cs) = none := by
    unfold newline?
    split
    · next heq => exact absurd (List.cons.inj heq).1 (ne_of_isKeyChar hc (by decide))
    · next heq => exact absurd (List.cons.inj heq).1 (ne_of_isKeyChar hc (by decide))
    · rfl
  rw [lineEnd?, skipBlanks_cons (isBlank_of_isKeyChar hc), hcomment]
  exact hnewline

theorem IsBareKey.exists_eq_cons {key : String} (h : IsBareKey key) :
    ∃ c cs, key.toList = c :: cs ∧ isKeyChar c = true := by
  obtain ⟨c, cs, hcons⟩ := List.exists_cons_of_ne_nil h.1
  exact ⟨c, cs, hcons, h.2 c (hcons ▸ List.mem_cons_self)⟩

/-- A key without quotes is read up to what is no part of it. -/
theorem IsBareKey.key?_append {key : String} (h : IsBareKey key) {rest : List Char}
    (hrest : ∀ c, rest.head? = some c → isKeyChar c = false) :
    key? (key.toList ++ rest) = some (key, rest) := by
  have hnone : rest.takeWhile isKeyChar = [] ∧ rest.dropWhile isKeyChar = rest := by
    cases rest with
    | nil => exact ⟨rfl, rfl⟩
    | cons c rest =>
      have hc : ¬ isKeyChar c = true := by simp [hrest c rfl]
      exact ⟨List.takeWhile_cons_of_neg hc, List.dropWhile_cons_of_neg hc⟩
  have htake : (key.toList ++ rest).takeWhile isKeyChar = key.toList := by
    rw [List.takeWhile_append_of_pos h.2, hnone.1, List.append_nil]
  have hdrop : (key.toList ++ rest).dropWhile isKeyChar = rest := by
    rw [List.dropWhile_append_of_pos h.2, hnone.2]
  obtain ⟨c, cs, hcons, hc⟩ := h.exists_eq_cons
  have hkey : String.ofList (c :: cs) = key := by rw [← hcons, String.ofList_toList]
  rw [hcons] at htake hdrop ⊢
  rw [List.cons_append] at htake hdrop ⊢
  rw [key?]
  · simp only [htake, hdrop, hkey]
  · exact fun _ heq => ne_of_isKeyChar hc (by decide) (List.cons.inj heq).1
  · exact fun _ heq => ne_of_isKeyChar hc (by decide) (List.cons.inj heq).1

/-- A key without quotes, up to the sign of equality. -/
theorem IsBareKey.keyPath?_append {key : String} (h : IsBareKey key) {before : List Char}
    (hbefore : ∀ c ∈ before, isBlank c = true) (rest : List Char) :
    keyPath? (key.toList ++ (before ++ '=' :: rest)) = some ([key], '=' :: rest) := by
  have hfollows : ∀ c, (before ++ '=' :: rest).head? = some c → isKeyChar c = false := by
    intro c hc
    cases before with
    | nil =>
      obtain rfl : '=' = c := Option.some.inj hc
      decide
    | cons b before =>
      obtain rfl : b = c := Option.some.inj hc
      by_contra hkey
      have hblank := isBlank_of_isKeyChar (Bool.eq_true_of_not_eq_false hkey)
      exact absurd (hblank.symm.trans (hbefore b List.mem_cons_self)) Bool.false_ne_true
  have hstart : skipBlanks (key.toList ++ (before ++ '=' :: rest)) =
      key.toList ++ (before ++ '=' :: rest) := by
    obtain ⟨c, cs, hcons, hc⟩ := h.exists_eq_cons
    rw [hcons]
    exact skipBlanks_cons (isBlank_of_isKeyChar hc) _
  have hbehind : skipBlanks (before ++ '=' :: rest) = '=' :: rest := by
    rw [skipBlanks_append hbefore, skipBlanks_cons (by decide)]
  have hparts : keyParts? ((key.toList ++ (before ++ '=' :: rest)).length + 1)
      (key.toList ++ (before ++ '=' :: rest)) = some ([key], '=' :: rest) := by
    simp only [keyParts?, hstart, h.key?_append hfollows, hbehind, Option.bind_eq_bind,
      Option.bind_some]
    rfl
  rw [keyPath?, hparts]
  rfl

/-- A line that starts with a key defines it. -/
theorem readStatement?_of_keyPath? (s : Scope) {cs rest : List Char} {keys : List String}
    (hhead : ∀ c, cs.head? = some c → isKeyChar c = true)
    (hpath : keyPath? cs = some (keys, '=' :: rest)) :
    readStatement? s cs =
      (readValue? (2 * cs.length + 2) 0 (skipBlanks rest)).bind fun (v, rest) =>
        (lineEnd? rest).bind fun rest => (s.define? keys v).map (·, rest) := by
  have hbracket : ∀ {more : List Char}, cs ≠ '[' :: more := by
    rintro more rfl
    exact absurd (hhead '[' rfl) (by decide)
  rw [readStatement?]
  · simp only [hpath, Option.bind_eq_bind, Option.bind_some, Option.map_eq_bind]
    rfl
  · exact fun _ => hbracket
  · exact fun _ => hbracket

/-- The characters of a line that defines a key. -/
def entryChars (before after : List Char) (key : String) (l : Literal) (tail : List Char) :
    List Char :=
  key.toList ++ (before ++ '=' :: (after ++ (l.chars ++ tail)))

/-- **One line defines its key as its number.** -/
theorem readStatement?_entry (s : Scope) {before after : List Char}
    (hbefore : ∀ c ∈ before, isBlank c = true) (hafter : ∀ c ∈ after, isBlank c = true)
    {key : String} (hkey : IsBareKey key) {l : Literal} (hl : l.WellFormed)
    {tail rest : List Char} (htail : EndsLine tail rest) :
    readStatement? s (entryChars before after key l tail) =
      (l.value?.bind (s.define? [key])).map (·, rest) := by
  have hpath := hkey.keyPath?_append hbefore (after ++ (l.chars ++ tail))
  have hvalue : skipBlanks (after ++ (l.chars ++ tail)) = l.chars ++ tail := by
    obtain ⟨c, cs, hcons, hc⟩ := hl.exists_chars_eq_cons
    have hkeyChar : isKeyChar c = true := by
      rcases hc with rfl | hc
      · decide
      · have hdigit : c.isDigit = true := isAsciiDigit_iff.1 hc
        simp [isKeyChar, Char.isAlphanum, hdigit]
    rw [skipBlanks_append hafter, hcons]
    exact skipBlanks_cons (isBlank_of_isKeyChar hkeyChar) _
  have hread := readValue?_literal hl (2 * (entryChars before after key l tail).length + 1) 0
    htail.endsValue
  have hhead : ∀ c, (entryChars before after key l tail).head? = some c → isKeyChar c = true := by
    intro d hd
    obtain ⟨c, cs, hcons, hc⟩ := hkey.exists_eq_cons
    rw [entryChars, hcons] at hd
    obtain rfl : c = d := Option.some.inj hd
    exact hc
  rw [readStatement?_of_keyPath? s hhead hpath, hvalue, hread]
  cases l.value? with
  | none => rfl
  | some v => simp only [Option.map_some, Option.bind_some, htail.lineEnd?_eq]

/-! ## Scopes -/

namespace Scope

theorem item?_add_self (s : Scope) (path : List String) (item : Item) :
    (s.add path item).item? path = some item := by
  simp [add, item?]

theorem item?_add_of_ne (s : Scope) {path other : List String} (h : other ≠ path) (item : Item) :
    (s.add path item).item? other = s.item? other := by
  simp [add, item?, List.lookup_cons, beq_eq_false_iff_ne.2 h]

/-- A key at the top is defined unless it already is. -/
theorem define?_top {s : Scope} (h : s.current = []) (key : String) (v : Value) :
    s.define? [key] v =
      if (s.item? [key]).isNone then some (s.add [key] (.value v)) else none := by
  simp only [define?, List.dropLast_singleton, descend?, Option.bind_eq_bind, Option.bind_some, h,
    List.nil_append, accepts, List.isEmpty_nil, Bool.true_or, Bool.true_and]
  rfl

/-- A scope after some entries at the top, one after the other. -/
def defineAll? (s : Scope) (entries : List (String × Literal)) : Option Scope :=
  entries.foldlM (fun s e => e.2.value?.bind (s.define? [e.1])) s

theorem defineAll?_cons (s : Scope) (e : String × Literal) (entries : List (String × Literal)) :
    s.defineAll? (e :: entries) =
      (e.2.value?.bind (s.define? [e.1])).bind (·.defineAll? entries) :=
  List.foldlM_cons

/-- **Entries with different keys are all defined.** -/
theorem exists_defineAll?_eq {s : Scope} (hs : s.current = [])
    {entries : List (String × Literal)} (hvalues : ∀ e ∈ entries, e.2.value?.isSome)
    (hkeys : (entries.map Prod.fst).Nodup) (hnew : ∀ e ∈ entries, s.item? [e.1] = none) :
    ∃ s', s.defineAll? entries = some s' ∧ ∀ key, s'.item? [key] =
      (((entries.lookup key).bind Literal.value?).map .value).or (s.item? [key]) := by
  induction entries generalizing s with
  | nil => exact ⟨s, rfl, fun _ => rfl⟩
  | cons e entries ih =>
    obtain ⟨hvalue, hvalues⟩ := List.forall_mem_cons.1 hvalues
    obtain ⟨hfresh, hkeys⟩ := List.nodup_cons.1 hkeys
    obtain ⟨hmissing, hnew⟩ := List.forall_mem_cons.1 hnew
    obtain ⟨v, hv⟩ := Option.isSome_iff_exists.1 hvalue
    have hdefine : e.2.value?.bind (s.define? [e.1]) = some (s.add [e.1] (.value v)) := by
      rw [hv, Option.bind_some, define?_top hs, hmissing]
      rfl
    have hother : ∀ {key}, key ≠ e.1 → (s.add [e.1] (.value v)).item? [key] = s.item? [key] :=
      fun hne => item?_add_of_ne s (fun heq => hne (List.cons.inj heq).1) _
    have hstill : ∀ d ∈ entries, (s.add [e.1] (.value v)).item? [d.1] = none := by
      intro d hd
      rw [hother fun heq => hfresh (heq ▸ List.mem_map_of_mem hd)]
      exact hnew d hd
    obtain ⟨s', hs', hitems⟩ := ih (s := s.add [e.1] (.value v)) hs hvalues hkeys hstill
    refine ⟨s', by rw [defineAll?_cons, hdefine, Option.bind_some, hs'], fun key => ?_⟩
    rw [hitems key]
    by_cases hkey : key = e.1
    · have hlookup : entries.lookup key = none := by
        refine List.lookup_eq_none_iff.2 fun d hd => ?_
        rw [bne_iff_ne, hkey]
        exact fun heq => hfresh (heq ▸ List.mem_map_of_mem hd)
      rw [hlookup, hkey, item?_add_self, List.lookup_cons, beq_self_eq_true]
      simp only [Option.bind_none, Option.map_none, Option.none_or, Option.bind_some, hv,
        Option.map_some, Option.some_or]
    · rw [hother hkey, List.lookup_cons, beq_eq_false_iff_ne.2 hkey]

/-- A key that is defined stays so, and cannot be defined again. -/
theorem defineAll?_eq_none_of_defined {s : Scope} (hs : s.current = []) {key : String}
    (hkey : (s.item? [key]).isSome) {entries : List (String × Literal)}
    (hmem : key ∈ entries.map Prod.fst) : s.defineAll? entries = none := by
  induction entries generalizing s with
  | nil => exact absurd hmem List.not_mem_nil
  | cons e entries ih =>
    rw [defineAll?_cons]
    cases hv : e.2.value? with
    | none => rfl
    | some v =>
      rw [Option.bind_some, define?_top hs]
      split_ifs with hmissing
      · have hne : key ≠ e.1 := by
          rintro rfl
          rw [Option.isNone_iff_eq_none.1 hmissing] at hkey
          cases hkey
        have hsame : (s.add [e.1] (.value v)).item? [key] = s.item? [key] :=
          item?_add_of_ne s (fun heq => hne (List.cons.inj heq).1) _
        rw [Option.bind_some]
        refine ih hs (hsame ▸ hkey) ?_
        exact (List.mem_cons.1 hmem).resolve_left hne
      · rfl

/-- **A key that comes twice, or a number that does not fit, is refused.** -/
theorem defineAll?_eq_none {s : Scope} (hs : s.current = []) {entries : List (String × Literal)}
    (h : ¬ ((entries.map Prod.fst).Nodup ∧ ∀ e ∈ entries, e.2.value?.isSome)) :
    s.defineAll? entries = none := by
  induction entries generalizing s with
  | nil => exact absurd ⟨List.nodup_nil, fun _ he => absurd he List.not_mem_nil⟩ h
  | cons e entries ih =>
    rw [defineAll?_cons]
    cases hv : e.2.value? with
    | none => rfl
    | some v =>
      rw [Option.bind_some, define?_top hs]
      split_ifs with hmissing
      · rw [Option.bind_some]
        by_cases hmem : e.1 ∈ entries.map Prod.fst
        · have hdefined : ((s.add [e.1] (.value v)).item? [e.1]).isSome := by
            rw [item?_add_self]
            rfl
          exact defineAll?_eq_none_of_defined (s := s.add [e.1] (.value v)) hs hdefined hmem
        · refine ih hs fun hrest => h ⟨List.nodup_cons.2 ⟨hmem, hrest.1⟩, ?_⟩
          exact List.forall_mem_cons.2 ⟨by rw [hv]; rfl, hrest.2⟩
      · rfl

end Scope

/-! ## Texts -/

/-- A text writes some entries, one to a line; lines that are blank or hold a comment may stand
between them. -/
inductive Writes : List (String × Literal) → List Char → Prop where
  | nil : Writes [] []
  | pass {entries : List (String × Literal)} {line rest : List Char} (hline : EndsLine line rest)
      (hrest : Writes entries rest) : Writes entries line
  | entry {entries : List (String × Literal)} {key : String} {l : Literal}
      {indent before after tail rest : List Char} (hkey : IsBareKey key) (hl : l.WellFormed)
      (hindent : ∀ c ∈ indent, isBlank c = true) (hbefore : ∀ c ∈ before, isBlank c = true)
      (hafter : ∀ c ∈ after, isBlank c = true) (htail : EndsLine tail rest)
      (hrest : Writes entries rest) :
      Writes ((key, l) :: entries) (indent ++ entryChars before after key l tail)

namespace Writes

variable {entries : List (String × Literal)} {cs : List Char}

theorem eq_nil (h : Writes entries []) : entries = [] := by
  generalize hcs : ([] : List Char) = cs at h
  induction h with
  | nil => rfl
  | pass hline _ ih =>
    subst hcs
    exact ih (List.eq_nil_of_length_eq_zero (Nat.le_zero.1 hline.length_le.1)).symm
  | entry => simp [entryChars] at hcs

/-- A line with a key is one statement. -/
theorem readStatements?_entry (s : Scope) {indent before after : List Char}
    (hindent : ∀ c ∈ indent, isBlank c = true) (hbefore : ∀ c ∈ before, isBlank c = true)
    (hafter : ∀ c ∈ after, isBlank c = true) {key : String} (hkey : IsBareKey key) {l : Literal}
    (hl : l.WellFormed) {tail rest : List Char} (htail : EndsLine tail rest) (fuel : ℕ) :
    readStatements? (fuel + 1) s (indent ++ entryChars before after key l tail) =
      (l.value?.bind (s.define? [key])).bind fun s => readStatements? fuel s rest := by
  have hstatement := readStatement?_entry s hbefore hafter hkey hl htail
  obtain ⟨c, cs, hcons, hc⟩ := hkey.exists_eq_cons
  have hstart : entryChars before after key l tail =
      c :: (cs ++ (before ++ '=' :: (after ++ (l.chars ++ tail)))) := by
    rw [entryChars, hcons]
    rfl
  rw [hstart] at hstatement ⊢
  have hblanks := skipBlanks_cons (isBlank_of_isKeyChar hc)
    (cs ++ (before ++ '=' :: (after ++ (l.chars ++ tail))))
  have hend := lineEnd?_of_isKeyChar hc (cs ++ (before ++ '=' :: (after ++ (l.chars ++ tail))))
  rw [readStatements?, skipBlanks_append hindent, hblanks]
  simp only [hend, hstatement, Option.bind_eq_bind]
  cases l.value?.bind (s.define? [key]) with
  | none => rfl
  | some s => rfl

/-- **A text defines its entries one after the other.** -/
theorem readStatements?_eq (h : Writes entries cs) (s : Scope) {fuel : ℕ}
    (hfuel : cs.length < fuel) : readStatements? fuel s cs = s.defineAll? entries := by
  induction h generalizing s fuel with
  | nil =>
    obtain ⟨fuel, rfl⟩ : ∃ n, fuel = n + 1 := ⟨fuel - 1, by omega⟩
    rfl
  | @pass entries line rest hline hrest ih =>
    obtain ⟨fuel, rfl⟩ : ∃ n, fuel = n + 1 := ⟨fuel - 1, by omega⟩
    have hend := hline.lineEnd?_eq
    rw [← lineEnd?_skipBlanks] at hend
    rw [readStatements?]
    split
    · next hblank =>
      rw [hblank] at hend
      obtain rfl : [] = rest := Option.some.inj hend
      rw [hrest.eq_nil]
      rfl
    · next hne =>
      rw [hend]
      refine ih s ?_
      obtain ⟨hle, hlt⟩ := hline.length_le
      by_cases hempty : rest = []
      · have hpos : 0 < line.length := by
          refine List.length_pos_iff.2 ?_
          rintro rfl
          exact hne rfl
        rw [hempty, List.length_nil]
        omega
      · have := hlt hempty
        omega
  | @entry entries key l indent before after tail rest hkey hl hindent hbefore hafter htail
      hrest ih =>
    obtain ⟨fuel, rfl⟩ : ∃ n, fuel = n + 1 := ⟨fuel - 1, by omega⟩
    rw [readStatements?_entry s hindent hbefore hafter hkey hl htail, Scope.defineAll?_cons]
    have hlength : rest.length < fuel := by
      have hle := htail.length_le.1
      simp only [entryChars, List.length_append, List.length_cons] at hfuel
      omega
    cases l.value?.bind (s.define? [key]) with
    | none => rfl
    | some s => exact ih s hlength

/-- A text starts with no byte order mark. -/
theorem head?_ne (h : Writes entries cs) : cs.head? ≠ some '\uFEFF' := by
  cases h with
  | nil => exact fun hhead => nomatch hhead
  | pass hline _ => exact fun hhead => absurd (hline.endsValue _ hhead) (by decide)
  | @entry _ key l indent before after tail _ hkey _ hindent _ _ _ _ =>
    intro hhead
    cases indent with
    | nil =>
      obtain ⟨c, cs, hcons, hc⟩ := hkey.exists_eq_cons
      rw [List.nil_append, entryChars, hcons] at hhead
      exact ne_of_isKeyChar hc (by decide) (Option.some.inj hhead)
    | cons b indent =>
      obtain rfl : b = '\uFEFF' := Option.some.inj hhead
      exact absurd (hindent _ List.mem_cons_self) (by decide)

theorem read?_eq (h : Writes entries cs) : read? cs = Scope.empty.defineAll? entries := by
  rw [← h.readStatements?_eq Scope.empty (Nat.lt_succ_self _), read?]
  rintro rest rfl
  exact h.head?_ne rfl

/-- **A text of different keys and fitting numbers defines each key as its number.** -/
theorem exists_read?_eq (h : Writes entries cs) (hkeys : (entries.map Prod.fst).Nodup)
    (hvalues : ∀ e ∈ entries, e.2.value?.isSome) :
    ∃ s, read? cs = some s ∧
      ∀ key, s.item? [key] = ((entries.lookup key).bind Literal.value?).map .value := by
  obtain ⟨s, hs, hitems⟩ :=
    Scope.exists_defineAll?_eq (s := Scope.empty) rfl hvalues hkeys fun _ _ => rfl
  refine ⟨s, h.read?_eq.trans hs, fun key => ?_⟩
  rw [hitems key]
  exact Option.or_none

/-- **A text in which a key comes twice, or a number does not fit, is refused.** -/
theorem read?_eq_none (h : Writes entries cs)
    (hbad : ¬ ((entries.map Prod.fst).Nodup ∧ ∀ e ∈ entries, e.2.value?.isSome)) :
    read? cs = none :=
  h.read?_eq.trans (Scope.defineAll?_eq_none rfl hbad)

end Writes

end MatlabQuality.Toml
