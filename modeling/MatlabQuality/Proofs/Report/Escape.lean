import Mathlib.Data.List.Basic
import MatlabQuality.Report.Page

/-!
# Escaped texts

Escaping replaces one character after the other in the whole text.  Because the ampersand comes
first, no entity is replaced again, so each character is replaced once, and reading the entities
gives the text back.

## Main definitions

* `entity` — what a character is replaced by.
* `isDelimiter` — the characters that delimit tags and attributes.
* `unescape` — a text with its entities read, in one pass.
* `IsEscaped` — the characters of markup occur in entities alone.
* `IsUnescaped` — a text that stands on a page as it is.

## Main statements

* `escapeChars_eq_flatMap` — each character is replaced once.
* `isDelimiter_of_mem_escapeChars` — an escaped text has no delimiter of tags or attributes.
* `unescape_escapeChars` — nothing is lost.
* `isEscaped_iff` — the escaped texts are those with the characters of markup in entities alone.
* `IsUnescaped.escape_eq` — a text without characters of markup is not changed.
* `escape_replaces_once` — escaping replaces each character once and is undone in one pass.
-/

namespace MatlabQuality.Page

/-! ## One character at a time -/

/-- What a character is replaced by. -/
def entity (c : Char) : List Char :=
  (entities.lookup c).getD [c]

theorem replaceChar_append (c : Char) (r cs ds : List Char) :
    replaceChar c r (cs ++ ds) = replaceChar c r cs ++ replaceChar c r ds :=
  List.flatMap_append

theorem escapeChars_append (cs ds : List Char) :
    escapeChars (cs ++ ds) = escapeChars cs ++ escapeChars ds := by
  simp only [escapeChars, entities, List.foldl_cons, List.foldl_nil, replaceChar_append]

/-- A text without a character is left alone by its replacement. -/
theorem replaceChar_singleton_of_ne {c d : Char} (h : d ≠ c) (r : List Char) :
    replaceChar c r [d] = [d] := by
  simp [replaceChar, h]

/-- The characters of markup. -/
theorem mem_map_entities_iff {c : Char} :
    c ∈ entities.map (·.1) ↔ c = '&' ∨ c = '<' ∨ c = '>' ∨ c = '"' ∨ c = '\'' := by
  simp [entities]

/-- A character other than the five stands for itself. -/
theorem entity_of_notMem {c : Char} (h : c ∉ entities.map (·.1)) : entity c = [c] := by
  simp only [mem_map_entities_iff, not_or] at h
  obtain ⟨h₁, h₂, h₃, h₄, h₅⟩ := h
  simp [entity, entities, List.lookup_cons, beq_eq_false_iff_ne.2 h₁, beq_eq_false_iff_ne.2 h₂,
    beq_eq_false_iff_ne.2 h₃, beq_eq_false_iff_ne.2 h₄, beq_eq_false_iff_ne.2 h₅]

theorem escapeChars_singleton (c : Char) : escapeChars [c] = entity c := by
  by_cases h : c ∈ entities.map (·.1)
  · rcases mem_map_entities_iff.1 h with rfl | rfl | rfl | rfl | rfl <;> rfl
  · rw [entity_of_notMem h]
    simp only [mem_map_entities_iff, not_or] at h
    obtain ⟨h₁, h₂, h₃, h₄, h₅⟩ := h
    simp only [escapeChars, entities, List.foldl_cons, List.foldl_nil,
      replaceChar_singleton_of_ne h₁, replaceChar_singleton_of_ne h₂,
      replaceChar_singleton_of_ne h₃, replaceChar_singleton_of_ne h₄,
      replaceChar_singleton_of_ne h₅]

/-- **Each character is replaced once.** -/
theorem escapeChars_eq_flatMap (cs : List Char) : escapeChars cs = cs.flatMap entity := by
  induction cs with
  | nil => rfl
  | cons c cs ih =>
    rw [← List.singleton_append, escapeChars_append, escapeChars_singleton, ih,
      List.flatMap_append, List.flatMap_singleton]

/-! ## Characters of markup -/

/-- The characters that delimit tags and attributes. -/
def isDelimiter (c : Char) : Bool :=
  c = '<' || c = '>' || c = '"'

/-- An entity has no character of markup but its ampersand. -/
theorem notMem_of_mem_entity {c d : Char} (h : d ∈ entity c) : d ∉ ['<', '>', '"', '\''] := by
  by_cases hc : c ∈ entities.map (·.1)
  · have hnone : (entity c).any (['<', '>', '"', '\''].contains ·) = false := by
      rcases mem_map_entities_iff.1 hc with rfl | rfl | rfl | rfl | rfl <;> rfl
    rw [List.any_eq_false] at hnone
    simpa using hnone d h
  · rw [entity_of_notMem hc, List.mem_singleton] at h
    rw [h]
    exact fun hd => hc (List.mem_cons_of_mem '&' hd)

theorem isDelimiter_entity {c d : Char} (h : d ∈ entity c) : isDelimiter d = false := by
  have hd := notMem_of_mem_entity h
  rw [Bool.eq_false_iff]
  intro hdelimiter
  simp only [isDelimiter, Bool.or_eq_true, decide_eq_true_eq] at hdelimiter
  rcases hdelimiter with (rfl | rfl) | rfl <;> simp at hd

/-- **An escaped text has no delimiter.** -/
theorem isDelimiter_of_mem_escapeChars {cs : List Char} {d : Char} (h : d ∈ escapeChars cs) :
    isDelimiter d = false := by
  rw [escapeChars_eq_flatMap] at h
  obtain ⟨c, -, hd⟩ := List.mem_flatMap.1 h
  exact isDelimiter_entity hd

theorem lessThan_notMem_escapeChars (cs : List Char) : '<' ∉ escapeChars cs := by
  intro h
  exact absurd (isDelimiter_of_mem_escapeChars h) (by decide)

/-! ## Reading entities -/

/-- A text with its entities read, in one pass. -/
def unescape : List Char → List Char
  | '&' :: 'a' :: 'm' :: 'p' :: ';' :: rest => '&' :: unescape rest
  | '&' :: 'l' :: 't' :: ';' :: rest => '<' :: unescape rest
  | '&' :: 'g' :: 't' :: ';' :: rest => '>' :: unescape rest
  | '&' :: 'q' :: 'u' :: 'o' :: 't' :: ';' :: rest => '"' :: unescape rest
  | '&' :: '#' :: '3' :: '9' :: ';' :: rest => '\'' :: unescape rest
  | c :: rest => c :: unescape rest
  | [] => []

theorem unescape_cons_of_ne {c : Char} (h : c ≠ '&') (rest : List Char) :
    unescape (c :: rest) = c :: unescape rest := by
  rw [unescape] <;> simp [h]

theorem unescape_entity_append (c : Char) (rest : List Char) :
    unescape (entity c ++ rest) = c :: unescape rest := by
  by_cases hc : c ∈ entities.map (·.1)
  · rcases mem_map_entities_iff.1 hc with rfl | rfl | rfl | rfl | rfl <;> rfl
  · have hne : c ≠ '&' := by
      rintro rfl
      exact hc (by decide)
    rw [entity_of_notMem hc, List.singleton_append, unescape_cons_of_ne hne]

/-- **Nothing is lost by escaping.** -/
theorem unescape_escapeChars (cs : List Char) : unescape (escapeChars cs) = cs := by
  rw [escapeChars_eq_flatMap]
  induction cs with
  | nil => rfl
  | cons c cs ih => rw [List.flatMap_cons, unescape_entity_append, ih]

/-! ## Escaped texts -/

/-- The characters of markup occur in entities alone: an ampersand starts one, and the others do not
occur. -/
structure IsEscaped (cs : List Char) : Prop where
  notMem : ∀ c ∈ cs, c ∉ ['<', '>', '"', '\'']
  startsEntity : ∀ before after, cs = before ++ '&' :: after →
    ∃ c ∈ ['&', '<', '>', '"', '\''], entity c <+: '&' :: after

/-- An entity has an ampersand at its start and nowhere else. -/
theorem eq_nil_of_entity_eq {c : Char} {before after : List Char}
    (h : entity c = before ++ '&' :: after) : before = [] ∧ c ∈ entities.map (·.1) := by
  by_cases hc : c ∈ entities.map (·.1)
  · have htail : (entity c).tail.contains '&' = false := by
      rcases mem_map_entities_iff.1 hc with rfl | rfl | rfl | rfl | rfl <;> rfl
    refine ⟨?_, hc⟩
    cases before with
    | nil => rfl
    | cons d before =>
      rw [h] at htail
      simp at htail
  · rw [entity_of_notMem hc] at h
    obtain ⟨-, rfl, -⟩ : before = [] ∧ '&' = c ∧ after = [] := by
      simpa [List.singleton_eq_append_iff] using h
    exact absurd List.mem_cons_self hc

/-- **An escaped text has the characters of markup in entities alone.** -/
theorem isEscaped_escapeChars (cs : List Char) : IsEscaped (escapeChars cs) := by
  rw [escapeChars_eq_flatMap]
  refine ⟨?_, ?_⟩
  · intro c hc
    obtain ⟨d, -, hd⟩ := List.mem_flatMap.1 hc
    exact notMem_of_mem_entity hd
  · induction cs with
    | nil => simp
    | cons c cs ih =>
      intro before after h
      rw [List.flatMap_cons] at h
      rcases List.append_eq_append_iff.1 h with ⟨rest, -, hrest⟩ | ⟨rest, hentity, hrest⟩
      · exact ih rest after hrest
      · cases rest with
        | nil => exact ih [] after hrest.symm
        | cons d rest =>
          obtain ⟨rfl, rfl⟩ := List.cons.inj hrest
          obtain ⟨rfl, hc⟩ := eq_nil_of_entity_eq hentity
          exact ⟨c, hc, by rw [hentity]; simp⟩

namespace IsEscaped

variable {c : Char} {cs : List Char}

theorem tail (h : IsEscaped (c :: cs)) : IsEscaped cs := by
  refine ⟨fun d hd => h.notMem d (List.mem_cons_of_mem c hd), fun before after hcs => ?_⟩
  exact h.startsEntity (c :: before) after (by rw [hcs, List.cons_append])

/-- A character that starts no entity is written as it stands. -/
theorem entity_eq (h : IsEscaped (c :: cs)) (hc : c ≠ '&') : entity c = [c] := by
  apply entity_of_notMem
  intro hmem
  rcases List.mem_cons.1 hmem with heq | hmem
  · exact hc heq
  · exact h.notMem c List.mem_cons_self hmem

/-- **An escaped text is written again as it was** once its entities have been read. -/
theorem escapeChars_unescape (h : IsEscaped cs) : escapeChars (unescape cs) = cs := by
  rw [escapeChars_eq_flatMap]
  fun_induction unescape cs with
  | case1 rest ih => rw [List.flatMap_cons, ih h.tail.tail.tail.tail.tail]; rfl
  | case2 rest ih => rw [List.flatMap_cons, ih h.tail.tail.tail.tail]; rfl
  | case3 rest ih => rw [List.flatMap_cons, ih h.tail.tail.tail.tail]; rfl
  | case4 rest ih => rw [List.flatMap_cons, ih h.tail.tail.tail.tail.tail.tail]; rfl
  | case5 rest ih => rw [List.flatMap_cons, ih h.tail.tail.tail.tail.tail]; rfl
  | case6 c rest hamp hlt hgt hquot hapos ih =>
    have hc : c ≠ '&' := by
      rintro rfl
      -- The entity that starts here would have been read by one of the cases above.
      obtain ⟨d, hd, after, hafter⟩ := h.startsEntity [] rest rfl
      rcases mem_map_entities_iff.1 hd with rfl | rfl | rfl | rfl | rfl
      · exact hamp after rfl (List.cons.inj hafter).2.symm
      · exact hlt after rfl (List.cons.inj hafter).2.symm
      · exact hgt after rfl (List.cons.inj hafter).2.symm
      · exact hquot after rfl (List.cons.inj hafter).2.symm
      · exact hapos after rfl (List.cons.inj hafter).2.symm
    rw [List.flatMap_cons, ih h.tail, h.entity_eq hc]
    rfl
  | case7 => rfl

end IsEscaped

/-- **The escaped texts** are those with the characters of markup in entities alone. -/
theorem isEscaped_iff {cs : List Char} : IsEscaped cs ↔ ∃ ds, escapeChars ds = cs := by
  constructor
  · intro h
    exact ⟨unescape cs, h.escapeChars_unescape⟩
  · rintro ⟨ds, rfl⟩
    exact isEscaped_escapeChars ds

theorem escape_injective {s t : String} (h : escape s = escape t) : s = t := by
  have hchars : escapeChars s.toList = escapeChars t.toList := String.ofList_injective h
  have hread := congrArg unescape hchars
  rw [unescape_escapeChars, unescape_escapeChars] at hread
  exact String.toList_inj.1 hread

/-- **Escaping replaces each character once**, although it goes through the whole text five times:
the five characters of markup become their entities and all others stand.  So a text put together is
escaped piece by piece; of the characters of markup an escaped text has ampersands alone, each at
the start of an entity, and every text that is so is an escaped one; and reading the entities in one
pass undoes the escaping, so no two texts are escaped alike. -/
theorem escape_replaces_once (s : String) :
    (escape s).toList = s.toList.flatMap entity ∧
    (entity '&' = "&amp;".toList ∧ entity '<' = "&lt;".toList ∧ entity '>' = "&gt;".toList ∧
      entity '"' = "&quot;".toList ∧ entity '\'' = "&#39;".toList ∧
      ∀ c, c ∉ ['&', '<', '>', '"', '\''] → entity c = [c]) ∧
    (∀ t, escape (s ++ t) = escape s ++ escape t) ∧
    (∀ c ∈ (escape s).toList, c ∉ ['<', '>', '"', '\'']) ∧
    (∀ before after, (escape s).toList = before ++ '&' :: after →
      ∃ c ∈ ['&', '<', '>', '"', '\''], entity c <+: '&' :: after) ∧
    (∀ t : String, IsEscaped t.toList ↔ ∃ r, escape r = t) ∧
    unescape (escape s).toList = s.toList ∧
    ∀ t, escape s = escape t → s = t := by
  have hchars : ∀ t, (escape t).toList = escapeChars t.toList := fun _ => String.toList_ofList
  have hescaped : IsEscaped (escape s).toList := by
    rw [hchars]
    exact isEscaped_escapeChars _
  refine ⟨?_, ⟨rfl, rfl, rfl, rfl, rfl, fun c => entity_of_notMem⟩, ?_, hescaped.notMem,
    hescaped.startsEntity, ?_, ?_, fun t => escape_injective⟩
  · rw [hchars, escapeChars_eq_flatMap]
  · intro t
    rw [escape, String.toList_append, escapeChars_append, String.ofList_append]
    rfl
  · intro t
    rw [isEscaped_iff]
    constructor
    · rintro ⟨ds, hds⟩
      exact ⟨String.ofList ds, by rw [escape, String.toList_ofList, hds, String.ofList_toList]⟩
    · rintro ⟨r, rfl⟩
      exact ⟨r.toList, (hchars r).symm⟩
  · rw [hchars, unescape_escapeChars]

/-- An entity in a text is escaped like any other characters. -/
example : escape "a < '&lt;'" = "a &lt; &#39;&amp;lt;&#39;" := by
  decide

end MatlabQuality.Page

namespace MatlabQuality

/-! ## Texts that stand as they are -/

/-- A text that stands on a page as it is, for want of characters of markup. -/
def IsUnescaped (s : String) : Prop :=
  ∀ c ∈ s.toList, c ∉ Page.entities.map (·.1)

theorem IsUnescaped.escape_eq {s : String} (h : IsUnescaped s) : Page.escape s = s := by
  have hchars : s.toList.flatMap Page.entity = s.toList.flatMap fun c => [c] :=
    List.flatMap_congr fun c hc => Page.entity_of_notMem (h c hc)
  rw [Page.escape, Page.escapeChars_eq_flatMap, hchars, List.flatMap_singleton',
    String.ofList_toList]

/-- A text of characters of a class that has no characters of markup. -/
theorem IsUnescaped.of_forall {p : Char → Bool} {s : String}
    (hp : ∀ c ∈ Page.entities.map (·.1), p c = false) (h : ∀ c ∈ s.toList, p c = true) :
    IsUnescaped s := by
  intro c hc hmem
  have htrue := h c hc
  rw [hp c hmem] at htrue
  cases htrue

theorem IsUnescaped.append {s t : String} (hs : IsUnescaped s) (ht : IsUnescaped t) :
    IsUnescaped (s ++ t) := by
  rw [IsUnescaped, String.toList_append]
  exact List.forall_mem_append.2 ⟨hs, ht⟩

/-- A string literal, given by its characters. -/
theorem IsUnescaped.literal {s : String} {l : List Char} (hs : s = String.ofList l)
    (hl : ∀ c ∈ l, c ∉ Page.entities.map (·.1)) : IsUnescaped s := by
  rw [IsUnescaped, hs, String.toList_ofList]
  exact hl

end MatlabQuality
