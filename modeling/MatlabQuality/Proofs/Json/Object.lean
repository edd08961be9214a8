import Mathlib.Data.List.DropRight
import MatlabQuality.Proofs.Json.Decode

/-!
# Objects of numbers

An object whose values are numbers may have its members in any order and blanks around every part.
Its text is read member by member, and a field of a record is the value of its key, unless the key
comes twice.

## Main definitions

* `WritesMembers`, `Writes` — a text writes some members, in order.

## Main statements

* `WritesMembers.readMembers?_eq` — the members of a text are read.
* `Writes.read?_eq` — a text is read as the record of its members.
* `memberValue?_eq_lookup`, `memberValue?_eq_none` — a key that comes once at most has the value
  that is found first, and a key that comes twice is refused.
-/

namespace MatlabQuality.Json

/-! ## Texts -/

/-- The characters of a member, from its key to what stands behind its value. -/
def memberChars (between after : List Char) (key : String) (n : Numeral) (behind : List Char) :
    List Char :=
  writeStringLiteral (some key) ++ (between ++ ':' :: (after ++ (n.chars ++ behind)))

/-- A text writes at least one member, up to the closing brace. -/
inductive WritesMembers : List (String × Numeral) → List Char → Prop where
  | last {key : String} {n : Numeral} {indent between after behind : List Char}
      (hn : n.Canonical) (hindent : ∀ c ∈ indent, isBlank c = true)
      (hbetween : ∀ c ∈ between, isBlank c = true) (hafter : ∀ c ∈ after, isBlank c = true)
      (hbehind : ∀ c ∈ behind, isBlank c = true) :
      WritesMembers [(key, n)] (indent ++ memberChars between after key n (behind ++ ['\x7d']))
  | cons {members : List (String × Numeral)} {key : String} {n : Numeral}
      {indent between after behind cs : List Char}
      (hn : n.Canonical) (hindent : ∀ c ∈ indent, isBlank c = true)
      (hbetween : ∀ c ∈ between, isBlank c = true) (hafter : ∀ c ∈ after, isBlank c = true)
      (hbehind : ∀ c ∈ behind, isBlank c = true) (hrest : WritesMembers members cs) :
      WritesMembers ((key, n) :: members)
        (indent ++ memberChars between after key n (behind ++ ',' :: cs))

/-- A text writes an object of numbers. -/
inductive Writes : List (String × Numeral) → List Char → Prop where
  | empty {before inside after : List Char} (hbefore : ∀ c ∈ before, isBlank c = true)
      (hinside : ∀ c ∈ inside, isBlank c = true) (hafter : ∀ c ∈ after, isBlank c = true) :
      Writes [] (before ++ '\x7b' :: (inside ++ '\x7d' :: after))
  | object {members : List (String × Numeral)} {before cs after : List Char}
      (hbefore : ∀ c ∈ before, isBlank c = true) (hafter : ∀ c ∈ after, isBlank c = true)
      (hcs : WritesMembers members cs) : Writes members (before ++ '\x7b' :: (cs ++ after))

/-! ## Reading -/

theorem memberChars_append (between after : List Char) (key : String) (n : Numeral)
    (behind rest : List Char) :
    memberChars between after key n behind ++ rest =
      memberChars between after key n (behind ++ rest) := by
  simp [memberChars]

/-- What stands behind a value, blanks before one mark, is no part of a number. -/
theorem endsNumeral_append {blanks : List Char} (h : ∀ c ∈ blanks, isBlank c = true) {mark : Char}
    (hmark : mark = ',' ∨ mark = '\x7d') (rest : List Char) :
    EndsNumeral (blanks ++ mark :: rest) := by
  intro c hc
  cases blanks with
  | nil =>
    obtain rfl : mark = c := Option.some.inj hc
    rcases hmark with rfl | rfl <;> decide
  | cons b blanks =>
    obtain rfl : b = c := Option.some.inj hc
    have hblank := h b List.mem_cons_self
    simp only [isBlank, Bool.or_eq_true, decide_eq_true_eq] at hblank
    rcases hblank with ((rfl | rfl) | rfl) | rfl <;> decide

/-- One member is read up to what stands behind it. -/
theorem readMembers?_number {indent between after : List Char}
    (hindent : ∀ c ∈ indent, isBlank c = true) (hbetween : ∀ c ∈ between, isBlank c = true)
    (hafter : ∀ c ∈ after, isBlank c = true) (key : String) {n : Numeral} (hn : n.Canonical)
    {behind : List Char} (hbehind : EndsNumeral behind) (fuel : ℕ) :
    readMembers? (fuel + 2) (indent ++ memberChars between after key n behind) =
      match skipBlanks behind with
      | '\x7d' :: rest => some ([(some key, .number n)], rest)
      | ',' :: rest =>
        (readMembers? (fuel + 1) rest).bind fun p => some ((some key, .number n) :: p.1, p.2)
      | _ => none := by
  obtain ⟨quoted, heq, hkey⟩ :=
    readString?_writeString key (between ++ ':' :: (after ++ (n.chars ++ behind)))
  have hvalue : readValue? (fuel + 1) (after ++ (n.chars ++ behind)) =
      some (.number n, behind) := by
    obtain ⟨c, cs, hcons, hc⟩ := hn.exists_chars_eq_cons
    have hread := Numeral.read?_chars_append hn hbehind
    rw [hcons] at hread ⊢
    rw [readValue?_append hafter, List.cons_append, readValue?_of_startsNumeral hc,
      ← List.cons_append, hread]
    rfl
  rw [readMembers?_append hindent, memberChars, heq, readMembers?, skipBlanks_cons rfl]
  simp only [hkey, Option.bind_eq_bind, Option.bind_some]
  rw [skipBlanks_append hbetween, skipBlanks_cons rfl]
  simp only [hvalue, Option.bind_some]
  rfl

/-- **The members of a text are read**, whatever follows them. -/
theorem WritesMembers.readMembers?_eq {members : List (String × Numeral)} {cs : List Char}
    (h : WritesMembers members cs) (rest : List Char) {fuel : ℕ} (hfuel : members.length < fuel) :
    readMembers? fuel (cs ++ rest) =
      some (members.map fun m => (some m.1, .number m.2), rest) := by
  induction h generalizing fuel with
  | last hn hindent hbetween hafter hbehind =>
    obtain ⟨fuel, rfl⟩ : ∃ k, fuel = k + 2 := ⟨fuel - 2, by simp at hfuel; omega⟩
    rw [List.append_assoc, memberChars_append, List.append_assoc, List.singleton_append,
      readMembers?_number hindent hbetween hafter _ hn (endsNumeral_append hbehind (.inr rfl) _),
      skipBlanks_append hbehind, skipBlanks_cons rfl]
    rfl
  | cons hn hindent hbetween hafter hbehind hrest ih =>
    obtain ⟨fuel, rfl⟩ : ∃ k, fuel = k + 2 := ⟨fuel - 2, by simp at hfuel; omega⟩
    rw [List.append_assoc, memberChars_append, List.append_assoc, List.cons_append,
      readMembers?_number hindent hbetween hafter _ hn (endsNumeral_append hbehind (.inl rfl) _),
      skipBlanks_append hbehind, skipBlanks_cons rfl]
    have hlength := Nat.lt_of_succ_lt_succ hfuel
    simp only [ih hlength, Option.bind_some, List.map_cons]

theorem WritesMembers.length_le {members : List (String × Numeral)} {cs : List Char}
    (h : WritesMembers members cs) : members.length ≤ cs.length := by
  induction h with
  | last => simp [memberChars]; omega
  | cons _ _ _ _ _ _ ih => simp [memberChars]; omega

/-- Members start with a key, in quotes. -/
theorem WritesMembers.exists_skipBlanks_eq {members : List (String × Numeral)} {cs : List Char}
    (h : WritesMembers members cs) (rest : List Char) :
    ∃ quoted, skipBlanks (cs ++ rest) = '"' :: quoted := by
  cases h with
  | last hn hindent =>
    rw [List.append_assoc, skipBlanks_append hindent]
    exact ⟨_, skipBlanks_cons rfl _⟩
  | cons hn hindent =>
    rw [List.append_assoc, skipBlanks_append hindent]
    exact ⟨_, skipBlanks_cons rfl _⟩

theorem readMembers?_skipBlanks (fuel : ℕ) (cs : List Char) :
    readMembers? fuel (skipBlanks cs) = readMembers? fuel cs := by
  have htwice : skipBlanks (skipBlanks cs) = skipBlanks cs := List.dropWhile_idempotent _ cs
  cases fuel with
  | zero => rfl
  | succ fuel => rw [readMembers?, readMembers?, htwice]

theorem readValue?_object {members : List (String × Numeral)} {cs : List Char}
    (h : WritesMembers members cs) (rest : List Char) {fuel : ℕ} (hfuel : members.length < fuel) :
    readValue? (fuel + 1) ('\x7b' :: (cs ++ rest)) =
      some (.record (members.map fun m => (m.1, .number m.2)), rest) := by
  have hread := h.readMembers?_eq rest hfuel
  rw [← readMembers?_skipBlanks] at hread
  obtain ⟨quoted, hquoted⟩ := h.exists_skipBlanks_eq rest
  rw [hquoted] at hread
  rw [readValue?, skipBlanks_cons rfl]
  simp only [hquoted]
  split
  · next heq => exact absurd (List.cons.inj heq).1 (by decide)
  · rw [hread, Value.record, List.map_map]
    rfl

/-- **A text of members is read as their record.** -/
theorem Writes.read?_eq {members : List (String × Numeral)} {cs : List Char}
    (h : Writes members cs) :
    read? cs = some (.record (members.map fun m => (m.1, .number m.2))) := by
  have hblank : ∀ {after : List Char}, (∀ c ∈ after, isBlank c = true) →
      (skipBlanks after).isEmpty = true := by
    intro after hafter
    rw [skipBlanks, List.dropWhile_eq_nil_iff.2 hafter]
    rfl
  cases h with
  | @empty before inside after hbefore hinside hafter =>
    have hread : ∀ fuel, readValue? (fuel + 1) (before ++ '\x7b' :: (inside ++ '\x7d' :: after)) =
        some (.record [], after) := by
      intro fuel
      rw [readValue?_append hbefore, readValue?, skipBlanks_cons rfl]
      simp only [skipBlanks_append hinside]
      rw [skipBlanks_cons rfl]
      rfl
    rw [read?, hread]
    exact if_pos (hblank hafter)
  | @object _ before cs after hbefore hafter hcs =>
    have hlength := hcs.length_le
    rw [read?, readValue?_append hbefore, readValue?_object hcs after (by simp; omega)]
    exact if_pos (hblank hafter)

/-! ## Fields -/

/-- The members of a record with a key. -/
theorem filter_record (members : List (String × Value)) (key : String) :
    (members.map fun (key, value) => (some key, value)).filter (fun m => m.1 == some key) =
      (members.filter fun m => m.1 == key).map fun (key, value) => (some key, value) := by
  rw [List.filter_map]
  rfl

/-- A key that comes once at most has the value that is found first. -/
theorem memberValue?_eq_lookup {members : List (String × Value)}
    (hnodup : (members.map Prod.fst).Nodup) (key : String) :
    memberValue? (members.map fun (key, value) => (some key, value)) key =
      some (members.lookup key) := by
  cases hlookup : members.lookup key with
  | some v =>
    obtain ⟨before, after, rfl, -⟩ := List.lookup_eq_some_iff.1 hlookup
    exact memberValue?_of_mem hnodup (List.mem_append_right _ List.mem_cons_self)
  | none =>
    have hnone : members.filter (fun m => m.1 == key) = [] := by
      refine List.filter_eq_nil_iff.2 fun m hm heq => ?_
      have hne := List.lookup_eq_none_iff.1 hlookup m hm
      rw [beq_iff_eq.1 heq, bne_self_eq_false] at hne
      exact Bool.false_ne_true hne
    rw [memberValue?, filter_record, hnone]
    rfl

/-- A key that comes twice is refused. -/
theorem memberValue?_eq_none {members : List (String × Value)} {key : String}
    (h : 2 ≤ (members.map Prod.fst).count key) :
    memberValue? (members.map fun (key, value) => (some key, value)) key = none := by
  have hlength : 2 ≤ (members.filter fun m => m.1 == key).length := by
    rw [List.count_eq_countP, List.countP_map, List.countP_eq_length_filter] at h
    exact h
  rw [memberValue?, filter_record]
  generalize members.filter (fun m => m.1 == key) = found at hlength
  rcases found with - | ⟨m, - | ⟨n, rest⟩⟩
  · simp at hlength
  · simp at hlength
  · rfl

/-- The fields of a record in which no key comes twice. -/
theorem recordFields?_eq {members : List (String × Value)} (hnodup : (members.map Prod.fst).Nodup)
    (keys : List String) :
    recordFields? keys (.record members) = some (keys.map (List.lookup · members)) := by
  rw [Value.record, recordFields?, if_pos (by simp)]
  induction keys with
  | nil => rfl
  | cons key keys ih =>
    rw [List.mapM_cons, memberValue?_eq_lookup hnodup, ih]
    rfl

/-- A record in which a known key comes twice is refused. -/
theorem recordFields?_eq_none {members : List (String × Value)} {keys : List String} {key : String}
    (hkey : key ∈ keys) (h : 2 ≤ (members.map Prod.fst).count key) :
    recordFields? keys (.record members) = none := by
  rw [Value.record, recordFields?, if_pos (by simp)]
  induction keys with
  | nil => exact absurd hkey List.not_mem_nil
  | cons k keys ih =>
    rw [List.mapM_cons]
    rcases List.mem_cons.1 hkey with rfl | hkey
    · rw [memberValue?_eq_none h]
      rfl
    · rw [ih hkey]
      cases memberValue? (members.map fun (key, value) => (some key, value)) k with
      | none => rfl
      | some v => rfl

end MatlabQuality.Json
