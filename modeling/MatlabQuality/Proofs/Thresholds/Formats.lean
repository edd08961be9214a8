import MatlabQuality.Proofs.Json.Object
import MatlabQuality.Proofs.Text.Utf8
import MatlabQuality.Proofs.Thresholds.Entries
import MatlabQuality.Thresholds.File

/-!
# Two formats of limits

The same keys and numbers may be written as an object of JSON or as lines of TOML, in any order.
Both are read as the same limits, and a limit that is written twice is refused in both.  Only a
whole number that does not fit 64 bits tells the formats apart, under a key that names no limit:
JSON passes it over, and TOML refuses it.

## Main definitions

* `Thresholds.IsOfKind` — what the number of a key may be.
* `Thresholds.Fits` — a whole number fits a signed number of 64 bits.
* `Thresholds.numeralOf` — the literal of JSON with the same digits.

## Main statements

* `Thresholds.ofJsonText?_of_writes` — an object of entries holds their limits.
* `Thresholds.ofTexts_agree` — both formats hold the same limits.
* `Thresholds.ofTexts_differ` — a number beyond 64 bits is refused in TOML alone.
-/

namespace MatlabQuality.Thresholds

open MatlabQuality.Number MatlabQuality.Toml MatlabQuality.Files

/-! ## Kinds of numbers -/

/-- A whole number that 64 bits with a sign can hold; a decimal is none. -/
def Fits : Literal → Prop
  | .integer i => -2 ^ 63 ≤ i ∧ i < 2 ^ 63
  | .decimal _ _ => True

/-- What the comment share may be written as: a whole number, or a decimal without an exponent, of
at most fifteen significant digits and at most 22 places. -/
def IsPlainShare : Literal → Prop
  | .integer i => -2 ^ 63 ≤ i ∧ i < 2 ^ 63
  | .decimal _ w => w.exponent = none ∧ w.fraction ≠ [] ∧ w.fraction.length ≤ 22 ∧
      ofDigits (w.whole ++ w.fraction) < 10 ^ 15

instance (l : Literal) : Decidable (Fits l) :=
  match l with
  | .integer _ => inferInstanceAs (Decidable (_ ∧ _))
  | .decimal _ _ => .isTrue trivial

instance (l : Literal) : Decidable (IsPlainShare l) :=
  match l with
  | .integer _ => inferInstanceAs (Decidable (_ ∧ _))
  | .decimal _ _ => inferInstanceAs (Decidable (_ ∧ _))

/-- What the number of a key may be: a whole limit has a number that is not negative and fits, and
a key that names no limit has any whole number. -/
structure IsOfKind (key : String) (l : Literal) : Prop where
  whole : key ∈ wholeKeys → ∃ n : ℕ, n < 2 ^ 63 ∧ l = .integer n
  share : key = "min_comment_ratio" → IsPlainShare l
  other : key ∉ keys → ∃ i, l = .integer i

theorem mem_wholeKeys_or {key : String} (h : key ∈ keys) :
    key ∈ wholeKeys ∨ key = "min_comment_ratio" := by
  have hall : ∀ key ∈ keys, key ∈ wholeKeys ∨ key = "min_comment_ratio" := by decide
  exact hall key h

theorem IsOfKind.fits {key : String} {l : Literal} (h : IsOfKind key l) (hkey : key ∈ keys) :
    Fits l := by
  rcases mem_wholeKeys_or hkey with hwhole | hshare
  · obtain ⟨n, hn, rfl⟩ := h.whole hwhole
    constructor
    all_goals omega
  · cases l with
    | integer i => exact h.share hshare
    | decimal negative w => trivial

theorem IsOfKind.exponent_eq {key : String} {l : Literal} (h : IsOfKind key l) :
    l.written.exponent = none := by
  cases l with
  | integer i => rfl
  | decimal negative w =>
    by_cases hkey : key ∈ keys
    · rcases mem_wholeKeys_or hkey with hwhole | hshare
      · obtain ⟨n, -, heq⟩ := h.whole hwhole
        cases heq
      · exact (h.share hshare).1
    · obtain ⟨i, heq⟩ := h.other hkey
      cases heq

theorem isSome_value?_iff_fits {l : Literal} : l.value?.isSome ↔ Fits l := by
  cases l with
  | integer i => exact Literal.isSome_value?_integer
  | decimal negative w => exact iff_of_true rfl trivial

theorem isAssignment_of_kinds {entries : List (String × Literal)}
    (h : ∀ e ∈ entries, IsOfKind e.1 e.2) : IsAssignment entries := by
  intro e he hkey
  obtain ⟨n, -, heq⟩ := (h e he).whole hkey
  exact ⟨n, heq⟩

/-! ## Literals of JSON -/

/-- The literal of JSON with the same digits, for a literal without an exponent. -/
def numeralOf (l : Literal) : Json.Numeral :=
  ⟨l.negative, l.written.whole, l.written.fraction, none⟩

/-- A literal without an exponent is written alike in both formats. -/
theorem chars_numeralOf {l : Literal} (h : l.written.exponent = none) :
    (numeralOf l).chars = l.chars := by
  rw [Json.Numeral.chars_eq, Literal.chars, Written.chars, h, signChars, numeralOf,
    Json.Numeral.exponentChars, Json.Numeral.fractionChars, List.append_assoc, List.append_assoc,
    List.append_assoc]

theorem canonical_numeralOf {l : Literal} (h : l.WellFormed) : (numeralOf l).Canonical where
  whole_digits := h.isDigits.whole_digits
  whole_ne_nil := h.isDigits.whole_ne_nil
  whole_head := h.isDigits.whole_head
  fraction_digits := h.isDigits.fraction_digits
  exponent_digits := fun _ he => absurd he (Option.not_mem_none _)

theorem numeralOf_natCast (n : ℕ) : numeralOf (.integer n) = .ofNat n := by
  have hsign : decide ((n : ℤ) < 0) = false := decide_eq_false (by omega)
  rw [numeralOf, Literal.negative, hsign]
  rfl

/-- A share is the same number in both formats. -/
theorem toBinary64?_numeralOf {l : Literal} (h : IsPlainShare l) :
    (numeralOf l).toBinary64? = some (numberOf l) := by
  cases l with
  | integer i =>
    have hdigits : ofDigits (numeralOf (.integer i)).whole = i.natAbs := ofDigits_decimalDigits _
    have hbound : i.natAbs < Json.Numeral.significandBound := by
      obtain ⟨hlow, hhigh⟩ := h
      change i.natAbs < 2 ^ 64
      omega
    rw [Json.Numeral.toBinary64?_of_whole rfl rfl (hdigits.trans_lt hbound), hdigits]
    rfl
  | decimal negative w =>
    obtain ⟨hexponent, hfraction, hplaces, hdigits⟩ := h
    have hexact : ofDigits (w.whole ++ w.fraction) ≤ 2 ^ 53 := hdigits.le.trans (by decide)
    have hread := Json.Numeral.toBinary64?_of_places (n := numeralOf (.decimal negative w)) rfl
      hexact (List.length_pos_iff.2 hfraction) hplaces
    rw [hread, numberOf, Written.value, hexponent, Option.getD_none, Int.zero_sub,
      Binary64.ofDecimal_neg_natCast]
    rfl

/-! ## Objects of JSON -/

/-- The members of an object with some entries. -/
def membersOf (entries : List (String × Literal)) : List (String × Json.Numeral) :=
  entries.map fun e => (e.1, numeralOf e.2)

theorem lookup_map_number (entries : List (String × Literal)) (key : String) :
    ((membersOf entries).map fun m => (m.1, Json.Value.number m.2)).lookup key =
      (entries.lookup key).map fun l => .number (numeralOf l) := by
  induction entries with
  | nil => rfl
  | cons e entries ih =>
    rw [membersOf, List.map_cons, List.map_cons, List.lookup_cons, List.lookup_cons]
    cases key == e.1 with
    | true => rfl
    | false => exact ih

section Kinds

variable {entries : List (String × Literal)} (h : ∀ e ∈ entries, IsOfKind e.1 e.2)

include h

theorem withDefault_limit {key : String} (hkey : key ∈ wholeKeys) (d : ℕ) :
    Json.withDefault d (Json.Value.toNat? limitBound)
        ((entries.lookup key).map fun l => .number (numeralOf l)) =
      some (limitOf entries key d) := by
  rw [limitOf]
  cases hlookup : entries.lookup key with
  | none => rfl
  | some l =>
    obtain ⟨n, hn, rfl⟩ := (h _ (mem_of_lookup_eq_some hlookup)).whole hkey
    have hbound : n < limitBound := hn.trans (by decide)
    rw [Option.map_some, numeralOf_natCast]
    exact Json.Numeral.toNat?_ofNat hbound

theorem withDefault_share (d : Binary64) :
    Json.withDefault d Json.Value.toBinary64?
        ((entries.lookup "min_comment_ratio").map fun l => .number (numeralOf l)) =
      some (shareOf entries "min_comment_ratio" d) := by
  rw [shareOf]
  cases hlookup : entries.lookup "min_comment_ratio" with
  | none => rfl
  | some l => exact toBinary64?_numeralOf ((h _ (mem_of_lookup_eq_some hlookup)).share rfl)

/-- **An object of entries holds their limits.** -/
theorem ofJsonText?_of_writes (hkeys : (entries.map Prod.fst).Nodup) {cs : List Char}
    (hcs : Json.Writes (membersOf entries) cs) : ofJsonText? cs = some (ofEntries entries) := by
  have hnodup : (((membersOf entries).map fun m => (m.1, Json.Value.number m.2)).map
      Prod.fst).Nodup := by
    rw [List.map_map, membersOf, List.map_map]
    exact hkeys
  have hlimit : ∀ key ∈ wholeKeys, ∀ d, Json.withDefault d (Json.Value.toNat? limitBound)
      ((entries.lookup key).map fun l => .number (numeralOf l)) = some (limitOf entries key d) :=
    fun _ hkey d => withDefault_limit h hkey d
  rw [ofJsonText?, hcs.read?_eq, Option.bind_some, ofJson?, Json.recordFields?_eq hnodup]
  simp only [keys, List.map_cons, List.map_nil, lookup_map_number, Option.bind_eq_bind,
    Option.bind_some]
  rw [hlimit "max_function_length" (by decide), hlimit "max_parameters" (by decide),
    hlimit "max_nesting_depth" (by decide), hlimit "max_cyclomatic_complexity" (by decide),
    hlimit "magic_number_threshold" (by decide), withDefault_share h]
  rfl

end Kinds

/-- **An object that has a limit twice holds no limits.** -/
theorem ofJsonText?_eq_none {entries : List (String × Literal)} {key : String} (hkey : key ∈ keys)
    (htwice : 2 ≤ (entries.map Prod.fst).count key) {cs : List Char}
    (hcs : Json.Writes (membersOf entries) cs) : ofJsonText? cs = none := by
  have hcount : 2 ≤ (((membersOf entries).map fun m => (m.1, Json.Value.number m.2)).map
      Prod.fst).count key := by
    rw [List.map_map, membersOf, List.map_map]
    exact htwice
  rw [ofJsonText?, hcs.read?_eq, Option.bind_some, ofJson?, Json.recordFields?_eq_none hkey hcount]
  rfl

/-! ## Both formats -/

theorem lookup_eq_some_iff_mem {entries : List (String × Literal)}
    (hkeys : (entries.map Prod.fst).Nodup) {key : String} {l : Literal} :
    entries.lookup key = some l ↔ (key, l) ∈ entries := by
  refine ⟨mem_of_lookup_eq_some, fun hmem => ?_⟩
  induction entries with
  | nil => cases hmem
  | cons e entries ih =>
    obtain ⟨hfresh, hkeys⟩ := List.nodup_cons.1 hkeys
    rcases List.mem_cons.1 hmem with rfl | hmem
    · rw [List.lookup_cons, beq_self_eq_true]
    · have hne : key ≠ e.1 := fun heq => hfresh (heq ▸ List.mem_map_of_mem hmem)
      rw [List.lookup_cons, beq_eq_false_iff_ne.2 hne]
      exact ih hkeys hmem

/-- The entry of a key does not depend on the order of different keys. -/
theorem lookup_eq_of_perm {l m : List (String × Literal)} (h : l.Perm m)
    (hkeys : (l.map Prod.fst).Nodup) (key : String) : l.lookup key = m.lookup key := by
  have hkeys' : (m.map Prod.fst).Nodup := (h.map Prod.fst).nodup_iff.1 hkeys
  refine Option.ext fun x => ?_
  rw [lookup_eq_some_iff_mem hkeys, lookup_eq_some_iff_mem hkeys', h.mem_iff]

theorem ofEntries_eq_of_perm {l m : List (String × Literal)} (h : l.Perm m)
    (hkeys : (l.map Prod.fst).Nodup) : ofEntries l = ofEntries m := by
  simp only [ofEntries, limitOf, shareOf, lookup_eq_of_perm h hkeys]

/-- What a file with readable limits is loaded as. -/
theorem load_eq {v : View} {path : String} {text : List Char} {t : Thresholds}
    (hbytes : v.bytes? path = some (Text.Utf8.encode text)) (htext : ofFileText path text = .ok t) :
    load v path = match t.validate with
      | .ok () => .ok t
      | .error cause => .error (.invalid cause) := by
  rw [load, hbytes, Option.bind_some, Text.Utf8.decode?_encode]
  cases hvalid : t.validate with
  | ok => simp only [htext, hvalid]
  | error cause => simp only [htext, hvalid]

section Agreement

variable {entries lines members : List (String × Literal)} {toml json : List Char}

/-- Lines of entries hold their limits if the numbers fit. -/
theorem ofTomlText?_of_perm (hkind : ∀ e ∈ entries, IsOfKind e.1 e.2) (hlines : lines.Perm entries)
    (htoml : Writes lines toml) (hkeys : (entries.map Prod.fst).Nodup)
    (hfits : ∀ e ∈ entries, Fits e.2) : ofTomlText? toml = some (ofEntries entries) := by
  have hnodup : (lines.map Prod.fst).Nodup := (hlines.map Prod.fst).nodup_iff.2 hkeys
  rw [ofTomlText?_of_writes htoml hnodup, ofEntries_eq_of_perm hlines hnodup]
  · exact fun e he => isSome_value?_iff_fits.2 (hfits e (hlines.mem_iff.1 he))
  · exact isAssignment_of_kinds fun e he => hkind e (hlines.mem_iff.1 he)

/-- An object of entries holds their limits. -/
theorem ofJsonText?_of_perm (hkind : ∀ e ∈ entries, IsOfKind e.1 e.2)
    (hmembers : members.Perm entries) (hjson : Json.Writes (membersOf members) json)
    (hkeys : (entries.map Prod.fst).Nodup) : ofJsonText? json = some (ofEntries entries) := by
  have hnodup : (members.map Prod.fst).Nodup := (hmembers.map Prod.fst).nodup_iff.2 hkeys
  rw [ofJsonText?_of_writes (fun e he => hkind e (hmembers.mem_iff.1 he)) hnodup hjson,
    ofEntries_eq_of_perm hmembers hnodup]

/-- **Both formats hold the same limits.**  The literals are the same characters in both, and their
order does not matter.  An object gives the defaults with the entries in their place, whatever
number an unknown key has; lines give the same limits, unless such a number does not fit 64 bits,
and are refused then.  So files of both formats are both accepted, or both refused for limits that
make no sense.  A limit that comes twice is refused in both formats. -/
theorem ofTexts_agree (hkind : ∀ e ∈ entries, IsOfKind e.1 e.2) (hlines : lines.Perm entries)
    (hmembers : members.Perm entries) (htoml : Writes lines toml)
    (hjson : Json.Writes (membersOf members) json) :
    (∀ e ∈ entries, (numeralOf e.2).chars = e.2.chars) ∧
      ((entries.map Prod.fst).Nodup →
        ofJsonText? json = some (ofEntries entries) ∧
        ((∀ e ∈ entries, e.1 ∉ keys → Fits e.2) →
          ofTomlText? toml = some (ofEntries entries) ∧
          ∀ (v w : View) (p q : String), isTomlPath p = true → isTomlPath q = false →
            v.bytes? p = some (Text.Utf8.encode toml) →
            w.bytes? q = some (Text.Utf8.encode json) →
            load v p = load w q ∧
              (load v p = .ok (ofEntries entries) ∨ ∃ cause, load v p = .error (.invalid cause))) ∧
        ((∃ e ∈ entries, ¬ Fits e.2) → ofTomlText? toml = none)) ∧
      ∀ key ∈ keys, 2 ≤ (entries.map Prod.fst).count key →
        ofJsonText? json = none ∧ ofTomlText? toml = none := by
  refine ⟨fun e he => chars_numeralOf (hkind e he).exponent_eq, fun hkeys => ⟨?_, ?_, ?_⟩, ?_⟩
  · exact ofJsonText?_of_perm hkind hmembers hjson hkeys
  · intro hother
    have hfits : ∀ e ∈ entries, Fits e.2 := by
      intro e he
      by_cases hkey : e.1 ∈ keys
      · exact (hkind e he).fits hkey
      · exact hother e he hkey
    have htext := ofTomlText?_of_perm hkind hlines htoml hkeys hfits
    refine ⟨htext, fun v w p q hp hq hv hw => ?_⟩
    have hfirst : ofFileText p toml = .ok (ofEntries entries) := by
      rw [ofFileText, if_pos hp, htext]
    have hsecond : ofFileText q json = .ok (ofEntries entries) := by
      rw [ofFileText, hq, ofJsonText?_of_perm hkind hmembers hjson hkeys]
      rfl
    rw [load_eq hv hfirst, load_eq hw hsecond]
    refine ⟨rfl, ?_⟩
    cases (ofEntries entries).validate with
    | ok => exact .inl rfl
    | error cause => exact .inr ⟨cause, rfl⟩
  · rintro ⟨e, he, hunfit⟩
    refine ofTomlText?_eq_none htoml fun hgood => hunfit ?_
    exact isSome_value?_iff_fits.1 (hgood.2 e (hlines.mem_iff.2 he))
  · intro key hkey htwice
    constructor
    · refine ofJsonText?_eq_none hkey ?_ hjson
      rwa [(hmembers.map Prod.fst).count_eq]
    · refine ofTomlText?_eq_none htoml fun hgood => ?_
      have hnodup := (hlines.map Prod.fst).nodup_iff.1 hgood.1
      have hcount := List.nodup_iff_count_le_one.1 hnodup key
      omega

end Agreement

/-- One line of a text, with a blank on both sides of its sign of equality. -/
theorem writes_line {entries : List (String × Literal)} {key : String} {l : Literal}
    {comment rest : List Char} (hkey : IsBareKey key) (hl : l.WellFormed)
    (hcomment : IsComment comment) (hrest : Writes entries rest) :
    Writes ((key, l) :: entries) (entryChars [' '] [' '] key l (comment ++ '\n' :: rest)) := by
  have hblank : ∀ c ∈ [' '], Toml.isBlank c = true := by decide
  have hnone : ∀ c ∈ ([] : List Char), Toml.isBlank c = true := by decide
  exact .entry hkey hl hnone hblank hblank (.intro hnone hcomment (.newline rest)) hrest

/-- A quarter, as a decimal. -/
def quarter : Literal :=
  .decimal false ⟨['0'], ['2', '5'], none⟩

theorem wellFormed_quarter : quarter.WellFormed := by
  refine ⟨⟨by decide, by decide, by decide, by decide⟩, .inl (by decide), ?_⟩
  decide +kernel

/-- A key that names no limit may have any whole number. -/
theorem isOfKind_integer {key : String} (h : key ∉ keys) (i : ℤ) : IsOfKind key (.integer i) where
  whole := fun hkey => absurd (List.mem_of_mem_erase hkey) h
  share := fun hkey => absurd (hkey ▸ by decide) h
  other := fun _ => ⟨i, rfl⟩

/-- A quarter as the comment share, beside a key that names no limit, in both formats and in both
orders. -/
theorem ofTexts_agree_quarter :
    ofJsonText? "\x7b\"min_comment_ratio\": 0.25,\"x\":-7 \x7d\n".toList =
        some { default with minCommentRatio := .ofDecimal false 25 (-2) } ∧
      ofTomlText? "x = -7# unknown\nmin_comment_ratio = 0.25\n".toList =
        some { default with minCommentRatio := .ofDecimal false 25 (-2) } := by
  have hshare : IsOfKind "min_comment_ratio" quarter :=
    ⟨fun h => absurd h (by decide), fun _ => by decide, fun h => absurd h (by decide)⟩
  have hkind : ∀ e ∈ [("x", .integer (-7)), ("min_comment_ratio", quarter)], IsOfKind e.1 e.2 :=
    List.forall_mem_cons.2 ⟨isOfKind_integer (by decide) _, List.forall_mem_singleton.2 hshare⟩
  have htoml : Writes [("x", .integer (-7)), ("min_comment_ratio", quarter)]
      "x = -7# unknown\nmin_comment_ratio = 0.25\n".toList := by
    have hcomment : IsComment ('#' :: " unknown".toList) := .present (by decide)
    have hlines := writes_line (by decide : IsBareKey "x") (l := .integer (-7)) trivial hcomment
      (writes_line (by decide : IsBareKey "min_comment_ratio") wellFormed_quarter .absent .nil)
    convert hlines using 1
    decide +kernel
  have hjson : Json.Writes (membersOf [("min_comment_ratio", quarter), ("x", .integer (-7))])
      "\x7b\"min_comment_ratio\": 0.25,\"x\":-7 \x7d\n".toList := by
    have hlast : Json.WritesMembers [("x", numeralOf (.integer (-7)))]
        ([] ++ Json.memberChars [] [] "x" (numeralOf (.integer (-7))) ([' '] ++ ['\x7d'])) :=
      .last (canonical_numeralOf trivial) (by decide) (by decide) (by decide) (by decide)
    have hmembers : Json.WritesMembers (("min_comment_ratio", numeralOf quarter) :: _)
        ([] ++ Json.memberChars [] [' '] "min_comment_ratio" (numeralOf quarter)
          ([] ++ ',' :: _)) :=
      .cons (canonical_numeralOf wellFormed_quarter) (by decide) (by decide) (by decide)
        (by decide) hlast
    have hobject : Json.Writes _ ([] ++ '\x7b' :: (_ ++ ['\n'])) :=
      .object (by decide) (by decide) hmembers
    convert hobject using 1
    · rfl
    · decide +kernel
  obtain ⟨-, hagree, -⟩ := ofTexts_agree hkind (.refl _) (.swap _ _ _) htoml hjson
  obtain ⟨hleft, hright, -⟩ := hagree (by decide)
  have hlimits : ofEntries [("x", .integer (-7)), ("min_comment_ratio", quarter)] =
      { default with minCommentRatio := .ofDecimal false 25 (-2) } := by
    have hnumber : numberOf quarter = .ofDecimal false 25 (-2) := rfl
    simp [ofEntries, limitOf, shareOf, List.lookup_cons, hnumber]
  rw [← hlimits]
  exact ⟨hleft, (hright (by decide)).1⟩

/-- **A number beyond 64 bits tells the formats apart**: under a key that names no limit, an object
is read as the defaults, and the line with the same key and number is refused. -/
theorem ofTexts_differ :
    IsOfKind "x" (.integer (2 ^ 63)) ∧
      Json.Writes (membersOf [("x", .integer (2 ^ 63))])
        "\x7b\"x\":9223372036854775808\x7d".toList ∧
      Writes [("x", .integer (2 ^ 63))] "x = 9223372036854775808\n".toList ∧
      ofJsonText? "\x7b\"x\":9223372036854775808\x7d".toList = some default ∧
      ofTomlText? "x = 9223372036854775808\n".toList = none := by
  have hkind : IsOfKind "x" (.integer (2 ^ 63)) := isOfKind_integer (by decide) _
  have htoml : Writes [("x", .integer (2 ^ 63))] "x = 9223372036854775808\n".toList := by
    have hline := writes_line (by decide : IsBareKey "x") (l := .integer (2 ^ 63)) trivial .absent
      .nil
    convert hline using 1
    decide +kernel
  have hjson : Json.Writes (membersOf [("x", .integer (2 ^ 63))])
      "\x7b\"x\":9223372036854775808\x7d".toList := by
    have hmember : Json.WritesMembers [("x", numeralOf (.integer (2 ^ 63)))]
        ([] ++ Json.memberChars [] [] "x" (numeralOf (.integer (2 ^ 63))) ([] ++ ['\x7d'])) :=
      .last (canonical_numeralOf trivial) (by decide) (by decide) (by decide) (by decide)
    have hobject : Json.Writes _ ([] ++ '\x7b' :: (_ ++ [])) :=
      .object (by decide) (by decide) hmember
    convert hobject using 1
    · rfl
    · decide +kernel
  refine ⟨hkind, hjson, htoml, ?_, ?_⟩
  · have hlimits : ofEntries [("x", .integer (2 ^ 63))] = default := by
      simp [ofEntries, limitOf, shareOf, List.lookup_cons]
    rw [ofJsonText?_of_writes (List.forall_mem_singleton.2 hkind) (by decide) hjson, hlimits]
  · refine ofTomlText?_eq_none htoml fun hgood => ?_
    exact absurd (hgood.2 _ List.mem_cons_self) (by decide)

end MatlabQuality.Thresholds
