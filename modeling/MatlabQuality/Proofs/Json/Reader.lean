import MatlabQuality.Json.Reader
import MatlabQuality.Json.Writer
import MatlabQuality.Proofs.Json.Number

/-!
# Written values are read back

A written string literal spells its text character by character, and a written value is read back
up to whatever cannot continue it.  Every value and every list of elements or members takes one
step of the reader, and two for each character are enough.

## Main definitions

* `Value.Writable` — the values that are written without loss.

## Main statements

* `readString?_writeString` — a string literal is read back.
* `readValue?_write` — a value is read back.
* `read?_pretty` — the text of a value is read back.
-/

namespace MatlabQuality.Json

open MatlabQuality.Number

/-! ## Strings -/

theorem hexFour?_control : ∀ n < 0x20,
    hexFour? '0' '0' (hexDigit (n / 16)) (hexDigit (n % 16)) = some n := by
  decide

/-- A plain character stands for itself. -/
theorem readCodes?_of_plain {c : Char} (hquote : c ≠ '"') (hslash : c ≠ '\\')
    (hcontrol : ¬ c.toNat < 0x20) (rest : List Char) :
    readCodes? (c :: rest) = (readCodes? rest).map fun p => (c.toNat :: p.1, p.2) := by
  rw [readCodes?]
  · rw [if_neg (by simp [hcontrol, hslash])]
    cases readCodes? rest <;> rfl
  all_goals simp [hquote, hslash]

/-- **A written character is read back.** -/
theorem readCodes?_escapeChar_append (c : Char) (rest : List Char) :
    readCodes? (escapeChar c ++ rest) = (readCodes? rest).map fun p => (c.toNat :: p.1, p.2) := by
  have hescape : ∀ {e : Char} {code : Nat}, e ≠ 'u' → escapeCode? e = some code →
      c.toNat = code → readCodes? ('\\' :: e :: rest) =
        (readCodes? rest).map fun p => (c.toNat :: p.1, p.2) := by
    intro e code hu hcode hc
    rw [readCodes?]
    · rw [hcode, hc]
      cases readCodes? rest <;> rfl
    · simp [hu]
  unfold escapeChar
  split_ifs with hquote hslash hb ht hn hf hr hcontrol
  · exact hescape (e := '"') (by decide) rfl (congrArg Char.toNat hquote)
  · exact hescape (e := '\\') (by decide) rfl (congrArg Char.toNat hslash)
  · exact hescape (e := 'b') (by decide) rfl hb
  · exact hescape (e := 't') (by decide) rfl ht
  · exact hescape (e := 'n') (by decide) rfl hn
  · exact hescape (e := 'f') (by decide) rfl hf
  · exact hescape (e := 'r') (by decide) rfl hr
  · simp only [List.cons_append, List.nil_append]
    rw [readCodes?, hexFour?_control c.toNat hcontrol]
    cases readCodes? rest <;> rfl
  · exact readCodes?_of_plain hquote hslash hcontrol rest

theorem readCodes?_flatMap_escapeChar (cs rest : List Char) :
    readCodes? (cs.flatMap escapeChar ++ '"' :: rest) = some (cs.map Char.toNat, rest) := by
  induction cs with
  | nil => rfl
  | cons c cs ih =>
    rw [List.flatMap_cons, List.append_assoc, readCodes?_escapeChar_append, ih]
    rfl

/-- A character is no half of a surrogate pair. -/
theorem isSurrogate_toNat (c : Char) :
    isHighSurrogate c.toNat = false ∧ isLowSurrogate c.toNat = false := by
  have hvalid : c.toNat < 0xD800 ∨ 0xDFFF < c.toNat ∧ c.toNat < 0x110000 := c.valid
  simp only [isHighSurrogate, isLowSurrogate, Bool.and_eq_false_iff, decide_eq_false_iff_not]
  omega

theorem joinCodes?_map_toNat (cs : List Char) : joinCodes? (cs.map Char.toNat) = some cs := by
  induction cs with
  | nil => rfl
  | cons c cs ih =>
    obtain ⟨hhigh, hlow⟩ := isSurrogate_toNat c
    rw [List.map_cons, joinCodes?.eq_def]
    simp [hhigh, hlow, ih, Char.ofNat_toNat]

/-- **A written string literal is read back.** -/
theorem readString?_writeString (s : String) (rest : List Char) :
    ∃ quoted, writeStringLiteral (some s) ++ rest = '"' :: quoted ∧
      readString? quoted = some (some s, rest) := by
  refine ⟨s.toList.flatMap escapeChar ++ '"' :: rest, ?_, ?_⟩
  · simp [writeStringLiteral, writeString]
  · simp only [readString?, readCodes?_flatMap_escapeChar, Option.map_some, joinCodes?_map_toNat,
      String.ofList_toList]

/-! ## Blanks -/

theorem skipBlanks_append {blanks : List Char} (h : ∀ c ∈ blanks, isBlank c = true)
    (cs : List Char) : skipBlanks (blanks ++ cs) = skipBlanks cs :=
  List.dropWhile_append_of_pos h

theorem skipBlanks_cons {c : Char} (h : isBlank c = false) (cs : List Char) :
    skipBlanks (c :: cs) = c :: cs :=
  List.dropWhile_cons_of_neg (by simp [h])

theorem isBlank_of_mem_newLine {level : ℕ} {c : Char} (h : c ∈ newLine level) :
    isBlank c = true := by
  rcases List.mem_cons.1 h with rfl | h
  · rfl
  · rw [List.eq_of_mem_replicate h]
    rfl

theorem skipBlanks_newLine_append (level : ℕ) (cs : List Char) :
    skipBlanks (newLine level ++ cs) = skipBlanks cs :=
  skipBlanks_append (fun _ => isBlank_of_mem_newLine) cs

theorem readValue?_append {blanks : List Char} (h : ∀ c ∈ blanks, isBlank c = true) (fuel : ℕ)
    (cs : List Char) : readValue? fuel (blanks ++ cs) = readValue? fuel cs := by
  cases fuel with
  | zero => rfl
  | succ fuel => rw [readValue?, readValue?, skipBlanks_append h]

theorem readElements?_append {blanks : List Char} (h : ∀ c ∈ blanks, isBlank c = true) (fuel : ℕ)
    (cs : List Char) : readElements? fuel (blanks ++ cs) = readElements? fuel cs := by
  cases fuel with
  | zero => rfl
  | succ fuel => rw [readElements?, readElements?, readValue?_append h]

theorem readMembers?_append {blanks : List Char} (h : ∀ c ∈ blanks, isBlank c = true) (fuel : ℕ)
    (cs : List Char) : readMembers? fuel (blanks ++ cs) = readMembers? fuel cs := by
  cases fuel with
  | zero => rfl
  | succ fuel => rw [readMembers?, readMembers?, skipBlanks_append h]

/-! ## Values -/

/-- The values that are written without loss: their texts are texts, and their numbers canonical
literals. -/
inductive Value.Writable : Value → Prop
  | null : Writable .null
  | bool (b : Bool) : Writable (.bool b)
  | number {n : Numeral} (h : n.Canonical) : Writable (.number n)
  | string (s : String) : Writable (.string (some s))
  | array {vs : List Value} (h : ∀ v ∈ vs, Writable v) : Writable (.array vs)
  | object {ms : List (StringLiteral × Value)} (hkeys : ∀ m ∈ ms, ∃ key, m.1 = some key)
      (h : ∀ m ∈ ms, Writable m.2) : Writable (.object ms)

/-- A value is read back at every level, before whatever cannot continue it. -/
def Value.ReadsBack (v : Value) : Prop :=
  ∀ (level fuel : ℕ) (rest : List Char), EndsNumeral rest →
    2 * (v.write level).length ≤ fuel → readValue? fuel (v.write level ++ rest) = some (v, rest)

theorem readsBack_null : Value.null.ReadsBack := by
  intro level fuel rest _ hfuel
  rw [Value.write] at hfuel ⊢
  obtain ⟨fuel, rfl⟩ : ∃ n, fuel = n + 1 := ⟨fuel - 1, by simp at hfuel; omega⟩
  rw [readValue?]
  rfl

theorem readsBack_bool (b : Bool) : (Value.bool b).ReadsBack := by
  intro level fuel rest _ hfuel
  cases b with
  | false =>
    rw [Value.write] at hfuel ⊢
    obtain ⟨fuel, rfl⟩ : ∃ n, fuel = n + 1 := ⟨fuel - 1, by simp at hfuel; omega⟩
    rw [readValue?]
    rfl
  | true =>
    rw [Value.write] at hfuel ⊢
    obtain ⟨fuel, rfl⟩ : ∃ n, fuel = n + 1 := ⟨fuel - 1, by simp at hfuel; omega⟩
    rw [readValue?]
    rfl

theorem readsBack_string (s : String) : (Value.string (some s)).ReadsBack := by
  intro level fuel rest _ hfuel
  obtain ⟨quoted, heq, hread⟩ := readString?_writeString s rest
  rw [Value.write] at hfuel ⊢
  obtain ⟨fuel, rfl⟩ : ∃ n, fuel = n + 1 :=
    ⟨fuel - 1, by simp [writeStringLiteral, writeString] at hfuel; omega⟩
  rw [heq, readValue?, skipBlanks_cons rfl]
  simp only [hread, Option.map_some]

/-- What starts a number starts nothing else. -/
theorem ne_of_startsNumeral {c d : Char} (hc : c = '-' ∨ isAsciiDigit c = true)
    (hd : d ≠ '-' ∧ isAsciiDigit d = false) : c ≠ d := by
  rintro rfl
  rcases hc with hc | hc
  · exact hd.1 hc
  · exact absurd (hd.2.symm.trans hc) Bool.false_ne_true

theorem isBlank_of_startsNumeral {c : Char} (hc : c = '-' ∨ isAsciiDigit c = true) :
    isBlank c = false := by
  have hspace : c ≠ ' ' := ne_of_startsNumeral hc (by decide)
  have hline : c ≠ '\n' := ne_of_startsNumeral hc (by decide)
  have htab : c ≠ '\t' := ne_of_startsNumeral hc (by decide)
  have hreturn : c ≠ '\r' := ne_of_startsNumeral hc (by decide)
  simp [isBlank, hspace, hline, htab, hreturn]

/-- What starts a value that is no number. -/
def otherStarts : List Char :=
  ['n', 't', 'f', '"', '[', '\x7b']

/-- A text that starts like no other value is read as a number, if at all. -/
theorem readValue?_of_notMem_otherStarts {c : Char} (hblank : isBlank c = false)
    (hother : c ∉ otherStarts) (fuel : ℕ) (cs : List Char) :
    readValue? (fuel + 1) (c :: cs) =
      (Numeral.read? (c :: cs)).map fun p => (.number p.1, p.2) := by
  have hne : ∀ {d : Char} {ds : List Char}, c :: cs = d :: ds → d ∉ otherStarts :=
    fun heq hd => hother ((List.cons.inj heq).1 ▸ hd)
  rw [readValue?, skipBlanks_cons hblank]
  split
  · next heq => exact (hne heq (by decide)).elim
  · next heq => exact (hne heq (by decide)).elim
  · next heq => exact (hne heq (by decide)).elim
  · next heq => exact (hne heq (by decide)).elim
  · next heq => exact (hne heq (by decide)).elim
  · next heq => exact (hne heq (by decide)).elim
  · rfl

/-- A text that starts like a number is read as one. -/
theorem readValue?_of_startsNumeral {c : Char} (hc : c = '-' ∨ isAsciiDigit c = true) (fuel : ℕ)
    (cs : List Char) :
    readValue? (fuel + 1) (c :: cs) =
      (Numeral.read? (c :: cs)).map fun p => (.number p.1, p.2) := by
  have hstarts : ∀ d ∈ otherStarts, d ≠ '-' ∧ isAsciiDigit d = false := by decide
  refine readValue?_of_notMem_otherStarts (isBlank_of_startsNumeral hc) (fun hmem => ?_) fuel cs
  exact ne_of_startsNumeral hc (hstarts c hmem) rfl

/-- A text that starts like no value is not read. -/
theorem read?_eq_none_of_start {c : Char} (hblank : isBlank c = false) (hother : c ∉ otherStarts)
    (hsign : c ≠ '-') (hdigit : isAsciiDigit c = false) (cs : List Char) :
    read? (c :: cs) = none := by
  have hnumeral : Numeral.read? (c :: cs) = none := by
    unfold Numeral.read?
    split
    · next heq => exact absurd (List.cons.inj heq).1 hsign
    · simp [Numeral.readUnsigned?, Numeral.spanDigits, hdigit]
  rw [read?, readValue?_of_notMem_otherStarts hblank hother, hnumeral]
  rfl

/-- What a canonical literal starts with. -/
theorem Numeral.Canonical.exists_chars_eq_cons {n : Numeral} (h : n.Canonical) :
    ∃ c cs, n.chars = c :: cs ∧ (c = '-' ∨ isAsciiDigit c = true) := by
  obtain ⟨d, ds, hwhole⟩ := List.exists_cons_of_ne_nil h.whole_ne_nil
  rw [Numeral.chars_eq, hwhole]
  cases n.negative with
  | true => exact ⟨'-', _, rfl, .inl rfl⟩
  | false => exact ⟨d, _, rfl, .inr (h.whole_digits d (hwhole ▸ List.mem_cons_self))⟩

theorem readsBack_number {n : Numeral} (h : n.Canonical) : (Value.number n).ReadsBack := by
  intro level fuel rest hrest hfuel
  obtain ⟨c, cs, heq, hc⟩ := h.exists_chars_eq_cons
  have hread := Numeral.read?_chars_append h hrest
  rw [Value.write] at hfuel ⊢
  rw [heq] at hfuel hread ⊢
  obtain ⟨fuel, rfl⟩ : ∃ n, fuel = n + 1 := ⟨fuel - 1, by simp at hfuel; omega⟩
  rw [List.cons_append, readValue?_of_startsNumeral hc, ← List.cons_append, hread]
  rfl

/-- What a written value starts with. -/
theorem Value.Writable.exists_write_eq_cons {v : Value} (h : v.Writable) (level : ℕ) :
    ∃ c cs, v.write level = c :: cs ∧ isBlank c = false ∧ c ≠ ']' := by
  cases h with
  | null => exact ⟨'n', _, by rw [Value.write]; rfl, by decide, by decide⟩
  | bool b =>
    cases b with
    | false => exact ⟨'f', _, by rw [Value.write]; rfl, by decide, by decide⟩
    | true => exact ⟨'t', _, by rw [Value.write]; rfl, by decide, by decide⟩
  | number h =>
    obtain ⟨c, cs, heq, hc⟩ := h.exists_chars_eq_cons
    refine ⟨c, cs, by rw [Value.write, heq], isBlank_of_startsNumeral hc, ?_⟩
    exact ne_of_startsNumeral hc (by decide)
  | string s => exact ⟨'"', _, by rw [Value.write]; rfl, by decide, by decide⟩
  | @array vs h =>
    cases vs with
    | nil => exact ⟨'[', _, by rw [Value.write]; rfl, by decide, by decide⟩
    | cons v vs => exact ⟨'[', _, by rw [Value.write]; rfl, by decide, by decide⟩
  | @object ms hkeys h =>
    cases ms with
    | nil => exact ⟨'\x7b', _, by rw [Value.write]; rfl, by decide, by decide⟩
    | cons m ms => exact ⟨'\x7b', _, by rw [Value.write]; rfl, by decide, by decide⟩

/-! ## Arrays -/

/-- What stands behind an element or a member: it cannot continue a number, and there is something
to close. -/
structure Follows (cs : List Char) : Prop where
  endsNumeral : ∀ rest, EndsNumeral (cs ++ rest)
  two_le_length : 2 ≤ cs.length

theorem follows_cons {c : Char} {cs : List Char} (hc : c = '\n' ∨ c = ',') (hcs : cs ≠ []) :
    Follows (c :: cs) where
  endsNumeral := by
    intro rest d hd
    obtain rfl : c = d := Option.some.inj hd
    rcases hc with rfl | rfl <;> decide
  two_le_length := by
    have hpos := List.length_pos_of_ne_nil hcs
    rw [List.length_cons]
    omega

theorem follows_writeElements (level : ℕ) (vs : List Value) :
    Follows (writeElements level vs) := by
  cases vs with
  | nil =>
    rw [writeElements]
    exact follows_cons (.inl rfl) (by simp)
  | cons v vs =>
    rw [writeElements]
    exact follows_cons (.inr rfl) (by simp [newLine])

/-- **Written elements are read back.** -/
theorem readElements?_write {v : Value} (hv : v.ReadsBack) {vs : List Value}
    (hvs : ∀ v ∈ vs, v.ReadsBack) (level fuel : ℕ) (rest : List Char)
    (hfuel : 2 * ((v.write (level + 1)).length + (writeElements level vs).length) ≤ fuel) :
    readElements? fuel (v.write (level + 1) ++ (writeElements level vs ++ rest)) =
      some (v :: vs, rest) := by
  induction vs generalizing v fuel with
  | nil =>
    obtain ⟨hends, hlength⟩ := follows_writeElements level []
    obtain ⟨fuel, rfl⟩ : ∃ n, fuel = n + 1 := ⟨fuel - 1, by omega⟩
    rw [readElements?, hv (level + 1) fuel _ (hends rest) (by omega)]
    simp only [Option.bind_eq_bind, Option.bind_some]
    rw [writeElements, List.append_assoc, skipBlanks_newLine_append, List.singleton_append,
      skipBlanks_cons rfl]
    rfl
  | cons w vs ih =>
    obtain ⟨hends, hlength⟩ := follows_writeElements level (w :: vs)
    obtain ⟨fuel, rfl⟩ : ∃ n, fuel = n + 1 := ⟨fuel - 1, by omega⟩
    rw [readElements?, hv (level + 1) fuel _ (hends rest) (by omega)]
    simp only [Option.bind_eq_bind, Option.bind_some]
    rw [writeElements] at hfuel ⊢
    simp only [List.length_cons, List.length_append] at hfuel
    have hrest := ih (hvs w List.mem_cons_self) (fun u hu => hvs u (List.mem_cons_of_mem w hu))
      fuel (by omega)
    simp only [List.cons_append, List.append_assoc]
    rw [skipBlanks_cons rfl]
    simp only [readElements?_append fun _ => isBlank_of_mem_newLine, hrest, Option.bind_some]
    rfl

theorem readsBack_array {vs : List Value} (hwritable : ∀ v ∈ vs, v.Writable)
    (h : ∀ v ∈ vs, v.ReadsBack) : (Value.array vs).ReadsBack := by
  intro level fuel rest _ hfuel
  cases vs with
  | nil =>
    rw [Value.write] at hfuel ⊢
    obtain ⟨fuel, rfl⟩ : ∃ n, fuel = n + 1 := ⟨fuel - 1, by simp at hfuel; omega⟩
    rw [readValue?]
    rfl
  | cons v vs =>
    obtain ⟨c, cs, heq, hblank, hclose⟩ :=
      (hwritable v List.mem_cons_self).exists_write_eq_cons (level + 1)
    rw [Value.write] at hfuel ⊢
    simp only [List.length_cons, List.length_append] at hfuel
    obtain ⟨fuel, rfl⟩ : ∃ n, fuel = n + 1 := ⟨fuel - 1, by omega⟩
    have hread := readElements?_write (h v List.mem_cons_self)
      (fun u hu => h u (List.mem_cons_of_mem v hu)) level fuel rest (by omega)
    simp only [List.cons_append, List.append_assoc]
    rw [readValue?, skipBlanks_cons rfl]
    simp only [skipBlanks_newLine_append]
    rw [heq, List.cons_append] at hread ⊢
    rw [skipBlanks_cons hblank]
    split
    · next hnone => exact absurd (List.cons.inj hnone).1 hclose
    · rw [hread]
      rfl

/-! ## Objects -/

theorem follows_writeMembers (level : ℕ) (ms : List (StringLiteral × Value)) :
    Follows (writeMembers level ms) := by
  cases ms with
  | nil =>
    rw [writeMembers]
    exact follows_cons (.inl rfl) (by simp)
  | cons m ms =>
    rw [writeMembers]
    exact follows_cons (.inr rfl) (by simp [newLine])

/-- A written member is read up to what stands behind it. -/
theorem readMembers?_member (key : String) {v : Value} (hv : v.ReadsBack) (level fuel : ℕ)
    (hfuel : 2 * (v.write level).length ≤ fuel) {behind : List Char}
    (hbehind : EndsNumeral behind) :
    readMembers? (fuel + 1)
        (writeStringLiteral (some key) ++ (':' :: ' ' :: (v.write level ++ behind))) =
      match skipBlanks behind with
      | '\x7d' :: rest => some ([(some key, v)], rest)
      | ',' :: rest => (readMembers? fuel rest).bind fun p => some ((some key, v) :: p.1, p.2)
      | _ => none := by
  obtain ⟨quoted, heq, hkey⟩ :=
    readString?_writeString key (':' :: ' ' :: (v.write level ++ behind))
  have hspace : readValue? fuel (' ' :: (v.write level ++ behind)) = some (v, behind) := by
    have hskip : readValue? fuel ([' '] ++ (v.write level ++ behind)) = _ :=
      readValue?_append (List.forall_mem_singleton.2 rfl) fuel _
    rw [List.singleton_append] at hskip
    rw [hskip, hv level fuel behind hbehind hfuel]
  rw [heq, readMembers?, skipBlanks_cons rfl]
  simp only [hkey, Option.bind_eq_bind, Option.bind_some]
  rw [skipBlanks_cons rfl]
  simp only [hspace, Option.bind_some]
  rfl

/-- **Written members are read back.** -/
theorem readMembers?_write (key : String) {v : Value} (hv : v.ReadsBack)
    {ms : List (StringLiteral × Value)} (hkeys : ∀ m ∈ ms, ∃ key, m.1 = some key)
    (hms : ∀ m ∈ ms, m.2.ReadsBack) (level fuel : ℕ) (rest : List Char)
    (hfuel : 2 * ((v.write (level + 1)).length + (writeMembers level ms).length) ≤ fuel) :
    readMembers? fuel (writeStringLiteral (some key) ++ (':' :: ' ' ::
      (v.write (level + 1) ++ (writeMembers level ms ++ rest)))) =
      some ((some key, v) :: ms, rest) := by
  induction ms generalizing key v fuel with
  | nil =>
    obtain ⟨hends, hlength⟩ := follows_writeMembers level []
    obtain ⟨fuel, rfl⟩ : ∃ n, fuel = n + 1 := ⟨fuel - 1, by omega⟩
    rw [readMembers?_member key hv (level + 1) fuel (by omega) (hends rest), writeMembers,
      List.append_assoc, skipBlanks_newLine_append, List.singleton_append, skipBlanks_cons rfl]
    rfl
  | cons m ms ih =>
    obtain ⟨hends, hlength⟩ := follows_writeMembers level (m :: ms)
    obtain ⟨fuel, rfl⟩ : ∃ n, fuel = n + 1 := ⟨fuel - 1, by omega⟩
    rw [readMembers?_member key hv (level + 1) fuel (by omega) (hends rest)]
    obtain ⟨next, w⟩ := m
    obtain ⟨next, rfl⟩ := hkeys _ List.mem_cons_self
    rw [writeMembers] at hfuel ⊢
    simp only [List.length_cons, List.length_append] at hfuel
    have hw : w.ReadsBack := hms _ List.mem_cons_self
    have hrest := ih next hw (fun u hu => hkeys u (List.mem_cons_of_mem _ hu))
      (fun u hu => hms u (List.mem_cons_of_mem _ hu)) fuel (by omega)
    simp only [List.cons_append, List.append_assoc, List.nil_append]
    rw [skipBlanks_cons rfl]
    simp only [readMembers?_append fun _ => isBlank_of_mem_newLine]
    rw [hrest]
    rfl

theorem readsBack_object {ms : List (StringLiteral × Value)}
    (hkeys : ∀ m ∈ ms, ∃ key, m.1 = some key) (h : ∀ m ∈ ms, m.2.ReadsBack) :
    (Value.object ms).ReadsBack := by
  intro level fuel rest _ hfuel
  cases ms with
  | nil =>
    rw [Value.write] at hfuel ⊢
    obtain ⟨fuel, rfl⟩ : ∃ n, fuel = n + 1 := ⟨fuel - 1, by simp at hfuel; omega⟩
    rw [readValue?]
    rfl
  | cons m ms =>
    obtain ⟨key, v⟩ := m
    obtain ⟨key, rfl⟩ := hkeys _ List.mem_cons_self
    have hv : v.ReadsBack := h _ List.mem_cons_self
    rw [Value.write] at hfuel ⊢
    simp only [List.length_cons, List.length_append] at hfuel
    obtain ⟨fuel, rfl⟩ : ∃ n, fuel = n + 1 := ⟨fuel - 1, by omega⟩
    have hread := readMembers?_write key hv (fun u hu => hkeys u (List.mem_cons_of_mem _ hu))
      (fun u hu => h u (List.mem_cons_of_mem _ hu)) level fuel rest (by omega)
    simp only [List.cons_append, List.append_assoc, List.nil_append]
    rw [readValue?, skipBlanks_cons rfl]
    simp only [skipBlanks_newLine_append]
    obtain ⟨quoted, heq, -⟩ := readString?_writeString key
      (':' :: ' ' :: (v.write (level + 1) ++ (writeMembers level ms ++ rest)))
    rw [heq] at hread ⊢
    rw [skipBlanks_cons rfl]
    split
    · next hnone => exact absurd (List.cons.inj hnone).1 (by decide)
    · rw [hread]
      rfl

/-- **A written value is read back.** -/
theorem readsBack_of_writable {v : Value} (h : v.Writable) : v.ReadsBack := by
  induction h with
  | null => exact readsBack_null
  | bool b => exact readsBack_bool b
  | number h => exact readsBack_number h
  | string s => exact readsBack_string s
  | array hwritable ih => exact readsBack_array hwritable ih
  | object hkeys _ ih => exact readsBack_object hkeys ih

/-- **The text of a value is read back.** -/
theorem read?_pretty {v : Value} (h : v.Writable) : read? v.pretty.toList = some v := by
  have hend : EndsNumeral [] := by
    intro c hc
    exact absurd hc (by simp)
  have hread := readsBack_of_writable h 0 (2 * (v.write 0).length + 2) [] hend (by omega)
  rw [List.append_nil] at hread
  rw [Value.pretty, String.toList_ofList, read?, hread]
  rfl

end MatlabQuality.Json
