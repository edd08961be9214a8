import Mathlib.Logic.Function.Basic
import MatlabQuality.Command.Parser
import MatlabQuality.Proofs.Text.Span

/-!
# Spellings and orders of a command line

An option with a value may be spelled in up to five ways, and the path and the options stand in any
order.  After some of them a line holds their values, whatever their spellings were: the last one
waits to be taken, and taking it is all that is left to do.

## Main definitions

* `IsLegal` — a value that may be given in every spelling.
* `Spells`, `SpellsAll` — the words of one parameter, and of several in an order.
* `Arranges` — the words of a choice of parameters, in some order and some spelling.
* `told` — what choices before and after the word of the command say.
* `Line.Holds` — a line after some parameters.

## Main statements

* `Line.Holds.exists_readLevel_spells` — the words of one parameter.
* `Line.Holds.exists_readLevel_spellsAll` — the words of several.
* `parse_arranged` — neither order nor spelling matters.
-/

namespace MatlabQuality.Command

open MatlabQuality.Number MatlabQuality.Text

/-! ## Arrangements -/

/-- A value that a parameter takes and that may be given in every spelling. -/
structure IsLegal (p : Parameter) (value : String) : Prop where
  check : p.check value = .ok ()
  ne_empty : value.toList ≠ []
  no_dash : value.toList.head? ≠ some '-'
  no_equals : value.toList.head? ≠ some '='

/-- The words of a parameter with a value: a path is a word of its own, a flag has only its name,
and other options have their value in the next word or behind an equals sign, or right behind a
short name. -/
inductive Spells : Parameter → String → List String → Prop
  | path (value : String) : Spells .path value [value]
  | flag {p : Parameter} {name : String} (hname : p.long? = some name)
      (hflag : p.takesValue = false) : Spells p flagValue ["--" ++ name]
  | longSpaced {p : Parameter} {name : String} (value : String) (hname : p.long? = some name)
      (htakes : p.takesValue = true) : Spells p value ["--" ++ name, value]
  | longEquals {p : Parameter} {name : String} (value : String) (hname : p.long? = some name)
      (htakes : p.takesValue = true) : Spells p value ["--" ++ name ++ "=" ++ value]
  | shortSpaced {p : Parameter} {c : Char} (value : String) (hname : p.short? = some c) :
      Spells p value [String.ofList ['-', c], value]
  | shortEquals {p : Parameter} {c : Char} (value : String) (hname : p.short? = some c) :
      Spells p value [String.ofList ['-', c] ++ "=" ++ value]
  | shortAttached {p : Parameter} {c : Char} (value : String) (hname : p.short? = some c) :
      Spells p value [String.ofList ['-', c] ++ value]

/-- The words of some parameters, one after the other, each with its value. -/
inductive SpellsAll (choice : Parameter → Option String) : List Parameter → List String → Prop
  | nil : SpellsAll choice [] []
  | cons {p : Parameter} {value : String} {order : List Parameter} {spelled words : List String}
      (hvalue : choice p = some value) (hspelled : Spells p value spelled)
      (hwords : SpellsAll choice order words) : SpellsAll choice (p :: order) (spelled ++ words)

/-- Words of a level that give a choice of parameters, each of them once, in an order. -/
structure Arranges (level : Level) (choice : Parameter → Option String) (order : List Parameter)
    (words : List String) : Prop where
  nodup : order.Nodup
  mem_order : ∀ p, p ∈ order ↔ (choice p).isSome
  belongs : ∀ p ∈ order, p = .path ∨ p ∈ level.options
  legal : ∀ p value, choice p = some value → IsLegal p value
  spells : SpellsAll choice order words

/-- What a choice before the word of the command and one after it say: the second is preferred, and
what is in neither has its default. -/
def told (main analyze : Parameter → Option String) : CommandLine :=
  let value := fun p => (analyze p).or (main p)
  { path := (value .path).getD "."
    logLevel := (value .logLevel).getD "warn"
    workers := ((value .workers).bind workers?).getD 8
    command := some (.analyze
      { format := (analyze .format).getD "json"
        output := analyze .output
        config := analyze .config
        failOn := (analyze .failOn).bind Severity.ofName?
        noIgnore := (analyze .noIgnore).isSome }) }

/-! ## Names -/

section Names

variable {p : Parameter} {level : Level} {name : String} {c : Char}

theorem long?_eq_some (h : p ∈ level.options) (hname : p.long? = some name) :
    level.long? name = some p := by
  cases level <;> cases p <;> cases hname <;> first | rfl | simp [Level.options] at h

theorem short?_eq_some (h : p ∈ level.options) (hname : p.short? = some c) :
    level.short? c = some p := by
  cases level <;> cases p <;> cases hname <;> first | rfl | simp [Level.options] at h

/-- A long name is not empty and has no equals sign. -/
theorem exists_toList_of_long? (hname : p.long? = some name) :
    ∃ c cs, name.toList = c :: cs ∧ '=' ∉ c :: cs := by
  cases p <;> cases hname
  all_goals
    rw [String.toList_ofList]
    exact ⟨_, _, rfl, by decide⟩

theorem of_short? (hname : p.short? = some c) : c ≠ '-' ∧ p ≠ .path := by
  cases p <;> cases hname <;> decide

theorem ne_path_of_long? (hname : p.long? = some name) : p ≠ .path := by
  rintro rfl
  cases hname

end Names

/-- No command starts with a dash. -/
theorem notMem_commandWords_of_dash {word : String} (h : word.toList.head? = some '-') :
    word ∉ Level.commandWords := by
  intro hmem
  simp only [Level.commandWords, Level.helpWord, List.mem_cons, List.not_mem_nil, or_false] at hmem
  rcases hmem with rfl | rfl | rfl | rfl
  all_goals
    rw [String.toList_ofList] at h
    exact absurd h (by decide)

theorem command?_eq_none {word : String} (h : word ∉ Level.commandWords) :
    Level.command? word = none := by
  unfold Level.command?
  split <;> simp [Level.commandWords] at h ⊢

/-! ## Lines -/

/-- A line without a pending parameter whose values are those of a choice. -/
structure Line.Has (line : Line) (taken : Parameter → Option String) : Prop where
  pending : line.pending = none
  pathsOnly : line.pathsOnly = false
  hasPath : line.hasPath = (taken .path).isSome
  value? : ∀ p, line.value? p = taken p

/-- A line after the words of a choice: once it is settled it has the choice. -/
structure Line.Holds (line : Line) (taken : Parameter → Option String) : Prop where
  settles : ∃ settled, line.settle = .ok settled ∧ settled.Has taken
  awaited? : line.awaited? = none
  pathsOnly : line.pathsOnly = false
  hasPath : line.hasPath = (taken .path).isSome

section Lines

variable {line : Line} {taken : Parameter → Option String} {p : Parameter} {value : String}

theorem Line.add_eq_ok (hnew : line.value? p = none) (hcheck : p.check value = .ok ()) :
    line.add p (some value) = .ok { line with given := (p, value) :: line.given } := by
  simp only [add, hnew, Option.isSome_none, Bool.false_eq_true, if_false, hcheck]
  rfl

namespace Line.Has

theorem empty : Line.empty.Has fun _ => none :=
  ⟨rfl, rfl, rfl, fun _ => rfl⟩

theorem holds (h : line.Has taken) : line.Holds taken where
  settles := ⟨line, by rw [settle, h.pending], h⟩
  awaited? := by rw [Line.awaited?, h.pending]
  pathsOnly := h.pathsOnly
  hasPath := h.hasPath

/-- An option changes nothing about the path. -/
theorem hasPath_update (h : line.Has taken) (hp : p ≠ .path) :
    line.hasPath = (Function.update taken p (some value) .path).isSome := by
  rw [Function.update_of_ne hp.symm, h.hasPath]

/-- A line with a new value. -/
theorem cons (h : line.Has taken) {hasPath : Bool}
    (hflag : hasPath = (Function.update taken p (some value) .path).isSome) :
    Has ⟨(p, value) :: line.given, none, hasPath, line.pathsOnly⟩
      (Function.update taken p (some value)) where
  pending := rfl
  pathsOnly := h.pathsOnly
  hasPath := hflag
  value? q := by
    rw [Line.value?, List.lookup_cons, Function.update_apply]
    by_cases hq : q = p
    · rw [if_pos hq, beq_iff_eq.2 hq]
    · rw [if_neg hq, beq_eq_false_iff_ne.2 hq]
      exact h.value? q

/-- A line whose pending parameter is new and has a value that it takes. -/
theorem holds_pending (h : line.Has taken) (hnew : taken p = none)
    (hcheck : p.check value = .ok ()) {hasPath : Bool}
    (hflag : hasPath = (Function.update taken p (some value) .path).isSome) :
    Holds { line with pending := some (p, some value), hasPath := hasPath }
      (Function.update taken p (some value)) where
  settles := by
    have hvalue : Line.value? { line with pending := none, hasPath := hasPath } p = none :=
      (h.value? p).trans hnew
    exact ⟨_, add_eq_ok hvalue hcheck, h.cons hflag⟩
  awaited? := rfl
  pathsOnly := h.pathsOnly
  hasPath := hflag

end Line.Has

namespace Line.Holds

variable (h : line.Holds taken) (hnew : taken p = none) (hcheck : p.check value = .ok ())

include h hnew hcheck

/-- An option with its value is taken. -/
theorem exists_take (hp : p ≠ .path) :
    ∃ line', line.take p value = .ok line' ∧
      line'.Holds (Function.update taken p (some value)) := by
  obtain ⟨settled, hsettle, hhas⟩ := h.settles
  refine ⟨_, ?_, (hhas.cons (hhas.hasPath_update hp)).holds⟩
  rw [Line.take, hsettle, ← hhas.pending]
  exact add_eq_ok ((hhas.value? p).trans hnew) hcheck

/-- An option that waits for its value holds it once it has come. -/
theorem exists_await (hp : p ≠ .path) :
    ∃ waiting, line.await p = .ok waiting ∧ waiting.awaited? = some p ∧
      waiting.pathsOnly = false ∧
      Line.Holds { waiting with pending := some (p, some value) }
        (Function.update taken p (some value)) := by
  obtain ⟨settled, hsettle, hhas⟩ := h.settles
  refine ⟨{ settled with pending := some (p, none) }, ?_, rfl, hhas.pathsOnly,
    hhas.holds_pending hnew hcheck (hhas.hasPath_update hp)⟩
  rw [Line.await, hsettle]
  rfl

end Line.Holds

/-- The first path is read. -/
theorem Line.Holds.exists_readPath (h : line.Holds taken) (hnew : taken .path = none)
    (hcheck : Parameter.path.check value = .ok ()) (level : Level) :
    ∃ line', readPath level line value = .ok line' ∧
      line'.Holds (Function.update taken .path (some value)) := by
  obtain ⟨settled, hsettle, hhas⟩ := h.settles
  have hnone : line.hasPath = false := by
    rw [h.hasPath, hnew]
    rfl
  have hflag : true = (Function.update taken .path (some value) .path).isSome := by
    rw [Function.update_self]
    rfl
  refine ⟨_, ?_, hhas.holds_pending hnew hcheck hflag⟩
  rw [readPath, hnone, hsettle]
  rfl

end Lines

/-! ## Words -/

section Words

variable {level : Level} {line : Line} {taken : Parameter → Option String} {p : Parameter}
  {value word : String}

/-- A word that opens no command belongs to the level. -/
theorem readLevel_cons (h : level = .main → line.awaited? = none → word ∉ Level.commandWords)
    (rest : List String) :
    readLevel level line (word :: rest) =
      readWord level line word >>= fun line' => readLevel level line' rest := by
  rw [readLevel]
  by_cases hopens : (level = .main && !line.pathsOnly && line.awaited?.isNone) = true
  · simp only [Bool.and_eq_true, decide_eq_true_eq, Option.isNone_iff_eq_none] at hopens
    have hword := h hopens.1.1 hopens.2
    have hhelp : word ≠ Level.helpWord := by
      rintro rfl
      exact hword (by simp [Level.commandWords])
    simp [hhelp, command?_eq_none hword]
  · simp [hopens]

/-- The name of a long option ends at an equals sign. -/
theorem splitLong_of_notMem {cs : List Char} (h : '=' ∉ cs) :
    splitLong cs = (String.ofList cs, none) := by
  have hspan : IsSpan (· ≠ '=') cs [] :=
    ⟨fun c hc => decide_eq_true fun heq => h (heq ▸ hc), by simp⟩
  have htake := hspan.takeWhile_eq
  have hdrop := hspan.dropWhile_eq
  rw [List.append_nil] at htake hdrop
  simp only [splitLong, htake, hdrop]

theorem splitLong_append {cs : List Char} (h : '=' ∉ cs) (behind : List Char) :
    splitLong (cs ++ '=' :: behind) = (String.ofList cs, some (String.ofList behind)) := by
  have hspan : IsSpan (· ≠ '=') cs ('=' :: behind) :=
    ⟨fun c hc => decide_eq_true fun heq => h (heq ▸ hc), stops_cons (by decide) _⟩
  simp only [splitLong, hspan.takeWhile_eq, hspan.dropWhile_eq]

theorem readWord_long (h : line.pathsOnly = false) {c : Char} {cs : List Char}
    (hword : word.toList = '-' :: '-' :: c :: cs) :
    readWord level line word =
      readLong level line (splitLong (c :: cs)).1 (splitLong (c :: cs)).2 := by
  simp only [readWord, h, hword, Bool.false_eq_true, if_false]

theorem readWord_short (h : line.pathsOnly = false) {c : Char} (hc : c ≠ '-') {cs : List Char}
    (hword : word.toList = '-' :: c :: cs) :
    readWord level line word = readShort level line (c :: cs) := by
  simp only [readWord, h, hword, Bool.false_eq_true, if_false]
  split <;> simp_all

/-- A word without a dash is the value that a line waits for, or a path. -/
theorem readWord_value (h : line.pathsOnly = false) (hword : word.toList.head? ≠ some '-') :
    readWord level line word =
      match line.awaited? with
      | some p => .ok { line with pending := some (p, some word) }
      | none => readPath level line word := by
  simp only [readWord, h, Bool.false_eq_true, if_false]
  split
  · next heq => simp [heq] at hword
  · next heq => simp [heq] at hword
  · next heq => simp [heq] at hword
  · rfl

end Words

/-! ## Options -/

section Options

variable {level : Level} {line : Line} {p : Parameter} {name : String} {c : Char}
  (hpaths : line.pathsOnly = false) (hp : p ∈ level.options) (value : String)

include hpaths hp

/-- A word with only a long name. -/
theorem readWord_longName (hname : p.long? = some name) :
    readWord level line ("--" ++ name) =
      if p.takesValue then line.await p else line.take p flagValue := by
  obtain ⟨c, cs, hcs, hequals⟩ := exists_toList_of_long? hname
  have hword : ("--" ++ name).toList = '-' :: '-' :: c :: cs := by simp [hcs]
  rw [readWord_long hpaths hword, splitLong_of_notMem hequals, ← hcs, String.ofList_toList,
    readLong, long?_eq_some hp hname]
  dsimp only
  cases p.takesValue <;> rfl

theorem readWord_longEquals (hname : p.long? = some name) (htakes : p.takesValue = true) :
    readWord level line ("--" ++ name ++ "=" ++ value) = line.take p value := by
  obtain ⟨c, cs, hcs, hequals⟩ := exists_toList_of_long? hname
  have hword : ("--" ++ name ++ "=" ++ value).toList =
      '-' :: '-' :: c :: (cs ++ '=' :: value.toList) := by
    simp [hcs]
  rw [readWord_long hpaths hword, ← List.cons_append, splitLong_append hequals, ← hcs,
    String.ofList_toList, String.ofList_toList, readLong, long?_eq_some hp hname]
  simp only [htakes]

/-- A word with only a short name. -/
theorem readWord_shortName (hname : p.short? = some c) :
    readWord level line (String.ofList ['-', c]) = line.await p := by
  have hword : (String.ofList ['-', c]).toList = ['-', c] := String.toList_ofList
  rw [readWord_short hpaths (of_short? hname).1 hword, readShort, short?_eq_some hp hname]

theorem readWord_shortEquals (hname : p.short? = some c) :
    readWord level line (String.ofList ['-', c] ++ "=" ++ value) = line.take p value := by
  have hword : (String.ofList ['-', c] ++ "=" ++ value).toList =
      '-' :: c :: '=' :: value.toList := by
    simp
  rw [readWord_short hpaths (of_short? hname).1 hword, readShort, short?_eq_some hp hname]
  exact congrArg (line.take p) String.ofList_toList

theorem readWord_shortAttached (hname : p.short? = some c) (hlegal : IsLegal p value) :
    readWord level line (String.ofList ['-', c] ++ value) = line.take p value := by
  have hword : (String.ofList ['-', c] ++ value).toList = '-' :: c :: value.toList := by simp
  rw [readWord_short hpaths (of_short? hname).1 hword, readShort, short?_eq_some hp hname]
  dsimp only
  split
  · next heq => exact absurd heq hlegal.ne_empty
  · next heq => exact absurd (by rw [heq]; rfl) hlegal.no_equals
  · rw [String.ofList_toList]

end Options

/-! ## Parameters -/

namespace Line.Holds

variable {level : Level} {line : Line} {taken : Parameter → Option String} {p : Parameter}
  {value word : String} (h : line.Holds taken) (hnew : taken p = none)
  (hcheck : p.check value = .ok ()) (hp : p ≠ .path)

include h hnew hcheck hp

/-- A word with the name of an option and its value. -/
theorem exists_readLevel_of_take (hdash : word.toList.head? = some '-')
    (hread : readWord level line word = line.take p value) :
    ∃ line', line'.Holds (Function.update taken p (some value)) ∧
      ∀ rest, readLevel level line ([word] ++ rest) = readLevel level line' rest := by
  obtain ⟨line', htake, hholds⟩ := h.exists_take hnew hcheck hp
  refine ⟨line', hholds, fun rest => ?_⟩
  rw [List.singleton_append, readLevel_cons fun _ _ => notMem_commandWords_of_dash hdash, hread,
    htake]
  rfl

/-- A word with the name of an option, and its value as the next word, which may be any word that
does not start with a dash. -/
theorem exists_readLevel_of_await (hdash : word.toList.head? = some '-')
    (hread : readWord level line word = line.await p) (hvalue : value.toList.head? ≠ some '-') :
    ∃ line', line'.Holds (Function.update taken p (some value)) ∧
      ∀ rest, readLevel level line ([word, value] ++ rest) = readLevel level line' rest := by
  obtain ⟨waiting, hawait, hawaited, hpaths, hholds⟩ := h.exists_await hnew hcheck hp
  refine ⟨_, hholds, fun rest => ?_⟩
  -- No word opens a command where a value is awaited.
  have hnext : ∀ rest, readLevel level waiting (value :: rest) =
      readLevel level { waiting with pending := some (p, some value) } rest := by
    intro rest
    rw [readLevel_cons fun _ hnone => absurd (hawaited.symm.trans hnone) (by simp),
      readWord_value hpaths hvalue, hawaited]
    rfl
  rw [List.cons_append, readLevel_cons fun _ _ => notMem_commandWords_of_dash hdash, hread, hawait]
  exact hnext rest

end Line.Holds

/-- **The words of one parameter.** -/
theorem Line.Holds.exists_readLevel_spells {level : Level} {line : Line}
    {taken : Parameter → Option String} {p : Parameter} {value : String} {spelled : List String}
    (h : line.Holds taken) (hnew : taken p = none) (hbelongs : p = .path ∨ p ∈ level.options)
    (hlegal : IsLegal p value)
    (hmain : level = .main → p = .path → value ∉ Level.commandWords)
    (hspelled : Spells p value spelled) :
    ∃ line', line'.Holds (Function.update taken p (some value)) ∧
      ∀ rest, readLevel level line (spelled ++ rest) = readLevel level line' rest := by
  have hcheck := hlegal.check
  cases hspelled with
  | path =>
    obtain ⟨line', hread, hholds⟩ := h.exists_readPath hnew hcheck level
    refine ⟨line', hholds, fun rest => ?_⟩
    rw [List.singleton_append, readLevel_cons fun hlevel _ => hmain hlevel rfl,
      readWord_value h.pathsOnly hlegal.no_dash, h.awaited?, hread]
    rfl
  | flag hname hflag =>
    have hp := ne_path_of_long? hname
    refine h.exists_readLevel_of_take hnew hcheck hp (by simp) ?_
    rw [readWord_longName h.pathsOnly (hbelongs.resolve_left hp) hname, hflag]
    rfl
  | longSpaced _ hname htakes =>
    have hp := ne_path_of_long? hname
    refine h.exists_readLevel_of_await hnew hcheck hp (by simp) ?_ hlegal.no_dash
    rw [readWord_longName h.pathsOnly (hbelongs.resolve_left hp) hname, htakes]
    rfl
  | longEquals _ hname htakes =>
    have hp := ne_path_of_long? hname
    exact h.exists_readLevel_of_take hnew hcheck hp (by simp)
      (readWord_longEquals h.pathsOnly (hbelongs.resolve_left hp) value hname htakes)
  | shortSpaced _ hname =>
    have hp := (of_short? hname).2
    exact h.exists_readLevel_of_await hnew hcheck hp (by simp)
      (readWord_shortName h.pathsOnly (hbelongs.resolve_left hp) hname) hlegal.no_dash
  | shortEquals _ hname =>
    have hp := (of_short? hname).2
    exact h.exists_readLevel_of_take hnew hcheck hp (by simp)
      (readWord_shortEquals h.pathsOnly (hbelongs.resolve_left hp) value hname)
  | shortAttached _ hname =>
    have hp := (of_short? hname).2
    exact h.exists_readLevel_of_take hnew hcheck hp (by simp)
      (readWord_shortAttached h.pathsOnly (hbelongs.resolve_left hp) value hname hlegal)

/-- **The words of several parameters.** -/
theorem Line.Holds.exists_readLevel_spellsAll {level : Level} {line : Line}
    {taken choice : Parameter → Option String} {order : List Parameter} {words : List String}
    (hspells : SpellsAll choice order words) (h : line.Holds taken) (hnodup : order.Nodup)
    (hnew : ∀ p ∈ order, taken p = none) (hbelongs : ∀ p ∈ order, p = .path ∨ p ∈ level.options)
    (hlegal : ∀ p value, choice p = some value → IsLegal p value)
    (hmain : level = .main → ∀ path, choice .path = some path → path ∉ Level.commandWords) :
    ∃ line', line'.Holds (fun p => if p ∈ order then choice p else taken p) ∧
      ∀ rest, readLevel level line (words ++ rest) = readLevel level line' rest := by
  -- What has been taken grows by the parameter whose words are read.
  induction hspells generalizing line taken with
  | nil => exact ⟨line, by simpa using h, fun _ => rfl⟩
  | @cons p value order spelled words hvalue hspelled _ ih =>
    rw [List.nodup_cons] at hnodup
    rw [List.forall_mem_cons] at hnew hbelongs
    obtain ⟨line₁, hholds₁, hread₁⟩ := h.exists_readLevel_spells hnew.1 hbelongs.1
      (hlegal p value hvalue) (fun hlevel hp => hmain hlevel value (hp ▸ hvalue)) hspelled
    have hnew₁ : ∀ q ∈ order, Function.update taken p (some value) q = none := by
      intro q hq
      have hne : q ≠ p := fun heq => hnodup.1 (heq ▸ hq)
      rw [Function.update_of_ne hne]
      exact hnew.2 q hq
    obtain ⟨line₂, hholds₂, hread₂⟩ := ih hholds₁ hnodup.2 hnew₁ hbelongs.2
    have htaken :
        (fun q => if q ∈ order then choice q else Function.update taken p (some value) q) =
          fun q => if q ∈ p :: order then choice q else taken q := by
      funext q
      by_cases hq : q = p
      · subst hq
        simp [hnodup.1, hvalue]
      · simp [hq]
    refine ⟨line₂, htaken ▸ hholds₂, fun rest => ?_⟩
    rw [List.append_assoc, hread₁, hread₂]

/-! ## Command lines -/

/-- **A level holds the choice that its words arrange.** -/
theorem Arranges.exists_readLevel {level : Level} {choice : Parameter → Option String}
    {order : List Parameter} {words : List String} (h : Arranges level choice order words)
    (hmain : level = .main → ∀ path, choice .path = some path → path ∉ Level.commandWords) :
    ∃ line, line.Holds choice ∧
      ∀ rest, readLevel level .empty (words ++ rest) = readLevel level line rest := by
  have hchoice : (fun p => if p ∈ order then choice p else none) = choice := by
    funext p
    by_cases hp : p ∈ order
    · rw [if_pos hp]
    · rw [if_neg hp, Option.not_isSome_iff_eq_none.1 fun hsome => hp ((h.mem_order p).2 hsome)]
  have hread := Line.Has.empty.holds.exists_readLevel_spellsAll h.spells h.nodup (fun _ _ => rfl)
    h.belongs h.legal hmain
  rwa [hchoice] at hread

/-- What two lines with choices say is what the choices say. -/
theorem describe_eq_told {main analyze : Line} {before after : Parameter → Option String}
    (hmain : main.Has before) (hanalyze : analyze.Has after) :
    describe main (some (.analyze, analyze)) = told before after := by
  simp only [describe, told, Level.command, Option.bind_some, hmain.value?, hanalyze.value?]

/-- **Neither order nor spelling matters.**  A choice of parameters behind the word of the command
is preferred to one before it.  A path before that word is none of the words that have a meaning in
its place. -/
theorem parse_arranged {main analyze : Parameter → Option String}
    {mainOrder analyzeOrder : List Parameter} {before after : List String}
    (hmain : Arranges .main main mainOrder before)
    (hanalyze : Arranges .analyze analyze analyzeOrder after)
    (hpath : ∀ path, main .path = some path → path ∉ Level.commandWords) :
    parse (before ++ "analyze" :: after) = .ok (told main analyze) := by
  obtain ⟨mainLine, hmainHolds, hmainRead⟩ := hmain.exists_readLevel fun _ => hpath
  obtain ⟨line, hholds, hread⟩ := hanalyze.exists_readLevel fun hlevel => absurd hlevel (by decide)
  obtain ⟨mainSettled, hmainSettle, hmainHas⟩ := hmainHolds.settles
  obtain ⟨settled, hsettle, hhas⟩ := hholds.settles
  -- The main line waits for nothing here, so the word opens the command.
  have hopens : readLevel .main .empty (before ++ "analyze" :: after) =
      .ok (mainLine, some (.analyze, after)) := by
    rw [hmainRead, readLevel, hmainHolds.pathsOnly, hmainHolds.awaited?]
    rfl
  have hcommand : readCommand (some (.analyze, after)) = .ok (some (.analyze, settled)) := by
    have hafter := hread []
    rw [List.append_nil] at hafter
    rw [readCommand, hafter, readLevel]
    exact congrArg (fun x => x >>= fun l => .ok (some (Level.analyze, l))) hsettle
  rw [parse, hopens]
  change (readCommand (some (.analyze, after)) >>= _) = _
  rw [hcommand]
  change (mainLine.settle >>= _) = _
  rw [hmainSettle]
  exact congrArg Except.ok (describe_eq_told hmainHas hhas)

/-! ## Words that look like commands -/

/-- A literal is legal if its first character is. -/
theorem IsLegal.literal {p : Parameter} {value : String} {c : Char} {cs : List Char}
    (hvalue : value = String.ofList (c :: cs)) (hc : c ∉ ['-', '='])
    (hcheck : p.check value = .ok ()) : IsLegal p value := by
  have hchars : value.toList = c :: cs := by rw [hvalue, String.toList_ofList]
  rw [List.mem_cons, List.mem_singleton, not_or] at hc
  refine ⟨hcheck, ?_, ?_, ?_⟩
  all_goals rw [hchars]
  · exact List.cons_ne_nil c cs
  · exact fun h => hc.1 (Option.some.inj h)
  · exact fun h => hc.2 (Option.some.inj h)

/-- A path and two options before the word of the command. -/
def outerChoice : Parameter → Option String
  | .path => some "lib"
  | .workers => some "+4"
  | .logLevel => some "debug"
  | _ => none

/-- A path and options behind it, with words that could be commands as values. -/
def innerChoice : Parameter → Option String
  | .path => some "analyze"
  | .workers => some "2"
  | .format => some "txt"
  | .output => some "help"
  | .config => some "init"
  | .failOn => some "high"
  | .noIgnore => some flagValue
  | .logLevel => none

theorem arranges_outerChoice :
    Arranges .main outerChoice [.workers, .path, .logLevel]
      ["--workers", "+4", "lib", "--log-level=debug"] where
  nodup := by decide
  mem_order p := by cases p <;> decide
  belongs := by decide
  legal p value h := by
    cases p <;> cases h
    all_goals exact .literal rfl (by decide) rfl
  spells := by
    have h : SpellsAll outerChoice [.workers, .path, .logLevel] _ :=
      .cons rfl (.longSpaced "+4" rfl rfl) (.cons rfl (.path "lib")
        (.cons rfl (.longEquals "debug" rfl rfl) .nil))
    simpa using h

theorem arranges_innerChoice :
    Arranges .analyze innerChoice
      [.output, .noIgnore, .path, .failOn, .workers, .format, .config]
      ["-ohelp", "--no-ignore", "analyze", "--fail-on", "high", "--workers=2", "-f=txt", "-c",
        "init"] where
  nodup := by decide
  mem_order p := by cases p <;> decide
  belongs := by decide
  legal p value h := by
    cases p <;> cases h
    all_goals exact .literal rfl (by decide) rfl
  spells := by
    have h : SpellsAll innerChoice
        [.output, .noIgnore, .path, .failOn, .workers, .format, .config] _ :=
      .cons rfl (.shortAttached "help" rfl) (.cons rfl (.flag rfl rfl) (.cons rfl (.path "analyze")
        (.cons rfl (.longSpaced "high" rfl rfl) (.cons rfl (.longEquals "2" rfl rfl)
          (.cons rfl (.shortEquals "txt" rfl) (.cons rfl (.shortSpaced "init" rfl) .nil))))))
    simpa using h

theorem parse_arranged_commandLike :
    parse (["--workers", "+4", "lib", "--log-level=debug"] ++ "analyze" ::
        ["-ohelp", "--no-ignore", "analyze", "--fail-on", "high", "--workers=2", "-f=txt", "-c",
          "init"]) =
      .ok ⟨"analyze", "debug", 2,
        some (.analyze ⟨"txt", some "help", some "init", some .high, true⟩)⟩ := by
  refine parse_arranged arranges_outerChoice arranges_innerChoice fun path hpath => ?_
  obtain rfl := Option.some.inj hpath
  decide

/-- A path before the word of the command may be a command itself, and the word is then its
path. -/
theorem not_parse_arranged_commandWord :
    ¬ ∀ (main analyze : Parameter → Option String) (mainOrder analyzeOrder : List Parameter)
      (before after : List String), Arranges .main main mainOrder before →
        Arranges .analyze analyze analyzeOrder after →
        parse (before ++ "analyze" :: after) = .ok (told main analyze) := by
  intro h
  have houter : Arranges .main (Function.update (fun _ => none) .path (some "init")) [.path]
      ["init"] :=
    { nodup := by decide
      mem_order := fun p => by cases p <;> decide
      belongs := by decide
      legal := fun p value hvalue => by
        cases p <;> cases hvalue
        exact .literal rfl (by decide) rfl
      spells := .cons rfl (.path "init") .nil }
  have hinner : Arranges .analyze (fun _ => none) [] [] :=
    { nodup := .nil
      mem_order := by simp
      belongs := by simp
      legal := by simp
      spells := .nil }
  have hparse : parse (["init"] ++ ["analyze"]) = .ok ⟨"analyze", "warn", 8, some .init⟩ := rfl
  have htold := hparse.symm.trans (h _ _ _ _ _ _ houter hinner)
  exact absurd htold (by decide)

end MatlabQuality.Command
