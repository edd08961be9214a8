import Mathlib.Data.List.Basic
import MatlabQuality.Command.Parser

/-!
# What a command line that is read can say

A value is taken only after it has been checked, so every value of a line that has been read is one
that its parameter takes, however the words are spelled and ordered.

## Main definitions

* `Yields` — what holds of a result, if there is one.
* `Line.Checked` — every value that has been taken passes its check.

## Main statements

* `yields_readWord` — a word keeps the values of a line checked.
* `yields_readLevel` — so do all words of a level.
* `exists_of_parse` — a command line is described by lines with checked values.
-/

namespace MatlabQuality.Command

/-! ## Results -/

/-- What holds of a result, if there is one. -/
def Yields {α : Type} (x : Except Stop α) (p : α → Prop) : Prop :=
  ∀ a, x = .ok a → p a

section Results

variable {α β : Type} {p : α → Prop} {q : β → Prop}

theorem yields_ok {a : α} (h : p a) : Yields (.ok a) p := by
  intro b hb
  exact Except.ok.inj hb ▸ h

theorem yields_error (stop : Stop) : Yields (.error stop) p := by
  intro a ha
  cases ha

theorem yields_bind {x : Except Stop α} {f : α → Except Stop β} (hx : Yields x p)
    (hf : ∀ a, p a → Yields (f a) q) : Yields (x >>= f) q := by
  cases x with
  | error stop => exact yields_error stop
  | ok a => exact hf a (hx a rfl)

end Results

/-! ## Lines -/

/-- Every value that has been taken passes the check of its parameter. -/
def Line.Checked (line : Line) : Prop :=
  ∀ p value, (p, value) ∈ line.given → p.check value = .ok ()

theorem Line.checked_empty : empty.Checked := by
  intro p value hmem
  cases hmem

namespace Line.Checked

variable {line : Line}

/-- Only the values that have been taken matter. -/
theorem congr {other : Line} (h : line.Checked) (heq : other.given = line.given) :
    other.Checked := by
  intro p value hmem
  exact h p value (heq ▸ hmem)

theorem yields_add (h : line.Checked) (p : Parameter) (value : Option String) :
    Yields (line.add p value) Checked := by
  unfold add
  split
  · exact yields_error _
  · next value =>
    split
    · exact yields_error _
    · refine yields_bind (p := fun _ => p.check value = .ok ()) (fun _ hcheck => hcheck) ?_
      intro _ hcheck
      refine yields_ok fun q other hmem => ?_
      rcases List.mem_cons.1 hmem with heq | hmem
      · obtain ⟨rfl, rfl⟩ := Prod.mk.inj heq
        exact hcheck
      · exact h q other hmem

theorem yields_settle (h : line.Checked) : Yields line.settle Checked := by
  unfold settle
  split
  · exact yields_ok h
  · next p value _ =>
    have hcleared : { line with pending := none }.Checked := h.congr rfl
    exact hcleared.yields_add p value

theorem yields_take (h : line.Checked) (p : Parameter) (value : String) :
    Yields (line.take p value) Checked :=
  yields_bind h.yields_settle fun _ hsettled => hsettled.yields_add p (some value)

theorem yields_await (h : line.Checked) (p : Parameter) : Yields (line.await p) Checked :=
  yields_bind h.yields_settle fun _ hsettled => yields_ok (hsettled.congr rfl)

end Line.Checked

/-! ## Words -/

section Words

variable {line : Line} (h : line.Checked) (level : Level)

include h

theorem yields_readLong (name : String) (attached : Option String) :
    Yields (readLong level line name attached) Line.Checked := by
  unfold readLong
  split
  · next p _ =>
    split
    · exact h.yields_take p _
    · exact h.yields_await p
    · exact yields_error _
    · exact h.yields_take p _
  · split
    · split
      · exact yields_error _
      · exact yields_bind h.yields_settle fun _ _ => yields_error _
    · exact yields_error _

theorem yields_readShort (cs : List Char) : Yields (readShort level line cs) Line.Checked := by
  unfold readShort
  split
  · exact yields_ok h
  · split
    · next p _ =>
      split
      · exact h.yields_await p
      · exact h.yields_take p _
      · exact h.yields_take p _
    · split
      · exact yields_bind h.yields_settle fun _ _ => yields_error _
      · exact yields_error _

theorem yields_readPath (word : String) : Yields (readPath level line word) Line.Checked := by
  unfold readPath
  split
  · split
    · exact yields_error _
    · exact yields_error _
  · exact yields_bind h.yields_settle fun _ hsettled => yields_ok (hsettled.congr rfl)

/-- **A word keeps the values of a line checked.** -/
theorem yields_readWord (word : String) : Yields (readWord level line word) Line.Checked := by
  unfold readWord
  split
  · exact yields_readPath h level word
  · split
    · exact yields_ok (h.congr rfl)
    · exact yields_readLong h level _ _
    · exact yields_readShort h level _
    · split
      · exact yields_ok (h.congr rfl)
      · exact yields_readPath h level word

/-- **All values of a level are checked.** -/
theorem yields_readLevel (words : List String) :
    Yields (readLevel level line words) fun result => result.1.Checked := by
  induction words generalizing line with
  | nil => exact yields_ok h
  | cons word words ih =>
    unfold readLevel
    dsimp only
    split
    · exact yields_error _
    · split
      · exact yields_ok h
      · exact yields_bind (yields_readWord h level word) fun _ hread => ih hread

end Words

/-! ## Command lines -/

/-- The values of the line of a command are checked. -/
theorem yields_readCommand (rest : Option (Level × List String)) :
    Yields (readCommand rest) fun command => ∀ c ∈ command, c.2.Checked := by
  unfold readCommand
  split
  · refine yields_ok fun c hc => ?_
    cases hc
  · next level words =>
    refine yields_bind (yields_readLevel Line.checked_empty level words) fun result hread => ?_
    refine yields_bind hread.yields_settle fun line hsettled => yields_ok fun c hc => ?_
    obtain rfl := Option.some.inj hc
    exact hsettled

/-- **A command line is described by lines with checked values.** -/
theorem exists_of_parse {words : List String} {line : CommandLine} (h : parse words = .ok line) :
    ∃ (main : Line) (command : Option (Level × Line)), main.Checked ∧
      (∀ c ∈ command, c.2.Checked) ∧ line = describe main command := by
  have hyields : Yields (parse words) fun line => ∃ (main : Line) (command : Option (Level × Line)),
      main.Checked ∧ (∀ c ∈ command, c.2.Checked) ∧ line = describe main command := by
    refine yields_bind (yields_readLevel Line.checked_empty .main words) fun result hread => ?_
    refine yields_bind (yields_readCommand result.2) fun command hcommand => ?_
    refine yields_bind hread.yields_settle fun main hmain => ?_
    exact yields_ok ⟨main, command, hmain, hcommand, rfl⟩
  exact hyields line h

theorem Line.Checked.check_of_value? {line : Line} (h : line.Checked) {p : Parameter}
    {value : String} (hvalue : line.value? p = some value) : p.check value = .ok () := by
  obtain ⟨before, after, hgiven, -⟩ := List.lookup_eq_some_iff.1 hvalue
  exact h p value (by rw [hgiven]; simp)

theorem mem_formatNames_of_check {value : String} (h : Parameter.format.check value = .ok ()) :
    value ∈ formatNames := by
  simpa [Parameter.check] using h

/-- The format of an analysis is one of the formats, and the first of them where none is given. -/
theorem mem_formatNames_of_parse {words : List String} {line : CommandLine}
    {options : AnalyzeOptions} (h : parse words = .ok line)
    (hcommand : line.command = some (.analyze options)) : options.format ∈ formatNames := by
  obtain ⟨main, command, -, hchecked, rfl⟩ := exists_of_parse h
  obtain ⟨⟨level, given⟩, hc, haction⟩ := Option.bind_eq_some_iff.1 hcommand
  have hgiven : given.Checked := hchecked _ hc
  cases level with
  | main => cases haction
  | init => cases haction
  | html => cases haction
  | analyze =>
    obtain rfl : _ = options := Action.analyze.inj (Option.some.inj haction)
    cases hvalue : given.value? .format with
    | none => simp [formatNames]
    | some value => exact mem_formatNames_of_check (hgiven.check_of_value? hvalue)

end MatlabQuality.Command
