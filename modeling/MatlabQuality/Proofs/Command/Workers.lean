import MatlabQuality.Proofs.Command.Parsing
import MatlabQuality.Proofs.Number.Unsigned

/-!
# Numbers of workers

A text names a number of workers exactly where it spells a number from one to the greatest one.  A
value is taken only after its check, and without a value there is a default within the bounds, so
every command line that is read has a number of workers in range.

## Main statements

* `workers?_eq_some_iff` — the texts that name a number of workers.
* `check_workers_eq_error_iff` — every other text is rejected.
* `workers_of_parse` — the number of workers of a command line is in range.
-/

namespace MatlabQuality.Command

open MatlabQuality.Number

/-- **A text names a number of workers** exactly where it spells a number in range. -/
theorem workers?_eq_some_iff {s : String} {n : Nat} :
    workers? s = some n ↔ SpellsUnsigned s.toList n ∧ 1 ≤ n ∧ n ≤ maxWorkers := by
  have hfits : n ≤ maxWorkers → n < 2 ^ workerBits := by
    intro hle
    exact Nat.lt_of_le_of_lt hle (by decide)
  constructor
  · intro h
    obtain ⟨m, hread, hrange⟩ := Option.bind_eq_some_iff.1 h
    split at hrange
    · next hm =>
      obtain rfl := Option.some.inj hrange
      exact ⟨(readUnsigned?_eq_some_iff.1 hread).1, by simpa using hm⟩
    · cases hrange
  · rintro ⟨hspells, hone, hle⟩
    have hread : readUnsigned? workerBits s.toList = some n :=
      readUnsigned?_eq_some_iff.2 ⟨hspells, hfits hle⟩
    rw [workers?, hread]
    exact if_pos (by simpa using ⟨hone, hle⟩)

/-- What the check of a number of workers comes to. -/
theorem check_workers (s : String) :
    Parameter.workers.check s = if (workers? s).isSome then .ok () else .error .rejectedNumber := by
  simp [Parameter.check]

/-- **Every other text is rejected.** -/
theorem check_workers_eq_error_iff {s : String} :
    Parameter.workers.check s = .error .rejectedNumber ↔
      ∀ n, SpellsUnsigned s.toList n → n < 1 ∨ maxWorkers < n := by
  have hnone : workers? s = none ↔ ∀ n, SpellsUnsigned s.toList n → n < 1 ∨ maxWorkers < n := by
    simp only [Option.eq_none_iff_forall_ne_some, ne_eq, workers?_eq_some_iff, not_and, Nat.not_le]
    refine forall_congr' fun n => imp_congr_right fun _ => ?_
    omega
  rw [check_workers, ← hnone]
  cases workers? s with
  | none => simp
  | some n => simp

/-- A number of workers that has been taken is in range. -/
theorem Line.Checked.workers_le {line : Line} (h : line.Checked) {value : String}
    (hvalue : line.value? .workers = some value) :
    ∃ n, workers? value = some n ∧ 1 ≤ n ∧ n ≤ maxWorkers := by
  have hcheck := h.check_of_value? hvalue
  rw [check_workers] at hcheck
  split at hcheck
  · next hsome =>
    obtain ⟨n, hn⟩ := Option.isSome_iff_exists.1 hsome
    exact ⟨n, hn, (workers?_eq_some_iff.1 hn).2⟩
  · cases hcheck

/-- **The number of workers of a command line is in range**, whether it is given or not. -/
theorem workers_of_parse {words : List String} {line : CommandLine} (h : parse words = .ok line) :
    1 ≤ line.workers ∧ line.workers ≤ maxWorkers := by
  obtain ⟨main, command, hmain, hcommand, rfl⟩ := exists_of_parse h
  have hdescribe : (describe main command).workers =
      (((command.bind fun c => c.2.value? .workers).or (main.value? .workers)).bind
        workers?).getD 8 := rfl
  rw [hdescribe]
  cases hvalue : (command.bind fun c => c.2.value? .workers).or (main.value? .workers) with
  | none => decide
  | some value =>
    obtain ⟨n, hn, hrange⟩ : ∃ n, workers? value = some n ∧ 1 ≤ n ∧ n ≤ maxWorkers := by
      rcases Option.or_eq_some_iff.1 hvalue with hgiven | ⟨-, hgiven⟩
      · obtain ⟨c, hc, hc'⟩ := Option.bind_eq_some_iff.1 hgiven
        exact (hcommand c hc).workers_le hc'
      · exact hmain.workers_le hgiven
    rw [Option.bind_some, hn]
    exact hrange

/-- **A number of workers is read digit by digit without wrapping.**  A text names one exactly where
it is a plus sign or none, followed by at least one ASCII digit, and its value is from one to
sixty-four; zeros in front do not matter.  Every other text is rejected, however large its value is,
and so every command line that is read has from one to sixty-four workers. -/
theorem workers_in_range :
    (∀ s n, workers? s = some n ↔
      (∃ digits, (s.toList = digits ∨ s.toList = '+' :: digits) ∧ digits ≠ [] ∧
        (∀ c ∈ digits, isAsciiDigit c = true) ∧ ofDigits digits = n) ∧ 1 ≤ n ∧ n ≤ 64) ∧
    (∀ s, Parameter.workers.check s = .error .rejectedNumber ↔
      ∀ n, SpellsUnsigned s.toList n → n < 1 ∨ 64 < n) ∧
    ∀ words line, parse words = .ok line → 1 ≤ line.workers ∧ line.workers ≤ 64 :=
  ⟨fun _ _ => workers?_eq_some_iff, fun _ => check_workers_eq_error_iff,
    fun _ _ h => workers_of_parse h⟩

/-- The greatest number of workers with a sign and zeros in front of it, and one that would be in
range if it wrapped in a machine word. -/
theorem workers_in_range_padded :
    (∃ line, parse ["--workers", "+00064", "lib"] = .ok line ∧ line.workers = 64 ∧
      1 ≤ line.workers ∧ line.workers ≤ 64) ∧
    Parameter.workers.check "18446744073709551617" = .error .rejectedNumber := by
  have hparse : parse ["--workers", "+00064", "lib"] = .ok ⟨"lib", "warn", 64, none⟩ := by decide
  have hlarge : Parameter.workers.check "18446744073709551617" = .error .rejectedNumber := by decide
  exact ⟨⟨_, hparse, rfl, workers_in_range.2.2 _ _ hparse⟩, hlarge⟩

end MatlabQuality.Command
