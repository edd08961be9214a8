import MatlabQuality.Smell.Kind
import MatlabQuality.Smell.Severity

/-!
# Findings

A finding faults one file for one kind of smell.  Findings are tallied by severity, and by kind in
order of first appearance.

## Main definitions

* `Finding` — one fault of one file.
* `Tally`, `Tally.ofFindings` — findings counted by severity.
* `kindCounts` — findings counted by kind, in order of first appearance.
-/

namespace MatlabQuality

/-- One fault of one file. -/
structure Finding where
  kind : SmellKind
  severity : Severity
  filePath : String
  /-- The line the finding points at. -/
  lineNumber : Nat
  /-- The function the finding points at; empty for the file as a whole. -/
  functionName : String
  description : String
  suggestion : String
deriving Repr, DecidableEq

/-- Findings counted by severity. -/
structure Tally where
  low : Nat
  medium : Nat
  high : Nat
deriving Repr, DecidableEq

namespace Tally

/-- The number of findings of each severity. -/
def ofFindings (findings : List Finding) : Tally where
  low := findings.countP (·.severity = .low)
  medium := findings.countP (·.severity = .medium)
  high := findings.countP (·.severity = .high)

/-- All findings. -/
def total (t : Tally) : Nat :=
  t.low + t.medium + t.high

/-- The number of findings of a severity. -/
def count (t : Tally) : Severity → Nat
  | .low => t.low
  | .medium => t.medium
  | .high => t.high

/-- The number of findings of a severity or above. -/
def atLeast (t : Tally) : Severity → Nat
  | .high => t.high
  | .medium => t.high + t.medium
  | .low => t.total

end Tally

/-- Counts by kind with one more of `kind`: a kind that is new goes to the end. -/
def countKind : List (SmellKind × Nat) → SmellKind → List (SmellKind × Nat)
  | [], kind => [(kind, 1)]
  | (k, n) :: rest, kind =>
    if k = kind then (k, n + 1) :: rest else (k, n) :: countKind rest kind

/-- Findings counted by kind, in order of first appearance. -/
def kindCounts (findings : List Finding) : List (SmellKind × Nat) :=
  (findings.map (·.kind)).foldl countKind []

end MatlabQuality
