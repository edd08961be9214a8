import MatlabQuality.Text.Case

/-!
# Severities

How much a finding weighs.

## Main definitions

* `Severity` — low, medium or high, in increasing order.
* `Severity.penalty` — the points a finding costs.
* `Severity.parse` — a severity by its name.
-/

namespace MatlabQuality

/-- How much a finding weighs. -/
inductive Severity where
  | low
  | medium
  | high
deriving Repr, DecidableEq

namespace Severity

/-- All severities, in increasing order. -/
def all : List Severity :=
  [.low, .medium, .high]

/-- The place of a severity in the order. -/
def rank : Severity → Nat
  | .low => 0
  | .medium => 1
  | .high => 2

instance : LE Severity :=
  ⟨fun a b => a.rank ≤ b.rank⟩

instance (a b : Severity) : Decidable (a ≤ b) :=
  inferInstanceAs (Decidable (a.rank ≤ b.rank))

/-- The points a finding costs. -/
def penalty : Severity → Nat
  | .high => 10
  | .medium => 5
  | .low => 2

/-- The name of a severity. -/
def name : Severity → String
  | .low => "low"
  | .medium => "medium"
  | .high => "high"

/-- The heading of a severity. -/
def label : Severity → String
  | .low => "Low"
  | .medium => "Medium"
  | .high => "High"

/-- The severity of a name, exactly as it is written. -/
def ofName? (s : String) : Option Severity :=
  all.find? (·.name == s)

/-- A text that names no severity. -/
structure Unknown where
  text : String
deriving Repr, DecidableEq

/-- What is said of a text that names no severity. -/
def Unknown.message (e : Unknown) : String :=
  "Unknown severity '" ++ e.text ++ "'. Valid severities: low, medium, high"

/-- The severity of a name, in any case. -/
def parse (s : String) : Except Unknown Severity :=
  match ofName? (Text.lowered s) with
  | some severity => .ok severity
  | none => .error ⟨s⟩

/-- A name finds its severity. -/
@[simp] theorem ofName?_name (s : Severity) : ofName? s.name = some s := by
  cases s <;> decide

end Severity

end MatlabQuality
