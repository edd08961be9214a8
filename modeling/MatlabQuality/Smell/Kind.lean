/-!
# Kinds of smells

The six things a file can be faulted for, in the order in which they are looked for.

## Main definitions

* `SmellKind` — the kinds.
* `SmellKind.all` — the kinds in order.
* `SmellKind.name`, `SmellKind.title` — how a kind is written in data and in prose.
-/

namespace MatlabQuality

/-- What a file can be faulted for. -/
inductive SmellKind where
  | longFunction
  | tooManyParameters
  | deepNesting
  | highComplexity
  | insufficientComments
  | magicNumbers
deriving Repr, DecidableEq

namespace SmellKind

/-- The kinds, in the order in which they are looked for. -/
def all : List SmellKind :=
  [.longFunction, .tooManyParameters, .deepNesting, .highComplexity, .insufficientComments,
    .magicNumbers]

/-- The name of a kind in data. -/
def name : SmellKind → String
  | .longFunction => "long_function"
  | .tooManyParameters => "too_many_parameters"
  | .deepNesting => "deep_nesting"
  | .highComplexity => "high_complexity"
  | .insufficientComments => "insufficient_comments"
  | .magicNumbers => "magic_numbers"

/-- The name of a kind in prose. -/
def title : SmellKind → String
  | .longFunction => "Long Function"
  | .tooManyParameters => "Too Many Parameters"
  | .deepNesting => "Deep Nesting"
  | .highComplexity => "High Complexity"
  | .insufficientComments => "Insufficient Comments"
  | .magicNumbers => "Magic Numbers"

/-- The kind of a name. -/
def ofName? (s : String) : Option SmellKind :=
  all.find? (·.name == s)

/-- A name finds its kind. -/
@[simp] theorem ofName?_name (k : SmellKind) : ofName? k.name = some k := by
  cases k <;> decide

end SmellKind

end MatlabQuality
