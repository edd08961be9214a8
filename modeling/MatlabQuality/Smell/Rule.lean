import MatlabQuality.Smell.Finding
import MatlabQuality.Source.Metrics
import MatlabQuality.Thresholds.Basic

/-!
# Rules

There is one rule for each kind of smell.  A rule compares one measure of a file with one limit and
makes at most one finding.

## Main definitions

* `Rule` — a kind with its severity, its texts and its test.
* `SmellKind.rule` — the rule of a kind.
* `detectWith`, `detect` — the findings of a file.
-/

namespace MatlabQuality

open MatlabQuality.Number MatlabQuality.Source

/-- The rule that looks for one kind of smell. -/
structure Rule where
  kind : SmellKind
  severity : Severity
  /-- What the rule looks for. -/
  purpose : String
  /-- What to do about a finding. -/
  suggestion : String
  /-- The description of the fault, if the measures exceed the limits. -/
  fault? : FileMetrics → Thresholds → Option String

namespace Rule

/-- The finding a rule makes of a file. -/
def finding? (rule : Rule) (m : FileMetrics) (t : Thresholds) : Option Finding :=
  (rule.fault? m t).map fun description =>
    { kind := rule.kind
      severity := rule.severity
      filePath := m.filePath
      lineNumber := 1
      functionName := ""
      description
      suggestion := rule.suggestion }

/-- A function is too long. -/
def longFunction : Rule where
  kind := .longFunction
  severity := .medium
  purpose := "Detects functions longer than max_function_length lines"
  suggestion := "Consider breaking down large functions into smaller, more focused functions"
  fault? m t :=
    if t.maxFunctionLength < m.maxFunctionLength then
      some ("Function has " ++ decimal m.maxFunctionLength ++ " lines (max: "
        ++ decimal t.maxFunctionLength ++ ")")
    else none

/-- A function has too many parameters. -/
def tooManyParameters : Rule where
  kind := .tooManyParameters
  severity := .medium
  purpose := "Detects functions with too many parameters"
  suggestion := "Consider using structures or objects to group related parameters"
  fault? m t :=
    if t.maxParameters < m.maxParameters then
      some ("Function has " ++ decimal m.maxParameters ++ " parameters (max: "
        ++ decimal t.maxParameters ++ ")")
    else none

/-- Blocks are nested too deep. -/
def deepNesting : Rule where
  kind := .deepNesting
  severity := .high
  purpose := "Detects excessive block nesting depth"
  suggestion := "Reduce nesting by using early returns, guard clauses, or extracting nested logic"
  fault? m t :=
    if t.maxNestingDepth < m.maxNestingDepth then
      some ("Code has nesting depth of " ++ decimal m.maxNestingDepth ++ " (max: "
        ++ decimal t.maxNestingDepth ++ ")")
    else none

/-- There are too many decisions. -/
def highComplexity : Rule where
  kind := .highComplexity
  severity := .high
  purpose := "Detects files with too many decision points"
  suggestion := "Simplify conditional logic and reduce the number of decision points"
  fault? m t :=
    if t.maxCyclomaticComplexity < m.cyclomaticComplexity then
      some ("Cyclomatic complexity is " ++ decimal m.cyclomaticComplexity ++ " (max: "
        ++ decimal t.maxCyclomaticComplexity ++ ")")
    else none

/-- A share in percent, with a fixed number of places. -/
def percent (places : Nat) (share : Binary64) : String :=
  writeFixed places (share.mul 100) ++ "%"

/-- The share of comments is too small.  A file that is all blank has no share and no fault. -/
def insufficientComments : Rule where
  kind := .insufficientComments
  severity := .low
  purpose := "Detects files with a low share of comment lines"
  suggestion := "Add more comments to explain complex logic and function purposes"
  fault? m t :=
    match m.commentRatio? with
    | some ratio =>
      if ratio.lt t.minCommentRatio then
        some ("Comment ratio is " ++ percent 2 ratio ++ " (min: "
          ++ percent 0 t.minCommentRatio ++ ")")
      else none
    | none => none

/-- How many unexplained values a description shows. -/
def shownValues : Nat := 5

/-- There are too many unexplained values. -/
def magicNumbers : Rule where
  kind := .magicNumbers
  severity := .medium
  purpose := "Detects unexplained numeric literals"
  suggestion := "Replace magic numbers with named constants for better readability"
  fault? m t :=
    let count := m.magicNumbers.length
    if t.magicNumberThreshold ≤ count then
      some ("Found " ++ decimal count ++ " magic numbers: ["
        ++ ", ".intercalate ((m.magicNumbers.take shownValues).map decimal) ++ "]")
    else none

end Rule

/-- The rule that looks for a kind. -/
def SmellKind.rule : SmellKind → Rule
  | .longFunction => .longFunction
  | .tooManyParameters => .tooManyParameters
  | .deepNesting => .deepNesting
  | .highComplexity => .highComplexity
  | .insufficientComments => .insufficientComments
  | .magicNumbers => .magicNumbers

/-- The findings that the rules of some kinds make of a file, in that order. -/
def detectWith (kinds : List SmellKind) (m : FileMetrics) (t : Thresholds) : List Finding :=
  kinds.filterMap fun kind => kind.rule.finding? m t

/-- The findings of a file. -/
def detect (m : FileMetrics) (t : Thresholds) : List Finding :=
  detectWith SmellKind.all m t

/-- The rule of a kind looks for that kind. -/
@[simp] theorem kind_rule (k : SmellKind) : k.rule.kind = k := by
  cases k <;> rfl

end MatlabQuality
