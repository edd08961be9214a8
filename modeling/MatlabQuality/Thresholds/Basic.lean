import MatlabQuality.Number.Layout

/-!
# Thresholds

The limits that files are judged by.

## Main definitions

* `Thresholds` — the six limits, with their defaults.
* `Thresholds.validate` — whether the limits make sense.
* `Thresholds.commentedToml` — the limits as a commented file.
-/

namespace MatlabQuality

open MatlabQuality.Number

/-- The limits that files are judged by. -/
structure Thresholds where
  /-- The longest function that is not too long, in lines. -/
  maxFunctionLength : Nat := 50
  maxParameters : Nat := 5
  maxNestingDepth : Nat := 4
  maxCyclomaticComplexity : Nat := 10
  /-- The least share of comments among the lines that are not blank. -/
  minCommentRatio : Binary64 := Binary64.ofDecimal false 1 (-1)
  /-- The number of unexplained values at which a file is faulted. -/
  magicNumberThreshold : Nat := 3
deriving DecidableEq

namespace Thresholds

/-- The limits that hold where nothing else is said. -/
def default : Thresholds := {}

/-- Why limits make no sense. -/
inductive Invalid where
  /-- The comment share is not a share. -/
  | commentRatio (value : Binary64)
  /-- Every file would be faulted for unexplained values. -/
  | magicNumberThreshold
deriving DecidableEq

/-- What is said of limits that make no sense. -/
def Invalid.message : Invalid → String
  | .commentRatio value =>
    "Invalid configuration: min_comment_ratio must be between 0.0 and 1.0, got "
      ++ plain.write value
  | .magicNumberThreshold => "Invalid configuration: magic_number_threshold must be at least 1"

/-- Whether a number is a share. -/
def isShare (x : Binary64) : Bool :=
  Binary64.le 0 x && Binary64.le x 1

/-- Limits make sense when the comment share is a share and some number of unexplained values is
allowed.  The share is looked at first. -/
def validate (t : Thresholds) : Except Invalid Unit :=
  if !isShare t.minCommentRatio then .error (.commentRatio t.minCommentRatio)
  else if t.magicNumberThreshold = 0 then .error .magicNumberThreshold
  else .ok ()

/-- The limits as a commented file, one key to a line. -/
def commentedToml (t : Thresholds) : String :=
  "# mlquality configuration\n"
  ++ "# Thresholds above which a file is reported as a code smell.\n"
  ++ "\n# Longest acceptable function, in lines (declaration to closing `end`)\n"
  ++ "max_function_length = " ++ decimal t.maxFunctionLength ++ "\n"
  ++ "\n# Most parameters a function may declare\n"
  ++ "max_parameters = " ++ decimal t.maxParameters ++ "\n"
  ++ "\n# Deepest block nesting (functions count as a level)\n"
  ++ "max_nesting_depth = " ++ decimal t.maxNestingDepth ++ "\n"
  ++ "\n# Highest acceptable cyclomatic complexity per file\n"
  ++ "max_cyclomatic_complexity = " ++ decimal t.maxCyclomaticComplexity ++ "\n"
  ++ "\n# Minimum comment lines / (code + comment lines)\n"
  ++ "min_comment_ratio = " ++ exact.write t.minCommentRatio ++ "\n"
  ++ "\n# Number of distinct magic numbers at which a file is flagged\n"
  ++ "magic_number_threshold = " ++ decimal t.magicNumberThreshold ++ "\n"

end Thresholds

end MatlabQuality
