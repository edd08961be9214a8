import MatlabQuality.Json.Decode
import MatlabQuality.Json.Reader
import MatlabQuality.Thresholds.Basic
import MatlabQuality.Toml.Reader

/-!
# Reading thresholds

Thresholds are read from JSON or from TOML.  In both, a limit that is left out has its default and
an unknown key is passed over.

## Main definitions

* `Thresholds.keys` — the names of the limits, in order.
* `Thresholds.ofJson?`, `Thresholds.ofJsonText?` — limits from JSON.
* `Thresholds.ofTomlText?` — limits from TOML.
-/

namespace MatlabQuality.Thresholds

open MatlabQuality.Number

/-- The names of the limits, in order. -/
def keys : List String :=
  ["max_function_length", "max_parameters", "max_nesting_depth", "max_cyclomatic_complexity",
    "min_comment_ratio", "magic_number_threshold"]

/-- The first limit that is too large. -/
def limitBound : Nat := Nat.pow 2 64

/-! ## JSON -/

/-- Limits from a JSON value. -/
def ofJson? (v : Json.Value) : Option Thresholds := do
  let limit := fun (d : Nat) => Json.withDefault d (Json.Value.toNat? limitBound)
  match ← Json.recordFields? keys v with
  | [length, parameters, nesting, complexity, ratio, magic] =>
    return {
      maxFunctionLength := ← limit default.maxFunctionLength length
      maxParameters := ← limit default.maxParameters parameters
      maxNestingDepth := ← limit default.maxNestingDepth nesting
      maxCyclomaticComplexity := ← limit default.maxCyclomaticComplexity complexity
      minCommentRatio :=
        ← Json.withDefault default.minCommentRatio Json.Value.toBinary64? ratio
      magicNumberThreshold := ← limit default.magicNumberThreshold magic }
  | _ => none

/-- Limits from a JSON text. -/
def ofJsonText? (text : List Char) : Option Thresholds :=
  (Json.read? text).bind ofJson?

/-! ## TOML -/

/-- A limit at the top of what a text defines: a whole number that is not negative. -/
def tomlLimit? (scope : Toml.Scope) (d : Nat) (key : String) : Option Nat :=
  match scope.item? [key] with
  | none => some d
  | some (.value (.integer i)) => if 0 ≤ i then some i.toNat else none
  | some _ => none

/-- A share at the top of what a text defines: a float, or a whole number. -/
def tomlShare? (scope : Toml.Scope) (d : Binary64) (key : String) : Option Binary64 :=
  match scope.item? [key] with
  | none => some d
  | some (.value (.float x)) => some x
  | some (.value (.integer i)) => some (Binary64.ofRatio (i < 0) i.natAbs 1)
  | some _ => none

/-- Limits from what a TOML text defines. -/
def ofScope? (scope : Toml.Scope) : Option Thresholds := do
  return {
    maxFunctionLength := ← tomlLimit? scope default.maxFunctionLength "max_function_length"
    maxParameters := ← tomlLimit? scope default.maxParameters "max_parameters"
    maxNestingDepth := ← tomlLimit? scope default.maxNestingDepth "max_nesting_depth"
    maxCyclomaticComplexity :=
      ← tomlLimit? scope default.maxCyclomaticComplexity "max_cyclomatic_complexity"
    minCommentRatio := ← tomlShare? scope default.minCommentRatio "min_comment_ratio"
    magicNumberThreshold :=
      ← tomlLimit? scope default.magicNumberThreshold "magic_number_threshold" }

/-- Limits from a TOML text. -/
def ofTomlText? (text : List Char) : Option Thresholds :=
  (Toml.read? text).bind ofScope?

end MatlabQuality.Thresholds
