import MatlabQuality.Proofs.Toml.Document
import MatlabQuality.Thresholds.Read

/-!
# Limits from entries

A file of limits is a list of entries, each a key with a number.  What the entries say stands in
place of the defaults, and keys that name no limit say nothing.

## Main definitions

* `Thresholds.IsAssignment` — the entries of whole limits are numbers that are not negative.
* `Thresholds.ofEntries` — the defaults with the entries in their place.

## Main statements

* `Thresholds.ofTomlText?_of_writes` — a text of entries holds their limits.
* `Thresholds.ofTomlText?_eq_none` — a text with a key twice, or a number that does not fit, holds
  none.
-/

namespace MatlabQuality.Thresholds

open MatlabQuality.Number MatlabQuality.Toml

/-- The names of the limits that are whole numbers. -/
def wholeKeys : List String :=
  keys.erase "min_comment_ratio"

/-- The limits are assigned numbers of their kind: whole limits have whole numbers that are not
negative. -/
def IsAssignment (entries : List (String × Literal)) : Prop :=
  ∀ e ∈ entries, e.1 ∈ wholeKeys → ∃ n : ℕ, e.2 = .integer n

/-- A whole limit: what its entry says, or else its default. -/
def limitOf (entries : List (String × Literal)) (key : String) (d : ℕ) : ℕ :=
  match entries.lookup key with
  | some (.integer i) => i.toNat
  | _ => d

/-- The number nearest to what a literal says. -/
def numberOf : Literal → Binary64
  | .integer i => Binary64.ofRatio (i < 0) i.natAbs 1
  | .decimal negative written => written.value negative

/-- A share: what its entry says, or else its default. -/
def shareOf (entries : List (String × Literal)) (key : String) (d : Binary64) : Binary64 :=
  match entries.lookup key with
  | some l => numberOf l
  | none => d

/-- The defaults with the entries in their place. -/
def ofEntries (entries : List (String × Literal)) : Thresholds where
  maxFunctionLength := limitOf entries "max_function_length" default.maxFunctionLength
  maxParameters := limitOf entries "max_parameters" default.maxParameters
  maxNestingDepth := limitOf entries "max_nesting_depth" default.maxNestingDepth
  maxCyclomaticComplexity :=
    limitOf entries "max_cyclomatic_complexity" default.maxCyclomaticComplexity
  minCommentRatio := shareOf entries "min_comment_ratio" default.minCommentRatio
  magicNumberThreshold := limitOf entries "magic_number_threshold" default.magicNumberThreshold

theorem mem_of_lookup_eq_some {entries : List (String × Literal)} {key : String} {l : Literal}
    (h : entries.lookup key = some l) : (key, l) ∈ entries := by
  obtain ⟨before, after, rfl, -⟩ := List.lookup_eq_some_iff.1 h
  exact List.mem_append_right _ List.mem_cons_self

/-- What a text defines is what its entries say. -/
def Defines (scope : Scope) (entries : List (String × Literal)) : Prop :=
  ∀ key, scope.item? [key] = ((entries.lookup key).bind Literal.value?).map .value

section Defined

variable {scope : Scope} {entries : List (String × Literal)} (h : Defines scope entries)
  (hvalues : ∀ e ∈ entries, e.2.value?.isSome)

include h hvalues

theorem tomlLimit?_eq (hassigned : IsAssignment entries) {key : String} (hkey : key ∈ wholeKeys)
    (d : ℕ) : tomlLimit? scope d key = some (limitOf entries key d) := by
  rw [tomlLimit?, limitOf, h key]
  cases hlookup : entries.lookup key with
  | none => rfl
  | some l =>
    have hmem := mem_of_lookup_eq_some hlookup
    obtain ⟨n, rfl⟩ := hassigned _ hmem hkey
    rw [Option.bind_some, Literal.value?_integer_eq (hvalues _ hmem)]
    exact if_pos (Int.natCast_nonneg n)

theorem tomlShare?_eq (key : String) (d : Binary64) :
    tomlShare? scope d key = some (shareOf entries key d) := by
  rw [tomlShare?, shareOf, h key]
  cases hlookup : entries.lookup key with
  | none => rfl
  | some l =>
    cases l with
    | decimal negative written => rfl
    | integer i =>
      rw [Option.bind_some, Literal.value?_integer_eq (hvalues _ (mem_of_lookup_eq_some hlookup))]
      rfl

theorem ofScope?_eq (hassigned : IsAssignment entries) :
    ofScope? scope = some (ofEntries entries) := by
  have hlimit : ∀ key ∈ wholeKeys, ∀ d,
      tomlLimit? scope d key = some (limitOf entries key d) :=
    fun _ hkey d => tomlLimit?_eq h hvalues hassigned hkey d
  rw [ofScope?]
  rw [hlimit "max_function_length" (by decide), hlimit "max_parameters" (by decide),
    hlimit "max_nesting_depth" (by decide), hlimit "max_cyclomatic_complexity" (by decide),
    hlimit "magic_number_threshold" (by decide), tomlShare?_eq h hvalues]
  rfl

end Defined

/-- **A text of entries holds their limits.** -/
theorem ofTomlText?_of_writes {entries : List (String × Literal)} {cs : List Char}
    (h : Writes entries cs) (hkeys : (entries.map Prod.fst).Nodup)
    (hvalues : ∀ e ∈ entries, e.2.value?.isSome) (hassigned : IsAssignment entries) :
    ofTomlText? cs = some (ofEntries entries) := by
  obtain ⟨scope, hread, hdefines⟩ := h.exists_read?_eq hkeys hvalues
  rw [ofTomlText?, hread, Option.bind_some]
  exact ofScope?_eq hdefines hvalues hassigned

/-- **A text with a key twice, or a number that does not fit, holds no limits.** -/
theorem ofTomlText?_eq_none {entries : List (String × Literal)} {cs : List Char}
    (h : Writes entries cs)
    (hbad : ¬ ((entries.map Prod.fst).Nodup ∧ ∀ e ∈ entries, e.2.value?.isSome)) :
    ofTomlText? cs = none := by
  rw [ofTomlText?, h.read?_eq_none hbad, Option.bind_none]

end MatlabQuality.Thresholds
