import MatlabQuality.Json.Value

/-!
# Records in JSON

A record is read from an object, whose members may come in any order and whose unknown members are
passed over, or from an array of its fields in order.

## Main definitions

* `toNat?`, `toBinary64?`, `toText?`, `toList?`, `toName?` — values of fields.
* `recordFields?` — the value of each field of a record, if it has one.
* `required`, `withDefault` — what a field without a value means.
-/

namespace MatlabQuality.Json

open MatlabQuality.Number

namespace Value

/-- A count below `bound`. -/
def toNat? (bound : Nat) : Value → Option Nat
  | .number n => n.toNat? bound
  | _ => none

/-- A finite number. -/
def toBinary64? : Value → Option Binary64
  | .number n => n.toBinary64?
  | _ => none

/-- A text. -/
def toText? : Value → Option String
  | .string s => s
  | _ => none

/-- A list of values that are all read alike. -/
def toList? {α : Type} (element? : Value → Option α) : Value → Option (List α)
  | .array vs => vs.mapM element?
  | _ => none

/-- One of some names: as a string, or as the only key of an object whose value is null. -/
def toName? {α : Type} (ofName? : String → Option α) : Value → Option α
  | .string (some s) => ofName? s
  | .object [(some s, .null)] => ofName? s
  | _ => none

end Value

/-- The value of a key among members: nothing if it is absent, and a failure if it comes twice. -/
def memberValue? (members : List (StringLiteral × Value)) (key : String) : Option (Option Value) :=
  match members.filter (fun m => m.1 == some key) with
  | [] => some none
  | [(_, v)] => some (some v)
  | _ => none

/-- The first `count` values of a list, with nothing past its end; too long a list is a failure. -/
def positional? : Nat → List Value → Option (List (Option Value))
  | 0, [] => some []
  | 0, _ :: _ => none
  | count + 1, [] => (positional? count []).map (none :: ·)
  | count + 1, v :: vs => (positional? count vs).map (some v :: ·)

/-- The value of each field of a record, if it has one.  A key of an object must stand for a text,
even where it is unknown. -/
def recordFields? (keys : List String) : Value → Option (List (Option Value))
  | .object members =>
    if members.all (·.1.isSome) then keys.mapM (memberValue? members) else none
  | .array vs => positional? keys.length vs
  | _ => none

/-- A field that must have a value. -/
def required {α : Type} (read? : Value → Option α) (field : Option Value) : Option α :=
  field.bind read?

/-- A field that has a default. -/
def withDefault {α : Type} (default : α) (read? : Value → Option α) :
    Option Value → Option α
  | some v => read? v
  | none => some default

end MatlabQuality.Json
