import MatlabQuality.Json.Decode
import MatlabQuality.Proofs.Json.Reader
import Mathlib.Data.List.Nodup

/-!
# Written records are read back

A value keeps what it was made from when it is written without loss and stands for nothing else.
Counts, texts, names and numbers of hundredths are kept; so are lists of what is kept, and records
whose keys differ, field by field.

## Main definitions

* `Keeps` — a value is written without loss and is read as what it was made from.

## Main statements

* `keeps_ofNat`, `keeps_ofString`, `keeps_name`, `keeps_hundredths`, `keeps_array` — the parts of a
  record are kept.
* `recordFields?_record` — a record has the fields that it was made from.
* `keeps_record` — a record keeps what its fields keep.
-/

namespace MatlabQuality.Json

open MatlabQuality.Number

/-- A value is written without loss, and `read?` takes it for `x`. -/
structure Keeps {α : Type} (read? : Value → Option α) (v : Value) (x : α) : Prop where
  writable : v.Writable
  read?_eq : read? v = some x

/-! ## Fields -/

theorem keeps_ofNat {n bound : ℕ} (h : n < bound) : Keeps (Value.toNat? bound) (.ofNat n) n where
  writable := .number (Numeral.canonical_ofNat n)
  read?_eq := Numeral.toNat?_ofNat h

theorem keeps_ofString (s : String) : Keeps Value.toText? (.ofString s) s where
  writable := .string s
  read?_eq := rfl

theorem keeps_name {α : Type} {ofName? : String → Option α} {name : String} {x : α}
    (h : ofName? name = some x) : Keeps (Value.toName? ofName?) (.ofString name) x where
  writable := .string name
  read?_eq := h

/-- A number that is nearest to a number of hundredths is kept. -/
theorem keeps_hundredths {k : ℕ} (h : k < 2 ^ 53) :
    Keeps Value.toBinary64? (.ofBinary64 (Binary64.ofRatio false k 100))
      (Binary64.ofRatio false k 100) := by
  obtain ⟨a, heq, hcanonical, hread⟩ := exists_numeral_hundredths h
  rw [heq]
  exact ⟨.number hcanonical, hread⟩

theorem mapM_map_eq_some {α β γ : Type} {read? : β → Option γ} {write : α → β} {value : α → γ}
    {xs : List α} (h : ∀ x ∈ xs, read? (write x) = some (value x)) :
    (xs.map write).mapM read? = some (xs.map value) := by
  induction xs with
  | nil => rfl
  | cons x xs ih =>
    obtain ⟨hx, hxs⟩ := List.forall_mem_cons.1 h
    rw [List.map_cons, List.mapM_cons, hx, ih hxs]
    rfl

/-- A list of what is kept is kept. -/
theorem keeps_array {α : Type} {read? : Value → Option α} {write : α → Value} {xs : List α}
    (h : ∀ x ∈ xs, Keeps read? (write x) x) :
    Keeps (Value.toList? read?) (.array (xs.map write)) xs where
  writable := .array (List.forall_mem_map.2 fun x hx => (h x hx).writable)
  read?_eq := (mapM_map_eq_some fun x hx => (h x hx).read?_eq).trans (by rw [List.map_id'])

/-! ## Records -/

theorem writable_record {members : List (String × Value)} (h : ∀ m ∈ members, m.2.Writable) :
    (Value.record members).Writable :=
  .object (List.forall_mem_map.2 fun m _ => ⟨m.1, rfl⟩) (List.forall_mem_map.2 h)

/-- A key that stands once among members has its value. -/
theorem memberValue?_of_mem {members : List (String × Value)}
    (hnodup : (members.map Prod.fst).Nodup) {m : String × Value} (hmem : m ∈ members) :
    memberValue? (members.map fun (key, value) => (some key, value)) m.1 = some (some m.2) := by
  have hfilter : (members.map fun (key, value) => (some key, value)).filter
      (fun n => n.1 == some m.1) = [(some m.1, m.2)] := by
    induction members with
    | nil => cases hmem
    | cons head rest ih =>
      obtain ⟨hhead, hrest⟩ := List.nodup_cons.1 hnodup
      rcases List.mem_cons.1 hmem with rfl | hmem
      · have hnone : (rest.map fun (key, value) => (some key, value)).filter
            (fun n => n.1 == some m.1) = [] := by
          refine List.filter_eq_nil_iff.2 (List.forall_mem_map.2 fun n hn heq => hhead ?_)
          have hkey : n.1 = m.1 := by simpa using heq
          exact hkey ▸ List.mem_map_of_mem hn
        rw [List.map_cons, List.filter_cons_of_pos (by simp), hnone]
      · have hne : head.1 ≠ m.1 := fun heq => hhead (heq ▸ List.mem_map_of_mem hmem)
        rw [List.map_cons, List.filter_cons_of_neg (by simpa using hne), ih hrest hmem]
  rw [memberValue?, hfilter]

/-- **A record has the fields that it was made from.** -/
theorem recordFields?_record {members : List (String × Value)} {keys : List String}
    (hkeys : members.map Prod.fst = keys) (hnodup : keys.Nodup) :
    recordFields? keys (.record members) = some (members.map fun m => some m.2) := by
  subst hkeys
  rw [Value.record, recordFields?, if_pos (by simp)]
  exact mapM_map_eq_some fun m hm => memberValue?_of_mem hnodup hm

/-- **A record keeps what its fields keep**: they are written without loss, and what is read from
them, in the order of the keys, is the whole. -/
theorem keeps_record {α : Type} {members : List (String × Value)} {keys : List String}
    {ofFields? : List (Option Value) → Option α} {x : α} (hkeys : members.map Prod.fst = keys)
    (hnodup : keys.Nodup) (hwritable : ∀ m ∈ members, m.2.Writable)
    (hread : ofFields? (members.map fun m => some m.2) = some x) :
    Keeps (fun v => recordFields? keys v >>= ofFields?) (.record members) x where
  writable := writable_record hwritable
  read?_eq := by
    rw [recordFields?_record hkeys hnodup]
    exact hread

/-- A field that keeps something has it. -/
theorem Keeps.required {α : Type} {read? : Value → Option α} {v : Value} {x : α}
    (h : Keeps read? v x) : required read? (some v) = some x :=
  h.read?_eq

end MatlabQuality.Json
