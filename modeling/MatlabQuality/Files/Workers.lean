/-!
# Shared work

A list of items is cut into shares, one for each worker, and the results are put together in the
order of the items.  The number of workers has no influence on them.

## Main definitions

* `shares` — a list cut into pieces.
* `mapShared` — a function on all items, by several workers.

## Main statements

* `flatten_shares` — the shares put together are the list.
* `mapShared_eq_map` — sharing the work changes nothing.
-/

namespace MatlabQuality.Files

variable {α β : Type}

/-- A list cut into pieces of one item and `more` further ones; the last may be shorter. -/
def shares (more : Nat) : List α → List (List α)
  | [] => []
  | x :: xs => (x :: xs.take more) :: shares more (xs.drop more)
termination_by xs => xs.length
decreasing_by simp only [List.length_drop, List.length_cons]; omega

/-- A function on all items, by several workers.  No worker counts as one. -/
def mapShared (workers : Nat) (f : α → β) (xs : List α) : List β :=
  let tasks := (shares (xs.length / max workers 1) xs).map fun share =>
    Task.spawn fun _ => share.map f
  tasks.flatMap Task.get

/-- **Nothing is lost.** The shares put together are the list. -/
@[simp] theorem flatten_shares (more : Nat) (xs : List α) : (shares more xs).flatten = xs := by
  fun_induction shares more xs with
  | case1 => rfl
  | case2 x xs ih => rw [List.flatten_cons, ih, List.cons_append, List.take_append_drop]

/-- **Sharing changes nothing.** The results are those of one worker, in the order of the items. -/
@[simp] theorem mapShared_eq_map (workers : Nat) (f : α → β) (xs : List α) :
    mapShared workers f xs = xs.map f := by
  have h : ∀ l : List (List α),
      (l.map fun share => Task.spawn fun _ => share.map f).flatMap Task.get = l.flatten.map f := by
    intro l
    induction l with
    | nil => rfl
    | cons share l ih =>
      rw [List.map_cons, List.flatMap_cons, ih, List.flatten_cons, List.map_append]
      rfl
  rw [mapShared, h, flatten_shares]

end MatlabQuality.Files
