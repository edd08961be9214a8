import MatlabQuality.Files.Tree
import Mathlib.Data.List.Basic

/-!
# A written file is found again

A path that leads to the place of a new file leads there afterwards too: no directory changes, and
no entry on the way but the last.  A link is followed and never written over, so that the place of
a written file is not on the way of the links that lead to it.

## Main statements

* `Tree.walk_put` — a walk that ends where a file is written ends there again.
* `View.bytes?_of_write?` — the path of a written file shows its bytes.
-/

namespace MatlabQuality.Files

namespace Tree

/-- Only the top has no name. -/
theorem ne_nil_of_get?_ne {t : Tree} {place : Place} (h : t.get? place ≠ some .directory) :
    place ≠ [] := by
  rintro rfl
  exact h (by simp [get?])

theorem entries_put (t : Tree) (place : Place) (e : Entry) :
    (t.put place e).entries = t.entries.filter (fun old => old.1 != place) ++ [(place, e)] :=
  rfl

theorem get?_put_self {place : Place} (h : place ≠ []) (t : Tree) (e : Entry) :
    (t.put place e).get? place = some e := by
  have hnone : (t.entries.filter fun old => old.1 != place).lookup place = none := by
    rw [List.lookup_eq_none_iff]
    intro old hold
    have hne : old.1 ≠ place := by simpa using (List.mem_filter.1 hold).2
    exact bne_iff_ne.2 hne.symm
  rw [get?, if_neg h, entries_put, List.lookup_append, hnone]
  simp

theorem lookup_filter_ne {p place : Place} (h : p ≠ place) (entries : List (Place × Entry)) :
    (entries.filter fun old => old.1 != place).lookup p = entries.lookup p := by
  induction entries with
  | nil => rfl
  | cons old rest ih =>
    obtain ⟨q, e⟩ := old
    by_cases hq : q = place
    · have hpq : (p == q) = false := by simp [hq, h]
      rw [List.filter_cons_of_neg (by simp [hq]), ih, List.lookup_cons, hpq]
    · rw [List.filter_cons_of_pos (by simp [hq]), List.lookup_cons, List.lookup_cons, ih]

theorem get?_put_of_ne {p place : Place} (h : p ≠ place) (t : Tree) (e : Entry) :
    (t.put place e).get? p = t.get? p := by
  have hsingle : List.lookup p [(place, e)] = none := by simp [h]
  rw [get?, get?, entries_put, List.lookup_append, lookup_filter_ne h, hsingle, Option.or_none]

/-- What is not below a place is not below it after a link either. -/
theorem not_isPrefix_start {link here : Place} (h : ¬ link <+: here) (absolute : Bool) :
    ¬ link <+: if absolute then [] else here := by
  cases absolute with
  | false => exact h
  | true =>
    intro hbelow
    have hnil : link = [] := by simpa using hbelow
    exact h (hnil ▸ List.nil_prefix)

/-- A walk that does not start below a link does not end there. -/
theorem not_isPrefix_of_walk {t : Tree} {link : Place} {target : String}
    (hlink : t.get? link = some (.link target)) {links : Nat} {here : Place}
    {pieces : List String} {place : Place} (hhere : ¬ link <+: here)
    (hwalk : t.walk links here pieces = .ok place) : ¬ link <+: place := by
  -- One more piece leads to the link itself or stays outside.
  have hnext : ∀ {here : Place} {piece : String}, ¬ link <+: here →
      t.get? (here ++ [piece]) ≠ some (.link target) → ¬ link <+: here ++ [piece] := by
    intro here piece hhere hget hbelow
    rcases List.prefix_concat_iff.1 hbelow with rfl | hbelow
    · exact hget hlink
    · exact hhere hbelow
  fun_induction t.walk links here pieces with
  | case1 links here =>
    obtain rfl := Except.ok.inj hwalk
    exact hhere
  | case2 => cases hwalk
  | case3 links here piece rest hdirectory hskip ih => exact ih hhere hwalk
  | case4 links here rest hdirectory hskip ih =>
    have hup := List.dropLast_prefix here
    exact ih (fun hbelow => hhere (hbelow.trans hup)) hwalk
  | case5 links here piece hdirectory hskip hup hmissing =>
    obtain rfl := Except.ok.inj hwalk
    exact hnext hhere (by simp [hmissing])
  | case6 => cases hwalk
  | case7 => cases hwalk
  | case8 here piece rest hdirectory hskip hup next hget links start ih =>
    exact ih (not_isPrefix_start hhere (Path.isAbsolute next)) hwalk
  | case9 links here piece rest hdirectory hskip hup e hother hget ih =>
    refine ih (hnext hhere ?_) hwalk
    rw [hget]
    exact fun heq => hother target (Option.some.inj heq)

/-- **A walk that ends where a file is written ends there again.** -/
theorem walk_put {t : Tree} {links : Nat} {here : Place} {pieces : List String} {place : Place}
    (hwalk : t.walk links here pieces = .ok place) (hplace : t.get? place ≠ some .directory)
    (bytes : List UInt8) : (t.put place (.file bytes)).walk links here pieces = .ok place := by
  have hfile := get?_put_self (ne_nil_of_get?_ne hplace) t (.file bytes)
  have hkept : ∀ {p : Place}, p ≠ place → (t.put place (.file bytes)).get? p = t.get? p :=
    fun h => get?_put_of_ne h t (.file bytes)
  have hkeeps : ∀ {p : Place}, ¬ t.get? p ≠ some .directory →
      ¬ (t.put place (.file bytes)).get? p ≠ some .directory := by
    intro p hp
    rw [hkept (by rintro rfl; exact hp hplace)]
    exact hp
  fun_induction t.walk links here pieces with
  | case1 links here => rw [walk, Except.ok.inj hwalk]
  | case2 => cases hwalk
  | case3 links here piece rest hdirectory hskip ih =>
    rw [walk, if_neg (hkeeps hdirectory), if_pos hskip, ih hwalk]
  | case4 links here rest hdirectory hskip ih =>
    rw [walk, if_neg (hkeeps hdirectory), if_neg hskip, if_pos rfl, ih hwalk]
  | case5 links here piece hdirectory hskip hup hmissing =>
    obtain rfl := Except.ok.inj hwalk
    rw [walk, if_neg (hkeeps hdirectory), if_neg hskip, if_neg hup, hfile]
    simp only [walk]
  | case6 => cases hwalk
  | case7 => cases hwalk
  | case8 here piece rest hdirectory hskip hup next hget links start ih =>
    rw [walk, if_neg (hkeeps hdirectory), if_neg hskip, if_neg hup, hkept, hget]
    · exact ih hwalk
    · -- Links lead away from their own place for good.
      rintro rfl
      have hhere : ¬ here ++ [piece] <+: here :=
        fun hbelow => absurd hbelow.length_le (by simp)
      exact not_isPrefix_of_walk hget (not_isPrefix_start hhere (Path.isAbsolute next)) hwalk
        List.prefix_rfl
  | case9 links here piece rest hdirectory hskip hup e hother hget ih =>
    rw [walk, if_neg (hkeeps hdirectory), if_neg hskip, if_neg hup]
    by_cases heq : here ++ [piece] = place
    · -- What is no directory is the end of the walk.
      rw [heq] at hwalk ⊢
      cases rest with
      | nil => simp only [hfile, walk]
      | cons next rest =>
        rw [walk, if_pos hplace] at hwalk
        cases hwalk
    · rw [hkept heq, hget]
      cases e with
      | link next => exact absurd rfl (hother next)
      | file old => exact ih hwalk
      | directory => exact ih hwalk

theorem follow_put {t : Tree} {here : Place} {path : String} {place : Place}
    (hfollow : t.follow here path = .ok place) (hplace : t.get? place ≠ some .directory)
    (bytes : List UInt8) : (t.put place (.file bytes)).follow here path = .ok place := by
  unfold follow at hfollow ⊢
  split_ifs at hfollow ⊢
  all_goals exact walk_put hfollow hplace bytes

end Tree

namespace View

/-- What stands where a path leads. -/
theorem entry?_of_follow {v : View} {path : String} {place : Place}
    (h : v.tree.follow v.workingDirectory path = .ok place) :
    v.entry? path = v.tree.get? place := by
  unfold entry? place?
  rw [h]
  cases hget : v.tree.get? place with
  | none => simp [hget]
  | some e => simp [hget]

theorem entry?_of_bytes? {v : View} {path : String} {bytes : List UInt8}
    (h : v.bytes? path = some bytes) : v.entry? path = some (.file bytes) := by
  unfold bytes? at h
  split at h
  · next stored hentry => rw [hentry, Option.some.inj h]
  · cases h

/-- What writing a file changes. -/
theorem write?_eq_some {v v' : View} {path : String} {bytes : List UInt8}
    (h : v.write? path bytes = some v') :
    ∃ place, v.tree.follow v.workingDirectory path = .ok place ∧
      v.tree.get? place ≠ some .directory ∧
      v' = { v with tree := v.tree.put place (.file bytes) } := by
  unfold write? at h
  split at h
  · next place hfollow =>
    split at h
    · cases h
    · next hplace => exact ⟨place, hfollow, hplace, (Option.some.inj h).symm⟩
  · cases h

/-- **The path of a written file shows its bytes.** -/
theorem bytes?_of_write? {v v' : View} {path : String} {bytes : List UInt8}
    (h : v.write? path bytes = some v') : v'.bytes? path = some bytes := by
  obtain ⟨place, hfollow, hplace, rfl⟩ := write?_eq_some h
  have hfile := Tree.get?_put_self (Tree.ne_nil_of_get?_ne hplace) v.tree (.file bytes)
  rw [bytes?, entry?_of_follow (Tree.follow_put hfollow hplace bytes), hfile]

end View

end MatlabQuality.Files
