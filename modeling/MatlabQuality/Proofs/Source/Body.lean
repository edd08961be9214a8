import MatlabQuality.Proofs.Source.Declaration

/-!
# Bodies

A line has one of three roles: it opens a block, closes one, or does neither.  The scan of a body
counts open blocks from its own declaration on and stops at the closer they do not account for.
Every scan starts afresh, so what relates the scans of two functions is what relates scans of the
same lines that start with different counts: the scan with fewer blocks open stops no later, and
strictly earlier when the other one finds its closer.

## Main definitions

* `LineRole`, `LineRole.ofLine` — what a line does to the blocks around it.
* `LineRole.next` — one step of a scan.
* `findsCloser` — whether a scan is ended by a closer.
* `functionAt` — the function that one line declares.

## Main statements

* `linesToClose_append` — a scan stops within the first lines or goes on with some count.
* `linesToClose_lt_of_findsCloser` — fewer open blocks, an earlier stop.
* `exists_of_mem_functionsFrom`, `pairwise_functionsFrom` — the functions of some lines, in the
  order of their declarations.
-/

namespace MatlabQuality.Source

open MatlabQuality.Text

/-! ## The role of a line -/

/-- What a line does to the blocks around it. -/
inductive LineRole where
  /-- It opens a block. -/
  | opener
  /-- It closes a block. -/
  | closer
  /-- It does neither. -/
  | plain
deriving Repr, DecidableEq

/-- The role of a line. -/
def LineRole.ofLine (line : List Char) : LineRole :=
  if opensBlock line then .opener else if closesBlock line then .closer else .plain

theorem LineRole.ofLine_eq_opener {line : List Char} :
    LineRole.ofLine line = .opener ↔ opensBlock line = true := by
  unfold LineRole.ofLine
  split
  · simp_all
  · split <;> simp_all

theorem LineRole.ofLine_eq_closer {line : List Char} :
    LineRole.ofLine line = .closer ↔ closesBlock line = true := by
  unfold LineRole.ofLine
  split
  · next hopens =>
    constructor
    · intro h
      cases h
    · intro hcloses
      simp [not_opensBlock_of_closesBlock hcloses] at hopens
  · split <;> simp_all

/-- One step of the depth of blocks, by the role of the line. -/
theorem nestingStep_eq (state : Nat × Nat) (line : List Char) :
    nestingStep state line =
      match LineRole.ofLine line with
      | .opener => (state.1 + 1, max state.2 (state.1 + 1))
      | .closer => (state.1 - 1, state.2)
      | .plain => state := by
  unfold nestingStep LineRole.ofLine
  split
  · rfl
  · split <;> rfl

/-- The count of open blocks after a line; none if the line closes a block that the count does not
account for. -/
def LineRole.next (level : Nat) : LineRole → Option Nat
  | .opener => some (level + 1)
  | .closer => if level = 0 then none else some (level - 1)
  | .plain => some level

@[simp] theorem LineRole.next_opener (level : Nat) :
    LineRole.next level .opener = some (level + 1) := rfl

@[simp] theorem LineRole.next_closer_zero : LineRole.next 0 .closer = none := rfl

@[simp] theorem LineRole.next_closer_succ (level : Nat) :
    LineRole.next (level + 1) .closer = some level := rfl

@[simp] theorem LineRole.next_plain (level : Nat) :
    LineRole.next level .plain = some level := rfl

/-- Of two counts the smaller one stays the smaller, and the larger one always accounts for a
closer. -/
theorem LineRole.exists_next_of_lt {a b : Nat} (h : a < b) (role : LineRole) :
    ∃ b', role.next b = some b' ∧ ∀ a', role.next a = some a' → a' < b' := by
  obtain ⟨b, rfl⟩ : ∃ n, b = n + 1 := ⟨b - 1, by omega⟩
  cases role with
  | opener => exact ⟨b + 2, rfl, by simp; omega⟩
  | closer =>
    refine ⟨b, rfl, ?_⟩
    cases a with
    | zero => simp
    | succ a =>
      simp only [LineRole.next_closer_succ, Option.some.injEq, forall_eq']
      omega
  | plain => exact ⟨b + 1, rfl, by simpa using h⟩

/-! ## Where a scan stops -/

section Scan

variable {level next : Nat} {line : List Char} {rest : List (List Char)}

/-- Whether a closer that `level` open blocks and the openers on the way do not account for ends
the scan of a body. -/
def findsCloser (level : Nat) : List (List Char) → Bool
  | [] => false
  | line :: rest =>
    match (LineRole.ofLine line).next level with
    | none => true
    | some next => findsCloser next rest

/-- One step of the scan of a body. -/
theorem linesToClose_cons (level : Nat) (line : List Char) (rest : List (List Char)) :
    linesToClose level (line :: rest) =
      match (LineRole.ofLine line).next level with
      | none => 1
      | some next => 1 + linesToClose next rest := by
  rw [linesToClose]
  unfold LineRole.ofLine
  split
  · rfl
  · split
    · simp only [LineRole.next]
      split <;> rfl
    · rfl

theorem linesToClose_stop (h : (LineRole.ofLine line).next level = none) :
    linesToClose level (line :: rest) = 1 := by
  rw [linesToClose_cons, h]

theorem linesToClose_step (h : (LineRole.ofLine line).next level = some next) :
    linesToClose level (line :: rest) = 1 + linesToClose next rest := by
  rw [linesToClose_cons, h]

theorem findsCloser_stop (h : (LineRole.ofLine line).next level = none) :
    findsCloser level (line :: rest) = true := by
  simp [findsCloser, h]

theorem findsCloser_step (h : (LineRole.ofLine line).next level = some next) :
    findsCloser level (line :: rest) = findsCloser next rest := by
  simp [findsCloser, h]

end Scan

theorem linesToClose_le_length (level : Nat) (ls : List (List Char)) :
    linesToClose level ls ≤ ls.length := by
  induction ls generalizing level with
  | nil => simp [linesToClose]
  | cons line rest ih =>
    cases hnext : (LineRole.ofLine line).next level with
    | none => simp [linesToClose_stop hnext]
    | some next =>
      have := ih next
      rw [linesToClose_step hnext, List.length_cons]
      omega

/-- A scan that finds no closer takes every line. -/
theorem linesToClose_of_not_findsCloser {level : Nat} {ls : List (List Char)}
    (h : findsCloser level ls = false) : linesToClose level ls = ls.length := by
  induction ls generalizing level with
  | nil => rfl
  | cons line rest ih =>
    cases hnext : (LineRole.ofLine line).next level with
    | none => simp [findsCloser_stop hnext] at h
    | some next =>
      rw [findsCloser_step hnext] at h
      rw [linesToClose_step hnext, ih h, List.length_cons, Nat.add_comm]

/-- A scan that finds a closer stops right after it. -/
theorem exists_of_findsCloser {level : Nat} {ls : List (List Char)}
    (h : findsCloser level ls = true) :
    ∃ body closer rest, ls = body ++ closer :: rest ∧ closesBlock closer = true ∧
      linesToClose level ls = body.length + 1 := by
  induction ls generalizing level with
  | nil => simp [findsCloser] at h
  | cons line rest ih =>
    cases hnext : (LineRole.ofLine line).next level with
    | none =>
      refine ⟨[], line, rest, rfl, ?_, linesToClose_stop hnext⟩
      cases hrole : LineRole.ofLine line with
      | closer => exact LineRole.ofLine_eq_closer.1 hrole
      | opener => simp [hrole] at hnext
      | plain => simp [hrole] at hnext
    | some next =>
      rw [findsCloser_step hnext] at h
      obtain ⟨body, closer, after, hls, hcloses, hlines⟩ := ih h
      refine ⟨line :: body, closer, after, by rw [hls]; rfl, hcloses, ?_⟩
      rw [linesToClose_step hnext, hlines, List.length_cons]
      omega

/-- **A scan stops within the first lines or goes on with some count of open blocks.** -/
theorem linesToClose_append (level : Nat) (xs ys : List (List Char)) :
    linesToClose level (xs ++ ys) ≤ xs.length ∨
      ∃ level', linesToClose level (xs ++ ys) = xs.length + linesToClose level' ys ∧
        findsCloser level (xs ++ ys) = findsCloser level' ys := by
  induction xs generalizing level with
  | nil => exact .inr ⟨level, by simp, rfl⟩
  | cons line xs ih =>
    rw [List.cons_append, List.length_cons]
    cases hnext : (LineRole.ofLine line).next level with
    | none => exact .inl (by rw [linesToClose_stop hnext]; omega)
    | some next =>
      rw [linesToClose_step hnext, findsCloser_step hnext]
      rcases ih next with h | ⟨level', h, hf⟩
      · exact .inl (by omega)
      · exact .inr ⟨level', by omega, hf⟩

/-- **Fewer open blocks, an earlier stop**: strictly earlier, if the scan with more of them finds
its closer. -/
theorem linesToClose_lt_of_findsCloser {a b : Nat} (h : a < b) {ls : List (List Char)}
    (hfinds : findsCloser b ls = true) : linesToClose a ls < linesToClose b ls := by
  induction ls generalizing a b with
  | nil => simp [findsCloser] at hfinds
  | cons line rest ih =>
    obtain ⟨b', hb, hlt⟩ := LineRole.exists_next_of_lt h (LineRole.ofLine line)
    rw [findsCloser_step hb] at hfinds
    rw [linesToClose_step hb]
    cases ha : (LineRole.ofLine line).next a with
    | none =>
      obtain ⟨body, _, _, _, _, hlines⟩ := exists_of_findsCloser hfinds
      rw [linesToClose_stop ha]
      omega
    | some a' =>
      have := ih (hlt a' ha) hfinds
      rw [linesToClose_step ha]
      omega

/-- A scan with fewer open blocks stops no later. -/
theorem linesToClose_le_of_lt {a b : Nat} (h : a < b) (ls : List (List Char)) :
    linesToClose a ls ≤ linesToClose b ls := by
  cases hfinds : findsCloser b ls with
  | true => exact Nat.le_of_lt (linesToClose_lt_of_findsCloser h hfinds)
  | false =>
    rw [linesToClose_of_not_findsCloser hfinds]
    exact linesToClose_le_length a ls

/-! ## The functions of some lines -/

/-- The function that a line declares, given its number and the lines after it. -/
def functionAt (number : Nat) (line : List Char) (following : List (List Char)) :
    Option FunctionRecord :=
  (Declaration.ofLine? line).map fun d =>
    ⟨String.ofList d.name, number, countParameters d.parameters, bodyLength following⟩

/-- The fields of a declared function that depend on its place. -/
theorem eq_of_functionAt {number : Nat} {line : List Char} {following : List (List Char)}
    {f : FunctionRecord} (h : functionAt number line following = some f) :
    f.declarationLine = number ∧ f.bodyLength = 1 + linesToClose 0 following := by
  obtain ⟨d, -, rfl⟩ := Option.map_eq_some_iff.1 h
  exact ⟨rfl, rfl⟩

theorem opensBlock_of_functionAt {number : Nat} {line : List Char} {following : List (List Char)}
    {f : FunctionRecord} (h : functionAt number line following = some f) :
    opensBlock line = true := by
  obtain ⟨d, hd, -⟩ := Option.map_eq_some_iff.1 h
  exact opensBlock_of_ofLine? hd

theorem functionsFrom_cons (number : Nat) (line : List Char) (rest : List (List Char)) :
    functionsFrom number (line :: rest) =
      (functionAt number line rest).toList ++ functionsFrom (number + 1) rest := by
  rw [functionsFrom, functionAt]
  cases Declaration.ofLine? line with
  | none => rfl
  | some d => rfl

/-- Every function is declared by one of the lines. -/
theorem exists_of_mem_functionsFrom {number : Nat} {ls : List (List Char)} {f : FunctionRecord}
    (h : f ∈ functionsFrom number ls) :
    ∃ before line after, ls = before ++ line :: after ∧
      functionAt (number + before.length) line after = some f := by
  induction ls generalizing number with
  | nil => simp [functionsFrom] at h
  | cons line rest ih =>
    rw [functionsFrom_cons, List.mem_append, Option.mem_toList] at h
    rcases h with h | h
    · exact ⟨[], line, rest, rfl, h⟩
    · obtain ⟨before, line', after, hls, hf⟩ := ih h
      refine ⟨line :: before, line', after, by rw [hls]; rfl, ?_⟩
      rw [List.length_cons, ← hf]
      congr 1
      omega

/-- **Declarations come in the order of their lines.** -/
theorem pairwise_functionsFrom (number : Nat) (ls : List (List Char)) :
    (functionsFrom number ls).Pairwise fun f g => f.declarationLine < g.declarationLine := by
  induction ls generalizing number with
  | nil => exact List.Pairwise.nil
  | cons line rest ih =>
    rw [functionsFrom_cons]
    cases hf : functionAt number line rest with
    | none => exact ih (number + 1)
    | some f =>
      refine List.pairwise_cons.2 ⟨?_, ih (number + 1)⟩
      intro g hg
      obtain ⟨before, _, _, _, hg⟩ := exists_of_mem_functionsFrom hg
      rw [(eq_of_functionAt hf).1, (eq_of_functionAt hg).1]
      omega

/-- A line declares one function at most. -/
theorem filter_declarationLine_eq {fs : List FunctionRecord} {f : FunctionRecord}
    (h : fs.Pairwise fun f g => f.declarationLine < g.declarationLine) (hf : f ∈ fs) :
    fs.filter (·.declarationLine = f.declarationLine) = [f] := by
  induction fs with
  | nil => simp at hf
  | cons g fs ih =>
    obtain ⟨hg, hfs⟩ := List.pairwise_cons.1 h
    rcases List.mem_cons.1 hf with rfl | hf
    · have hnone : fs.filter (·.declarationLine = f.declarationLine) = [] := by
        rw [List.filter_eq_nil_iff]
        intro g' hg'
        have := hg g' hg'
        simp only [decide_eq_true_eq]
        omega
      simp [hnone]
    · have hlt := hg f hf
      have hne : ¬g.declarationLine = f.declarationLine := by omega
      simp [hne, ih hfs hf]

end MatlabQuality.Source
