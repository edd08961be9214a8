import Mathlib.Data.List.Infix
import Mathlib.Order.Bounds.Image
import MatlabQuality.Proofs.Source.Body
import MatlabQuality.Proofs.Text.Pattern

/-!
# The balance of openers and closers

The balance of some lines is the number of openers among them less the number of closers.  Both
scans of blocks are statements about balances.  The depth of blocks is the greatest balance of the
lines up to here, wherever one starts to count, so the greatest depth is the greatest balance of a
range of lines.  A body ends where the balance of the lines after its declaration is first negative.

## Main definitions

* `balance` — openers less closers.
* `tailBalances`, `rangeBalances` — the balances of all ends and of all ranges of some lines.
* `Tracks` — what a state of the depth scan says about the lines before it.
* `openerPattern` — an opening word at the start of a line, and the end of a word.
* `ClosedAfter`, `NeverClosed` — the two ways in which a body ends.

## Main statements

* `Tracks.nestingStep`, `Tracks.foldl_nestingStep` — the depth scan tracks the balances.
* `zero_le_balance_take` — no balance within a body is negative.
* `balance_take_linesToClose` — the balance of a body that is closed.
* `maxNesting_isGreatest` — the greatest depth is the greatest balance of a range.
* `bodyLength_ends` — where a body ends, and on what its length depends.
-/

namespace MatlabQuality.Source

open MatlabQuality.Text

/-! ## Balances -/

/-- The openers among some lines, less the closers. -/
def balance (ls : List (List Char)) : ℤ :=
  ls.countP opensBlock - ls.countP closesBlock

/-- The balance of a line with a role. -/
def LineRole.weight : LineRole → ℤ
  | .opener => 1
  | .closer => -1
  | .plain => 0

theorem opensBlock_eq_decide (line : List Char) :
    opensBlock line = decide (LineRole.ofLine line = .opener) := by
  rw [Bool.eq_iff_iff, decide_eq_true_iff]
  exact LineRole.ofLine_eq_opener.symm

theorem closesBlock_eq_decide (line : List Char) :
    closesBlock line = decide (LineRole.ofLine line = .closer) := by
  rw [Bool.eq_iff_iff, decide_eq_true_iff]
  exact LineRole.ofLine_eq_closer.symm

@[simp] theorem balance_nil : balance [] = 0 := rfl

@[simp] theorem balance_cons (line : List Char) (ls : List (List Char)) :
    balance (line :: ls) = (LineRole.ofLine line).weight + balance ls := by
  simp only [balance, List.countP_cons, opensBlock_eq_decide line, closesBlock_eq_decide line]
  cases LineRole.ofLine line <;> simp [LineRole.weight] <;> omega

@[simp] theorem balance_append (xs ys : List (List Char)) :
    balance (xs ++ ys) = balance xs + balance ys := by
  simp only [balance, List.countP_append]
  omega

/-! ## The depth scan -/

/-- The balances of the last lines, however many they are. -/
def tailBalances (ls : List (List Char)) : Set ℤ :=
  {b | ∃ tail, tail <:+ ls ∧ balance tail = b}

/-- The balances of all ranges of lines, the empty one included. -/
def rangeBalances (ls : List (List Char)) : Set ℤ :=
  {b | ∃ range, range <:+: ls ∧ balance range = b}

theorem tailBalances_subset (ls : List (List Char)) : tailBalances ls ⊆ rangeBalances ls := by
  rintro _ ⟨tail, htail, rfl⟩
  exact ⟨tail, htail.isInfix, rfl⟩

/-- The last lines with one line more are none, or end with it. -/
theorem tailBalances_concat (ls : List (List Char)) (line : List Char) :
    tailBalances (ls ++ [line]) =
      insert 0 ((· + (LineRole.ofLine line).weight) '' tailBalances ls) := by
  ext b
  simp only [tailBalances, List.suffix_concat_iff, Set.mem_ofPred_eq, Set.mem_insert_iff,
    Set.mem_image]
  constructor
  · rintro ⟨tail, rfl | ⟨tail, rfl, htail⟩, rfl⟩
    · exact .inl rfl
    · exact .inr ⟨balance tail, ⟨tail, htail, rfl⟩, by simp⟩
  · rintro (rfl | ⟨_, ⟨tail, htail, rfl⟩, rfl⟩)
    · exact ⟨[], .inl rfl, rfl⟩
    · exact ⟨tail ++ [line], .inr ⟨tail, rfl, htail⟩, by simp⟩

/-- A range of lines with one line more is one of the old ranges, or reaches the end. -/
theorem rangeBalances_concat (ls : List (List Char)) (line : List Char) :
    rangeBalances (ls ++ [line]) = rangeBalances ls ∪ tailBalances (ls ++ [line]) := by
  ext b
  simp only [rangeBalances, tailBalances, List.infix_concat_iff, Set.mem_ofPred_eq, Set.mem_union]
  constructor
  · rintro ⟨range, hsuffix | hinfix, rfl⟩
    · exact .inr ⟨range, hsuffix, rfl⟩
    · exact .inl ⟨range, hinfix, rfl⟩
  · rintro (⟨range, hinfix, rfl⟩ | ⟨range, hsuffix, rfl⟩)
    · exact ⟨range, .inr hinfix, rfl⟩
    · exact ⟨range, .inl hsuffix, rfl⟩

/-- One step of the depth scan, as a step of two greatest balances. -/
theorem cast_nestingStep {state : ℕ × ℕ} (h : state.1 ≤ state.2) (line : List Char) :
    ((nestingStep state line).1 : ℤ) = max 0 (state.1 + (LineRole.ofLine line).weight) ∧
      ((nestingStep state line).2 : ℤ) =
        max ↑state.2 (max 0 (state.1 + (LineRole.ofLine line).weight)) := by
  rw [nestingStep_eq]
  cases LineRole.ofLine line <;> dsimp only [LineRole.weight] <;> omega

/-- A state of the depth scan after some lines: the depth is the greatest balance of the last
lines, and the greatest depth is the greatest balance of any range. -/
structure Tracks (seen : List (List Char)) (state : ℕ × ℕ) : Prop where
  depth : IsGreatest (tailBalances seen) state.1
  greatest : IsGreatest (rangeBalances seen) state.2

namespace Tracks

variable {seen : List (List Char)} {state : ℕ × ℕ}

theorem nil : Tracks [] (0, 0) where
  depth := by simp [tailBalances, IsGreatest]
  greatest := by simp [rangeBalances, IsGreatest]

theorem depth_le_greatest (h : Tracks seen state) : state.1 ≤ state.2 := by
  have hle := h.greatest.2 (tailBalances_subset seen h.depth.1)
  exact_mod_cast hle

/-- **One line more** is added to the best end, unless an end with a negative balance is worse than
none. -/
theorem nestingStep (h : Tracks seen state) (line : List Char) :
    Tracks (seen ++ [line]) (nestingStep state line) := by
  obtain ⟨hstep, hstep'⟩ := cast_nestingStep h.depth_le_greatest line
  have hdepth : IsGreatest (tailBalances (seen ++ [line])) (Source.nestingStep state line).1 := by
    have hmono : Monotone (· + (LineRole.ofLine line).weight) := by
      intro a b hab
      dsimp only
      omega
    rw [tailBalances_concat, hstep]
    apply IsGreatest.insert
    exact hmono.map_isGreatest h.depth
  refine ⟨hdepth, ?_⟩
  rw [rangeBalances_concat, hstep', ← hstep]
  exact h.greatest.union hdepth

/-- **The depth scan tracks the balances** of the lines it has seen. -/
theorem foldl_nestingStep (h : Tracks seen state) (ls : List (List Char)) :
    Tracks (seen ++ ls) (ls.foldl Source.nestingStep state) := by
  induction ls generalizing seen state with
  | nil => simpa using h
  | cons line ls ih =>
    have hrest := ih (h.nestingStep line)
    rwa [List.append_assoc, List.singleton_append] at hrest

end Tracks

/-! ## Openers -/

/-- An opening word at the start of a text, and the end of a word behind it. -/
def openerPattern : Pattern :=
  .seq (.words (· == ·) openingWords) .edge

/-- The first word of a line that opens a block is the longest run of word characters there. -/
theorem opensBlock_iff_isSpan {line : List Char} :
    opensBlock line = true ↔
      ∃ word ∈ openingWords, ∃ rest, trim line = word ++ rest ∧ IsSpan isWord word rest := by
  rw [opensBlock, List.contains_iff_mem]
  constructor
  · intro h
    exact ⟨_, h, _, List.takeWhile_append_dropWhile.symm,
      IsSpan.takeWhile_dropWhile isWord (trim line)⟩
  · rintro ⟨word, hword, rest, htrim, hspan⟩
    rwa [htrim, leadingWord, hspan.takeWhile_eq]

/-- What the pattern of openers takes is a whole word. -/
theorem mem_ways_openerPattern {cs taken rest : List Char} :
    (taken, rest) ∈ openerPattern.ways none cs ↔
      taken ∈ openingWords ∧ cs = taken ++ rest ∧ IsSpan isWord taken rest := by
  have hwords : ∀ word ∈ openingWords, word ≠ [] ∧ ∀ c ∈ word, isWord c = true := by
    decide
  rw [openerPattern, Pattern.ways_seq_edge, List.mem_filter, Pattern.mem_ways_words]
  simp only [beq_iff_eq, List.forall₂_eq_eq_eq, exists_eq_right']
  constructor
  · rintro ⟨⟨htaken, rfl⟩, hedge⟩
    obtain ⟨hne, hall⟩ := hwords taken htaken
    rw [isEdge_getLast?_iff hne fun c hc => hall c (List.mem_of_getLast? hc)] at hedge
    exact ⟨htaken, rfl, hall, hedge⟩
  · rintro ⟨htaken, rfl, hspan⟩
    obtain ⟨hne, hall⟩ := hwords taken htaken
    rw [isEdge_getLast?_iff hne fun c hc => hall c (List.mem_of_getLast? hc)]
    exact ⟨⟨htaken, rfl⟩, hspan.stops⟩

/-- **The pattern of openers matches where a line opens a block.** -/
theorem opensBlock_iff_ways {line : List Char} :
    opensBlock line = true ↔ openerPattern.ways none (trim line) ≠ [] := by
  rw [opensBlock_iff_isSpan]
  constructor
  · rintro ⟨word, hword, rest, htrim, hspan⟩
    exact List.ne_nil_of_mem (mem_ways_openerPattern.2 ⟨hword, htrim, hspan⟩)
  · intro h
    obtain ⟨⟨word, rest⟩, hmem⟩ := List.exists_mem_of_ne_nil _ h
    obtain ⟨hword, htrim, hspan⟩ := mem_ways_openerPattern.1 hmem
    exact ⟨word, hword, rest, htrim, hspan⟩

/-- **The greatest depth of blocks is the greatest balance of a range of lines.**  A line is an
opener when the longest run of word characters at its start is an opening word, which is where the
pattern of openers matches; it is a closer when nothing but the closing word stands on it. -/
theorem maxNesting_isGreatest (source : List Char) :
    IsGreatest {b : ℤ | ∃ range, range <:+: lines source ∧
      b = range.countP opensBlock - range.countP closesBlock} (maxNesting source) ∧
    ∀ line,
      (opensBlock line = true ↔
        ∃ word ∈ ["if", "for", "while", "switch", "try", "function"].map String.toList,
          ∃ rest, trim line = word ++ rest ∧ IsSpan isWord word rest) ∧
      (opensBlock line = true ↔ openerPattern.ways none (trim line) ≠ []) ∧
      (closesBlock line = true ↔ trim line = "end".toList) := by
  refine ⟨?_, ?_⟩
  · have htracks := (Tracks.nil.foldl_nestingStep (lines source)).greatest
    rw [List.nil_append] at htracks
    simpa only [maxNesting, rangeBalances, balance, eq_comm] using htracks
  · intro line
    refine ⟨opensBlock_iff_isSpan, opensBlock_iff_ways, ?_⟩
    rw [closesBlock, beq_iff_eq, closingText]

/-! ## The scan of a body -/

/-- A line that does not end a scan adds its balance to the count of open blocks. -/
theorem LineRole.cast_of_next {level next : ℕ} {role : LineRole} (h : role.next level = some next) :
    (next : ℤ) = level + role.weight := by
  cases role with
  | opener =>
    obtain rfl := Option.some.inj h
    dsimp only [weight]
    omega
  | closer =>
    cases level with
    | zero => simp at h
    | succ level =>
      obtain rfl := Option.some.inj h
      dsimp only [weight]
      omega
  | plain =>
    obtain rfl := Option.some.inj h
    dsimp only [weight]
    omega

/-- What ends a scan is a closer when no block is open. -/
theorem LineRole.of_next_eq_none {level : ℕ} {role : LineRole} (h : role.next level = none) :
    level = 0 ∧ role = .closer := by
  cases role with
  | opener => simp at h
  | closer =>
    cases level with
    | zero => exact ⟨rfl, rfl⟩
    | succ level => simp at h
  | plain => simp at h

/-- **No balance within a body is negative**, the blocks open before it included. -/
theorem zero_le_balance_take {level k : ℕ} {ls : List (List Char)}
    (h : k < linesToClose level ls) : 0 ≤ level + balance (ls.take k) := by
  induction ls generalizing level k with
  | nil => simp [linesToClose] at h
  | cons line ls ih =>
    cases k with
    | zero => simp
    | succ k =>
      rw [List.take_succ_cons, balance_cons]
      cases hnext : (LineRole.ofLine line).next level with
      | none =>
        rw [linesToClose_stop hnext] at h
        omega
      | some next =>
        rw [linesToClose_step hnext] at h
        have hrest := @ih next k (by omega)
        have hcast := LineRole.cast_of_next hnext
        omega

/-- **The balance of a body that is closed**: the closer at its end is the one too many. -/
theorem balance_take_linesToClose {level : ℕ} {ls : List (List Char)}
    (h : findsCloser level ls = true) : level + balance (ls.take (linesToClose level ls)) = -1 := by
  induction ls generalizing level with
  | nil => simp [findsCloser] at h
  | cons line ls ih =>
    cases hnext : (LineRole.ofLine line).next level with
    | none =>
      obtain ⟨rfl, hrole⟩ := LineRole.of_next_eq_none hnext
      simp [linesToClose_stop hnext, hrole, LineRole.weight]
    | some next =>
      rw [findsCloser_step hnext] at h
      have hrest := ih h
      have hcast := LineRole.cast_of_next hnext
      rw [linesToClose_step hnext, Nat.add_comm, List.take_succ_cons, balance_cons]
      omega

/-- A body that is not closed has no closer too many. -/
theorem zero_le_balance_of_not_findsCloser {level : ℕ} {ls : List (List Char)}
    (h : findsCloser level ls = false) : 0 ≤ level + balance ls := by
  induction ls generalizing level with
  | nil => simp
  | cons line ls ih =>
    cases hnext : (LineRole.ofLine line).next level with
    | none => simp [findsCloser_stop hnext] at h
    | some next =>
      rw [findsCloser_step hnext] at h
      have hrest := ih h
      have hcast := LineRole.cast_of_next hnext
      rw [balance_cons]
      omega

/-- A scan that finds a closer depends on the roles of the lines up to it. -/
theorem linesToClose_congr_take {level : ℕ} {ls other : List (List Char)}
    (hfinds : findsCloser level ls = true)
    (h : (other.take (linesToClose level ls)).map LineRole.ofLine =
      (ls.take (linesToClose level ls)).map LineRole.ofLine) :
    linesToClose level other = linesToClose level ls := by
  induction ls generalizing level other with
  | nil => simp [findsCloser] at hfinds
  | cons line ls ih =>
    cases hnext : (LineRole.ofLine line).next level with
    | none =>
      rw [linesToClose_stop hnext] at h ⊢
      cases other with
      | nil => simp at h
      | cons line' other =>
        have hrole : LineRole.ofLine line' = LineRole.ofLine line := by simpa using h
        rw [← hrole] at hnext
        exact linesToClose_stop hnext
    | some next =>
      rw [findsCloser_step hnext] at hfinds
      rw [linesToClose_step hnext, Nat.add_comm] at h ⊢
      cases other with
      | nil => simp at h
      | cons line' other =>
        rw [List.take_succ_cons, List.take_succ_cons, List.map_cons, List.map_cons] at h
        obtain ⟨hrole, hrest⟩ := List.cons.inj h
        rw [← hrole] at hnext
        rw [linesToClose_step hnext, ih hfinds hrest, Nat.add_comm]

/-- A scan depends on the roles of its lines. -/
theorem linesToClose_congr {level : ℕ} {ls other : List (List Char)}
    (h : other.map LineRole.ofLine = ls.map LineRole.ofLine) :
    linesToClose level other = linesToClose level ls := by
  induction ls generalizing level other with
  | nil =>
    obtain rfl := List.map_eq_nil_iff.1 h
    rfl
  | cons line ls ih =>
    cases other with
    | nil => simp at h
    | cons line' other =>
      rw [List.map_cons, List.map_cons] at h
      obtain ⟨hrole, hrest⟩ := List.cons.inj h
      rw [linesToClose_cons, linesToClose_cons, hrole]
      cases (LineRole.ofLine line).next level with
      | none => rfl
      | some next => exact congrArg (1 + ·) (ih hrest)

/-- Among some lines the closers outnumber the openers. -/
def Outnumbered (ls : List (List Char)) : Prop :=
  ls.countP opensBlock < ls.countP closesBlock

theorem outnumbered_iff {ls : List (List Char)} : Outnumbered ls ↔ balance ls < 0 := by
  rw [Outnumbered, balance]
  omega

/-- A closer ends a body `k` lines after its declaration: it is the first one that leaves the
openers outnumbered. -/
structure ClosedAfter (following : List (List Char)) (k : ℕ) : Prop where
  isLeast : IsLeast {n | 1 ≤ n ∧ n ≤ following.length ∧ Outnumbered (following.take n)} k
  countP_closesBlock :
    (following.take k).countP closesBlock = (following.take k).countP opensBlock + 1
  exists_closer : ∃ line, following[k - 1]? = some line ∧ closesBlock line = true
  /-- Nothing but the roles of these lines matters. -/
  bodyLength_eq : ∀ other : List (List Char),
    (other.take k).map LineRole.ofLine = (following.take k).map LineRole.ofLine →
      bodyLength other = bodyLength following

/-- No closer ends a body, which has `k` lines after its declaration. -/
structure NeverClosed (following : List (List Char)) (k : ℕ) : Prop where
  not_outnumbered : ∀ n, 1 ≤ n → n ≤ following.length → ¬Outnumbered (following.take n)
  eq_length : k = following.length
  /-- Nothing but the roles of the lines matters. -/
  bodyLength_eq : ∀ other : List (List Char),
    other.map LineRole.ofLine = following.map LineRole.ofLine →
      bodyLength other = bodyLength following

theorem closedAfter_linesToClose {following : List (List Char)}
    (h : findsCloser 0 following = true) : ClosedAfter following (linesToClose 0 following) := by
  have hbalance := balance_take_linesToClose h
  obtain ⟨body, closer, rest, hsplit, hcloses, hlines⟩ := exists_of_findsCloser h
  refine ⟨⟨⟨?_, linesToClose_le_length 0 following, ?_⟩, ?_⟩, ?_, ?_, ?_⟩
  · omega
  · rw [outnumbered_iff]
    omega
  · rintro n ⟨-, -, hn⟩
    rw [outnumbered_iff] at hn
    by_contra hlt
    have hwithin := zero_le_balance_take (Nat.lt_of_not_le hlt)
    omega
  · rw [balance] at hbalance
    omega
  · refine ⟨closer, ?_, hcloses⟩
    rw [hlines, hsplit]
    simp
  · intro other hother
    rw [bodyLength, bodyLength, linesToClose_congr_take h hother]

theorem neverClosed_length {following : List (List Char)}
    (h : findsCloser 0 following = false) : NeverClosed following following.length := by
  have hlines := linesToClose_of_not_findsCloser h
  refine ⟨?_, rfl, ?_⟩
  · intro n _ hn houtnumbered
    rw [outnumbered_iff] at houtnumbered
    rcases Nat.lt_or_eq_of_le hn with hlt | rfl
    · have hwithin := zero_le_balance_take (hlines ▸ hlt)
      omega
    · have hall := zero_le_balance_of_not_findsCloser h
      rw [List.take_length] at houtnumbered
      omega
  · intro other hother
    rw [bodyLength, bodyLength, linesToClose_congr hother]

/-- **The length of a function** that is declared on line `start` of some lines: it reaches to the
first closer that leaves the openers after the declaration outnumbered, or else to the end. -/
theorem bodyLength_ends (ls : List (List Char)) (start : ℕ) :
    ∃ k, bodyLength (ls.drop (start + 1)) = 1 + k ∧
      (ClosedAfter (ls.drop (start + 1)) k ∨ NeverClosed (ls.drop (start + 1)) k) := by
  cases h : findsCloser 0 (ls.drop (start + 1)) with
  | true => exact ⟨_, rfl, .inl (closedAfter_linesToClose h)⟩
  | false =>
    refine ⟨_, ?_, .inr (neverClosed_length h)⟩
    rw [bodyLength, linesToClose_of_not_findsCloser h]

end MatlabQuality.Source
