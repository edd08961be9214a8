import MatlabQuality.Files.Batch
import MatlabQuality.Proofs.Text.Utf8

/-!
# Tolerant decoding

Bytes that are not well formed are left out of a source, and line endings are unified after that.
A malformed sequence ends before the next byte that starts a sequence, so bytes can be cut before
every such byte and decoded apart.  Unifying line endings can be cut everywhere but within a
carriage return and line feed pair, and every way to write the line endings of a text is read as
the text.

## Main definitions

* `Utf8.StartsFresh` — bytes that continue nothing.
* `Respells` — a text with each line feed written as one of the three line endings.
* `LineEnding`, `LineEnding.write` — a text with the same ending for all its lines.

## Main statements

* `Utf8.pieces_append` — bytes that continue nothing are read as they are read alone.
* `unifyLineEndings_append` — line endings are unified on both sides of a cut.
* `Respells.unifyLineEndings_eq` — every way to write the line endings of a text is the text.
* `ofSourceBytes_resynchronises` — cuts, well-formed texts, fixed points and line endings.
-/

namespace MatlabQuality.Text

namespace Utf8

/-! ## Malformed sequences -/

/-- The first of some bytes, if there is one, does not continue a sequence. -/
def StartsFresh (bytes : List UInt8) : Prop :=
  ∀ b ∈ bytes.head?, isContinuation b = false

instance : (bytes : List UInt8) → Decidable (StartsFresh bytes)
  | [] => isTrue fun _ h => nomatch h
  | b :: rest => decidable_of_iff (isContinuation b = false) (by simp [StartsFresh])

section Malformed

variable {a b least greatest : UInt8} {more : Nat} {rest : List UInt8}

/-- A byte that starts a sequence leaves room for at most two bytes after the second one, which is
a continuation. -/
theorem leadInfo_bounds (h : leadInfo a = some (more, least, greatest)) :
    more ≤ 2 ∧ 0x80 ≤ least ∧ greatest ≤ 0xBF := by
  unfold leadInfo at h
  split_ifs at h
  all_goals
    simp only [Option.some.injEq, Prod.mk.injEq] at h
    obtain ⟨rfl, rfl, rfl⟩ := h
    decide

theorem isContinuation_of_leadInfo (h : leadInfo a = some (more, least, greatest))
    (hb : least ≤ b ∧ b ≤ greatest) : isContinuation b = true := by
  obtain ⟨-, hleast, hgreatest⟩ := leadInfo_bounds h
  simpa [isContinuation] using
    And.intro (UInt8.le_trans hleast hb.1) (UInt8.le_trans hb.2 hgreatest)

theorem pieces_stray (ha : ¬ a < 0x80) (hlead : leadInfo a = none) :
    pieces (a :: rest) = none :: pieces rest := by
  rw [pieces, if_neg ha, hlead]

/-- A sequence is cut after its first byte where no second one follows. -/
theorem pieces_cut_one (ha : ¬ a < 0x80) (hlead : leadInfo a = some (more, least, greatest))
    (hrest : ∀ b ∈ rest.head?, ¬(least ≤ b ∧ b ≤ greatest)) :
    pieces (a :: rest) = none :: pieces rest := by
  rw [pieces, if_neg ha, hlead]
  cases rest with
  | nil => rfl
  | cons b rest => simp [hrest b rfl]

/-- A sequence is cut after its second byte where no continuation follows. -/
theorem pieces_cut_two (ha : ¬ a < 0x80) (hlead : leadInfo a = some (more + 1, least, greatest))
    (hb : least ≤ b ∧ b ≤ greatest) (hrest : StartsFresh rest) :
    pieces (a :: b :: rest) = none :: pieces rest := by
  rw [pieces, if_neg ha, hlead]
  cases rest with
  | nil => simp [hb, pieces]
  | cons c rest => simp [hb, hrest c rfl]

/-- A sequence is cut after its third byte where no continuation follows. -/
theorem pieces_cut_three {c : UInt8} (ha : ¬ a < 0x80)
    (hlead : leadInfo a = some (more + 2, least, greatest)) (hb : least ≤ b ∧ b ≤ greatest)
    (hc : isContinuation c = true) (hrest : StartsFresh rest) :
    pieces (a :: b :: c :: rest) = none :: pieces rest := by
  rw [pieces, if_neg ha, hlead]
  cases rest with
  | nil => simp [hb, hc, pieces]
  | cons d rest => simp [hb, hc, hrest d rfl]

end Malformed

/-! ## Cuts -/

/-- **Bytes that continue nothing are read as they are read alone**, whatever is before them. -/
theorem pieces_append (a : List UInt8) {b : List UInt8} (h : StartsFresh b) :
    pieces (a ++ b) = pieces a ++ pieces b := by
  fun_induction pieces a with
  | case1 => rfl
  | case2 x rest hx ih => rw [List.cons_append, pieces_one hx, ih, List.cons_append]
  | case3 x rest hx hlead ih => rw [List.cons_append, pieces_stray hx hlead, ih, List.cons_append]
  | case4 x hx more least greatest hlead =>
    have hcut : ∀ y ∈ b.head?, ¬(least ≤ y ∧ y ≤ greatest) := by
      intro y hy hbetween
      exact absurd (isContinuation_of_leadInfo hlead hbetween) (by simp [h y hy])
    exact pieces_cut_one hx hlead hcut
  | case5 x hx least greatest y hy rest hlead ih =>
    have hy : least ≤ y ∧ y ≤ greatest := by simpa using hy
    rw [List.cons_append, List.cons_append, pieces_two hx hlead hy, ih, List.cons_append]
  | case6 x hx least greatest y hy more hlead =>
    have hy : least ≤ y ∧ y ≤ greatest := by simpa using hy
    exact pieces_cut_two hx hlead hy h
  | case7 x hx least greatest y hy z hz rest hlead ih =>
    have hy : least ≤ y ∧ y ≤ greatest := by simpa using hy
    simp only [List.cons_append, pieces_three hx hlead hy hz, ih]
  | case8 x hx least greatest y hy z hz more hlead =>
    have hy : least ≤ y ∧ y ≤ greatest := by simpa using hy
    exact pieces_cut_three hx hlead hy hz h
  | case9 x hx least greatest y hy z hz more w rest hw hlead ih =>
    have hy : least ≤ y ∧ y ≤ greatest := by simpa using hy
    obtain rfl : more = 0 := by
      have := (leadInfo_bounds hlead).1
      omega
    simp only [List.cons_append, pieces_four hx hlead hy hz hw, ih]
  | case10 x hx least greatest y hy z hz more w rest hw hlead ih =>
    have hy : least ≤ y ∧ y ≤ greatest := by simpa using hy
    have hcut : ∀ ys, StartsFresh (w :: ys) := by simpa [StartsFresh] using hw
    simp only [List.cons_append, pieces_cut_three hx hlead hy hz (hcut _)] at ih ⊢
    rw [ih]
  | case11 x hx least greatest y hy more z rest hz hlead ih =>
    have hy : least ≤ y ∧ y ≤ greatest := by simpa using hy
    have hcut : ∀ ys, StartsFresh (z :: ys) := by simpa [StartsFresh] using hz
    simp only [List.cons_append, pieces_cut_two hx hlead hy (hcut _)] at ih ⊢
    rw [ih]
  | case12 x hx more least greatest hlead y rest hy ih =>
    have hcut : ∀ ys : List UInt8, ∀ z ∈ (y :: ys).head?, ¬(least ≤ z ∧ z ≤ greatest) := by
      simpa using hy
    simp only [List.cons_append, pieces_cut_one hx hlead (hcut _)] at ih ⊢
    rw [ih]

theorem decodeDropping_append (a : List UInt8) {b : List UInt8} (h : StartsFresh b) :
    decodeDropping (a ++ b) = decodeDropping a ++ decodeDropping b := by
  rw [decodeDropping, pieces_append a h, List.filterMap_append]
  rfl

/-- Nothing of a well-formed text is left out. -/
theorem decodeDropping_encode (cs : List Char) : decodeDropping (encode cs) = cs := by
  rw [decodeDropping, pieces_encode, List.filterMap_map]
  exact List.filterMap_some

end Utf8

/-! ## Line endings -/

theorem unifyLineEndings_pair (cs : List Char) :
    unifyLineEndings ('\r' :: '\n' :: cs) = '\n' :: unifyLineEndings cs := by
  rw [unifyLineEndings]

theorem unifyLineEndings_return {cs : List Char} (h : cs.head? ≠ some '\n') :
    unifyLineEndings ('\r' :: cs) = '\n' :: unifyLineEndings cs := by
  rw [unifyLineEndings]
  rintro rest rfl
  exact h rfl

theorem unifyLineEndings_cons {c : Char} (h : c ≠ '\r') (cs : List Char) :
    unifyLineEndings (c :: cs) = c :: unifyLineEndings cs := by
  rw [unifyLineEndings]
  · rintro rest rfl
    exact absurd rfl h
  · exact h

/-- **Line endings are unified on both sides of a cut**, unless it parts a carriage return from its
line feed. -/
theorem unifyLineEndings_append {cs ds : List Char}
    (h : ¬(cs.getLast? = some '\r' ∧ ds.head? = some '\n')) :
    unifyLineEndings (cs ++ ds) = unifyLineEndings cs ++ unifyLineEndings ds := by
  -- What is last in a rest is last in the whole.
  have hlast : ∀ {c : Char} {rest : List Char}, rest.getLast? = some '\r' →
      (c :: rest).getLast? = some '\r' := by
    intro c rest hrest
    rw [List.getLast?_cons, hrest, Option.getD_some]
  fun_induction unifyLineEndings cs with
  | case1 rest ih =>
    have hrest := ih fun hcut => h ⟨hlast (hlast hcut.1), hcut.2⟩
    rw [List.cons_append, List.cons_append, unifyLineEndings_pair, hrest, List.cons_append]
  | case2 rest hpair ih =>
    have hrest := ih fun hcut => h ⟨hlast hcut.1, hcut.2⟩
    have halone : (rest ++ ds).head? ≠ some '\n' := by
      cases rest with
      | nil => exact fun hhead => h ⟨rfl, hhead⟩
      | cons c rest => exact fun hhead => hpair rest (by rw [Option.some.inj hhead])
    rw [List.cons_append, unifyLineEndings_return halone, hrest, List.cons_append]
  | case3 c rest hpair hc ih =>
    have hrest := ih fun hcut => h ⟨hlast hcut.1, hcut.2⟩
    rw [List.cons_append, unifyLineEndings_cons hc, hrest, List.cons_append]
  | case4 => rfl

theorem unifyLineEndings_of_notMem {cs : List Char} (h : '\r' ∉ cs) :
    unifyLineEndings cs = cs := by
  induction cs with
  | nil => rfl
  | cons c cs ih =>
    simp only [List.mem_cons, not_or] at h
    rw [unifyLineEndings_cons (Ne.symm h.1), ih h.2]

/-- The second text is the first one with each line feed written as a line feed, as a carriage
return and line feed pair, or as a carriage return that no line feed follows. -/
inductive Respells : List Char → List Char → Prop where
  | nil : Respells [] []
  | keep (c : Char) {cs ds : List Char} : Respells cs ds → Respells (c :: cs) (c :: ds)
  | pair {cs ds : List Char} : Respells cs ds → Respells ('\n' :: cs) ('\r' :: '\n' :: ds)
  | carriageReturn {cs ds : List Char} :
    ds.head? ≠ some '\n' → Respells cs ds → Respells ('\n' :: cs) ('\r' :: ds)

/-- **Every way to write the line endings of a text is the text.** -/
theorem Respells.unifyLineEndings_eq {cs ds : List Char} (h : Respells cs ds)
    (hcs : '\r' ∉ cs) : unifyLineEndings ds = cs := by
  induction h with
  | nil => rfl
  | keep c _ ih =>
    simp only [List.mem_cons, not_or] at hcs
    rw [unifyLineEndings_cons (Ne.symm hcs.1), ih hcs.2]
  | pair _ ih =>
    rw [unifyLineEndings_pair, ih (List.not_mem_of_not_mem_cons hcs)]
  | carriageReturn hhead _ ih =>
    rw [unifyLineEndings_return hhead, ih (List.not_mem_of_not_mem_cons hcs)]

/-- What ends a line. -/
inductive LineEnding where
  | lineFeed
  | pair
  | carriageReturn
deriving Repr, DecidableEq

/-- The characters of a line ending. -/
def LineEnding.chars : LineEnding → List Char
  | .lineFeed => ['\n']
  | .pair => ['\r', '\n']
  | .carriageReturn => ['\r']

/-- A text with the same ending for all its lines. -/
def LineEnding.write (e : LineEnding) (cs : List Char) : List Char :=
  cs.flatMap fun c => if c = '\n' then e.chars else [c]

theorem LineEnding.lineFeed_notMem_write (cs : List Char) :
    '\n' ∉ LineEnding.carriageReturn.write cs := by
  rw [write, List.mem_flatMap]
  rintro ⟨c, -, hc⟩
  split_ifs at hc with heq
  · simp [chars] at hc
  · exact heq (List.mem_singleton.1 hc).symm

/-- A text whose lines all end in the same way is one way to write it. -/
theorem LineEnding.respells_write (e : LineEnding) (cs : List Char) :
    Respells cs (e.write cs) := by
  induction cs with
  | nil => exact .nil
  | cons c cs ih =>
    rw [write, List.flatMap_cons]
    by_cases hc : c = '\n'
    · subst hc
      rw [if_pos rfl]
      cases e with
      | lineFeed => exact .keep '\n' ih
      | pair => exact .pair ih
      | carriageReturn =>
        refine .carriageReturn (fun hhead => ?_) ih
        exact lineFeed_notMem_write cs (List.mem_of_mem_head? hhead)
    · rw [if_neg hc]
      exact .keep c ih

/-! ## Source bytes -/

section Sources

open MatlabQuality.Files

theorem ofSourceBytes_encode_of_respells {cs ds : List Char} (hcs : '\r' ∉ cs)
    (h : Respells cs ds) : ofSourceBytes (Utf8.encode ds) = cs := by
  rw [ofSourceBytes, Utf8.decodeDropping_encode, h.unifyLineEndings_eq hcs]

theorem ofSourceBytes_append {a b : List UInt8} (hb : Utf8.StartsFresh b)
    (h : ¬((Utf8.decodeDropping a).getLast? = some '\r' ∧
      (Utf8.decodeDropping b).head? = some '\n')) :
    ofSourceBytes (a ++ b) = ofSourceBytes a ++ ofSourceBytes b := by
  rw [ofSourceBytes, Utf8.decodeDropping_append a hb, unifyLineEndings_append h]
  rfl

/-- A source text is read from its own bytes. -/
theorem ofSourceBytes_encode_ofSourceBytes (bytes : List UInt8) :
    ofSourceBytes (Utf8.encode (ofSourceBytes bytes)) = ofSourceBytes bytes := by
  have hreturn := carriageReturn_notMem_unifyLineEndings (Utf8.decodeDropping bytes)
  rw [ofSourceBytes, Utf8.decodeDropping_encode, ofSourceBytes, unifyLineEndings_of_notMem hreturn]

/-- A file is analyzed as any text whose line endings it spells in some way. -/
theorem analyzeFile_of_respells {cs ds : List Char} (hcs : '\r' ∉ cs) (h : Respells cs ds)
    {v : View} {path : String} (hbytes : v.bytes? path = some (Utf8.encode ds)) (t : Thresholds) :
    v.analyzeFile t path = .ok (analyzeSource path cs t) := by
  rw [View.analyzeFile, View.readSource?, hbytes, Option.map_some,
    ofSourceBytes_encode_of_respells hcs h]
  rfl

/-- **Decoding resynchronises, and loses nothing that is well formed.**  Bytes are decoded apart
when they are cut before a byte that continues nothing, and so are source texts unless the cut
parts a carriage return from its line feed.  Well-formed texts are kept, source texts have no
carriage return and are their own source texts, and a file is analyzed in the same way whatever
ends its lines. -/
theorem ofSourceBytes_resynchronises :
    (∀ a b : List UInt8, Utf8.StartsFresh b →
      Utf8.decodeDropping (a ++ b) = Utf8.decodeDropping a ++ Utf8.decodeDropping b ∧
      (¬((Utf8.decodeDropping a).getLast? = some '\r' ∧
          (Utf8.decodeDropping b).head? = some '\n') →
        ofSourceBytes (a ++ b) = ofSourceBytes a ++ ofSourceBytes b)) ∧
    (∀ s : String, Utf8.decodeDropping (Utf8.encode s.toList) = s.toList) ∧
    (∀ bytes : List UInt8, '\r' ∉ ofSourceBytes bytes ∧
      ofSourceBytes (Utf8.encode (ofSourceBytes bytes)) = ofSourceBytes bytes) ∧
    (∀ cs ds : List Char, '\r' ∉ cs → Respells cs ds →
      ofSourceBytes (Utf8.encode ds) = cs ∧
      ∀ (v : View) (path : String) (t : Thresholds), v.bytes? path = some (Utf8.encode ds) →
        v.analyzeFile t path = .ok (analyzeSource path cs t)) ∧
    ∀ (e : LineEnding) (cs : List Char), Respells cs (e.write cs) := by
  refine ⟨?_, ?_, ?_, ?_, LineEnding.respells_write⟩
  · intro a b hb
    exact ⟨Utf8.decodeDropping_append a hb, ofSourceBytes_append hb⟩
  · intro s
    exact Utf8.decodeDropping_encode s.toList
  · intro bytes
    exact ⟨carriageReturn_notMem_unifyLineEndings _, ofSourceBytes_encode_ofSourceBytes bytes⟩
  · intro cs ds hcs h
    refine ⟨ofSourceBytes_encode_of_respells hcs h, ?_⟩
    intro v path t hbytes
    exact analyzeFile_of_respells hcs h hbytes t

/-- A directory that holds `s.m` and nothing else. -/
def sourceView (bytes : List UInt8) : View :=
  ⟨⟨[(["s.m"], .file bytes)]⟩, []⟩

theorem bytes?_sourceView (bytes : List UInt8) :
    (sourceView bytes).bytes? "s.m" = some bytes := by
  have hpieces : Path.pieces "s.m" = ["s.m"] := by decide
  have hrelative : Path.isAbsolute "s.m" = false := by decide
  simp [sourceView, View.bytes?, View.entry?, View.place?, Tree.follow, Tree.walk, Tree.get?,
    hpieces, hrelative]

/-- A cut after a carriage return and a sequence of which two bytes of three are there, and a
carriage return before a carriage return and line feed pair. -/
theorem ofSourceBytes_resynchronises_cut :
    let a : List UInt8 := [0x61, 0x0D, 0xE2, 0x82]
    let b : List UInt8 := [0xC3, 0xA9, 0x0A]
    let cs := "x\n\ny".toList
    let ds := "x\r\r\ny".toList
    (Utf8.StartsFresh b ∧ (Utf8.decodeDropping b).head? ≠ some '\n' ∧
      ofSourceBytes (a ++ b) = ofSourceBytes a ++ ofSourceBytes b) ∧
    '\r' ∉ cs ∧ Respells cs ds ∧
      (sourceView (Utf8.encode ds)).bytes? "s.m" = some (Utf8.encode ds) ∧
      (sourceView (Utf8.encode ds)).analyzeFile .default "s.m" =
        .ok (analyzeSource "s.m" cs .default) := by
  intro a b cs ds
  obtain ⟨hcut, -, -, hspelled, -⟩ := ofSourceBytes_resynchronises
  have hb : Utf8.StartsFresh b := by decide
  have hhead : (Utf8.decodeDropping b).head? ≠ some '\n' := by decide
  have hcs : '\r' ∉ cs := by decide
  have hds : Respells cs ds :=
    .keep 'x' (.carriageReturn (by decide) (.pair (.keep 'y' .nil)))
  have hbytes := bytes?_sourceView (Utf8.encode ds)
  exact ⟨⟨hb, hhead, (hcut a b hb).2 fun h => hhead h.2⟩, hcs, hds, hbytes,
    (hspelled cs ds hcs hds).2 _ _ _ hbytes⟩

end Sources

end MatlabQuality.Text
