import MatlabQuality.Proofs.Text.Decoding

/-!
# What is read as text

Reading accepts no second way to write a character: the bytes of a sequence that is read are the
bytes of the character they are read as.  So a text is read from its own bytes and from no others.

## Main definitions

* `Opens` — the two bytes that a sequence of some length starts with.

## Main statements

* `opens_of_leadInfo` — bytes that are taken for the start of a sequence start one.
* `decode?_eq_some_iff` — the bytes from which a text is read.
-/

namespace MatlabQuality.Text.Utf8

/-! ## Starts of sequences -/

/-- The numbers of the first two bytes of a sequence that has `more` bytes behind them.  Overlong
forms, surrogates and values past the last code point do not start like this. -/
def Opens (more m n : ℕ) : Prop :=
  (128 ≤ n ∧ n ≤ 191) ∧
    (more = 0 ∧ 194 ≤ m ∧ m ≤ 223 ∨
      more = 1 ∧ 224 ≤ m ∧ m ≤ 239 ∧ (m = 224 → 160 ≤ n) ∧ (m = 237 → n ≤ 159) ∨
      more = 2 ∧ 240 ≤ m ∧ m ≤ 244 ∧ (m = 240 → 144 ≤ n) ∧ (m = 244 → n ≤ 143))

section Sequences

variable {a b c d least greatest : UInt8} {more : ℕ}

theorem opens_of_leadInfo (h : leadInfo a = some (more, least, greatest))
    (hb : least ≤ b ∧ b ≤ greatest) : Opens more a.toNat b.toNat := by
  unfold leadInfo at h
  split_ifs at h
  all_goals
    simp only [Option.some.injEq, Prod.mk.injEq] at h
    obtain ⟨rfl, rfl, rfl⟩ := h
    simp_all only [Bool.and_eq_true, decide_eq_true_eq, beq_iff_eq, UInt8.le_iff_toNat_le,
      ← UInt8.toNat_inj, UInt8.reduceToNat]
    unfold Opens
    omega

theorem toNat_of_isContinuation (h : isContinuation c = true) :
    128 ≤ c.toNat ∧ c.toNat ≤ 191 := by
  simpa [isContinuation, UInt8.le_iff_toNat_le] using h

theorem val_toNat_ofNat {n : ℕ} (h : n.isValidChar) : (Char.ofNat n).val.toNat = n := by
  rw [Char.ofNat, dif_pos h]
  rfl

/-! ## Bytes of characters -/

theorem utf8EncodeChar_one (ha : a < 0x80) :
    String.utf8EncodeChar (Char.ofNat a.toNat) = [a] := by
  have hlt : a.toNat < 128 := ha
  rw [String.utf8EncodeChar.eq_1, val_toNat_ofNat (.inl (by omega)), if_pos (by omega),
    UInt8.ofNat_toNat]

theorem utf8EncodeChar_two (h : Opens 0 a.toNat b.toNat) :
    String.utf8EncodeChar (Char.ofNat (low 5 a * 64 + low 6 b)) = [a, b] := by
  obtain ⟨hb, ⟨-, ha⟩ | ⟨h, -⟩ | ⟨h, -⟩⟩ := h
  · have hv : low 5 a * 64 + low 6 b = a.toNat % 32 * 64 + b.toNat % 64 := rfl
    generalize low 5 a * 64 + low 6 b = v at hv
    have hfirst : v / 64 % 32 + 192 = a.toNat := by omega
    have hsecond : v % 64 + 128 = b.toNat := by omega
    rw [String.utf8EncodeChar.eq_1, val_toNat_ofNat (.inl (by omega)), if_neg (by omega),
      if_pos (by omega), hfirst, hsecond, UInt8.ofNat_toNat, UInt8.ofNat_toNat]
  all_goals cases h

theorem utf8EncodeChar_three (h : Opens 1 a.toNat b.toNat) (hc : isContinuation c = true) :
    String.utf8EncodeChar (Char.ofNat ((low 4 a * 64 + low 6 b) * 64 + low 6 c)) = [a, b, c] := by
  have hc := toNat_of_isContinuation hc
  obtain ⟨hb, ⟨h, -⟩ | ⟨-, ha, ha', hlong, hsurrogate⟩ | ⟨h, -⟩⟩ := h
  · cases h
  · have hv : (low 4 a * 64 + low 6 b) * 64 + low 6 c =
        (a.toNat % 16 * 64 + b.toNat % 64) * 64 + c.toNat % 64 := rfl
    generalize (low 4 a * 64 + low 6 b) * 64 + low 6 c = v at hv
    have hvalid : v.isValidChar := by
      unfold Nat.isValidChar
      omega
    have hfirst : v / 4096 % 16 + 224 = a.toNat := by omega
    have hsecond : v / 64 % 64 + 128 = b.toNat := by omega
    have hthird : v % 64 + 128 = c.toNat := by omega
    rw [String.utf8EncodeChar.eq_1, val_toNat_ofNat hvalid, if_neg (by omega), if_neg (by omega),
      if_pos (by omega), hfirst, hsecond, hthird]
    simp only [UInt8.ofNat_toNat]
  · cases h

theorem utf8EncodeChar_four (h : Opens 2 a.toNat b.toNat) (hc : isContinuation c = true)
    (hd : isContinuation d = true) :
    String.utf8EncodeChar
        (Char.ofNat (((low 3 a * 64 + low 6 b) * 64 + low 6 c) * 64 + low 6 d)) =
      [a, b, c, d] := by
  have hc := toNat_of_isContinuation hc
  have hd := toNat_of_isContinuation hd
  obtain ⟨hb, ⟨h, -⟩ | ⟨h, -⟩ | ⟨-, ha, ha', hlong, hlast⟩⟩ := h
  · cases h
  · cases h
  · have hv : ((low 3 a * 64 + low 6 b) * 64 + low 6 c) * 64 + low 6 d =
        ((a.toNat % 8 * 64 + b.toNat % 64) * 64 + c.toNat % 64) * 64 + d.toNat % 64 := rfl
    generalize ((low 3 a * 64 + low 6 b) * 64 + low 6 c) * 64 + low 6 d = v at hv
    have hfirst : v / 262144 % 8 + 240 = a.toNat := by omega
    have hsecond : v / 4096 % 64 + 128 = b.toNat := by omega
    have hthird : v / 64 % 64 + 128 = c.toNat := by omega
    have hfourth : v % 64 + 128 = d.toNat := by omega
    rw [String.utf8EncodeChar.eq_1, val_toNat_ofNat (.inr (by omega)), if_neg (by omega),
      if_neg (by omega), if_neg (by omega), hfirst, hsecond, hthird, hfourth]
    simp only [UInt8.ofNat_toNat]

end Sequences

/-! ## Texts -/

section Texts

variable {bytes rest : List UInt8} {cs : List Char}

/-- A malformed piece is not part of a text. -/
theorem none_cons_ne_map_some (ps : List (Option Char)) : none :: ps ≠ cs.map some := by
  cases cs with
  | nil => exact List.cons_ne_nil _ _
  | cons c cs => exact fun h => Option.some_ne_none c (List.cons.inj h).1.symm

/-- The bytes of a character before those of a text are those of a longer text. -/
theorem append_eq_encode {c : Char} {sequence : List UInt8}
    (hc : String.utf8EncodeChar c = sequence)
    (ih : ∀ {ds : List Char}, pieces rest = ds.map some → rest = encode ds)
    (h : some c :: pieces rest = cs.map some) : sequence ++ rest = encode cs := by
  cases cs with
  | nil => cases h
  | cons d cs =>
    obtain ⟨hd, hrest⟩ := List.cons.inj h
    rw [← Option.some.inj hd, ← hc, ih hrest]
    rfl

/-- **Bytes without a malformed piece are the bytes of what is read from them.** -/
theorem eq_encode_of_pieces (h : pieces bytes = cs.map some) : bytes = encode cs := by
  fun_induction pieces bytes generalizing cs with
  | case1 =>
    rw [List.map_eq_nil_iff.1 h.symm]
    rfl
  | case2 x rest hx ih => exact append_eq_encode (utf8EncodeChar_one hx) ih h
  | case5 x hx least greatest y hy rest hlead ih =>
    have hopens := opens_of_leadInfo hlead (by simpa using hy)
    exact append_eq_encode (utf8EncodeChar_two hopens) ih h
  | case7 x hx least greatest y hy z hz rest hlead ih =>
    have hopens := opens_of_leadInfo hlead (by simpa using hy)
    exact append_eq_encode (utf8EncodeChar_three hopens hz) ih h
  | case9 x hx least greatest y hy z hz more w rest hw hlead ih =>
    obtain rfl : more = 0 := by
      have := (leadInfo_bounds hlead).1
      omega
    have hopens := opens_of_leadInfo hlead (by simpa using hy)
    exact append_eq_encode (utf8EncodeChar_four hopens hz hw) ih h
  | case3 | case4 | case6 | case8 | case10 | case11 | case12 =>
    exact absurd h (none_cons_ne_map_some _)

theorem pieces_of_decode? (h : decode? bytes = some cs) : pieces bytes = cs.map some := by
  unfold decode? at h
  generalize pieces bytes = ps at h
  induction ps generalizing cs with
  | nil =>
    obtain rfl : [] = cs := by simpa using h
    rfl
  | cons p ps ih =>
    rw [List.mapM_cons] at h
    cases p with
    | none => cases h
    | some c =>
      obtain ⟨d, hd, h⟩ := Option.bind_eq_some_iff.1 h
      obtain ⟨ds, hds, hcs⟩ := Option.bind_eq_some_iff.1 h
      obtain rfl : c = d := Option.some.inj hd
      rw [← Option.some.inj hcs, List.map_cons, ih hds]

/-- **A text is read from its own bytes**, and from no others. -/
theorem decode?_eq_some_iff : decode? bytes = some cs ↔ bytes = encode cs := by
  refine ⟨fun h => eq_encode_of_pieces (pieces_of_decode? h), ?_⟩
  rintro rfl
  exact decode?_encode cs

end Texts

end MatlabQuality.Text.Utf8
