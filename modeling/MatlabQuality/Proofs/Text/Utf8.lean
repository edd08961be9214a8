import Mathlib.Algebra.Ring.Nat
import MatlabQuality.Text.Utf8

/-!
# Reading UTF-8 back

The bytes of a character are read as that character, whatever follows, so the bytes of a text are
read as the text.

## Main statements

* `pieces_utf8EncodeChar_append` — the bytes of one character.
* `decode?_encode` — the bytes of a text.
-/

namespace MatlabQuality.Text.Utf8

/-! ## Sequences of each length -/

theorem pieces_one {a : UInt8} (ha : a < 0x80) (rest : List UInt8) :
    pieces (a :: rest) = some (Char.ofNat a.toNat) :: pieces rest := by
  rw [pieces, if_pos ha]

theorem pieces_two {a b least greatest : UInt8} (ha : ¬ a < 0x80)
    (hlead : leadInfo a = some (0, least, greatest)) (hb : least ≤ b ∧ b ≤ greatest)
    (rest : List UInt8) :
    pieces (a :: b :: rest) = some (Char.ofNat (low 5 a * 64 + low 6 b)) :: pieces rest := by
  rw [pieces, if_neg ha, hlead]
  simp [hb]

theorem pieces_three {a b c least greatest : UInt8} (ha : ¬ a < 0x80)
    (hlead : leadInfo a = some (1, least, greatest)) (hb : least ≤ b ∧ b ≤ greatest)
    (hc : isContinuation c = true) (rest : List UInt8) :
    pieces (a :: b :: c :: rest) =
      some (Char.ofNat ((low 4 a * 64 + low 6 b) * 64 + low 6 c)) :: pieces rest := by
  rw [pieces, if_neg ha, hlead]
  simp [hb, hc]

theorem pieces_four {a b c d least greatest : UInt8} (ha : ¬ a < 0x80)
    (hlead : leadInfo a = some (2, least, greatest)) (hb : least ≤ b ∧ b ≤ greatest)
    (hc : isContinuation c = true) (hd : isContinuation d = true) (rest : List UInt8) :
    pieces (a :: b :: c :: d :: rest) =
      some (Char.ofNat (((low 3 a * 64 + low 6 b) * 64 + low 6 c) * 64 + low 6 d)) ::
        pieces rest := by
  rw [pieces, if_neg ha, hlead]
  simp [hb, hc, hd]

/-! ## Bytes as numbers -/

theorem toNat_ofNat_of_lt {n : Nat} (h : n < 256) : (UInt8.ofNat n).toNat = n := by
  rw [UInt8.toNat_ofNat']
  exact Nat.mod_eq_of_lt h

theorem ofNat_between {l n g : Nat} (h : l ≤ n ∧ n ≤ g) (hg : g < 256) :
    UInt8.ofNat l ≤ UInt8.ofNat n ∧ UInt8.ofNat n ≤ UInt8.ofNat g := by
  rw [UInt8.le_iff_toNat_le, UInt8.le_iff_toNat_le, toNat_ofNat_of_lt hg,
    toNat_ofNat_of_lt (by omega), toNat_ofNat_of_lt (by omega)]
  exact h

theorem isContinuation_ofNat {n : Nat} (h : n < 64) :
    isContinuation (UInt8.ofNat (n + 128)) = true := by
  have hbetween := ofNat_between (l := 128) (n := n + 128) (g := 191) (by omega) (by omega)
  simpa [isContinuation] using hbetween

theorem low_ofNat {bits n : Nat} (h : n < 256) : low bits (UInt8.ofNat n) = n % 2 ^ bits := by
  rw [low, toNat_ofNat_of_lt h]
  rfl

/-- The byte `m` starts a sequence with `more` bytes behind its second one, which may be `n`. -/
def Leads (more m n : Nat) : Prop :=
  ∃ least greatest, leadInfo (UInt8.ofNat m) = some (more, least, greatest) ∧
    least ≤ UInt8.ofNat n ∧ UInt8.ofNat n ≤ greatest

theorem leads_two {m n : Nat} (hm : 194 ≤ m ∧ m ≤ 223) (hn : 128 ≤ n ∧ n ≤ 191) :
    Leads 0 m n := by
  have hlead : ∀ k < 30, leadInfo (UInt8.ofNat (k + 194)) = some (0, 0x80, 0xBF) := by decide
  obtain ⟨k, rfl⟩ := Nat.exists_eq_add_of_le' hm.1
  exact ⟨_, _, hlead k (by omega), ofNat_between (l := 128) (g := 191) hn (by omega)⟩

/-- Overlong forms and surrogates are excluded by the second byte. -/
theorem leads_three {m n : Nat} (hm : 224 ≤ m ∧ m ≤ 239) (hn : 128 ≤ n ∧ n ≤ 191)
    (hlong : m = 224 → 160 ≤ n) (hsurrogate : m = 237 → n ≤ 159) : Leads 1 m n := by
  have hlead : ∀ k < 16, k = 0 ∨ k = 13 ∨
      leadInfo (UInt8.ofNat (k + 224)) = some (1, 0x80, 0xBF) := by decide
  obtain ⟨k, rfl⟩ := Nat.exists_eq_add_of_le' hm.1
  rcases hlead k (by omega) with rfl | rfl | hlead
  · exact ⟨0xA0, 0xBF, rfl, ofNat_between (l := 160) (g := 191) (by omega) (by omega)⟩
  · exact ⟨0x80, 0x9F, rfl, ofNat_between (l := 128) (g := 159) (by omega) (by omega)⟩
  · exact ⟨_, _, hlead, ofNat_between (l := 128) (g := 191) hn (by omega)⟩

/-- Overlong forms and values past the last code point are excluded by the second byte. -/
theorem leads_four {m n : Nat} (hm : 240 ≤ m ∧ m ≤ 244) (hn : 128 ≤ n ∧ n ≤ 191)
    (hlong : m = 240 → 144 ≤ n) (hlast : m = 244 → n ≤ 143) : Leads 2 m n := by
  have hlead : ∀ k < 5, k = 0 ∨ k = 4 ∨
      leadInfo (UInt8.ofNat (k + 240)) = some (2, 0x80, 0xBF) := by decide
  obtain ⟨k, rfl⟩ := Nat.exists_eq_add_of_le' hm.1
  rcases hlead k (by omega) with rfl | rfl | hlead
  · exact ⟨0x90, 0xBF, rfl, ofNat_between (l := 144) (g := 191) (by omega) (by omega)⟩
  · exact ⟨0x80, 0x8F, rfl, ofNat_between (l := 128) (g := 143) (by omega) (by omega)⟩
  · exact ⟨_, _, hlead, ofNat_between (l := 128) (g := 191) hn (by omega)⟩

theorem not_ofNat_lt {m : Nat} (h : 128 ≤ m ∧ m < 256) : ¬ UInt8.ofNat m < 0x80 := by
  rw [UInt8.lt_iff_toNat_lt, toNat_ofNat_of_lt h.2]
  exact Nat.not_lt.2 h.1

/-! ## Texts -/

/-- **The bytes of a character are read as the character.** -/
theorem pieces_utf8EncodeChar_append (c : Char) (rest : List UInt8) :
    pieces (String.utf8EncodeChar c ++ rest) = some c :: pieces rest := by
  have hvalid : c.val.toNat < 0xD800 ∨ 0xDFFF < c.val.toNat ∧ c.val.toNat < 0x110000 := c.valid
  have hc : Char.ofNat c.val.toNat = c := Char.ofNat_toNat c
  rw [String.utf8EncodeChar.eq_1]
  generalize c.val.toNat = v at hvalid hc
  split
  · rw [List.singleton_append, pieces_one, toNat_ofNat_of_lt (by omega), hc]
    rw [UInt8.lt_iff_toNat_lt, toNat_ofNat_of_lt (by omega)]
    exact Nat.lt_succ_of_le ‹_›
  · split
    · obtain ⟨_, _, hlead, hb⟩ := leads_two (m := v / 64 % 32 + 192) (n := v % 64 + 128)
        (by omega) (by omega)
      have hv : (v / 64 % 32 + 192) % 2 ^ 5 * 64 + (v % 64 + 128) % 2 ^ 6 = v := by omega
      simp only [List.cons_append, List.nil_append]
      rw [pieces_two (not_ofNat_lt (by omega)) hlead hb, low_ofNat (by omega),
        low_ofNat (by omega), hv, hc]
    · split
      · obtain ⟨_, _, hlead, hb⟩ := leads_three (m := v / 4096 % 16 + 224)
          (n := v / 64 % 64 + 128) (by omega) (by omega) (by omega) (by omega)
        have hv : ((v / 4096 % 16 + 224) % 2 ^ 4 * 64 + (v / 64 % 64 + 128) % 2 ^ 6) * 64
            + (v % 64 + 128) % 2 ^ 6 = v := by omega
        simp only [List.cons_append, List.nil_append]
        rw [pieces_three (not_ofNat_lt (by omega)) hlead hb (isContinuation_ofNat (by omega)),
          low_ofNat (by omega), low_ofNat (by omega), low_ofNat (by omega), hv, hc]
      · obtain ⟨_, _, hlead, hb⟩ := leads_four (m := v / 262144 % 8 + 240)
          (n := v / 4096 % 64 + 128) (by omega) (by omega) (by omega) (by omega)
        have hv : (((v / 262144 % 8 + 240) % 2 ^ 3 * 64 + (v / 4096 % 64 + 128) % 2 ^ 6) * 64
            + (v / 64 % 64 + 128) % 2 ^ 6) * 64 + (v % 64 + 128) % 2 ^ 6 = v := by omega
        simp only [List.cons_append, List.nil_append]
        rw [pieces_four (not_ofNat_lt (by omega)) hlead hb (isContinuation_ofNat (by omega))
          (isContinuation_ofNat (by omega)), low_ofNat (by omega), low_ofNat (by omega),
          low_ofNat (by omega), low_ofNat (by omega), hv, hc]

theorem pieces_encode (cs : List Char) : pieces (encode cs) = cs.map some := by
  induction cs with
  | nil => rfl
  | cons c cs ih =>
    rw [encode, List.flatMap_cons, pieces_utf8EncodeChar_append, List.map_cons, ← ih]
    rfl

/-- **The bytes of a text are read as the text.** -/
theorem decode?_encode (cs : List Char) : decode? (encode cs) = some cs := by
  rw [decode?, pieces_encode]
  induction cs with
  | nil => rfl
  | cons c cs ih => simp [ih]

end MatlabQuality.Text.Utf8
