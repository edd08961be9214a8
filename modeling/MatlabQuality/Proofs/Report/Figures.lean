import MatlabQuality.Proofs.Number.Grouping
import MatlabQuality.Proofs.Number.Layout
import MatlabQuality.Proofs.Report.Escape

/-!
# Numbers on a page

The pieces of a page that are no markup are escaped, the numbers among them.  That does not change a
number: it is written with digits and a few characters between and before them, and none of these
is a character of markup.  So a page has its numbers as they are written.

## Main definitions

* `isFigure`, `isNumber` — the characters that numbers are written with, and a text of them.
* `Page.Piece.numberAsMarkup` — a piece that is not escaped if it is a number.

## Main statements

* `isFigure_of_mem_writeChars` — a number is written with such characters in every layout.
* `Page.numberAsMarkup_count`, `Page.numberAsMarkup_cards` — counts and values on cards are numbers.
* `Page.render_map_numberAsMarkup` — a page is the same whether its numbers are escaped or not.
-/

namespace MatlabQuality

open MatlabQuality.Number

/-! ## Characters of numbers -/

/-- The characters that numbers are written with: digits, separators, signs and the letters of what
has no digits. -/
def isFigure (c : Char) : Bool :=
  isAsciiDigit c || [',', '.', '+', '-', 'e', 'i', 'n', 'f', 'N', 'a'].contains c

theorem isFigure_of_isAsciiDigit {c : Char} (h : isAsciiDigit c = true) : isFigure c = true := by
  rw [isFigure, h, Bool.true_or]

theorem isFigure_of_mem_decimalDigits {n : ℕ} {c : Char} (h : c ∈ decimalDigits n) :
    isFigure c = true :=
  isFigure_of_isAsciiDigit (isAsciiDigit_of_mem_decimalDigits h)

theorem isFigure_of_mem_signedDecimal {signsPositive : Bool} {i : ℤ} {c : Char}
    (h : c ∈ signedDecimal signsPositive i) : isFigure c = true := by
  rcases List.mem_append.1 h with hsign | hdigit
  · split at hsign
    · rw [List.mem_singleton.1 hsign]
      decide
    · split at hsign
      · rw [List.mem_singleton.1 hsign]
        decide
      · exact absurd hsign List.not_mem_nil
  · exact isFigure_of_mem_decimalDigits hdigit

theorem isFigure_of_mem_grouped {n : ℕ} {c : Char} (h : c ∈ (grouped n).toList) :
    isFigure c = true := by
  by_cases hc : c = ','
  · rw [hc]
    decide
  · have hdigit : c ∈ (grouped n).toList.filter (· ≠ ',') :=
      List.mem_filter.2 ⟨h, by simpa using hc⟩
    rw [filter_grouped] at hdigit
    exact isFigure_of_mem_decimalDigits hdigit

/-- The characters of a written size. -/
theorem isFigure_of_mem_chars {w : Written} {signsExponent : Bool}
    (hdigits : ∀ c ∈ w.whole ++ w.fraction, isAsciiDigit c = true) :
    ∀ c ∈ w.chars signsExponent, isFigure c = true := by
  obtain ⟨hwhole, hfraction⟩ := List.forall_mem_append.1 hdigits
  refine List.forall_mem_append.2 ⟨List.forall_mem_append.2 ⟨?_, ?_⟩, ?_⟩
  · exact fun c hc => isFigure_of_isAsciiDigit (hwhole c hc)
  · split
    · exact List.forall_mem_nil _
    · exact List.forall_mem_cons.2
        ⟨by decide, fun c hc => isFigure_of_isAsciiDigit (hfraction c hc)⟩
  · split
    · exact List.forall_mem_nil _
    · exact List.forall_mem_cons.2 ⟨by decide, fun c => isFigure_of_mem_signedDecimal⟩

/-- **A number is written with figures**, finite or not, in every layout. -/
theorem isFigure_of_mem_writeChars (layout : Layout) (x : Binary64) :
    ∀ c ∈ layout.writeChars x, isFigure c = true := by
  have hsign : ∀ negative : Bool, ∀ c ∈ if negative then ['-'] else [], isFigure c = true := by
    decide
  cases x with
  | finite negative a =>
    exact List.forall_mem_append.2
      ⟨hsign negative, isFigure_of_mem_chars (layout.isAsciiDigit_of_mem_parts a)⟩
  | infinite negative => exact List.forall_mem_append.2 ⟨hsign negative, by decide⟩
  | nan =>
    change ∀ c ∈ ['N', 'a', 'N'], isFigure c = true
    decide

/-! ## Written numbers -/

/-- A text of figures alone. -/
def isNumber (s : String) : Bool :=
  s.toList.all isFigure

theorem isNumber_decimal (n : ℕ) : isNumber (decimal n) = true := by
  rw [isNumber, decimal, String.toList_ofList, List.all_eq_true]
  exact fun c => isFigure_of_mem_decimalDigits

theorem isNumber_grouped (n : ℕ) : isNumber (grouped n) = true :=
  List.all_eq_true.2 fun _ => isFigure_of_mem_grouped

theorem isNumber_write (layout : Layout) (x : Binary64) : isNumber (layout.write x) = true := by
  rw [isNumber, Layout.write, String.toList_ofList, List.all_eq_true]
  exact isFigure_of_mem_writeChars layout x

/-- **Figures are no characters of markup.** -/
theorem isUnescaped_of_isNumber {s : String} (h : isNumber s = true) : IsUnescaped s :=
  .of_forall (p := isFigure) (by decide) (List.all_eq_true.1 h)

/-! ## Numbers among the pieces -/

namespace Page

/-- The piece as markup if it is a number. -/
def Piece.numberAsMarkup : Piece → Piece
  | .markup s => .markup s
  | .text s => if isNumber s then .markup s else .text s

theorem numberAsMarkup_text {s : String} (h : isNumber s = true) :
    (Piece.text s).numberAsMarkup = .markup s :=
  if_pos h

/-- Counts are numbers. -/
theorem numberAsMarkup_count (n : ℕ) : (count n).numberAsMarkup = .markup (decimal n) :=
  numberAsMarkup_text (isNumber_decimal n)

/-- A card has no text but its value. -/
theorem numberAsMarkup_card {value : String} (h : isNumber value = true) (label : String) :
    ∀ p ∈ card value label, ∃ s, p.numberAsMarkup = .markup s := by
  simp only [card, List.forall_mem_cons]
  exact ⟨⟨_, rfl⟩, ⟨value, numberAsMarkup_text h⟩, ⟨_, rfl⟩, List.forall_mem_nil _⟩

/-- The cards of a page have numbers for their values. -/
theorem numberAsMarkup_cards (report : Report) :
    ∀ p ∈ cards report, ∃ s, p.numberAsMarkup = .markup s := by
  simp only [cards, List.forall_mem_append, List.forall_mem_singleton]
  exact ⟨⟨⟨⟨⟨⟨⟨⟨_, rfl⟩, numberAsMarkup_card (isNumber_decimal _) _⟩,
    numberAsMarkup_card (isNumber_grouped _) _⟩, numberAsMarkup_card (isNumber_decimal _) _⟩,
    numberAsMarkup_card (isNumber_decimal _) _⟩, numberAsMarkup_card (isNumber_write plain _) _⟩,
    numberAsMarkup_card (isNumber_write plain _) _⟩, ⟨_, rfl⟩⟩

theorem Piece.render_numberAsMarkup (p : Piece) : p.numberAsMarkup.render = p.render := by
  cases p with
  | markup s => rfl
  | text s =>
    by_cases h : isNumber s = true
    · rw [numberAsMarkup_text h]
      exact (isUnescaped_of_isNumber h).escape_eq.symm
    · rw [numberAsMarkup, if_neg h]

/-- **A page is the same whether its numbers are escaped or not.** -/
theorem render_map_numberAsMarkup (report : Report) :
    render ((ofReport report).map Piece.numberAsMarkup) = report.pageText := by
  rw [render, List.map_map, Report.pageText, render]
  exact congrArg String.join (List.map_congr_left fun p _ => p.render_numberAsMarkup)

end Page

end MatlabQuality
