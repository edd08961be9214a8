import MatlabQuality.Proofs.Source.Body
import MatlabQuality.Proofs.Text.Lines
import MatlabQuality.Proofs.Text.Span

/-!
# The grammar of declarations

A declaration is read by functions that take one part after the other.  Beside them stands the
grammar: a line declares a function when it can be cut into indentation, the keyword, blanks,
outputs, a name, perhaps blanks, and parameters in parentheses.  Most cuts are forced, because each
part is followed by a character that cannot belong to it.  Two are not: parameters may reach over a
closing parenthesis, and bracketed outputs over a closing bracket.  Of all readings the shortest in
both respects is taken, and there is only one such reading.

## Main definitions

* `Outputs`, `Reading` — the parts of a line that declares a function.
* `Reading.Reads`, `Reading.IsChosen` — the readings of a line, and the one that is taken.

## Main statements

* `signature?_append`, `assigned?_append`, `bracketed?_eq_some_iff` — what each part is read as.
* `exists_isChosen_of_ofLine?` — what is read is a reading, and no reading is shorter.
* `Reading.IsChosen.unique` — one reading is taken at most.
* `scanFunctions_reads` — which functions are recorded, with which names and parameters.
-/

namespace MatlabQuality.Source

open MatlabQuality.Text

/-- A text of word characters, one at least. -/
structure IsWordText (cs : List Char) : Prop where
  ne_nil : cs ≠ []
  all : ∀ c ∈ cs, isWord c = true

namespace IsWordText

variable {cs : List Char}

/-- A word does not start with a blank. -/
theorem stops_isBlank (h : IsWordText cs) (rest : List Char) :
    ∀ c ∈ (cs ++ rest).head?, isBlank c = false := by
  obtain ⟨c, cs, rfl⟩ := List.exists_cons_of_ne_nil h.ne_nil
  intro d hd
  obtain rfl : c = d := Option.some.inj hd
  by_contra hblank
  have hword := h.all c List.mem_cons_self
  rw [isWord_of_isBlank (by simpa using hblank)] at hword
  cases hword

/-- A word ends at blanks, or at a character of no word. -/
theorem isSpan (h : IsWordText cs) {blanks : List Char} {d : Char}
    (hblanks : isAllBlank blanks = true) (hd : isWord d = false) (rest : List Char) :
    IsSpan isWord cs (blanks ++ d :: rest) := by
  have hnot : ∀ c ∈ blanks, isWord c = false :=
    fun c hc => isWord_of_isBlank (List.all_eq_true.1 hblanks c hc)
  exact ⟨h.all, stops_append hnot hd rest⟩

end IsWordText

theorem isWordText_takeWhile {cs : List Char} (h : cs.takeWhile isWord ≠ []) :
    IsWordText (cs.takeWhile isWord) :=
  ⟨h, (IsSpan.takeWhile_dropWhile isWord cs).all⟩

namespace Declaration

/-! ## The parts of a declaration -/

/-- What stands before the name of a function. -/
inductive Outputs where
  /-- No outputs. -/
  | none
  /-- One output, and an equals sign with the blanks around it. -/
  | one (name before after : List Char)
  /-- Any text in brackets, and an equals sign with the blanks around it. -/
  | bracketed (inner before after : List Char)
deriving Repr, DecidableEq

namespace Outputs

/-- The characters of outputs. -/
def text : Outputs → List Char
  | .none => []
  | .one name before after => name ++ before ++ ['='] ++ after
  | .bracketed inner before after => ['['] ++ inner ++ [']'] ++ before ++ ['='] ++ after

/-- Outputs made of what they should be made of. -/
def WellFormed : Outputs → Prop
  | .none => True
  | .one name before after =>
    IsWordText name ∧ isAllBlank before = true ∧ isAllBlank after = true
  | .bracketed _ before after => isAllBlank before = true ∧ isAllBlank after = true

/-- The text in brackets, if there is one. -/
def inner? : Outputs → Option (List Char)
  | .bracketed inner _ _ => some inner
  | _ => .none

end Outputs

/-- The parts of a line that declares a function. -/
structure Reading where
  indent : List Char
  /-- The blanks after the keyword. -/
  gap : List Char
  outputs : Outputs
  name : List Char
  /-- The blanks after the name. -/
  space : List Char
  /-- The text between the parentheses. -/
  parameters : List Char
  /-- What follows the closing parenthesis. -/
  rest : List Char
deriving Repr, DecidableEq

namespace Reading

/-- The name and the parameters, from the name on. -/
def signature (r : Reading) : List Char :=
  r.name ++ r.space ++ ['('] ++ r.parameters ++ [')'] ++ r.rest

/-- The line of which these are the parts. -/
def text (r : Reading) : List Char :=
  r.indent ++ "function".toList ++ r.gap ++ r.outputs.text ++ r.signature

/-- The parts are those of a line, each of them made of what it should be made of. -/
structure Reads (r : Reading) (line : List Char) : Prop where
  text_eq : r.text = line
  indent : isAllBlank r.indent = true
  gap_ne_nil : r.gap ≠ []
  gap : isAllBlank r.gap = true
  outputs : r.outputs.WellFormed
  name : IsWordText r.name
  space : isAllBlank r.space = true

/-- A reading of a line whose parameters hold no closing parenthesis, and whose bracketed outputs
are the shortest of all readings of the line. -/
structure IsChosen (r : Reading) (line : List Char) : Prop extends Reads r line where
  paren_notMem : ')' ∉ r.parameters
  shortest : ∀ other : Reading, other.Reads line →
    ∀ inner ∈ r.outputs.inner?, ∀ inner' ∈ other.outputs.inner?, inner.length ≤ inner'.length

end Reading

/-! ## Signatures -/

/-- Parameters end at the first closing parenthesis. -/
theorem takeWhile_parameters (parameters rest : List Char) :
    (parameters ++ ')' :: rest).takeWhile (· ≠ ')') = parameters.takeWhile (· ≠ ')') := by
  induction parameters with
  | nil => simp
  | cons c parameters ih =>
    by_cases hc : c = ')'
    · simp [hc]
    · simpa [hc] using ih

/-- **A signature is read** up to the first closing parenthesis of its parameters. -/
theorem signature?_append {name space : List Char} (hname : IsWordText name)
    (hspace : isAllBlank space = true) (parameters rest : List Char) :
    signature? (name ++ (space ++ '(' :: (parameters ++ ')' :: rest))) =
      some ⟨name, parameters.takeWhile (· ≠ ')')⟩ := by
  have hspan := hname.isSpan hspace (d := '(') (by decide) (parameters ++ ')' :: rest)
  have htrim : trimStart (space ++ '(' :: (parameters ++ ')' :: rest)) =
      '(' :: (parameters ++ ')' :: rest) :=
    trimStart_append hspace (stops_cons (by decide) _)
  have hmem : ')' ∈ parameters ++ ')' :: rest := by simp
  simp only [signature?, hspan.takeWhile_eq, hspan.dropWhile_eq, htrim, takeWhile_parameters]
  exact if_pos ⟨hname.ne_nil, hmem⟩

/-- What is read as a signature is one. -/
theorem exists_of_signature? {cs : List Char} {d : Declaration} (h : signature? cs = some d) :
    ∃ space rest, cs = d.name ++ (space ++ '(' :: (d.parameters ++ ')' :: rest)) ∧
      IsWordText d.name ∧ isAllBlank space = true ∧ ')' ∉ d.parameters := by
  unfold signature? at h
  dsimp only at h
  split at h
  · next rest hrest =>
    split_ifs at h with hsigned
    obtain rfl := Option.some.inj h
    have hspan := IsSpan.takeWhile_dropWhile (· ≠ ')') rest
    obtain ⟨tail, htail⟩ : ∃ tail, rest.dropWhile (· ≠ ')') = ')' :: tail := by
      cases hdrop : rest.dropWhile (· ≠ ')') with
      | nil =>
        have hall := List.dropWhile_eq_nil_iff.1 hdrop ')' hsigned.2
        simp at hall
      | cons c tail =>
        have hstop := hspan.stops c (by rw [hdrop]; rfl)
        exact ⟨tail, by rw [(by simpa using hstop : c = ')')]⟩
    refine ⟨(cs.dropWhile isWord).takeWhile isBlank, tail, ?_, isWordText_takeWhile hsigned.1,
      isAllBlank_takeWhile _, fun hmem => ?_⟩
    · dsimp only
      rw [← htail, List.takeWhile_append_dropWhile, ← hrest, takeWhile_append_trimStart,
        List.takeWhile_append_dropWhile]
    · have hne := hspan.all ')' hmem
      simp at hne
  · cases h

/-! ## Outputs -/

/-- **What an equals sign assigns** is the signature after it. -/
theorem assigned?_append {before after cs : List Char} (hbefore : isAllBlank before = true)
    (hafter : isAllBlank after = true) (hcs : ∀ c ∈ cs.head?, isBlank c = false) :
    assigned? (before ++ '=' :: (after ++ cs)) = signature? cs := by
  have hequals : trimStart (before ++ '=' :: (after ++ cs)) = '=' :: (after ++ cs) :=
    trimStart_append hbefore (stops_cons (by decide) _)
  simp only [assigned?, hequals, trimStart_append hafter hcs]

theorem exists_of_assigned? {cs : List Char} {d : Declaration} (h : assigned? cs = some d) :
    ∃ before after tail, cs = before ++ '=' :: (after ++ tail) ∧ isAllBlank before = true ∧
      isAllBlank after = true ∧ signature? tail = some d := by
  unfold assigned? at h
  split at h
  · next rest hrest =>
    refine ⟨cs.takeWhile isBlank, rest.takeWhile isBlank, trimStart rest, ?_,
      isAllBlank_takeWhile _, isAllBlank_takeWhile _, h⟩
    rw [takeWhile_append_trimStart, ← hrest, takeWhile_append_trimStart]
  · cases h

/-- **Bracketed outputs end at the first closing bracket that an assigned signature follows.** -/
theorem bracketed?_eq_some_iff {cs : List Char} {d : Declaration} :
    bracketed? cs = some d ↔
      ∃ inner tail, cs = inner ++ ']' :: tail ∧ assigned? tail = some d ∧
        ∀ inner' tail', cs = inner' ++ ']' :: tail' → (assigned? tail').isSome = true →
          inner.length ≤ inner'.length := by
  induction cs with
  | nil => simp [bracketed?]
  | cons c cs ih =>
    -- A bracket before which nothing stands is the first one.
    by_cases hfirst : c = ']' ∧ (assigned? cs).isSome = true
    · obtain ⟨rfl, hassigned⟩ := hfirst
      obtain ⟨d', hd'⟩ := Option.isSome_iff_exists.1 hassigned
      rw [bracketed?, if_pos rfl, hd', Option.some_or]
      constructor
      · intro h
        exact ⟨[], cs, rfl, hd'.trans h, fun _ _ _ _ => Nat.zero_le _⟩
      · rintro ⟨inner, tail, hcs, htail, hshortest⟩
        obtain rfl : inner = [] := List.length_eq_zero_iff.1
          (Nat.le_zero.1 (hshortest [] cs rfl hassigned))
        rw [← (List.cons.inj hcs).2, hd'] at htail
        exact htail
    · have hskip : bracketed? (c :: cs) = bracketed? cs := by
        by_cases hc : c = ']'
        · have hnone : assigned? cs = none := by simpa [hc] using hfirst
          rw [bracketed?, if_pos hc, hnone, Option.none_or]
        · rw [bracketed?, if_neg hc]
      rw [hskip, ih]
      constructor
      · rintro ⟨inner, tail, rfl, htail, hshortest⟩
        refine ⟨c :: inner, tail, rfl, htail, fun inner' tail' hcs hassigned => ?_⟩
        cases inner' with
        | nil =>
          obtain ⟨hc, hcs⟩ := List.cons.inj hcs
          exact absurd ⟨hc, hcs ▸ hassigned⟩ hfirst
        | cons e inner' =>
          exact Nat.succ_le_succ (hshortest inner' tail' (List.cons.inj hcs).2 hassigned)
      · rintro ⟨inner, tail, hcs, htail, hshortest⟩
        cases inner with
        | nil =>
          obtain ⟨hc, hcs⟩ := List.cons.inj hcs
          exact absurd ⟨hc, by rw [hcs, htail]; rfl⟩ hfirst
        | cons e inner =>
          obtain ⟨rfl, rfl⟩ := List.cons.inj hcs
          refine ⟨inner, tail, rfl, htail, fun inner' tail' hcs hassigned => ?_⟩
          have hle := hshortest (c :: inner') tail' (by rw [hcs]; rfl) hassigned
          exact Nat.le_of_succ_le_succ hle

theorem isSome_bracketed?_append (inner : List Char) {tail : List Char}
    (h : (assigned? tail).isSome = true) : (bracketed? (inner ++ ']' :: tail)).isSome = true := by
  induction inner with
  | nil => rw [List.nil_append, bracketed?, if_pos rfl, Option.isSome_or, h, Bool.true_or]
  | cons c inner ih =>
    rw [List.cons_append, bracketed?]
    split_ifs
    · rw [Option.isSome_or, ih, Bool.or_true]
    · exact ih

/-! ## Headers

What follows the keyword and its blanks: outputs, and then a signature. -/

theorem text_one_append (name before after cs : List Char) :
    (Outputs.one name before after).text ++ cs = name ++ (before ++ '=' :: (after ++ cs)) := by
  simp only [Outputs.text, List.append_assoc, List.cons_append, List.nil_append]

theorem text_bracketed_append (inner before after cs : List Char) :
    (Outputs.bracketed inner before after).text ++ cs =
      '[' :: (inner ++ ']' :: (before ++ '=' :: (after ++ cs))) := by
  simp only [Outputs.text, List.append_assoc, List.cons_append, List.nil_append]

/-- A header that starts with a word has one output or none. -/
theorem ofHeader?_append {word cs : List Char} (h : IsWordText word)
    (hcs : ∀ c ∈ cs.head?, isWord c = false) :
    ofHeader? (word ++ cs) = (assigned? cs).or (signature? (word ++ cs)) := by
  have hspan : IsSpan isWord word cs := ⟨h.all, hcs⟩
  unfold ofHeader?
  split
  · next rest heq =>
    have hbracket : isWord '[' = false := by decide
    have hword := hspan.takeWhile_eq
    rw [heq, List.takeWhile_cons_of_neg (by simp [hbracket])] at hword
    exact absurd hword.symm h.ne_nil
  · rw [leadingWord, hspan.takeWhile_eq, if_neg h.ne_nil, hspan.dropWhile_eq]

/-- The text of a signature that is read. -/
def Signed (cs : List Char) : Prop :=
  (signature? cs).isSome = true

theorem Signed.exists_eq_append {cs : List Char} (h : Signed cs) :
    ∃ name tail, cs = name ++ tail ∧ IsWordText name ∧ ∀ c ∈ tail.head?, isWord c = false := by
  obtain ⟨d, hd⟩ := Option.isSome_iff_exists.1 h
  obtain ⟨space, rest, hcs, hname, hspace, -⟩ := exists_of_signature? hd
  exact ⟨d.name, _, hcs, hname, (hname.isSpan hspace (by decide) _).stops⟩

theorem Signed.stops_isBlank {cs : List Char} (h : Signed cs) :
    ∀ c ∈ cs.head?, isBlank c = false := by
  obtain ⟨name, tail, rfl, hname, -⟩ := h.exists_eq_append
  exact hname.stops_isBlank tail

/-- **Outputs and a signature are read**, one way or another. -/
theorem isSome_ofHeader?_append {outputs : Outputs} (houtputs : outputs.WellFormed)
    {cs : List Char} (hcs : Signed cs) : (ofHeader? (outputs.text ++ cs)).isSome = true := by
  cases outputs with
  | none =>
    obtain ⟨name, tail, heq, hname, htail⟩ := hcs.exists_eq_append
    rw [Outputs.text, List.nil_append, heq, ofHeader?_append hname htail, ← heq,
      Option.isSome_or, hcs, Bool.or_true]
  | one name before after =>
    obtain ⟨hname, hbefore, hafter⟩ := houtputs
    have hstops := (hname.isSpan hbefore (d := '=') (by decide) (after ++ cs)).stops
    rw [text_one_append, ofHeader?_append hname hstops,
      assigned?_append hbefore hafter hcs.stops_isBlank, Option.isSome_or, hcs, Bool.true_or]
  | bracketed inner before after =>
    obtain ⟨hbefore, hafter⟩ := houtputs
    rw [text_bracketed_append, ofHeader?]
    refine isSome_bracketed?_append inner ?_
    rw [assigned?_append hbefore hafter hcs.stops_isBlank]
    exact hcs

/-- What is read as a header is outputs and a signature, and its bracketed outputs are the shortest
that a signature follows. -/
theorem exists_of_ofHeader? {header : List Char} {d : Declaration} (h : ofHeader? header = some d) :
    ∃ (outputs : Outputs) (cs : List Char), header = outputs.text ++ cs ∧ outputs.WellFormed ∧
      signature? cs = some d ∧
      ∀ (other : Outputs) (cs' : List Char), other.WellFormed → Signed cs' →
        header = other.text ++ cs' →
        ∀ inner ∈ outputs.inner?, ∀ inner' ∈ other.inner?, inner.length ≤ inner'.length := by
  unfold ofHeader? at h
  split at h
  · next rest =>
    obtain ⟨inner, tail, rfl, htail, hshortest⟩ := bracketed?_eq_some_iff.1 h
    obtain ⟨before, after, cs, rfl, hbefore, hafter, hcs⟩ := exists_of_assigned? htail
    refine ⟨.bracketed inner before after, cs, (text_bracketed_append _ _ _ _).symm,
      ⟨hbefore, hafter⟩, hcs, ?_⟩
    intro other cs' hother hcs' heq inner₁ hinner₁ inner₂ hinner₂
    obtain rfl : inner = inner₁ := Option.some.inj hinner₁
    cases other with
    | none => cases hinner₂
    | one => cases hinner₂
    | bracketed inner' before' after' =>
      obtain rfl : inner' = inner₂ := Option.some.inj hinner₂
      refine hshortest inner' (before' ++ '=' :: (after' ++ cs')) ?_ ?_
      · rw [text_bracketed_append] at heq
        exact (List.cons.inj heq).2
      · rw [assigned?_append hother.1 hother.2 hcs'.stops_isBlank]
        exact hcs'
  · split_ifs at h with hword
    rcases Option.or_eq_some_iff.1 h with hassigned | ⟨-, hsigned⟩
    · obtain ⟨before, after, cs, hdrop, hbefore, hafter, hcs⟩ := exists_of_assigned? hassigned
      refine ⟨.one (header.takeWhile isWord) before after, cs, ?_,
        ⟨isWordText_takeWhile hword, hbefore, hafter⟩, hcs, ?_⟩
      · rw [text_one_append, ← hdrop, List.takeWhile_append_dropWhile]
      · rintro _ _ - - - _ ⟨⟩
    · exact ⟨.none, header, rfl, trivial, hsigned, by rintro _ _ - - - _ ⟨⟩⟩

/-! ## Lines -/

/-- A header does not start with a blank. -/
theorem stops_isBlank_header {outputs : Outputs} (houtputs : outputs.WellFormed) {cs : List Char}
    (hcs : Signed cs) : ∀ c ∈ (outputs.text ++ cs).head?, isBlank c = false := by
  cases outputs with
  | none => exact hcs.stops_isBlank
  | one name before after =>
    rw [text_one_append]
    exact houtputs.1.stops_isBlank _
  | bracketed inner before after =>
    rw [text_bracketed_append]
    exact stops_cons (by decide) _

/-- The keyword, with what stands around it. -/
structure IsKeyworded (indent gap header : List Char) : Prop where
  indent : isAllBlank indent = true
  gap_ne_nil : gap ≠ []
  gap : isAllBlank gap = true
  header : ∀ c ∈ header.head?, isBlank c = false

namespace IsKeyworded

variable {indent gap header indent' gap' header' : List Char}

theorem isSpan_indent (h : IsKeyworded indent gap header) :
    IsSpan isBlank indent ("function".toList ++ (gap ++ header)) :=
  isSpan_blanks h.indent (stops_cons (by decide) _)

theorem isSpan_keyword (h : IsKeyworded indent gap header) :
    IsSpan isWord "function".toList (gap ++ header) := by
  obtain ⟨b, gap, rfl⟩ := List.exists_cons_of_ne_nil h.gap_ne_nil
  have hb : isBlank b = true := List.all_eq_true.1 h.gap b List.mem_cons_self
  exact ⟨by decide, stops_cons (isWord_of_isBlank hb) _⟩

/-- **After the keyword and its blanks the header is read.** -/
theorem ofLine?_eq (h : IsKeyworded indent gap header) :
    ofLine? (indent ++ ("function".toList ++ (gap ++ header))) = ofHeader? header := by
  have hgap : trimStart (gap ++ header) = header := trimStart_append h.gap h.header
  have hne : header ≠ gap ++ header := by
    intro heq
    have hlength := congrArg List.length heq
    have hpos := List.length_pos_iff.2 h.gap_ne_nil
    rw [List.length_append] at hlength
    omega
  simp only [ofLine?, trimStart, h.isSpan_indent.dropWhile_eq]
  rw [leadingWord, h.isSpan_keyword.takeWhile_eq, h.isSpan_keyword.dropWhile_eq, ← trimStart, hgap]
  exact if_pos ⟨rfl, hne⟩

/-- The cuts around the keyword are forced. -/
theorem inj (h : IsKeyworded indent gap header) (h' : IsKeyworded indent' gap' header')
    (heq : indent ++ ("function".toList ++ (gap ++ header)) =
      indent' ++ ("function".toList ++ (gap' ++ header'))) :
    indent = indent' ∧ gap = gap' ∧ header = header' := by
  obtain ⟨hindent, hrest⟩ := h.isSpan_indent.inj h'.isSpan_indent heq
  obtain ⟨hgap, hheader⟩ :=
    (isSpan_blanks h.gap h.header).inj (isSpan_blanks h'.gap h'.header)
      (List.append_cancel_left hrest)
  exact ⟨hindent, hgap, hheader⟩

end IsKeyworded

theorem exists_of_ofLine? {line : List Char} {d : Declaration} (h : ofLine? line = some d) :
    ∃ indent gap header, line = indent ++ ("function".toList ++ (gap ++ header)) ∧
      IsKeyworded indent gap header ∧ ofHeader? header = some d := by
  unfold ofLine? at h
  dsimp only at h
  split_ifs at h with hstart
  have hspan := IsSpan.takeWhile_dropWhile isBlank ((trimStart line).dropWhile isWord)
  refine ⟨line.takeWhile isBlank, ((trimStart line).dropWhile isWord).takeWhile isBlank, _, ?_,
    ⟨isAllBlank_takeWhile _, ?_, isAllBlank_takeWhile _, hspan.stops⟩, h⟩
  · have hkeyword : "function".toList ++ (trimStart line).dropWhile isWord = trimStart line := by
      rw [← hstart.1, leadingWord, List.takeWhile_append_dropWhile]
    rw [List.takeWhile_append_dropWhile, hkeyword, takeWhile_append_trimStart]
  · intro hnil
    have hcut := List.takeWhile_append_dropWhile (p := isBlank)
      (l := (trimStart line).dropWhile isWord)
    rw [hnil, List.nil_append] at hcut
    exact hstart.2 hcut

namespace Reading

variable {r r' : Reading} {line : List Char}

theorem text_eq_append (r : Reading) :
    r.text = r.indent ++ ("function".toList ++ (r.gap ++ (r.outputs.text ++ r.signature))) := by
  simp only [text, List.append_assoc]

theorem signature_eq_append (r : Reading) :
    r.signature = r.name ++ (r.space ++ '(' :: (r.parameters ++ ')' :: r.rest)) := by
  simp only [signature, List.append_assoc, List.cons_append, List.nil_append]

namespace Reads

theorem signed (h : r.Reads line) : Signed r.signature := by
  rw [Signed, signature_eq_append, signature?_append h.name h.space]
  rfl

theorem isKeyworded (h : r.Reads line) :
    IsKeyworded r.indent r.gap (r.outputs.text ++ r.signature) :=
  ⟨h.indent, h.gap_ne_nil, h.gap, stops_isBlank_header h.outputs h.signed⟩

/-- The cuts around the keyword are the same in all readings of a line. -/
theorem header_eq (h : r.Reads line) (h' : r'.Reads line) :
    r.indent = r'.indent ∧ r.gap = r'.gap ∧
      r.outputs.text ++ r.signature = r'.outputs.text ++ r'.signature := by
  refine h.isKeyworded.inj h'.isKeyworded ?_
  rw [← text_eq_append, ← text_eq_append, h.text_eq, h'.text_eq]

/-- **A line that the grammar has is read.** -/
theorem isSome_ofLine? (h : r.Reads line) : (ofLine? line).isSome = true := by
  rw [← h.text_eq, text_eq_append, h.isKeyworded.ofLine?_eq]
  exact isSome_ofHeader?_append h.outputs h.signed

end Reads

end Reading

/-- **What is read is a reading that is chosen**: no reading is shorter. -/
theorem exists_isChosen_of_ofLine? {line : List Char} {d : Declaration}
    (h : ofLine? line = some d) :
    ∃ r : Reading, r.IsChosen line ∧ r.name = d.name ∧ r.parameters = d.parameters := by
  obtain ⟨indent, gap, header, hline, hkeyworded, hheader⟩ := exists_of_ofLine? h
  obtain ⟨outputs, cs, rfl, houtputs, hcs, hshortest⟩ := exists_of_ofHeader? hheader
  obtain ⟨space, rest, rfl, hname, hspace, hparen⟩ := exists_of_signature? hcs
  let r : Reading := ⟨indent, gap, outputs, d.name, space, d.parameters, rest⟩
  have hreads : r.Reads line :=
    { text_eq := by rw [hline, Reading.text_eq_append, Reading.signature_eq_append]
      indent := hkeyworded.indent
      gap_ne_nil := hkeyworded.gap_ne_nil
      gap := hkeyworded.gap
      outputs := houtputs
      name := hname
      space := hspace }
  refine ⟨r, ⟨hreads, hparen, fun other hother => ?_⟩, rfl, rfl⟩
  refine hshortest other.outputs other.signature hother.outputs hother.signed ?_
  rw [← (hreads.header_eq hother).2.2, Reading.signature_eq_append]

/-! ## One reading -/

/-- **Signatures are cut in one way** when no parameters hold a closing parenthesis. -/
theorem signature_inj {name space parameters rest name' space' parameters' rest' : List Char}
    (hname : IsWordText name) (hspace : isAllBlank space = true) (hparen : ')' ∉ parameters)
    (hname' : IsWordText name') (hspace' : isAllBlank space' = true) (hparen' : ')' ∉ parameters')
    (heq : name ++ (space ++ '(' :: (parameters ++ ')' :: rest)) =
      name' ++ (space' ++ '(' :: (parameters' ++ ')' :: rest'))) :
    name = name' ∧ space = space' ∧ parameters = parameters' ∧ rest = rest' := by
  have hword : isWord '(' = false := by decide
  have hblank : isBlank '(' = false := by decide
  have hspan : ∀ {ps : List Char}, ')' ∉ ps → ∀ tail, IsSpan (· ≠ ')') ps (')' :: tail) := by
    intro ps hps tail
    refine ⟨fun c hc => decide_eq_true ?_, stops_cons (by simp) tail⟩
    rintro rfl
    exact hps hc
  obtain ⟨hnames, hafterName⟩ :=
    (hname.isSpan hspace hword _).inj (hname'.isSpan hspace' hword _) heq
  obtain ⟨hspaces, hafterSpace⟩ := (isSpan_blanks hspace (stops_cons hblank _)).inj
    (isSpan_blanks hspace' (stops_cons hblank _)) hafterName
  obtain ⟨hparameters, hafterParameters⟩ :=
    (hspan hparen _).inj (hspan hparen' _) (List.cons.inj hafterSpace).2
  exact ⟨hnames, hspaces, hparameters, (List.cons.inj hafterParameters).2⟩

/-- **An equals sign is reached in one way.** -/
theorem assigned_inj {before after cs before' after' cs' : List Char}
    (hbefore : isAllBlank before = true) (hafter : isAllBlank after = true) (hcs : Signed cs)
    (hbefore' : isAllBlank before' = true) (hafter' : isAllBlank after' = true)
    (hcs' : Signed cs')
    (heq : before ++ '=' :: (after ++ cs) = before' ++ '=' :: (after' ++ cs')) :
    before = before' ∧ after = after' ∧ cs = cs' := by
  have hblank : isBlank '=' = false := by decide
  obtain ⟨hbefores, htail⟩ := (isSpan_blanks hbefore (stops_cons hblank _)).inj
    (isSpan_blanks hbefore' (stops_cons hblank _)) heq
  obtain ⟨hafters, hrest⟩ := (isSpan_blanks hafter hcs.stops_isBlank).inj
    (isSpan_blanks hafter' hcs'.stops_isBlank) (List.cons.inj htail).2
  exact ⟨hbefores, hafters, hrest⟩

/-- One output is not read as a name: an equals sign follows it. -/
theorem text_one_append_ne {name before after cs cs' : List Char}
    (houtputs : (Outputs.one name before after).WellFormed) (hcs' : Signed cs') :
    (Outputs.one name before after).text ++ cs ≠ cs' := by
  obtain ⟨hname, hbefore, -⟩ := houtputs
  obtain ⟨d, hd⟩ := Option.isSome_iff_exists.1 hcs'
  obtain ⟨space, rest, hcs', hname', hspace, -⟩ := exists_of_signature? hd
  intro heq
  rw [hcs', text_one_append] at heq
  obtain ⟨-, htail⟩ := (hname.isSpan hbefore (by decide) _).inj
    (hname'.isSpan hspace (by decide) _) heq
  obtain ⟨-, hsign⟩ := (isSpan_blanks hbefore (stops_cons (by decide) _)).inj
    (isSpan_blanks hspace (stops_cons (by decide) _)) htail
  exact absurd (List.cons.inj hsign).1 (by decide)

/-- Brackets are not read as a word. -/
theorem text_bracketed_append_ne {inner before after cs header word tail : List Char}
    (hheader : header = word ++ tail) (hword : IsWordText word) :
    (Outputs.bracketed inner before after).text ++ cs ≠ header := by
  obtain ⟨c, word, rfl⟩ := List.exists_cons_of_ne_nil hword.ne_nil
  have hc := hword.all c List.mem_cons_self
  intro heq
  rw [hheader] at heq
  obtain rfl : '[' = c := (List.cons.inj heq).1
  exact absurd hc (by decide)

/-- **Outputs are cut in one way**, up to the length of the text in brackets. -/
theorem outputs_inj {outputs outputs' : Outputs} {cs cs' : List Char}
    (houtputs : outputs.WellFormed) (hcs : Signed cs) (houtputs' : outputs'.WellFormed)
    (hcs' : Signed cs')
    (hlength : ∀ inner ∈ outputs.inner?, ∀ inner' ∈ outputs'.inner?,
      inner.length = inner'.length)
    (heq : outputs.text ++ cs = outputs'.text ++ cs') : outputs = outputs' ∧ cs = cs' := by
  cases outputs with
  | none =>
    cases outputs' with
    | none => exact ⟨rfl, heq⟩
    | one => exact absurd heq.symm (text_one_append_ne houtputs' hcs)
    | bracketed =>
      obtain ⟨name, tail, hstart, hname, -⟩ := hcs.exists_eq_append
      exact absurd heq.symm (text_bracketed_append_ne hstart hname)
  | one name before after =>
    cases outputs' with
    | none => exact absurd heq (text_one_append_ne houtputs hcs')
    | one name' before' after' =>
      obtain ⟨hname, hbefore, hafter⟩ := houtputs
      obtain ⟨hname', hbefore', hafter'⟩ := houtputs'
      rw [text_one_append, text_one_append] at heq
      obtain ⟨rfl, htail⟩ := (hname.isSpan hbefore (by decide) _).inj
        (hname'.isSpan hbefore' (by decide) _) heq
      obtain ⟨rfl, rfl, rfl⟩ := assigned_inj hbefore hafter hcs hbefore' hafter' hcs' htail
      exact ⟨rfl, rfl⟩
    | bracketed =>
      exact absurd heq.symm (text_bracketed_append_ne (text_one_append _ _ _ _) houtputs.1)
  | bracketed inner before after =>
    cases outputs' with
    | none =>
      obtain ⟨name, tail, hstart, hname, -⟩ := hcs'.exists_eq_append
      exact absurd heq (text_bracketed_append_ne hstart hname)
    | one => exact absurd heq (text_bracketed_append_ne (text_one_append _ _ _ _) houtputs'.1)
    | bracketed inner' before' after' =>
      rw [text_bracketed_append, text_bracketed_append] at heq
      obtain ⟨rfl, htail⟩ := List.append_inj (List.cons.inj heq).2 (hlength _ rfl _ rfl)
      obtain ⟨rfl, rfl, rfl⟩ := assigned_inj houtputs.1 houtputs.2 hcs houtputs'.1 houtputs'.2 hcs'
        (List.cons.inj htail).2
      exact ⟨rfl, rfl⟩

/-- **One reading of a line is chosen at most.** -/
theorem Reading.IsChosen.unique {r r' : Reading} {line : List Char} (h : r.IsChosen line)
    (h' : r'.IsChosen line) : r = r' := by
  obtain ⟨hindent, hgap, hheader⟩ := h.toReads.header_eq h'.toReads
  have hlength : ∀ inner ∈ r.outputs.inner?, ∀ inner' ∈ r'.outputs.inner?,
      inner.length = inner'.length := fun inner hinner inner' hinner' =>
    Nat.le_antisymm (h.shortest r' h'.toReads inner hinner inner' hinner')
      (h'.shortest r h.toReads inner' hinner' inner hinner)
  obtain ⟨houtputs, hsignature⟩ := outputs_inj h.outputs h.toReads.signed h'.outputs
    h'.toReads.signed hlength hheader
  rw [Reading.signature_eq_append, Reading.signature_eq_append] at hsignature
  obtain ⟨hname, hspace, hparameters, hrest⟩ := signature_inj h.name h.space h.paren_notMem h'.name
    h'.space h'.paren_notMem hsignature
  cases r
  cases r'
  simp only [Reading.mk.injEq]
  exact ⟨hindent, hgap, houtputs, hname, hspace, hparameters, hrest⟩

end Declaration

/-! ## Recorded functions -/

/-- What a declared line is recorded as. -/
theorem mem_functionsFrom_of_functionAt {before after : List (List Char)} {line : List Char}
    {number : Nat} {f : FunctionRecord}
    (h : functionAt (number + before.length) line after = some f) :
    f ∈ functionsFrom number (before ++ line :: after) := by
  induction before generalizing number with
  | nil =>
    rw [List.nil_append, functionsFrom_cons]
    exact List.mem_append_left _ (Option.mem_toList.2 h)
  | cons other before ih =>
    rw [List.cons_append, functionsFrom_cons]
    refine List.mem_append_right _ (ih ?_)
    rw [← h, List.length_cons]
    congr 1
    omega

/-- **The function that a line of a source declares** is recorded with the number of the line. -/
theorem mem_scanFunctions_iff {source : List Char} {n : Nat} {line : List Char}
    (hline : (lines source)[n]? = some line) {f : FunctionRecord} :
    f ∈ scanFunctions source ∧ f.declarationLine = n + 1 ↔
      functionAt (n + 1) line ((lines source).drop (n + 1)) = some f := by
  obtain ⟨hn, hget⟩ := List.getElem?_eq_some_iff.1 hline
  have hsplit : lines source = (lines source).take n ++ line :: (lines source).drop (n + 1) := by
    rw [← hget, List.getElem_cons_drop, List.take_append_drop]
  have hlength : ((lines source).take n).length = n := by
    rw [List.length_take]
    omega
  constructor
  · rintro ⟨hmem, hnumber⟩
    obtain ⟨before, line', after, hls, hf⟩ := exists_of_mem_functionsFrom hmem
    have hbefore : before.length = n := by
      have := (eq_of_functionAt hf).1
      omega
    obtain ⟨rfl, hrest⟩ := List.append_inj (hls.symm.trans hsplit) (hbefore.trans hlength.symm)
    obtain ⟨rfl, rfl⟩ := List.cons.inj hrest
    rw [← hf, hbefore, Nat.add_comm]
  · intro hf
    refine ⟨?_, (eq_of_functionAt hf).1⟩
    rw [scanFunctions, hsplit]
    refine mem_functionsFrom_of_functionAt ?_
    rw [hlength, Nat.add_comm, hf]

/-- The parameters of a parameter text are counted in any way to write it with commas between
pieces. -/
theorem countParameters_joinWith {pieces : List (List Char)} (hne : pieces ≠ [])
    (h : ∀ piece ∈ pieces, ',' ∉ piece) :
    countParameters (joinWith [','] pieces) = pieces.countP fun piece => !isAllBlank piece := by
  rw [countParameters, splitOn_joinWith hne h]

open Declaration in
/-- **Declarations are read by their grammar.**  A line of a source is recorded as a function
exactly when it has a reading.  One of its readings is chosen: parameters end at the first closing
parenthesis, and outputs at the first closing bracket that leaves a reading.  It gives the one
record of the line its name and its parameters, which are the pieces between commas that are not all
blank. -/
theorem scanFunctions_reads {source : List Char} {n : Nat} {line : List Char}
    (hline : (lines source)[n]? = some line) :
    ((∃ f ∈ scanFunctions source, f.declarationLine = n + 1) ↔
      ∃ r : Reading, r.Reads line) ∧
    ((∃ r : Reading, r.Reads line) → ∃! r : Reading, r.IsChosen line) ∧
    ∀ r : Reading, r.IsChosen line →
      ∃ f, (scanFunctions source).filter (·.declarationLine = n + 1) = [f] ∧
        f.name = String.ofList r.name ∧
        ∀ pieces, pieces ≠ [] → (∀ piece ∈ pieces, ',' ∉ piece) →
          joinWith [','] pieces = r.parameters →
          f.parameterCount = pieces.countP fun piece => !isAllBlank piece := by
  have hchosen : (∃ r : Reading, r.Reads line) →
      ∃ d, ofLine? line = some d ∧ ∃ r : Reading, r.IsChosen line ∧ r.name = d.name ∧
        r.parameters = d.parameters := by
    rintro ⟨r, hr⟩
    obtain ⟨d, hd⟩ := Option.isSome_iff_exists.1 hr.isSome_ofLine?
    exact ⟨d, hd, exists_isChosen_of_ofLine? hd⟩
  refine ⟨⟨?_, ?_⟩, ?_, ?_⟩
  · rintro ⟨f, hmem, hnumber⟩
    obtain ⟨d, hd, -⟩ := Option.map_eq_some_iff.1 ((mem_scanFunctions_iff hline).1 ⟨hmem, hnumber⟩)
    obtain ⟨r, hr, -⟩ := exists_isChosen_of_ofLine? hd
    exact ⟨r, hr.toReads⟩
  · intro hreads
    obtain ⟨d, hd, -⟩ := hchosen hreads
    exact ⟨_, (mem_scanFunctions_iff hline).2 (by rw [functionAt, hd]; rfl)⟩
  · intro hreads
    obtain ⟨-, -, r, hr, -⟩ := hchosen hreads
    exact ⟨r, hr, fun r' hr' => hr'.unique hr⟩
  · intro r hr
    obtain ⟨d, hd, r', hr', hname, hparameters⟩ := hchosen ⟨r, hr.toReads⟩
    obtain rfl := hr.unique hr'
    obtain ⟨hmem, hnumber⟩ := (mem_scanFunctions_iff hline).2 (by rw [functionAt, hd]; rfl)
    refine ⟨_, hnumber ▸ filter_declarationLine_eq (pairwise_functionsFrom 1 (lines source)) hmem,
      by rw [hname], fun pieces hne hpieces hjoin => ?_⟩
    rw [← countParameters_joinWith hne hpieces, hjoin, hparameters]

open Declaration in
/-- Outputs that reach over a bracket, and a parameter that is blank. -/
theorem scanFunctions_reads_bracketed :
    let source := "x\n\tfunction  [a] b] = f (p, ,q) % (r)".toList
    let line := "\tfunction  [a] b] = f (p, ,q) % (r)".toList
    (lines source)[1]? = some line ∧
      ∃ r : Reading, r.IsChosen line ∧ r.name = "f".toList ∧ r.parameters = "p, ,q".toList ∧
        ∃ f, (scanFunctions source).filter (·.declarationLine = 2) = [f] ∧ f.name = "f" ∧
          f.parameterCount = 2 := by
  intro source line
  have hline : (lines source)[1]? = some line := by decide
  have hread : ofLine? line = some ⟨"f".toList, "p, ,q".toList⟩ := by decide
  obtain ⟨r, hr, hname, hparameters⟩ := exists_isChosen_of_ofLine? hread
  obtain ⟨f, hf, hrecorded, hcount⟩ := (scanFunctions_reads hline).2.2 r hr
  refine ⟨hline, r, hr, hname, hparameters, f, hf, ?_, ?_⟩
  · rw [hrecorded, hname, String.ofList_toList]
  · rw [hcount ["p".toList, " ".toList, "q".toList] (by decide) (by decide) hparameters.symm]
    decide

end MatlabQuality.Source
