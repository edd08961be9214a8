import MatlabQuality.Proofs.Report.Escape
import MatlabQuality.Proofs.Report.Markup

/-!
# The template of the page

The markup of a page is tidy in every section, so the tags of a page are those of its markup, and
its delimiters too.  Three tags stand before texts that are read back: those of a description, of a
suggestion and of an item of a list.  Markup without them is plain.

## Main definitions

* `chars` — the characters of some pieces.
* `Piece.blank` — a piece without its text.
* `Plain`, `PlainPieces` — tidy markup without the three tags, and pieces with such markup.
* `EndsIn` — plain markup with a tag behind it.

## Main statements

* `tags_chars_append`, `filter_isDelimiter_chars` — the tags and the delimiters of pieces.
* `exists_chars_smellItem`, `exists_chars_recommendationItem` — where the read texts stand.
* `exists_ofReport_eq` — a page is plain but for its findings and its recommendations.
-/

namespace MatlabQuality.Page

open MatlabQuality.Source

/-! ## The characters of pieces -/

/-- The characters of some pieces. -/
def chars (pieces : List Piece) : List Char :=
  pieces.flatMap (·.render.toList)

/-- The characters of the markup in a piece. -/
def Piece.markupChars : Piece → List Char
  | .markup s => s.toList
  | .text _ => []

/-- A piece without its text. -/
def Piece.blank : Piece → Piece
  | .markup s => .markup s
  | .text _ => .text ""

@[simp] theorem Piece.blank_markup (s : String) : (Piece.markup s).blank = .markup s := rfl

@[simp] theorem Piece.blank_text (s : String) : (Piece.text s).blank = .text "" := rfl

@[simp] theorem Piece.markupChars_blank (p : Piece) : p.blank.markupChars = p.markupChars := by
  cases p <;> rfl

theorem toList_render (pieces : List Piece) : (render pieces).toList = chars pieces := by
  simp [render, chars, List.flatMap_map]

@[simp] theorem chars_append (ps qs : List Piece) : chars (ps ++ qs) = chars ps ++ chars qs :=
  List.flatMap_append

theorem toList_escape (s : String) : (escape s).toList = escapeChars s.toList := by
  simp [escape]

/-- The tags of pieces whose markup is tidy are those of their markup. -/
theorem tags_chars_append {pieces : List Piece} (h : ∀ p ∈ pieces, Tidy p.markupChars)
    (rest : List Char) :
    tags (chars pieces ++ rest) = pieces.flatMap (fun p => tags p.markupChars) ++ tags rest := by
  induction pieces with
  | nil => rfl
  | cons p pieces ih =>
    have ih := ih fun q hq => h q (List.mem_cons_of_mem p hq)
    rw [chars, List.flatMap_cons, List.append_assoc, List.flatMap_cons, List.append_assoc, ← ih]
    cases p with
    | markup s => exact tags_append (h _ List.mem_cons_self) _
    | text s =>
      rw [Piece.render, toList_escape]
      exact tags_append_of_notMem (lessThan_notMem_escapeChars _) _

/-- The delimiters of pieces are those of their markup. -/
theorem filter_isDelimiter_chars (pieces : List Piece) :
    (chars pieces).filter isDelimiter =
      pieces.flatMap fun p => p.markupChars.filter isDelimiter := by
  rw [chars, List.filter_flatMap]
  refine congrArg (pieces.flatMap ·) (funext fun p => ?_)
  cases p with
  | markup s => rfl
  | text s =>
    rw [Piece.render, toList_escape]
    refine List.filter_eq_nil_iff.2 fun c hc => ?_
    rw [isDelimiter_of_mem_escapeChars hc]
    exact Bool.false_ne_true

/-! ## Plain markup -/

/-- The content of the tag before the description of a finding. -/
def descriptionContent : List Char :=
  ['d', 'i', 'v', ' ', 'c', 'l', 'a', 's', 's', '=', '"', 's', 'm', 'e', 'l', 'l', '-', 'd', 'e',
    's', 'c', 'r', 'i', 'p', 't', 'i', 'o', 'n', '"']

/-- The content of the tag before the suggestion of a finding. -/
def suggestionContent : List Char :=
  ['d', 'i', 'v', ' ', 'c', 'l', 'a', 's', 's', '=', '"', 's', 'm', 'e', 'l', 'l', '-', 's', 'u',
    'g', 'g', 'e', 's', 't', 'i', 'o', 'n', '"']

/-- The content of the tag before an item of a list. -/
def itemContent : List Char :=
  ['l', 'i']

theorem toList_descriptionTag :
    "<div class=\"smell-description\">".toList = tagOf descriptionContent := by
  rw [String.toList_ofList]
  rfl

theorem toList_suggestionTag :
    "<div class=\"smell-suggestion\">".toList = tagOf suggestionContent := by
  rw [String.toList_ofList]
  rfl

theorem toList_itemTag : "<li>".toList = tagOf itemContent := by
  rw [String.toList_ofList]
  rfl

/-- The contents of the three tags. -/
def readContents : List (List Char) :=
  [descriptionContent, suggestionContent, itemContent]

/-- Tidy markup without the three tags. -/
structure Plain (markup : List Char) : Prop where
  tidy : Tidy markup
  without : ∀ content ∈ readContents, tagOf content ∉ tags markup

/-- Whether markup is tidy and without the three tags. -/
def isPlain (markup : List Char) : Bool :=
  isTidy markup && readContents.all fun content => !(tags markup).contains (tagOf content)

theorem plain_of_isPlain {markup : List Char} (h : isPlain markup = true) : Plain markup := by
  rw [isPlain, Bool.and_eq_true, List.all_eq_true] at h
  refine ⟨tidy_of_isTidy h.1, fun content hcontent => ?_⟩
  simpa using h.2 content hcontent

theorem Plain.append {m n : List Char} (hm : Plain m) (hn : Plain n) : Plain (m ++ n) := by
  refine ⟨hm.tidy.append hn.tidy, fun content hcontent => ?_⟩
  rw [tags_append hm.tidy, List.mem_append, not_or]
  exact ⟨hm.without content hcontent, hn.without content hcontent⟩

theorem plain_of_notMem {text : List Char} (h : '<' ∉ text) : Plain text := by
  have hnone := tags_append_of_notMem h []
  rw [List.append_nil] at hnone
  refine ⟨.of_notMem h, fun content _ => ?_⟩
  rw [hnone]
  exact List.not_mem_nil

theorem plain_escapeChars (cs : List Char) : Plain (escapeChars cs) :=
  plain_of_notMem (lessThan_notMem_escapeChars cs)

/-- A string literal, given by its characters, is plain if they are. -/
theorem plain_literal {s : String} {l : List Char} (hs : s = String.ofList l)
    (hl : isPlain l = true) : Plain s.toList := by
  rw [hs, String.toList_ofList]
  exact plain_of_isPlain hl

theorem plain_strings {s t : String} (hs : Plain s.toList) (ht : Plain t.toList) :
    Plain (s ++ t).toList := by
  rw [String.toList_append]
  exact hs.append ht

/-- Pieces whose markup is plain. -/
def PlainPieces (pieces : List Piece) : Prop :=
  ∀ p ∈ pieces, Plain p.markupChars

namespace PlainPieces

theorem nil : PlainPieces [] := by
  intro p hp
  exact absurd hp List.not_mem_nil

theorem markup {s : String} {pieces : List Piece} (hs : Plain s.toList) (h : PlainPieces pieces) :
    PlainPieces (.markup s :: pieces) :=
  List.forall_mem_cons.2 ⟨hs, h⟩

theorem text {s : String} {pieces : List Piece} (h : PlainPieces pieces) :
    PlainPieces (.text s :: pieces) :=
  List.forall_mem_cons.2 ⟨plain_of_notMem List.not_mem_nil, h⟩

theorem append {ps qs : List Piece} (hps : PlainPieces ps) (hqs : PlainPieces qs) :
    PlainPieces (ps ++ qs) :=
  List.forall_mem_append.2 ⟨hps, hqs⟩

theorem flatMap {α : Type} {g : α → List Piece} (h : ∀ a, PlainPieces (g a)) (l : List α) :
    PlainPieces (l.flatMap g) := by
  intro p hp
  obtain ⟨a, -, hp⟩ := List.mem_flatMap.1 hp
  exact h a p hp

end PlainPieces

/-- Pieces with plain markup have plain characters. -/
theorem plain_chars {pieces : List Piece} (h : PlainPieces pieces) : Plain (chars pieces) := by
  induction pieces with
  | nil => exact plain_of_notMem List.not_mem_nil
  | cons p pieces ih =>
    rw [chars, List.flatMap_cons]
    refine Plain.append ?_ (ih fun q hq => h q (List.mem_cons_of_mem p hq))
    cases p with
    | markup s => exact h _ List.mem_cons_self
    | text s =>
      rw [Piece.render, toList_escape]
      exact plain_escapeChars _

/-! ## Markup that ends in a tag -/

/-- Plain markup with a tag behind it. -/
def EndsIn (content markup : List Char) : Prop :=
  ∃ opening, markup = opening ++ tagOf content ∧ Plain opening

/-- Whether markup is plain markup with a tag behind it. -/
def endsIn (content markup : List Char) : Bool :=
  let opening := markup.take (markup.length - (tagOf content).length)
  markup == opening ++ tagOf content && isPlain opening

namespace EndsIn

theorem of_endsIn {content markup : List Char} (h : endsIn content markup = true) :
    EndsIn content markup := by
  rw [endsIn, Bool.and_eq_true, beq_iff_eq] at h
  exact ⟨_, h.1, plain_of_isPlain h.2⟩

/-- A string literal, given by its characters, ends in a tag if they do. -/
theorem literal {content l : List Char} {s : String} (hs : s = String.ofList l)
    (hl : endsIn content l = true) : EndsIn content s.toList := by
  rw [hs, String.toList_ofList]
  exact of_endsIn hl

theorem prepend {content m n : List Char} (hm : Plain m) (hn : EndsIn content n) :
    EndsIn content (m ++ n) := by
  obtain ⟨opening, rfl, hopening⟩ := hn
  exact ⟨m ++ opening, (List.append_assoc ..).symm, hm.append hopening⟩

theorem tidy {content markup : List Char} (hcontent : IsContent content)
    (h : EndsIn content markup) : Tidy markup := by
  obtain ⟨opening, rfl, hopening⟩ := h
  have htag := Tidy.tag hcontent .nil
  rw [List.append_nil] at htag
  exact hopening.tidy.append htag

end EndsIn

/-! ## Plain sections -/

theorem lessThan_notMem_stylesheet : '<' ∉ stylesheet.toList := by
  have hlines : ∀ group ∈ styleGroups, ∀ line ∈ group, '<' ∉ line.toList := by
    simp only [styleGroups, List.forall_mem_cons]
    repeat' apply And.intro
    all_goals
      first
      | rw [String.toList_ofList]; decide
      | exact fun _ h => absurd h List.not_mem_nil
  intro h
  rw [stylesheet, String.toList_join, List.flatMap_map] at h
  obtain ⟨group, hgroup, h⟩ := List.mem_flatMap.1 h
  rw [String.toList_append, String.toList_join, List.flatMap_map, List.mem_append] at h
  obtain h | h := h
  · exact absurd h (by decide)
  · obtain ⟨line, hline, h⟩ := List.mem_flatMap.1 h
    rw [String.toList_append, List.mem_append] at h
    obtain h | h := h
    · exact hlines group hgroup line hline h
    · exact absurd h (by decide)

theorem plainPieces_head : PlainPieces head := by
  have hstyle : Plain stylesheet.toList := plain_of_notMem lessThan_notMem_stylesheet
  refine .markup (plain_strings (plain_strings (plain_strings (plain_strings ?_ ?_) ?_) hstyle)
    ?_) .nil
  all_goals exact plain_literal rfl (by decide)

theorem plainPieces_header (r : Report) : PlainPieces (header r) := by
  refine .markup (plain_strings ?_ ?_) (.text (.markup ?_ .nil))
  all_goals exact plain_literal rfl (by decide)

theorem plainPieces_scoreSection (r : Report) : PlainPieces (scoreSection r) := by
  refine .markup ?_ (.text (.markup (plain_literal rfl (by decide)) .nil))
  rw [String.toList_append, String.toList_append, scoreClass]
  -- The class stands inside of a tag, so each of the three is read with it.
  split
  · rw [String.toList_ofList, String.toList_ofList, String.toList_ofList]
    exact plain_of_isPlain (by decide)
  · split
    · rw [String.toList_ofList, String.toList_ofList, String.toList_ofList]
      exact plain_of_isPlain (by decide)
    · rw [String.toList_ofList, String.toList_ofList, String.toList_ofList]
      exact plain_of_isPlain (by decide)

theorem plainPieces_card (value : String) {label : String} (h : Plain label.toList) :
    PlainPieces (card value label) := by
  refine .markup ?_ (.text (.markup (plain_strings (plain_strings ?_ h) ?_) .nil))
  all_goals exact plain_literal rfl (by decide)

theorem plainPieces_cards (r : Report) : PlainPieces (cards r) := by
  have hlabel : ∀ label ∈ ["Files Analyzed", "Lines of Code", "Functions", "Quality Issues",
      "Avg Complexity", "Avg Function Length"], Plain label.toList := by
    simp only [List.forall_mem_cons]
    refine ⟨?_, ?_, ?_, ?_, ?_, ?_, fun _ h => absurd h List.not_mem_nil⟩
    all_goals exact plain_literal rfl (by decide)
  simp only [List.forall_mem_cons] at hlabel
  obtain ⟨h₁, h₂, h₃, h₄, h₅, h₆, -⟩ := hlabel
  refine .append (.append (.append (.append (.append (.append (.append (.markup ?_ .nil)
    (plainPieces_card _ h₁)) (plainPieces_card _ h₂)) (plainPieces_card _ h₃))
    (plainPieces_card _ h₄)) (plainPieces_card _ h₅)) (plainPieces_card _ h₆)) (.markup ?_ .nil)
  all_goals exact plain_literal rfl (by decide)

theorem plainPieces_metricsRow (m : FileMetrics) : PlainPieces (metricsRow m) := by
  have hcell : Plain "</td><td>".toList := plain_literal rfl (by decide)
  exact .markup (plain_literal rfl (by decide)) (.text (.markup hcell (.text
    (.markup hcell (.text (.markup hcell (.text (.markup hcell (.text (.markup hcell (.text
      (.markup (plain_literal rfl (by decide)) .nil))))))))))))

theorem plainPieces_metricsTable (metrics : List FileMetrics) :
    PlainPieces (metricsTable metrics) := by
  refine .append (.append (.markup (plain_strings (plain_strings (plain_strings (plain_strings
    (plain_strings ?_ ?_) ?_) ?_) ?_) ?_) .nil) (.flatMap plainPieces_metricsRow _))
    (.markup ?_ .nil)
  all_goals exact plain_literal rfl (by decide)

theorem plainPieces_footer : PlainPieces footer :=
  .markup (plain_literal rfl (by decide)) .nil

/-! ## Items with texts that are read back -/

/-- The markup of a finding before its title. -/
theorem plain_opening_smellItem (severity : Severity) :
    Plain ("        <div class=\"smell-item " ++ severity.name
      ++ "\">\n            <div class=\"smell-header\">\n                <div class=\"smell-type\">"
      ).toList := by
  cases severity <;>
    rw [String.toList_append, String.toList_append, Severity.name, String.toList_ofList,
      String.toList_ofList, String.toList_ofList] <;>
    exact plain_of_isPlain (by decide)

/-- The markup of a finding between its title and its description. -/
theorem endsIn_badge_smellItem (severity : Severity) :
    EndsIn descriptionContent ("</div>\n                <div class=\"severity-badge severity-"
      ++ severity.name ++ "\">" ++ severity.name
      ++ "</div>\n            </div>\n            <div class=\"smell-description\">").toList := by
  have hname : Plain severity.name.toList := by
    cases severity <;> exact plain_literal rfl (by decide)
  have hclass : Plain ("</div>\n                <div class=\"severity-badge severity-"
      ++ severity.name ++ "\">").toList := by
    cases severity <;>
      rw [String.toList_append, String.toList_append, Severity.name, String.toList_ofList,
        String.toList_ofList, String.toList_ofList] <;>
      exact plain_of_isPlain (by decide)
  rw [String.toList_append]
  exact .prepend (plain_strings hclass hname) (.literal rfl (by decide))

/-- The markup of a finding between its description and its suggestion. -/
theorem endsIn_between_smellItem :
    EndsIn suggestionContent "</div>\n            <div class=\"smell-suggestion\">".toList :=
  .literal rfl (by decide)

/-- The markup of a finding behind its suggestion. -/
theorem plain_location_smellItem :
    Plain "</div>\n            <div class=\"smell-location\"><span class=\"file-path\">".toList :=
  plain_literal rfl (by decide)

theorem plain_closing_smellItem : Plain "</span></div>\n        </div>\n".toList :=
  plain_literal rfl (by decide)

/-- Where the description and the suggestion of a finding stand: each behind its tag, and before
the next. -/
theorem exists_chars_smellItem (f : Finding) :
    ∃ opening between location, EndsIn descriptionContent opening ∧
      EndsIn suggestionContent between ∧ between.head? = some '<' ∧
      Plain location ∧ location.head? = some '<' ∧
      chars (smellItem f) = opening ++ (escapeChars f.description.toList ++
        (between ++ (escapeChars f.suggestion.toList ++ location))) := by
  refine ⟨_, _, _, .prepend ((plain_opening_smellItem f.severity).append
      (plain_escapeChars f.kind.title.toList)) (endsIn_badge_smellItem f.severity),
    endsIn_between_smellItem, ?_, (plain_location_smellItem.append
      (plain_escapeChars (shownName f.filePath).toList)).append plain_closing_smellItem, ?_, ?_⟩
  · rw [String.toList_ofList]
    rfl
  · rw [String.toList_ofList]
    rfl
  · simp only [chars, smellItem, List.flatMap_cons, List.flatMap_nil, List.append_nil,
      Piece.render, toList_escape, List.append_assoc]

theorem endsIn_opening_recommendationItem : EndsIn itemContent "        <li>".toList :=
  .literal rfl (by decide)

theorem plain_closing_recommendationItem : Plain "</li>\n".toList :=
  plain_literal rfl (by decide)

/-- Where a recommendation stands: behind its tag, and before the next. -/
theorem exists_chars_recommendationItem (recommendation : String) :
    ∃ opening closing, EndsIn itemContent opening ∧ Plain closing ∧ closing.head? = some '<' ∧
      chars (recommendationItem recommendation) =
        opening ++ (escapeChars recommendation.toList ++ closing) := by
  refine ⟨_, _, endsIn_opening_recommendationItem, plain_closing_recommendationItem, ?_, ?_⟩
  · rw [String.toList_ofList]
    rfl
  · simp only [chars, recommendationItem, List.flatMap_cons, List.flatMap_nil, List.append_nil,
      Piece.render, toList_escape]

/-! ## The whole page -/

/-- The pieces around the findings of a page are plain. -/
theorem plainPieces_smells (r : Report) :
    ∃ before behind, PlainPieces before ∧ PlainPieces behind ∧
      smells r = before ++ smellItems r.codeSmells.details ++ behind := by
  refine ⟨_, _, .markup ?_ (.text (.markup (plain_strings (plain_strings ?_ ?_) ?_) (.text
    (.markup ?_ (.text (.markup ?_ (.text (.markup ?_ .nil)))))))), .markup ?_ .nil, rfl⟩
  all_goals exact plain_literal rfl (by decide)

/-- The pieces around the recommendations of a page are plain. -/
theorem plainPieces_recommendationList (recommendations : List String) :
    ∃ before behind, PlainPieces before ∧ PlainPieces behind ∧
      recommendationList recommendations =
        before ++ recommendations.flatMap recommendationItem ++ behind := by
  cases recommendations with
  | nil => exact ⟨[], [], .nil, .nil, rfl⟩
  | cons first rest =>
    refine ⟨_, _, .markup (plain_strings ?_ ?_) .nil, .markup ?_ .nil, rfl⟩
    all_goals exact plain_literal rfl (by decide)

/-- The findings of a page, or the plain line that says there are none. -/
theorem smellItems_cases (findings : List Finding) :
    ∃ line, PlainPieces line ∧ smellItems findings = line ++ findings.flatMap smellItem := by
  cases findings with
  | nil =>
    refine ⟨_, .markup (plain_strings ?_ ?_) .nil, rfl⟩
    all_goals exact plain_literal rfl (by decide)
  | cons first rest => exact ⟨[], .nil, rfl⟩

/-- **A page is plain but for its findings and its recommendations.** -/
theorem exists_ofReport_eq (r : Report) :
    ∃ before between behind, PlainPieces before ∧ PlainPieces between ∧ PlainPieces behind ∧
      ofReport r = before ++ r.codeSmells.details.flatMap smellItem ++ between
        ++ r.recommendations.flatMap recommendationItem ++ behind := by
  obtain ⟨before, behind, hbefore, hbehind, hsmells⟩ := plainPieces_smells r
  obtain ⟨line, hline, hitems⟩ := smellItems_cases r.codeSmells.details
  obtain ⟨start, finish, hstart, hfinish, hlist⟩ :=
    plainPieces_recommendationList r.recommendations
  have hbody : PlainPieces [.markup "<body>\n<div class=\"container\">\n"] :=
    .markup (plain_literal rfl (by decide)) .nil
  have hcontent : PlainPieces [.markup "<div class=\"content\">\n"] :=
    .markup (plain_literal rfl (by decide)) .nil
  have hclosing : PlainPieces [.markup "</div>\n"] :=
    .markup (plain_literal rfl (by decide)) .nil
  have hend : PlainPieces [.markup "</div>\n</body>\n</html>\n"] :=
    .markup (plain_literal rfl (by decide)) .nil
  refine ⟨_, _, _, ((((((plainPieces_head.append hbody).append (plainPieces_header r)).append
      hcontent).append (plainPieces_scoreSection r)).append (plainPieces_cards r)).append
      hbefore).append hline, hbehind.append hstart,
    (((hfinish.append (plainPieces_metricsTable r.metrics)).append hclosing).append
      plainPieces_footer).append hend, ?_⟩
  rw [ofReport, hsmells, hitems, hlist]
  simp only [List.append_assoc]

end MatlabQuality.Page
