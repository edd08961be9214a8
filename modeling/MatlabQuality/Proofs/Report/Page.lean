import MatlabQuality.Proofs.Report.Template

/-!
# What the texts of a report can do to its page

Nothing but fill their places.  The markup of a page is the same for all reports that differ in
their texts alone, no text brings a delimiter with it, and the texts of findings and
recommendations can be read back from the page.

## Main definitions

* `Report.withoutTexts` — a report with all its texts left empty.
* `Reads` — the texts that are read behind a tag.

## Main statements

* `map_blank_ofReport` — the markup of a page does not depend on the texts.
* `tags_pageText` — the tags of a page are those of its markup.
* `reads_ofReport` — the texts behind the tags of the template.
* `pageText_of_withoutTexts_eq` — texts never change the tags, bring no delimiter, and are kept.
-/

namespace MatlabQuality

/-! ## The markup does not depend on the texts -/

/-- A finding with its texts left empty. -/
def Finding.withoutTexts (f : Finding) : Finding :=
  { f with filePath := "", functionName := "", description := "", suggestion := "" }

/-- The measures of a file without its path. -/
def metricsWithoutTexts (m : Source.FileMetrics) : Source.FileMetrics :=
  { m with filePath := "" }

/-- A report with all its texts left empty: its numbers, kinds and severities, and the lengths of
its lists. -/
def Report.withoutTexts (r : Report) : Report :=
  { analysisDate := ""
    summary := r.summary
    codeSmells := { r.codeSmells with details := r.codeSmells.details.map Finding.withoutTexts }
    metrics := r.metrics.map metricsWithoutTexts
    recommendations := r.recommendations.map fun _ => "" }

end MatlabQuality

namespace MatlabQuality.Page

open MatlabQuality.Source

theorem map_blank_smellItem (f : Finding) :
    (smellItem f).map Piece.blank = (smellItem f.withoutTexts).map Piece.blank := rfl

theorem map_blank_flatMap {α : Type} (g : α → List Piece) (erase : α → α)
    (h : ∀ a, (g a).map Piece.blank = (g (erase a)).map Piece.blank) (l : List α) :
    (l.flatMap g).map Piece.blank = ((l.map erase).flatMap g).map Piece.blank := by
  rw [List.map_flatMap, List.map_flatMap, List.flatMap_map]
  exact congrArg (l.flatMap ·) (funext h)

theorem map_blank_smells (r : Report) :
    (smells r).map Piece.blank = (smells r.withoutTexts).map Piece.blank := by
  have hitems : (smellItems r.codeSmells.details).map Piece.blank =
      (smellItems (r.codeSmells.details.map Finding.withoutTexts)).map Piece.blank := by
    rw [smellItems, smellItems, List.isEmpty_map]
    split
    · rfl
    · exact map_blank_flatMap smellItem Finding.withoutTexts map_blank_smellItem _
  simp only [smells, List.map_append, hitems]
  rfl

theorem map_blank_recommendationList (recommendations : List String) :
    (recommendationList recommendations).map Piece.blank =
      (recommendationList (recommendations.map fun _ => "")).map Piece.blank := by
  rw [recommendationList, recommendationList, List.isEmpty_map]
  split
  · rfl
  · simp only [List.map_append]
    rw [map_blank_flatMap recommendationItem (fun _ => "") (fun _ => rfl)]

theorem map_blank_metricsTable (metrics : List FileMetrics) :
    (metricsTable metrics).map Piece.blank =
      (metricsTable (metrics.map metricsWithoutTexts)).map Piece.blank := by
  simp only [metricsTable, List.map_append]
  rw [map_blank_flatMap metricsRow metricsWithoutTexts (fun _ => rfl)]

/-- **The markup of a page does not depend on the texts of the report.** -/
theorem map_blank_ofReport (r : Report) :
    (ofReport r).map Piece.blank = (ofReport r.withoutTexts).map Piece.blank := by
  simp only [ofReport, List.map_append]
  rw [map_blank_smells, map_blank_recommendationList, map_blank_metricsTable]
  rfl

/-! ## Tags and delimiters come from the markup -/

theorem isContent_of_mem_readContents {content : List Char} (h : content ∈ readContents) :
    IsContent content := by
  revert content
  decide

theorem tidy_of_plainPieces {pieces : List Piece} (h : PlainPieces pieces) :
    ∀ p ∈ pieces, Tidy p.markupChars :=
  fun p hp => (h p hp).tidy

theorem tidy_smellItem (f : Finding) : ∀ p ∈ smellItem f, Tidy p.markupChars := by
  have hdescription : IsContent descriptionContent := by decide
  have hsuggestion : IsContent suggestionContent := by decide
  simp only [smellItem, List.forall_mem_cons, Piece.markupChars]
  exact ⟨(plain_opening_smellItem f.severity).tidy, .nil,
    (endsIn_badge_smellItem f.severity).tidy hdescription, .nil,
    endsIn_between_smellItem.tidy hsuggestion, .nil, plain_location_smellItem.tidy, .nil,
    plain_closing_smellItem.tidy, fun _ hp => absurd hp List.not_mem_nil⟩

theorem tidy_recommendationItem (recommendation : String) :
    ∀ p ∈ recommendationItem recommendation, Tidy p.markupChars := by
  simp only [recommendationItem, List.forall_mem_cons, Piece.markupChars]
  exact ⟨endsIn_opening_recommendationItem.tidy (by decide), .nil,
    plain_closing_recommendationItem.tidy, fun _ hp => absurd hp List.not_mem_nil⟩

/-- Every tag of the markup of a page is closed in its own piece. -/
theorem tidy_ofReport (r : Report) : ∀ p ∈ ofReport r, Tidy p.markupChars := by
  obtain ⟨before, between, behind, hbefore, hbetween, hbehind, heq⟩ := exists_ofReport_eq r
  rw [heq]
  simp only [List.forall_mem_append, List.mem_flatMap, forall_exists_index, and_imp]
  exact ⟨⟨⟨⟨tidy_of_plainPieces hbefore, fun p f _ => tidy_smellItem f p⟩,
    tidy_of_plainPieces hbetween⟩, fun p s _ => tidy_recommendationItem s p⟩,
    tidy_of_plainPieces hbehind⟩

/-- **The tags of a page are those of its markup.** -/
theorem tags_pageText (r : Report) :
    tags r.pageText.toList = (ofReport r).flatMap fun p => tags p.markupChars := by
  have h := tags_chars_append (tidy_ofReport r) []
  rwa [List.append_nil, tags, List.append_nil, ← toList_render] at h

/-! ## Texts that are read back -/

/-- Behind the tag with a content stand some texts, whatever follows. -/
def Reads (content cs : List Char) (texts : List (List Char)) : Prop :=
  ∀ rest, textsAfter (tagOf content) (cs ++ rest) = texts ++ textsAfter (tagOf content) rest

namespace Reads

variable {content : List Char}

theorem append {cs ds : List Char} {texts others : List (List Char)} (hcs : Reads content cs texts)
    (hds : Reads content ds others) : Reads content (cs ++ ds) (texts ++ others) := by
  intro rest
  rw [List.append_assoc, hcs, hds, List.append_assoc]

theorem of_plain (hcontent : content ∈ readContents) {cs : List Char} (h : Plain cs) :
    Reads content cs [] :=
  textsAfter_append (isContent_of_mem_readContents hcontent).2 h.tidy (h.without content hcontent)

/-- A tag other than the one that is looked for is passed over. -/
theorem of_endsIn_of_ne {other : List Char} (hcontent : content ∈ readContents)
    (hother : other ∈ readContents) (hne : content ≠ other) {cs : List Char}
    (h : EndsIn other cs) : Reads content cs [] := by
  obtain ⟨opening, rfl, hopening⟩ := h
  have htag : Reads content (tagOf other) [] :=
    textsAfter_tagOf_append_of_ne (isContent_of_mem_readContents hcontent).2
      (isContent_of_mem_readContents hother) hne
  exact (of_plain hcontent hopening).append htag

/-- The text behind the tag is read up to the next one. -/
theorem of_endsIn (hcontent : content ∈ readContents) {cs text behind : List Char}
    {texts : List (List Char)} (h : EndsIn content cs) (htext : '<' ∉ text)
    (hbehind : Reads content behind texts) (hstart : behind.head? = some '<') :
    Reads content (cs ++ (text ++ behind)) (text :: texts) := by
  obtain ⟨opening, rfl, hopening⟩ := h
  obtain ⟨tail, rfl⟩ := List.head?_eq_some_iff.1 hstart
  intro rest
  have hskip := of_plain hcontent hopening (tagOf content ++ (text ++ '<' :: (tail ++ rest)))
  have hread := textsAfter_tagOf_append (isContent_of_mem_readContents hcontent).1 htext
    (tail ++ rest)
  rw [List.nil_append] at hskip
  rw [List.append_assoc, List.append_assoc, List.append_assoc, List.cons_append, hskip, hread,
    ← List.cons_append, hbehind, List.cons_append]

theorem chars_flatMap {α : Type} {g : α → List Piece} {text : α → List Char}
    (h : ∀ a, Reads content (chars (g a)) [text a]) (l : List α) :
    Reads content (chars (l.flatMap g)) (l.map text) := by
  induction l with
  | nil => exact fun _ => rfl
  | cons a l ih =>
    rw [List.flatMap_cons, chars_append, List.map_cons, ← List.singleton_append]
    exact (h a).append ih

theorem chars_flatMap_nil {α : Type} {g : α → List Piece}
    (h : ∀ a, Reads content (chars (g a)) []) (l : List α) :
    Reads content (chars (l.flatMap g)) [] := by
  induction l with
  | nil => exact fun _ => rfl
  | cons a l ih =>
    rw [List.flatMap_cons, chars_append]
    exact (h a).append ih

end Reads

theorem reads_smellItem (f : Finding) :
    Reads descriptionContent (chars (smellItem f)) [escapeChars f.description.toList] ∧
      Reads suggestionContent (chars (smellItem f)) [escapeChars f.suggestion.toList] ∧
      Reads itemContent (chars (smellItem f)) [] := by
  obtain ⟨opening, between, location, hopening, hbetween, hstart, hlocation, hstart', heq⟩ :=
    exists_chars_smellItem f
  have hread : ∀ content ∈ readContents, Reads content location [] :=
    fun _ hcontent => .of_plain hcontent hlocation
  have hsuggestion : ∀ content ∈ readContents, Reads content (escapeChars f.suggestion.toList) [] :=
    fun _ hcontent => .of_plain hcontent (plain_escapeChars _)
  have hdescription : ∀ content ∈ readContents,
      Reads content (escapeChars f.description.toList) [] :=
    fun _ hcontent => .of_plain hcontent (plain_escapeChars _)
  rw [heq]
  refine ⟨?_, ?_, ?_⟩
  · refine .of_endsIn (by decide) hopening (lessThan_notMem_escapeChars _) ?_ ?_
    · exact (Reads.of_endsIn_of_ne (by decide) (by decide) (by decide) hbetween).append
        ((hsuggestion _ (by decide)).append (hread _ (by decide)))
    · rw [List.head?_append, hstart]
      rfl
  · exact (Reads.of_endsIn_of_ne (by decide) (by decide) (by decide) hopening).append
      ((hdescription _ (by decide)).append (.of_endsIn (by decide) hbetween
        (lessThan_notMem_escapeChars _) (hread _ (by decide)) hstart'))
  · exact (Reads.of_endsIn_of_ne (by decide) (by decide) (by decide) hopening).append
      ((hdescription _ (by decide)).append ((Reads.of_endsIn_of_ne (by decide) (by decide)
        (by decide) hbetween).append ((hsuggestion _ (by decide)).append (hread _ (by decide)))))

theorem reads_recommendationItem (recommendation : String) :
    Reads itemContent (chars (recommendationItem recommendation))
        [escapeChars recommendation.toList] ∧
      ∀ content ∈ readContents, content ≠ itemContent →
        Reads content (chars (recommendationItem recommendation)) [] := by
  obtain ⟨opening, closing, hopening, hclosing, hstart, heq⟩ :=
    exists_chars_recommendationItem recommendation
  rw [heq]
  refine ⟨.of_endsIn (by decide) hopening (lessThan_notMem_escapeChars _)
    (.of_plain (by decide) hclosing) hstart, fun content hcontent hne => ?_⟩
  exact (Reads.of_endsIn_of_ne hcontent (by decide) hne hopening).append
    ((Reads.of_plain hcontent (plain_escapeChars _)).append (.of_plain hcontent hclosing))

/-- **The texts behind the three tags of a page.** -/
theorem reads_ofReport (r : Report) :
    Reads descriptionContent (chars (ofReport r))
        (r.codeSmells.details.map fun f => escapeChars f.description.toList) ∧
      Reads suggestionContent (chars (ofReport r))
        (r.codeSmells.details.map fun f => escapeChars f.suggestion.toList) ∧
      Reads itemContent (chars (ofReport r))
        (r.recommendations.map fun s => escapeChars s.toList) := by
  obtain ⟨before, between, behind, hbefore, hbetween, hbehind, heq⟩ := exists_ofReport_eq r
  -- Each of the two lists of items brings its texts, and the pieces around them bring none.
  have hjoin : ∀ content ∈ readContents, ∀ found recommended,
      Reads content (chars (r.codeSmells.details.flatMap smellItem)) found →
      Reads content (chars (r.recommendations.flatMap recommendationItem)) recommended →
      Reads content (chars (ofReport r)) (found ++ recommended) := by
    intro content hcontent found recommended hfound hrecommended
    have hplain : ∀ {pieces}, PlainPieces pieces → Reads content (chars pieces) [] :=
      fun h => .of_plain hcontent (plain_chars h)
    have h := ((((hplain hbefore).append hfound).append (hplain hbetween)).append
      hrecommended).append (hplain hbehind)
    simpa only [heq, chars_append, List.nil_append, List.append_nil] using h
  refine ⟨?_, ?_, ?_⟩
  · have h := hjoin descriptionContent (by decide) _ _
      (.chars_flatMap (fun f => (reads_smellItem f).1) _)
      (.chars_flatMap_nil (fun s => (reads_recommendationItem s).2 _ (by decide) (by decide)) _)
    rwa [List.append_nil] at h
  · have h := hjoin suggestionContent (by decide) _ _
      (.chars_flatMap (fun f => (reads_smellItem f).2.1) _)
      (.chars_flatMap_nil (fun s => (reads_recommendationItem s).2 _ (by decide) (by decide)) _)
    rwa [List.append_nil] at h
  · exact hjoin itemContent (by decide) _ _
      (.chars_flatMap_nil (fun f => (reads_smellItem f).2.2) _)
      (.chars_flatMap (fun s => (reads_recommendationItem s).1) _)

/-- What is read behind a tag of a page, with its entities read, is what was written there. -/
theorem map_unescape_textsAfter {content : List Char} {r : Report} {α : Type} {l : List α}
    {text : α → String}
    (h : Reads content (chars (ofReport r)) (l.map fun a => escapeChars (text a).toList)) :
    (textsAfter (tagOf content) r.pageText.toList).map unescape =
      l.map fun a => (text a).toList := by
  have hpage := h []
  rw [List.append_nil, textsAfter, List.append_nil, ← toList_render] at hpage
  rw [Report.pageText, hpage, List.map_map]
  refine List.map_congr_left fun a _ => ?_
  rw [Function.comp_apply, unescape_escapeChars]

/-- **No text of a report can add markup to its page.**  Let two reports differ in their texts
alone.  Their pages have the same tags and the same markup around their texts; no text brings a
delimiter with it, so the delimiters of a page are those of its markup; and behind the tags of
descriptions, suggestions and recommendations these stand as they were, up to the entities. -/
theorem pageText_of_withoutTexts_eq {r r' : Report} (h : r.withoutTexts = r'.withoutTexts) :
    tags r.pageText.toList = tags r'.pageText.toList ∧
      (ofReport r).map Piece.blank = (ofReport r').map Piece.blank ∧
      (∀ s, .text s ∈ ofReport r → ∀ c ∈ (escape s).toList, isDelimiter c = false) ∧
      r.pageText.toList.filter isDelimiter =
        (render ((ofReport r).map Piece.blank)).toList.filter isDelimiter ∧
      (textsAfter "<div class=\"smell-description\">".toList r.pageText.toList).map unescape =
        r.codeSmells.details.map (·.description.toList) ∧
      (textsAfter "<div class=\"smell-suggestion\">".toList r.pageText.toList).map unescape =
        r.codeSmells.details.map (·.suggestion.toList) ∧
      (textsAfter "<li>".toList r.pageText.toList).map unescape =
        r.recommendations.map String.toList := by
  have hmarkup : (ofReport r).map Piece.blank = (ofReport r').map Piece.blank := by
    rw [map_blank_ofReport, map_blank_ofReport r', h]
  have htags : ∀ r, tags r.pageText.toList =
      ((ofReport r).map Piece.blank).flatMap fun p => tags p.markupChars := by
    intro r
    rw [tags_pageText, List.flatMap_map]
    simp only [Piece.markupChars_blank]
  obtain ⟨hdescriptions, hsuggestions, hitems⟩ := reads_ofReport r
  refine ⟨by rw [htags, htags, hmarkup], hmarkup, ?_, ?_, ?_, ?_, ?_⟩
  · intro s _ c hc
    rw [toList_escape] at hc
    exact isDelimiter_of_mem_escapeChars hc
  · rw [Report.pageText, toList_render, toList_render, filter_isDelimiter_chars,
      filter_isDelimiter_chars, List.flatMap_map]
    simp only [Piece.markupChars_blank]
  · rw [toList_descriptionTag]
    exact map_unescape_textsAfter hdescriptions
  · rw [toList_suggestionTag]
    exact map_unescape_textsAfter hsuggestions
  · rw [toList_itemTag]
    exact map_unescape_textsAfter hitems

/-- A report of one finding with given texts. -/
def reportWith (date path description suggestion recommendation : String) : Report where
  analysisDate := date
  summary := ⟨1, 60, 1, 95, 3, 60⟩
  codeSmells :=
    ⟨1, ⟨0, 1, 0⟩, [⟨.longFunction, .medium, path, 1, "", description, suggestion⟩]⟩
  metrics := [⟨path, 60, 0, 0, 3, 1, 60, 0, 1, [7]⟩]
  recommendations := [recommendation]

/-- A report whose texts try to close their elements, to open others and to pass for entities has
the tags of one with harmless texts, and keeps its description. -/
theorem pageText_of_withoutTexts_eq_hostile :
    let hostile := reportWith "</p><script>" "a/<b>\".m" "</div><script>alert('&lt;')</script>"
      "\"><li>" "</li><li>&amp;"
    let harmless := reportWith "today" "a.m" "Too long" "Split it" "Split one function"
    hostile.withoutTexts = harmless.withoutTexts ∧
      tags hostile.pageText.toList = tags harmless.pageText.toList ∧
      (textsAfter "<div class=\"smell-description\">".toList hostile.pageText.toList).map
        unescape = ["</div><script>alert('&lt;')</script>".toList] := by
  intro hostile harmless
  have h : hostile.withoutTexts = harmless.withoutTexts := rfl
  obtain ⟨htags, -, -, -, hdescriptions, -⟩ := pageText_of_withoutTexts_eq h
  exact ⟨h, htags, hdescriptions⟩

end MatlabQuality.Page
