/-!
# Tags and the texts between them

A tag is what stands from one `<` to the next `>`.  In tidy markup every tag is closed before the
next one starts, so the tags of markup with something behind it are its own tags and those of what
is behind it.

## Main definitions

* `tags`, `tagOf` — the tags of a page, and the tag with a content.
* `textsAfter` — the texts that follow a tag on a page, each up to the next tag.
* `Tidy`, `isTidy` — that every tag of some markup is closed before the next one starts.

## Main statements

* `tags_append` — the tags of tidy markup and of what is behind it.
* `textsAfter_append`, `textsAfter_tagOf_append` — the texts behind markup without a tag, and
  behind the tag itself.
-/

namespace MatlabQuality.Page

/-! ## Tags -/

/-- The tags of a page: what stands from each `<` to the next `>`. -/
def tags : List Char → List (List Char)
  | [] => []
  | c :: cs =>
    if c = '<' ∧ '>' ∈ cs then (c :: cs.takeWhile (· ≠ '>') ++ ['>']) :: tags cs else tags cs

/-- The texts that follow a tag on a page, each up to the next `<`. -/
def textsAfter (tag : List Char) : List Char → List (List Char)
  | [] => []
  | c :: cs =>
    if tag <+: c :: cs then
      ((c :: cs).drop tag.length).takeWhile (· ≠ '<') :: textsAfter tag cs
    else textsAfter tag cs

/-- The tag with a content. -/
def tagOf (content : List Char) : List Char :=
  '<' :: content ++ ['>']

/-- What can stand between `<` and `>`. -/
def IsContent (content : List Char) : Prop :=
  '<' ∉ content ∧ '>' ∉ content

instance (content : List Char) : Decidable (IsContent content) :=
  inferInstanceAs (Decidable (_ ∧ _))

/-- A text that starts no tag has none. -/
theorem tags_append_of_notMem {text : List Char} (h : '<' ∉ text) (rest : List Char) :
    tags (text ++ rest) = tags rest := by
  induction text with
  | nil => rfl
  | cons c text ih =>
    have hc : c ≠ '<' := fun heq => h (heq ▸ List.mem_cons_self)
    rw [List.cons_append, tags, if_neg (fun hand => hc hand.1),
      ih fun hmem => h (List.mem_cons_of_mem c hmem)]

theorem takeWhile_append_cons {content rest : List Char} {stop : Char} (h : stop ∉ content) :
    (content ++ stop :: rest).takeWhile (· ≠ stop) = content := by
  induction content with
  | nil => simp
  | cons c content ih =>
    have hc : c ≠ stop := fun heq => h (heq ▸ List.mem_cons_self)
    rw [List.cons_append, List.takeWhile_cons_of_pos (by simpa using hc),
      ih fun hmem => h (List.mem_cons_of_mem c hmem)]

/-- A tag is read up to its end. -/
theorem tags_tagOf_append {content : List Char} (h : IsContent content) (rest : List Char) :
    tags (tagOf content ++ rest) = tagOf content :: tags rest := by
  have hclosed : '<' = '<' ∧ '>' ∈ content ++ '>' :: rest := ⟨rfl, by simp⟩
  have hrest : '<' ∉ content ++ ['>'] := by simpa using h.1
  have hsplit : tagOf content ++ rest = '<' :: (content ++ '>' :: rest) := by simp [tagOf]
  rw [hsplit, tags, if_pos hclosed, takeWhile_append_cons h.2, tagOf, List.cons_append]
  have hbehind := tags_append_of_notMem hrest rest
  rw [List.append_assoc, List.singleton_append] at hbehind
  rw [hbehind]

/-! ## Tidy markup -/

/-- Every tag is closed before the next one starts. -/
inductive Tidy : List Char → Prop
  | nil : Tidy []
  | char {c : Char} {rest : List Char} (h : c ≠ '<') : Tidy rest → Tidy (c :: rest)
  | tag {content rest : List Char} (h : IsContent content) : Tidy rest →
      Tidy (tagOf content ++ rest)

namespace Tidy

theorem append {m n : List Char} (hm : Tidy m) (hn : Tidy n) : Tidy (m ++ n) := by
  induction hm with
  | nil => exact hn
  | char h _ ih => exact .char h ih
  | tag h _ ih =>
    rw [List.append_assoc]
    exact .tag h ih

theorem of_notMem {text : List Char} (h : '<' ∉ text) : Tidy text := by
  induction text with
  | nil => exact .nil
  | cons c text ih =>
    exact .char (fun heq => h (heq ▸ List.mem_cons_self))
      (ih fun hmem => h (List.mem_cons_of_mem c hmem))

end Tidy

/-- Whether markup is tidy, read from outside of a tag or from inside of one. -/
def isTidyFrom : Bool → List Char → Bool
  | inside, [] => !inside
  | false, c :: cs => if c = '<' then isTidyFrom true cs else isTidyFrom false cs
  | true, c :: cs =>
    if c = '<' then false else if c = '>' then isTidyFrom false cs else isTidyFrom true cs

/-- Whether markup is tidy. -/
def isTidy (markup : List Char) : Bool :=
  isTidyFrom false markup

/-- Markup that is found tidy is tidy; from inside of a tag, the tag is closed first. -/
theorem of_isTidyFrom (markup : List Char) :
    (isTidyFrom false markup = true → Tidy markup) ∧
      (isTidyFrom true markup = true → ∃ content rest, markup = content ++ '>' :: rest ∧
        IsContent content ∧ Tidy rest) := by
  induction markup with
  | nil => exact ⟨fun _ => .nil, fun h => absurd h Bool.false_ne_true⟩
  | cons c cs ih =>
    obtain ⟨ihOutside, ihInside⟩ := ih
    refine ⟨fun h => ?_, fun h => ?_⟩
    · by_cases hc : c = '<'
      · rw [isTidyFrom, if_pos hc] at h
        obtain ⟨content, rest, rfl, hcontent, hrest⟩ := ihInside h
        have htag := Tidy.tag hcontent hrest
        simpa [tagOf, hc] using htag
      · rw [isTidyFrom, if_neg hc] at h
        exact .char hc (ihOutside h)
    · rw [isTidyFrom] at h
      split at h
      · exact absurd h Bool.false_ne_true
      · rename_i hopen
        split at h
        · rename_i hclose
          exact ⟨[], cs, by rw [hclose]; rfl, ⟨List.not_mem_nil, List.not_mem_nil⟩, ihOutside h⟩
        · rename_i hclose
          obtain ⟨content, rest, rfl, hcontent, hrest⟩ := ihInside h
          refine ⟨c :: content, rest, rfl, ⟨?_, ?_⟩, hrest⟩
          · simpa [Ne.symm hopen] using hcontent.1
          · simpa [Ne.symm hclose] using hcontent.2

theorem tidy_of_isTidy {markup : List Char} (h : isTidy markup = true) : Tidy markup :=
  (of_isTidyFrom markup).1 h

/-- **The tags of tidy markup and of what is behind it.** -/
theorem tags_append {markup : List Char} (h : Tidy markup) (rest : List Char) :
    tags (markup ++ rest) = tags markup ++ tags rest := by
  induction h with
  | nil => rfl
  | @char c markup hc _ ih =>
    have hone : '<' ∉ [c] := by simpa using Ne.symm hc
    have hskip := tags_append_of_notMem hone
    simp only [List.singleton_append] at hskip
    rw [List.cons_append, hskip, hskip, ih]
  | tag hcontent _ ih =>
    rw [List.append_assoc, tags_tagOf_append hcontent, tags_tagOf_append hcontent, ih,
      List.cons_append]

/-! ## Texts behind a tag -/

/-- A text that starts no tag is passed over. -/
theorem textsAfter_append_of_notMem {content text : List Char} (h : '<' ∉ text)
    (rest : List Char) :
    textsAfter (tagOf content) (text ++ rest) = textsAfter (tagOf content) rest := by
  induction text with
  | nil => rfl
  | cons c text ih =>
    have hc : c ≠ '<' := fun heq => h (heq ▸ List.mem_cons_self)
    have hother : ¬ tagOf content <+: c :: (text ++ rest) := by
      intro hprefix
      exact hc (List.cons_prefix_cons.1 hprefix).1.symm
    rw [List.cons_append, textsAfter, if_neg hother,
      ih fun hmem => h (List.mem_cons_of_mem c hmem)]

/-- What starts with a tag starts with no other tag. -/
theorem tagOf_prefix_iff {content other rest : List Char} (h : '>' ∉ content)
    (hother : '>' ∉ other) : tagOf content <+: tagOf other ++ rest ↔ content = other := by
  refine ⟨?_, ?_⟩
  · rintro ⟨behind, heq⟩
    have hcut : content ++ '>' :: behind = other ++ '>' :: rest := by simpa [tagOf] using heq
    calc content = (content ++ '>' :: behind).takeWhile (· ≠ '>') := (takeWhile_append_cons h).symm
      _ = (other ++ '>' :: rest).takeWhile (· ≠ '>') := by rw [hcut]
      _ = other := takeWhile_append_cons hother
  · rintro rfl
    exact List.prefix_append _ _

/-- A tag other than the one that is looked for is passed over. -/
theorem textsAfter_tagOf_append_of_ne {content other : List Char} (h : '>' ∉ content)
    (hother : IsContent other) (hne : content ≠ other) (rest : List Char) :
    textsAfter (tagOf content) (tagOf other ++ rest) = textsAfter (tagOf content) rest := by
  have hnot : ¬ tagOf content <+: tagOf other ++ rest := by
    rw [tagOf_prefix_iff h hother.2]
    exact hne
  have hsplit : tagOf other ++ rest = '<' :: ((other ++ ['>']) ++ rest) := by simp [tagOf]
  have hbehind : '<' ∉ other ++ ['>'] := by simpa using hother.1
  rw [hsplit] at hnot ⊢
  rw [textsAfter, if_neg hnot, textsAfter_append_of_notMem hbehind]

/-- **Tidy markup without the tag is passed over.** -/
theorem textsAfter_append {content markup : List Char} (hcontent : '>' ∉ content)
    (h : Tidy markup) (hnone : tagOf content ∉ tags markup) (rest : List Char) :
    textsAfter (tagOf content) (markup ++ rest) = textsAfter (tagOf content) rest := by
  induction h with
  | nil => rfl
  | @char c markup hc _ ih =>
    have hone : '<' ∉ [c] := by simpa using Ne.symm hc
    have htags := tags_append_of_notMem hone markup
    have hskip : textsAfter (tagOf content) ([c] ++ (markup ++ rest)) = _ :=
      textsAfter_append_of_notMem hone _
    simp only [List.singleton_append] at htags hskip
    rw [List.cons_append, hskip, ih (htags ▸ hnone)]
  | @tag other markup hother _ ih =>
    rw [tags_tagOf_append hother, List.mem_cons, not_or] at hnone
    have hne : content ≠ other := fun heq => hnone.1 (congrArg tagOf heq)
    rw [List.append_assoc, textsAfter_tagOf_append_of_ne hcontent hother hne, ih hnone.2]

/-- **The text behind a tag is read up to the next tag.** -/
theorem textsAfter_tagOf_append {content text : List Char} (hcontent : '<' ∉ content)
    (htext : '<' ∉ text) (rest : List Char) :
    textsAfter (tagOf content) (tagOf content ++ (text ++ '<' :: rest)) =
      text :: textsAfter (tagOf content) ('<' :: rest) := by
  have hstart : tagOf content <+: tagOf content ++ (text ++ '<' :: rest) := List.prefix_append _ _
  have hdrop : (tagOf content ++ (text ++ '<' :: rest)).drop (tagOf content).length =
      text ++ '<' :: rest := List.drop_left
  have hsplit : tagOf content ++ (text ++ '<' :: rest) =
      '<' :: ((content ++ ['>'] ++ text) ++ '<' :: rest) := by simp [tagOf]
  have hbehind : '<' ∉ content ++ ['>'] ++ text := by simpa using ⟨hcontent, htext⟩
  rw [hsplit] at hstart hdrop ⊢
  rw [textsAfter, if_pos hstart, hdrop, takeWhile_append_cons htext,
    textsAfter_append_of_notMem hbehind]

end MatlabQuality.Page
