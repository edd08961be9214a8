import MatlabQuality.Proofs.Report.Saved
import MatlabQuality.Proofs.Report.Template

/-!
# When a page replaces its report

A page is not written to the path of the report it shows.  Two paths that are not the same path may
still lead to one file, and then the page takes the place of the report.  Nothing else does: a page
is no report, so a report is gone exactly where its page went.

## Main definitions

* `Overwrites` — the page of a report goes where the report stands, by another path.

## Main statements

* `ofSavedText?_pageText` — a page is no report.
* `get?_writePage_of_overwrites` — the page takes the place of the report.
* `get?_writePage_of_not_overwrites` — or else the report is kept.
* `get?_execute_html_iff` — a report is kept exactly where its page does not overwrite it.
* `execute_html_replaces_report` — a path with a dot in front leads to the same file.
-/

namespace MatlabQuality.Command

open MatlabQuality.Files MatlabQuality.Json MatlabQuality.Number MatlabQuality.Text

/-! ## Pages are no reports -/

theorem exists_toList_pageText_eq_cons (r : Report) :
    ∃ rest, r.pageText.toList = '<' :: rest := by
  have hhead : (Page.chars Page.head).head? = some '<' := by
    simp only [Page.chars, Page.head, List.flatMap_cons, Page.Piece.render, String.toList_append,
      List.append_assoc]
    rw [List.head?_append, String.toList_ofList]
    rfl
  obtain ⟨rest, hrest⟩ := List.head?_eq_some_iff.1 hhead
  rw [Report.pageText, Page.toList_render, Page.ofReport]
  simp only [Page.chars_append, List.append_assoc]
  exact ⟨_, by rw [hrest, List.cons_append]⟩

/-- **A page is no report**: it starts with a tag. -/
theorem ofSavedText?_pageText (r : Report) : Report.ofSavedText? r.pageText.toList = none := by
  obtain ⟨rest, hrest⟩ := exists_toList_pageText_eq_cons r
  rw [hrest, Report.ofSavedText?,
    read?_eq_none_of_start (by decide) (by decide) (by decide) (by decide), Option.bind_none]

/-- The page of a report never has the bytes of a report. -/
theorem HoldsReport.bytes?_ne {v : View} {path : String} {r : Report} (h : HoldsReport v path r)
    (shown : Report) : v.bytes? path ≠ some (bytesOf shown.pageText) := by
  obtain ⟨bytes, text, hbytes, htext, hreport⟩ := h
  intro hpage
  have hshown : text = shown.pageText.toList := by
    rw [hbytes, Option.some_inj] at hpage
    rw [hpage, bytesOf, Utf8.decode?_encode, Option.some_inj] at htext
    exact htext.symm
  rw [hshown, ofSavedText?_pageText] at hreport
  exact Option.some_ne_none r hreport.symm

/-! ## What a page replaces -/

/-- The page of a report goes where the report stands, by another path. -/
structure Overwrites (v : View) (path : String) (output : Option String) : Prop where
  other : Path.samePath (pageTarget path output) path = false
  leads : v.tree.follow v.workingDirectory (pageTarget path output) =
    v.tree.follow v.workingDirectory path

variable {v : View} {path : String} {output : Option String} {place : Place}

/-- What is printed after the page of a report has been written. -/
def pageNotice (target : String) : String :=
  linesOf ["HTML report generated: " ++ target]

/-- **The page takes the place of the report.** -/
theorem get?_writePage_of_overwrites {r : Report} (hholds : HoldsReport v path r)
    (h : Overwrites v path output) (hplace : v.tree.follow v.workingDirectory path = .ok place) :
    ∃ v', writePage v path output = (v', .ok ⟨pageNotice (pageTarget path output), none⟩) ∧
      v'.tree.get? place = some (.file (bytesOf r.pageText)) ∧
      v'.tree.get? place ≠ v.tree.get? place := by
  have hpage := preparePage_of_holdsReport hholds output
  rw [h.other] at hpage
  have hreplaced := hholds.bytes?_ne r
  obtain ⟨bytes, -, hbytes, -, -⟩ := hholds
  have hfile : v.tree.get? place = some (.file bytes) := by
    rw [← View.entry?_of_follow hplace, View.entry?_of_bytes? hbytes]
  have hwrite : v.write? (pageTarget path output) (bytesOf r.pageText) =
      some { v with tree := v.tree.put place (.file (bytesOf r.pageText)) } := by
    rw [View.write?, h.leads, hplace]
    simp only [hfile]
  have hne : place ≠ [] := by
    rintro rfl
    cases hfile
  have hget := Tree.get?_put_self hne v.tree (.file (bytesOf r.pageText))
  refine ⟨_, (writePage_of_ok hpage).trans (by rw [hwrite]; rfl), hget, fun hkept => ?_⟩
  refine hreplaced ?_
  rw [View.bytes?, View.entry?_of_follow hplace, ← hkept, hget]

/-- **A report whose page does not overwrite it is kept.** -/
theorem get?_writePage_of_not_overwrites
    (h : ¬ ((∃ r, HoldsReport v path r) ∧ Overwrites v path output))
    (hplace : v.tree.follow v.workingDirectory path = .ok place) :
    (writePage v path output).1.tree.get? place = v.tree.get? place := by
  by_cases hholds : ∃ r, HoldsReport v path r
  · obtain ⟨r, hr⟩ := hholds
    have hpage := preparePage_of_holdsReport hr output
    by_cases hsame : Path.samePath (pageTarget path output) path = true
    · rw [if_pos hsame] at hpage
      rw [writePage, hpage]
    · rw [if_neg hsame] at hpage
      rw [writePage_of_ok hpage]
      split
      · next v' hwrite =>
        obtain ⟨target, htarget, -, rfl⟩ := View.write?_eq_some hwrite
        refine Tree.get?_put_of_ne ?_ v.tree _
        -- The page went elsewhere, or else it overwrote the report.
        rintro rfl
        exact h ⟨⟨r, hr⟩, by simpa using hsame, htarget.trans hplace.symm⟩
      · rfl
  · obtain ⟨e, -, hpage⟩ := preparePage_of_not_holdsReport (not_exists.1 hholds) output
    rw [writePage, hpage]

/-- **A report is kept exactly where its page does not overwrite it.**  What stands where the path
of the report leads is changed by no command for a page that fails, and by one that succeeds only if
the page goes there by a path that is not the same path.  Then the page stands there, and the
command says so and no more. -/
theorem get?_execute_html_iff (now : Timestamp) {line : CommandLine}
    (hcommand : line.command = some (.html output))
    (hplace : v.tree.follow v.workingDirectory line.path = .ok place) :
    ((execute v now line).1.tree.get? place = v.tree.get? place ↔
      ¬ ((∃ r, HoldsReport v line.path r) ∧ Overwrites v line.path output)) ∧
    ∀ r, HoldsReport v line.path r → Overwrites v line.path output →
      ∃ v', execute v now line = (v', .ok ⟨pageNotice (pageTarget line.path output), none⟩) ∧
        v'.tree.get? place = some (.file (bytesOf r.pageText)) := by
  have hexecute : execute v now line = writePage v line.path output := by rw [execute, hcommand]
  rw [hexecute]
  refine ⟨⟨?_, fun h => get?_writePage_of_not_overwrites h hplace⟩, ?_⟩
  · rintro hkept ⟨⟨r, hr⟩, hoverwrites⟩
    obtain ⟨v', hwritten, -, hne⟩ := get?_writePage_of_overwrites hr hoverwrites hplace
    rw [hwritten] at hkept
    exact hne hkept
  · intro r hr hoverwrites
    obtain ⟨v', hwritten, hpage, -⟩ := get?_writePage_of_overwrites hr hoverwrites hplace
    exact ⟨v', hwritten, hpage⟩

theorem follow_reportView (bytes : List UInt8) :
    let v := reportView bytes
    v.tree.follow v.workingDirectory "report.json" = .ok ["report.json"] ∧
      v.tree.follow v.workingDirectory "./report.json" = .ok ["report.json"] ∧
      v.tree.follow v.workingDirectory "report.html" = .ok ["report.html"] := by
  have hreport : Path.pieces "report.json" = ["report.json"] := by decide
  have hdotted : Path.pieces "./report.json" = [".", "report.json"] := by decide
  have hpage : Path.pieces "report.html" = ["report.html"] := by decide
  have hrelative : Path.isAbsolute "report.json" = false ∧
      Path.isAbsolute "./report.json" = false ∧ Path.isAbsolute "report.html" = false := by decide
  simp [reportView, Tree.follow, Tree.walk, Tree.get?, List.lookup_cons, hreport, hdotted, hpage,
    hrelative]

/-- The page of a saved report that goes beside it leaves it as it was. -/
theorem get?_execute_html_iff_reportView :
    let v := reportView (bytesOf (brimmingReport.render .json))
    let line : CommandLine := ⟨"report.json", "info", 1, some (.html none)⟩
    let now : Timestamp := ⟨2024, 2, 29, 12, 0, 0, 0⟩
    v.tree.follow v.workingDirectory line.path = .ok ["report.json"] ∧
      (execute v now line).1.tree.get? ["report.json"] = v.tree.get? ["report.json"] := by
  intro v line now
  obtain ⟨hreport, -, hpage⟩ := follow_reportView (bytesOf (brimmingReport.render .json))
  have htarget : pageTarget "report.json" none = "report.html" := by decide
  refine ⟨hreport, (get?_execute_html_iff now rfl hreport).1.2 ?_⟩
  rintro ⟨-, hoverwrites⟩
  have hleads := hoverwrites.leads
  rw [htarget, hpage, hreport] at hleads
  exact absurd hleads (by decide)

/-- **A path with a dot in front leads to the same file**, and is not the same path: the page that
is asked for there takes the place of the report. -/
theorem execute_html_replaces_report :
    let v := reportView (bytesOf (brimmingReport.render .json))
    let line : CommandLine := ⟨"report.json", "info", 1, some (.html (some "./report.json"))⟩
    let now : Timestamp := ⟨2024, 2, 29, 12, 0, 0, 0⟩
    v.tree.follow v.workingDirectory line.path = .ok ["report.json"] ∧
      (execute v now line).1.tree.get? ["report.json"] =
        some (.file (bytesOf brimmingReport.pageText)) ∧
      (execute v now line).1.tree.get? ["report.json"] ≠ v.tree.get? ["report.json"] := by
  intro v line now
  obtain ⟨hreport, hdotted, -⟩ := follow_reportView (bytesOf (brimmingReport.render .json))
  have hholds : HoldsReport v "report.json" brimmingReport :=
    ⟨_, _, bytes?_reportView _, Utf8.decode?_encode _,
      ofSavedText?_savedText storable_brimmingReport⟩
  have hoverwrites : Overwrites v "report.json" (some "./report.json") :=
    ⟨by decide, hdotted.trans hreport.symm⟩
  obtain ⟨v', hwritten, hpage, hne⟩ := get?_writePage_of_overwrites hholds hoverwrites hreport
  have hexecute : execute v now line = writePage v "report.json" (some "./report.json") := rfl
  rw [hexecute, hwritten]
  exact ⟨hreport, hpage, hne⟩

end MatlabQuality.Command
