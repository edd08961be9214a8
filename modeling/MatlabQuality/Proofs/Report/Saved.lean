import MatlabQuality.Command.Execution
import MatlabQuality.Proofs.Files.Writing
import MatlabQuality.Proofs.Json.Decode
import MatlabQuality.Proofs.Number.Exact
import MatlabQuality.Proofs.Text.Utf8

/-!
# A saved report loses nothing

Each record of a report is kept by its JSON: every field is written under its own key, and read
back from it.  A saved report is therefore read as the report it was made from, and its page is the
page that would have been written in its place.

## Main definitions

* `IsHundredths` — a number nearest to a number of hundredths.
* `Report.Storable` — the reports whose counts are in range and whose averages have two places.
* `Command.HoldsReport`, `Command.pageTarget` — where a report stands, and where its page goes.

## Main statements

* `Report.keeps_toJson` — the JSON of a report keeps it.
* `ofSavedText?_render_json` — a saved report is read back, and its page is the one that an analysis
  writes.
-/

namespace MatlabQuality

open MatlabQuality.Json MatlabQuality.Number MatlabQuality.Source

attribute [local irreducible] unitsPerOne unitsOfInfinity

/-! ## What a file can hold -/

/-- The number nearest to a number of hundredths, if it is not too large to be exact. -/
def IsHundredths (x : Binary64) : Prop :=
  ∃ k < 2 ^ 53, x = Binary64.ofRatio false k 100

/-- Counts of findings in range. -/
structure Tally.Storable (t : Tally) : Prop where
  low : t.low < 2 ^ 64
  medium : t.medium < 2 ^ 64
  high : t.high < 2 ^ 64

/-- Totals in range. -/
structure ReportSummary.Storable (s : ReportSummary) : Prop where
  totalFiles : s.totalFiles < 2 ^ 64
  totalLinesOfCode : s.totalLinesOfCode < 2 ^ 64
  totalFunctions : s.totalFunctions < 2 ^ 64
  qualityScore : s.qualityScore < 2 ^ 32
  averageComplexity : IsHundredths s.averageComplexity
  averageFunctionLength : IsHundredths s.averageFunctionLength

/-- Measures in range. -/
structure MetricsStorable (m : FileMetrics) : Prop where
  linesOfCode : m.linesOfCode < 2 ^ 64
  commentLines : m.commentLines < 2 ^ 64
  blankLines : m.blankLines < 2 ^ 64
  cyclomaticComplexity : m.cyclomaticComplexity < 2 ^ 64
  functionCount : m.functionCount < 2 ^ 64
  maxFunctionLength : m.maxFunctionLength < 2 ^ 64
  maxParameters : m.maxParameters < 2 ^ 64
  maxNestingDepth : m.maxNestingDepth < 2 ^ 64
  magicNumbers : ∀ n ∈ m.magicNumbers, n < 2 ^ 128

/-- A report whose counts are in range and whose averages have two places.  Its texts are any. -/
structure Report.Storable (r : Report) : Prop where
  summary : r.summary.Storable
  total : r.codeSmells.total < 2 ^ 64
  bySeverity : r.codeSmells.bySeverity.Storable
  lineNumbers : ∀ f ∈ r.codeSmells.details, f.lineNumber < 2 ^ 64
  metrics : ∀ m ∈ r.metrics, MetricsStorable m

/-! ## Records -/

theorem keeps_count {n : ℕ} (h : n < 2 ^ 64) : Keeps toCount? (.ofNat n) n :=
  keeps_ofNat h

theorem keeps_average {x : Binary64} (h : IsHundredths x) :
    Keeps Value.toBinary64? (.ofBinary64 x) x := by
  obtain ⟨k, hk, heq⟩ := h
  rw [heq]
  exact keeps_hundredths hk

theorem Tally.keeps_toJson {t : Tally} (h : t.Storable) : Keeps Tally.ofJson? t.toJson t := by
  have hlow := keeps_count h.low
  have hmedium := keeps_count h.medium
  have hhigh := keeps_count h.high
  refine keeps_record rfl (by decide) ?_ ?_
  · simp only [List.forall_mem_cons]
    exact ⟨hlow.writable, hmedium.writable, hhigh.writable, by simp⟩
  · simp [hlow.required, hmedium.required, hhigh.required]

theorem Finding.keeps_toJson {f : Finding} (h : f.lineNumber < 2 ^ 64) :
    Keeps Finding.ofJson? f.toJson f := by
  have hkind := keeps_name (SmellKind.ofName?_name f.kind)
  have hseverity := keeps_name (Severity.ofName?_name f.severity)
  have hline := keeps_count h
  refine keeps_record rfl (by decide) ?_ ?_
  · simp only [List.forall_mem_cons]
    exact ⟨hkind.writable, hseverity.writable, .string _, hline.writable, .string _, .string _,
      .string _, by simp⟩
  · simp [hkind.required, hseverity.required, hline.required, (keeps_ofString _).required,
      withDefault, (keeps_ofString _).read?_eq]

theorem keeps_metricsToJson {m : FileMetrics} (h : MetricsStorable m) :
    Keeps metricsOfJson? (metricsToJson m) m := by
  have hcode := keeps_count h.linesOfCode
  have hcomment := keeps_count h.commentLines
  have hblank := keeps_count h.blankLines
  have hcomplexity := keeps_count h.cyclomaticComplexity
  have hfunctions := keeps_count h.functionCount
  have hlength := keeps_count h.maxFunctionLength
  have hparameters := keeps_count h.maxParameters
  have hnesting := keeps_count h.maxNestingDepth
  have hmagic : Keeps (Value.toList? (Value.toNat? literalBound))
      (.array (m.magicNumbers.map .ofNat)) m.magicNumbers :=
    keeps_array fun n hn => keeps_ofNat (h.magicNumbers n hn)
  refine keeps_record rfl (by decide) ?_ ?_
  · simp only [List.forall_mem_cons]
    exact ⟨.string _, hcode.writable, hcomment.writable, hblank.writable, hcomplexity.writable,
      hfunctions.writable, hlength.writable, hparameters.writable, hnesting.writable,
      hmagic.writable, by simp⟩
  · simp [(keeps_ofString _).required, hcode.required, hcomment.required, hblank.required,
      hcomplexity.required, hfunctions.required, hlength.required, hparameters.required,
      hnesting.required, hmagic.required]

theorem ReportSummary.keeps_toJson {s : ReportSummary} (h : s.Storable) :
    Keeps ReportSummary.ofJson? s.toJson s := by
  have hfiles := keeps_count h.totalFiles
  have hlines := keeps_count h.totalLinesOfCode
  have hfunctions := keeps_count h.totalFunctions
  have hscore : Keeps (Value.toNat? scoreBound) (.ofNat s.qualityScore) s.qualityScore :=
    keeps_ofNat h.qualityScore
  have hcomplexity := keeps_average h.averageComplexity
  have hlength := keeps_average h.averageFunctionLength
  refine keeps_record rfl (by decide) ?_ ?_
  · simp only [List.forall_mem_cons]
    exact ⟨hfiles.writable, hlines.writable, hfunctions.writable, hscore.writable,
      hcomplexity.writable, hlength.writable, by simp⟩
  · simp [hfiles.required, hlines.required, hfunctions.required, hscore.required,
      hcomplexity.required, hlength.required]

theorem SmellSection.keeps_toJson {s : SmellSection} (htotal : s.total < 2 ^ 64)
    (hseverity : s.bySeverity.Storable) (hlines : ∀ f ∈ s.details, f.lineNumber < 2 ^ 64) :
    Keeps SmellSection.ofJson? s.toJson s := by
  have htotal := keeps_count htotal
  have hseverity := Tally.keeps_toJson hseverity
  have hdetails : Keeps (Value.toList? Finding.ofJson?) (.array (s.details.map Finding.toJson))
      s.details :=
    keeps_array fun f hf => Finding.keeps_toJson (hlines f hf)
  refine keeps_record rfl (by decide) ?_ ?_
  · simp only [List.forall_mem_cons]
    exact ⟨htotal.writable, hseverity.writable, hdetails.writable, by simp⟩
  · simp [htotal.required, hseverity.required, hdetails.required]

/-- **The JSON of a report keeps it.** -/
theorem Report.keeps_toJson {r : Report} (h : r.Storable) : Keeps Report.ofJson? r.toJson r := by
  have hsummary := ReportSummary.keeps_toJson h.summary
  have hsmells := SmellSection.keeps_toJson h.total h.bySeverity h.lineNumbers
  have hmetrics : Keeps (Value.toList? metricsOfJson?) (.array (r.metrics.map metricsToJson))
      r.metrics :=
    keeps_array fun m hm => keeps_metricsToJson (h.metrics m hm)
  have hrecommendations : Keeps (Value.toList? Value.toText?)
      (.array (r.recommendations.map .ofString)) r.recommendations :=
    keeps_array fun s _ => keeps_ofString s
  refine keeps_record rfl (by decide) ?_ ?_
  · simp only [List.forall_mem_cons]
    exact ⟨.string _, hsummary.writable, hsmells.writable, hmetrics.writable,
      hrecommendations.writable, by simp⟩
  · simp [(keeps_ofString _).required, hsummary.required, hsmells.required, hmetrics.required,
      hrecommendations.required]

theorem ofSavedText?_savedText {r : Report} (h : r.Storable) :
    Report.ofSavedText? r.savedText.toList = some r := by
  have hkeeps := Report.keeps_toJson h
  rw [Report.ofSavedText?, Report.savedText, read?_pretty hkeeps.writable, Option.bind_some,
    hkeeps.read?_eq]

/-! ## Averages -/

theorem isUnsigned_mean (counts : List ℕ) : (Run.mean counts).IsUnsigned := by
  unfold Run.mean
  split_ifs
  · exact Binary64.isUnsigned_ofNat 0
  · exact (Binary64.isUnsigned_ofNat _).div (Binary64.isUnsigned_ofNat _)

/-- A number below `2 ^ 46` has two places once it is rounded to them. -/
theorem isHundredths_roundToHundredths {x : Binary64} (hx : x.IsUnsigned)
    (h : x.lt (Binary64.ofNat (2 ^ 46)) = true) : IsHundredths (roundToHundredths x) := by
  obtain ⟨a, rfl, hunits⟩ := hx.exists_of_lt (by decide) h
  exact Binary64.exists_eq_hundredths hunits.le

/-! ## Files -/

namespace Command

open MatlabQuality.Files MatlabQuality.Text

/-- A path leads to the text of a report. -/
def HoldsReport (v : View) (path : String) (r : Report) : Prop :=
  ∃ bytes text, v.bytes? path = some bytes ∧ Utf8.decode? bytes = some text ∧
    Report.ofSavedText? text = some r

/-- Where the page of a report goes. -/
def pageTarget (path : String) (output : Option String) : String :=
  output.getD (Path.withExtension path "html")

/-- The page of a report is made ready, unless it would go to the path of the report. -/
theorem preparePage_of_holdsReport {r : Report} {v : View} {path : String}
    (h : HoldsReport v path r) (output : Option String) :
    preparePage v path output =
      if Path.samePath (pageTarget path output) path then .error (.wouldOverwrite path)
      else .ok (pageTarget path output, r.pageText) := by
  obtain ⟨bytes, text, hbytes, htext, hreport⟩ := h
  unfold preparePage pageTarget
  simp only [hbytes, htext, hreport]
  split_ifs <;> rfl

/-- Where no report stands there is nothing to show. -/
theorem preparePage_of_not_holdsReport {v : View} {path : String}
    (h : ∀ r, ¬ HoldsReport v path r) (output : Option String) :
    ∃ e ∈ [.reportNotFound path, .reportUnreadable path, .notReport path],
      preparePage v path output = .error e := by
  unfold preparePage
  cases hbytes : v.bytes? path with
  | none => exact ⟨.reportNotFound path, by simp, rfl⟩
  | some bytes =>
    cases htext : Utf8.decode? bytes with
    | none =>
      refine ⟨.reportUnreadable path, by simp, ?_⟩
      simp only [htext]
      rfl
    | some text =>
      cases hreport : Report.ofSavedText? text with
      | none =>
        refine ⟨.notReport path, by simp, ?_⟩
        simp only [htext, hreport]
        rfl
      | some r => exact absurd ⟨bytes, text, hbytes, htext, hreport⟩ (h r)

/-- The page of a saved report is made ready from the report itself. -/
theorem preparePage_of_saved {r : Report} (h : r.Storable) {v : View} {path : String}
    (hsaved : v.bytes? path = some (bytesOf (r.render .json))) (output : Option String) :
    preparePage v path output =
      if Path.samePath (output.getD (Path.withExtension path "html")) path then
        .error (.wouldOverwrite path)
      else .ok (output.getD (Path.withExtension path "html"), r.render .html) := by
  have hholds : HoldsReport v path r :=
    ⟨_, _, hsaved, Utf8.decode?_encode _, ofSavedText?_savedText h⟩
  exact preparePage_of_holdsReport hholds output

/-- A page that is ready is written, or cannot be. -/
theorem writePage_of_ok {v : View} {path target page : String} {output : Option String}
    (hpage : preparePage v path output = .ok (target, page)) :
    writePage v path output =
      match v.write? target (bytesOf page) with
      | some v' => (v', .ok ⟨linesOf ["HTML report generated: " ++ target], none⟩)
      | none => (v, .error (.pageNotWritten target)) := by
  cases hwrite : v.write? target (bytesOf page) with
  | none => simp only [writePage, hpage, hwrite]
  | some v' => simp only [writePage, hpage, hwrite]

/-- **A page that is written is found at its path.** -/
theorem bytes?_of_writePage {v v' : View} {path target page : String} {output : Option String}
    {done : Finished} (hpage : preparePage v path output = .ok (target, page))
    (hdone : writePage v path output = (v', .ok done)) :
    v'.bytes? target = some (bytesOf page) := by
  rw [writePage_of_ok hpage] at hdone
  split at hdone
  · next written hwrite =>
    obtain rfl : written = v' := (Prod.mk.inj hdone).1
    exact View.bytes?_of_write? hwrite
  · cases hdone

theorem bytes?_of_saveReport {v v' : View} {path text : String}
    (h : saveReport v path text = (v', .ok ())) : v'.bytes? path = some (bytesOf text) := by
  unfold saveReport at h
  simp only at h
  split at h
  · cases h
  · split at h
    · next written hwrite =>
      obtain rfl : written = v' := (Prod.mk.inj h).1
      exact View.bytes?_of_write? hwrite
    · cases h

/-- **An analysis that finishes leaves its report behind.** -/
theorem bytes?_of_analyze {v v' : View} {now : Timestamp} {path : String} {workers : ℕ}
    {options : AnalyzeOptions} {format : ReportFormat} {r : Report} {done : Finished}
    (hreport : prepareReport v now path workers options = .ok (format, r))
    (hdone : analyze v now path workers options = (v', .ok done)) :
    v'.bytes? (options.output.getD (defaultOutput format)) = some (bytesOf (r.render format)) := by
  unfold analyze at hdone
  simp only [hreport] at hdone
  split at hdone
  · cases hdone
  · next saved hsave =>
    obtain rfl : saved = v' := (Prod.mk.inj hdone).1
    exact bytes?_of_saveReport hsave

/-- **A saved report loses nothing.**  It is read back as it was, and the page of the file is the
page of the report: the one that an analysis leaves behind when it is asked for a page.  Averages
below `2 ^ 46` are among those that are kept. -/
theorem ofSavedText?_render_json {r : Report} (h : r.Storable) :
    Report.ofSavedText? (r.render .json).toList = some r ∧
    (∀ (v : View) (now : Timestamp) (line : CommandLine) (output : Option String),
      line.command = some (.html output) →
      v.bytes? line.path = some (bytesOf (r.render .json)) →
      let target := output.getD (Path.withExtension line.path "html")
      (execute v now line =
        if Path.samePath target line.path then (v, .error (.wouldOverwrite line.path))
        else
          match v.write? target (bytesOf (r.render .html)) with
          | some v' => (v', .ok ⟨linesOf ["HTML report generated: " ++ target], none⟩)
          | none => (v, .error (.pageNotWritten target))) ∧
      ∀ v' done, execute v now line = (v', .ok done) →
        v'.bytes? target = some (bytesOf (r.render .html))) ∧
    (∀ (v v' : View) (now : Timestamp) (path : String) (workers : ℕ) (options : AnalyzeOptions)
      (format : ReportFormat) (done : Finished),
      prepareReport v now path workers options = .ok (format, r) →
      analyze v now path workers options = (v', .ok done) →
      v'.bytes? (options.output.getD (defaultOutput format)) =
        some (bytesOf (r.render format))) ∧
    ∀ (run : Run) (date : Timestamp),
      run.averageComplexity.lt (Binary64.ofNat (2 ^ 46)) = true →
      run.averageFunctionLength.lt (Binary64.ofNat (2 ^ 46)) = true →
      IsHundredths (Report.ofRun run date).summary.averageComplexity ∧
        IsHundredths (Report.ofRun run date).summary.averageFunctionLength := by
  refine ⟨ofSavedText?_savedText h, ?_, ?_, ?_⟩
  · intro v now line output hcommand hsaved target
    have hpage := preparePage_of_saved h hsaved output
    have hexecute : execute v now line = writePage v line.path output := by rw [execute, hcommand]
    rw [hexecute]
    by_cases hsame : Path.samePath target line.path = true
    · rw [if_pos hsame] at hpage ⊢
      have hending : writePage v line.path output = (v, .error (.wouldOverwrite line.path)) := by
        rw [writePage, hpage]
      refine ⟨hending, fun v' done hdone => ?_⟩
      rw [hending] at hdone
      cases hdone
    · rw [if_neg hsame] at hpage ⊢
      exact ⟨writePage_of_ok hpage, fun v' done hdone => bytes?_of_writePage hpage hdone⟩
  · intro v v' now path workers options format done hreport hdone
    exact bytes?_of_analyze hreport hdone
  · intro run date hcomplexity hlength
    exact ⟨isHundredths_roundToHundredths (isUnsigned_mean _) hcomplexity,
      isHundredths_roundToHundredths (isUnsigned_mean _) hlength⟩

/-- A report at the bounds of its counts, with texts that have to be escaped. -/
def brimmingReport : Report where
  analysisDate := "\x00\x1f\x7f\u2028"
  summary :=
    ⟨2 ^ 64 - 1, 2 ^ 64 - 1, 0, 2 ^ 32 - 1, Binary64.ofRatio false 725 100,
      Binary64.ofRatio false (2 ^ 53 - 1) 100⟩
  codeSmells :=
    ⟨2 ^ 64 - 1, ⟨0, 1, 2 ^ 64 - 1⟩,
      [⟨.magicNumbers, .high, "a\"b\\c\n.m", 2 ^ 64 - 1, "", "\ud7ff😀", "</p>\t"⟩]⟩
  metrics := [⟨"ü.m", 0, 1, 2, 3, 4, 5, 6, 2 ^ 64 - 1, [2 ^ 128 - 1, 0]⟩]
  recommendations := ["", "\\u0041"]

theorem storable_brimmingReport : brimmingReport.Storable where
  summary :=
    ⟨by decide, by decide, by decide, by decide, ⟨725, by decide, rfl⟩,
      ⟨2 ^ 53 - 1, by decide, rfl⟩⟩
  total := by decide
  bySeverity := ⟨by decide, by decide, by decide⟩
  lineNumbers := by
    simp only [brimmingReport, List.forall_mem_singleton]
    decide
  metrics := by
    simp only [brimmingReport, List.forall_mem_singleton]
    exact ⟨by decide, by decide, by decide, by decide, by decide, by decide, by decide, by decide,
      by decide⟩

/-- A directory that holds `report.json` and nothing else. -/
def reportView (bytes : List UInt8) : View :=
  ⟨⟨[(["report.json"], .file bytes)]⟩, []⟩

theorem bytes?_reportView (bytes : List UInt8) :
    (reportView bytes).bytes? "report.json" = some bytes := by
  have hpieces : Path.pieces "report.json" = ["report.json"] := by decide
  have hrelative : Path.isAbsolute "report.json" = false := by decide
  simp [reportView, View.bytes?, View.entry?, View.place?, Tree.follow, Tree.walk, Tree.get?,
    hpieces, hrelative]

theorem exists_write?_reportView (bytes page : List UInt8) :
    ∃ v', (reportView bytes).write? "report.html" page = some v' := by
  have hpieces : Path.pieces "report.html" = ["report.html"] := by decide
  have hrelative : Path.isAbsolute "report.html" = false := by decide
  simp [reportView, View.write?, Tree.follow, Tree.walk, Tree.get?, List.lookup_cons, hpieces,
    hrelative]

/-- The page of a report at the bounds is written beside the file that it was saved in. -/
theorem ofSavedText?_render_json_brimmingReport :
    let v := reportView (bytesOf (brimmingReport.render .json))
    let line : CommandLine := ⟨"report.json", "info", 1, some (.html none)⟩
    let now : Timestamp := ⟨2024, 2, 29, 12, 0, 0, 0⟩
    brimmingReport.Storable ∧
      Report.ofSavedText? (brimmingReport.render .json).toList = some brimmingReport ∧
      ∃ v' done, execute v now line = (v', .ok done) ∧
        v'.bytes? "report.html" = some (bytesOf (brimmingReport.render .html)) := by
  intro v line now
  have htarget : Path.withExtension "report.json" "html" = "report.html" := by decide
  have hdifferent : Path.samePath "report.html" "report.json" = false := by decide
  obtain ⟨hread, hpage, -, -⟩ := ofSavedText?_render_json storable_brimmingReport
  obtain ⟨hexecute, hbytes⟩ := hpage v now line none rfl (bytes?_reportView _)
  obtain ⟨v', hwrite⟩ := exists_write?_reportView (bytesOf (brimmingReport.render .json))
    (bytesOf (brimmingReport.render .html))
  simp only [line, Option.getD_none, htarget, hdifferent, v, hwrite] at hexecute hbytes
  exact ⟨storable_brimmingReport, hread, v', _, hexecute, hbytes v' _ hexecute⟩

end Command

end MatlabQuality
