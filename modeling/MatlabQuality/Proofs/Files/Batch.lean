import Mathlib.Algebra.BigOperators.Group.List.Basic
import MatlabQuality.Files.Batch
import MatlabQuality.Proofs.Report.Account

/-!
# What a batch of files comes to

Files are shared out to workers, read and analyzed each on its own, parted into those that could be
read and those that could not, and folded into one run.  Nothing of this shows in the run: it is
put together from the files that could be read, one after the other, and its figures do not depend
on the order of the files either.

## Main definitions

* `readable`, `unreadable` — the files that can be read, with their bytes, and the other paths.
* `analysisOf` — what is learnt from a file by its bytes.
* `Batched` — that a run is put together from the files that can be read.
* `Run.SameFigures` — that two runs differ in the order of their files at most.

## Main statements

* `batched_analyzeAll` — the run over some files is put together from those that can be read.
* `Batched.sameFigures_of_perm` — files in another order give the same figures.
* `analyzeAll_loses_nothing` — no file is lost, repeated or mixed up.
-/

namespace MatlabQuality.Files

open MatlabQuality.Source MatlabQuality.Text

variable {read : String → Option (List UInt8)} {t : Thresholds}

/-! ## Files that can be read -/

/-- The files that can be read, with their bytes, in the order of their paths. -/
def readable (read : String → Option (List UInt8)) (paths : List String) :
    List (String × List UInt8) :=
  paths.filterMap fun path => (read path).map fun bytes => (path, bytes)

/-- The paths that cannot be read, in their order. -/
def unreadable (read : String → Option (List UInt8)) (paths : List String) : List String :=
  paths.filter fun path => (read path).isNone

/-- What is learnt from a file by its bytes. -/
def analysisOf (t : Thresholds) (file : String × List UInt8) : FileAnalysis :=
  analyzeSource file.1 (ofSourceBytes file.2) t

/-- What came of reading and analyzing some files. -/
def outcomes (read : String → Option (List UInt8)) (t : Thresholds) (paths : List String) :
    List (Except Unreadable FileAnalysis) :=
  paths.map fun path => analyzeRead t path ((read path).map ofSourceBytes)

theorem filterMap_toOption_outcomes (read : String → Option (List UInt8)) (t : Thresholds)
    (paths : List String) :
    (outcomes read t paths).filterMap Except.toOption =
      (readable read paths).map (analysisOf t) := by
  rw [outcomes, readable, List.filterMap_map, List.map_filterMap]
  refine List.filterMap_congr fun path _ => ?_
  rw [Function.comp_apply]
  cases read path with
  | none => rfl
  | some bytes => rfl

theorem skipped_runOfOutcomes (read : String → Option (List UInt8)) (t : Thresholds)
    (paths : List String) :
    (runOfOutcomes (outcomes read t paths)).skipped = unreadable read paths := by
  unfold runOfOutcomes outcomes unreadable
  dsimp only
  rw [List.filterMap_map, ← List.filterMap_eq_filter]
  refine List.filterMap_congr fun path _ => ?_
  rw [Function.comp_apply]
  cases hread : read path with
  | none => simp [analyzeRead, Option.guard, hread]
  | some bytes => simp [analyzeRead, Option.guard, hread]

theorem readable_append (read : String → Option (List UInt8)) (xs ys : List String) :
    readable read (xs ++ ys) = readable read xs ++ readable read ys :=
  List.filterMap_append

theorem unreadable_append (read : String → Option (List UInt8)) (xs ys : List String) :
    unreadable read (xs ++ ys) = unreadable read xs ++ unreadable read ys :=
  List.filter_append xs ys

section Congr

variable {read' : String → Option (List UInt8)} {paths : List String}
  (h : ∀ path ∈ paths, read' path = read path)

include h

theorem readable_congr : readable read' paths = readable read paths :=
  List.filterMap_congr fun path hpath => by rw [h path hpath]

theorem unreadable_congr : unreadable read' paths = unreadable read paths :=
  List.filter_congr fun path hpath => by rw [h path hpath]

end Congr

/-- A run is put together from the files that can be read, in their order, and names those that
cannot. -/
structure Batched (read : String → Option (List UInt8)) (t : Thresholds) (paths : List String)
    (run : Run) : Prop where
  metrics_eq : run.metrics = (readable read paths).map fun file => (analysisOf t file).metrics
  findings_eq : run.findings =
    (readable read paths).flatMap fun file => (analysisOf t file).findings
  skipped_eq : run.skipped = unreadable read paths
  /-- The score depends on the findings and on the number of files that can be read. -/
  qualityScore_eq : run.qualityScore = qualityScore run.findings (readable read paths).length

/-- **The run over some files is put together from those that can be read.** -/
theorem batched_analyzeAll (read : String → Option (List UInt8)) (t : Thresholds) (workers : ℕ)
    (paths : List String) : Batched read t paths (analyzeAll read t workers paths) := by
  have hrun : analyzeAll read t workers paths = runOfOutcomes (outcomes read t paths) := by
    rw [analyzeAll, mapShared_eq_map]
    rfl
  have hanalyses := filterMap_toOption_outcomes read t paths
  rw [hrun]
  refine ⟨?_, ?_, skipped_runOfOutcomes read t paths, ?_⟩
  · rw [runOfOutcomes, hanalyses]
    exact List.map_map
  · rw [runOfOutcomes, hanalyses]
    exact List.flatMap_map _ _ _
  · rw [runOfOutcomes, hanalyses]
    exact congrArg (qualityScore _) (List.length_map _)

/-- The files that can be read, those that cannot, and the limits determine the run. -/
theorem Batched.eq {read' : String → Option (List UInt8)} {paths paths' : List String}
    {run run' : Run} (h : Batched read t paths run) (h' : Batched read' t paths' run')
    (hreadable : readable read' paths' = readable read paths)
    (hunreadable : unreadable read' paths' = unreadable read paths) : run' = run := by
  have hfindings : run'.findings = run.findings := by
    rw [h'.findings_eq, hreadable, h.findings_eq]
  rw [Run.mk.injEq]
  refine ⟨?_, hfindings, ?_, ?_⟩
  · rw [h'.metrics_eq, hreadable, h.metrics_eq]
  · rw [h'.qualityScore_eq, hfindings, hreadable, h.qualityScore_eq]
  · rw [h'.skipped_eq, hunreadable, h.skipped_eq]

end MatlabQuality.Files

/-! ## Figures -/

namespace MatlabQuality

open MatlabQuality.Source

/-- Two runs have the same figures; the order of what they list may differ. -/
structure Run.SameFigures (run run' : Run) : Prop where
  totalFiles_eq : run.totalFiles = run'.totalFiles
  totalLinesOfCode_eq : run.totalLinesOfCode = run'.totalLinesOfCode
  totalFunctions_eq : run.totalFunctions = run'.totalFunctions
  averageComplexity_eq : run.averageComplexity = run'.averageComplexity
  averageFunctionLength_eq : run.averageFunctionLength = run'.averageFunctionLength
  tally_eq : run.tally = run'.tally
  qualityScore_eq : run.qualityScore = run'.qualityScore
  kindCount_eq : ∀ k, (run.kindCounts.lookup k).getD 0 = (run'.kindCounts.lookup k).getD 0

theorem Run.total_perm {counts counts' : List ℕ} (h : counts.Perm counts') :
    Run.total counts = Run.total counts' := by
  rw [Run.total_eq_sum, Run.total_eq_sum, h.sum_eq]

theorem Run.mean_perm {counts counts' : List ℕ} (h : counts.Perm counts') :
    Run.mean counts = Run.mean counts' := by
  have hnil : counts = [] ↔ counts' = [] := by
    rw [← List.length_eq_zero_iff, h.length_eq, List.length_eq_zero_iff]
  simp only [Run.mean, Run.total_perm h, h.length_eq, hnil]

theorem Tally.ofFindings_perm {findings findings' : List Finding}
    (h : findings.Perm findings') : Tally.ofFindings findings = Tally.ofFindings findings' := by
  simp only [Tally.ofFindings, h.countP_eq]

end MatlabQuality

namespace MatlabQuality.Files

open MatlabQuality.Source MatlabQuality.Text

variable {read : String → Option (List UInt8)} {t : Thresholds}

/-- **Files in another order give the same figures.** -/
theorem Batched.sameFigures_of_perm {paths paths' : List String} {run run' : Run}
    (h : Batched read t paths run) (h' : Batched read t paths' run') (hperm : paths.Perm paths') :
    run.SameFigures run' := by
  have hreadable : (readable read paths).Perm (readable read paths') := hperm.filterMap _
  have hmetrics : run.metrics.Perm run'.metrics := by
    rw [h.metrics_eq, h'.metrics_eq]
    exact hreadable.map _
  have hfindings : run.findings.Perm run'.findings := by
    rw [h.findings_eq, h'.findings_eq]
    exact hreadable.flatMap_right _
  have htally := Tally.ofFindings_perm hfindings
  refine ⟨hmetrics.length_eq, Run.total_perm (hmetrics.map _), Run.total_perm (hmetrics.map _),
    Run.mean_perm (hmetrics.map _), Run.mean_perm (hmetrics.map _), htally, ?_, ?_⟩
  · rw [h.qualityScore_eq, h'.qualityScore_eq, qualityScore, qualityScore, htally,
      hreadable.length_eq]
  · intro k
    rw [Run.kindCounts, Run.kindCounts, lookup_kindCounts, lookup_kindCounts,
      hfindings.countP_eq]

/-- What is learnt from some files is the same beside others. -/
theorem Batched.append {xs ys : List String} {run more both : Run} (hrun : Batched read t xs run)
    (hmore : Batched read t ys more) (hboth : Batched read t (xs ++ ys) both) :
    both.metrics = run.metrics ++ more.metrics ∧ both.findings = run.findings ++ more.findings ∧
      both.skipped = run.skipped ++ more.skipped := by
  refine ⟨?_, ?_, ?_⟩
  · rw [hboth.metrics_eq, readable_append, List.map_append, hrun.metrics_eq, hmore.metrics_eq]
  · rw [hboth.findings_eq, readable_append, List.flatMap_append, hrun.findings_eq,
      hmore.findings_eq]
  · rw [hboth.skipped_eq, unreadable_append, hrun.skipped_eq, hmore.skipped_eq]

/-- **No file is lost, repeated or mixed up.**  Whatever comes of reading each of some paths, and
whatever the number of workers, the run is put together from the files that can be read.  What is
learnt from some files is the same beside any others, depends on the bytes of these files alone,
and gives the same figures in any order. -/
theorem analyzeAll_loses_nothing (read : String → Option (List UInt8)) (t : Thresholds)
    (workers : ℕ) (paths : List String) :
    Batched read t paths (analyzeAll read t workers paths) ∧
    (∀ others,
      let run := analyzeAll read t workers paths
      let more := analyzeAll read t workers others
      let both := analyzeAll read t workers (paths ++ others)
      both.metrics = run.metrics ++ more.metrics ∧ both.findings = run.findings ++ more.findings ∧
        both.skipped = run.skipped ++ more.skipped) ∧
    (∀ read' workers', (∀ path ∈ paths, read' path = read path) →
      analyzeAll read' t workers' paths = analyzeAll read t workers paths) ∧
    ∀ paths' workers', paths.Perm paths' →
      (analyzeAll read t workers paths).SameFigures (analyzeAll read t workers' paths') := by
  have hbatch := batched_analyzeAll read t
  refine ⟨hbatch workers paths, ?_, ?_, ?_⟩
  · intro others
    exact (hbatch workers paths).append (hbatch workers others) (hbatch workers (paths ++ others))
  · intro read' workers' h
    exact (hbatch workers paths).eq (batched_analyzeAll read' t workers' paths)
      (readable_congr h) (unreadable_congr h)
  · intro paths' workers' h
    exact (hbatch workers paths).sameFigures_of_perm (hbatch workers' paths') h

/-- A path twice and one that cannot be read, beside a file that is not asked for. -/
theorem analyzeAll_loses_nothing_repeated :
    let read (path : String) : Option (List UInt8) :=
      if path = "a.m" then some [0x34, 0x32] else if path = "b.m" then some [] else none
    let read' (path : String) : Option (List UInt8) :=
      if path = "c.m" then some [0xFF] else read path
    let paths := ["b.m", "gone.m", "a.m", "b.m"]
    let sorted := ["a.m", "b.m", "b.m", "gone.m"]
    paths.Perm sorted ∧ (∀ path ∈ paths, read' path = read path) ∧
      (analyzeAll read .default 0 paths).skipped = ["gone.m"] ∧
      analyzeAll read' .default 3 paths = analyzeAll read .default 0 paths ∧
      (analyzeAll read .default 0 paths).SameFigures (analyzeAll read .default 2 sorted) := by
  intro read read' paths sorted
  obtain ⟨hbatched, -, hlocal, hperm⟩ := analyzeAll_loses_nothing read .default 0 paths
  have hsorted : paths.Perm sorted := by decide
  have hsame : ∀ path ∈ paths, read' path = read path := by decide
  have hskipped : unreadable read paths = ["gone.m"] := by decide
  exact ⟨hsorted, hsame, hbatched.skipped_eq.trans hskipped, hlocal read' 3 hsame,
    hperm sorted 2 hsorted⟩

end MatlabQuality.Files
