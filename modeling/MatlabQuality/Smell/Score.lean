import MatlabQuality.Number.Binary64
import MatlabQuality.Smell.Finding

/-!
# The quality score

Findings cost points off a hundred.  The cost is first spread over the files and then summed over
them again, each step in binary64.

## Main definitions

* `deduction` — the points that findings cost.
* `scoreOf` — the score of a tally over a number of files.
-/

namespace MatlabQuality

open MatlabQuality.Number

/-- The score without findings. -/
def perfectScore : Nat := 100

/-- The range of a count that is weighed. -/
def weighedRange : Nat := Nat.pow 2 32

/-- The points that findings cost.  Counts are weighed modulo `weighedRange`. -/
def deduction (t : Tally) : Nat :=
  t.high % weighedRange * Severity.penalty .high
    + t.medium % weighedRange * Severity.penalty .medium
    + t.low % weighedRange * Severity.penalty .low

/-- The score of a tally over a number of files, from nought to a hundred; without files it is
perfect. -/
def scoreOf (t : Tally) (files : Nat) : Nat :=
  if files = 0 then perfectScore
  else
    let perfect := Binary64.ofNat perfectScore
    let raw := perfect.sub (Binary64.ofNat (deduction t))
    let perFile := (perfect.sub raw).div (Binary64.ofNat files)
    ((perfect.sub (perFile.mul (Binary64.ofNat files))).max (Binary64.ofNat 0)).round.toNat

/-- The score of findings over a number of files. -/
def qualityScore (findings : List Finding) (files : Nat) : Nat :=
  scoreOf (Tally.ofFindings findings) files

end MatlabQuality
