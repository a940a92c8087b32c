import Multifidelity.Message.Basic
import Multifidelity.Report
import Multifidelity.Scalar.Binary64

/-!
# Texts about the progress and the result of a run

## Main definitions

* `Checkpoint.message`: two lines about an iteration.
* `Summary.message`: a table of variances.
-/

namespace Multifidelity

/-- What the console shows about an iteration. -/
def Checkpoint.message (checkpoint : Checkpoint Float) : String :=
  let text := Decimal.Layout.console.text
  let high := text (averageCount checkpoint.highCounts)
  let target := text (average checkpoint.highTargets)
  let remaining := text (average checkpoint.varianceRatios)
  let spent := text checkpoint.spent
  s!"iteration {checkpoint.iteration} finished.\n"
    ++ s!"this iteration: N_H={high} target={target} (1 - R^2)={remaining} cost={spent} "
    ++ s!"next={checkpoint.nextSamples}\n"

/-- A variance with six fractional digits in a column of fourteen characters. -/
def Summary.cell (x : Float) : String :=
  Message.padded 14 (Decimal.scientific 7 x)

/-- A number of samples in a column of four characters. -/
def Summary.samplesCell (samples : Nat) : String :=
  Message.padded 4 (toString samples)

/-- The variances of the estimators as a table. -/
def Summary.message (summary : Summary Float) : String :=
  let label := if summary.projected then "Projected" else "    Final"
  let initial := match summary.initial with
    | some (samples, variance) =>
      s!"      Initial MC ({samplesCell samples} HF samples): {cell variance}\n"
    | none => ""
  "<<<<< Variance for mean estimator:\n" ++ initial
    ++ s!"  {label}   MC ({samplesCell summary.highSamples} HF samples): "
    ++ s!"{cell summary.monteCarlo}\n"
    ++ s!"  {label} MFMC (sample profile):  {cell summary.multifidelity}\n"
    ++ s!"  {label} MFMC ratio (1 - R^2):   {cell summary.ratio}"

end Multifidelity
