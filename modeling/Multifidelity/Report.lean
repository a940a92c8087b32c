import Multifidelity.Estimate.Correlation
import Multifidelity.Settings

/-!
# Checkpoints and reports

## Main definitions

* `Checkpoint`: the state of a run after a shared increment.
* `Report`: what a run has estimated.
* `Summary`: the variances of the Monte Carlo and of the multifidelity estimator.
* `Report.summary`: the summary of a report.
-/

namespace Multifidelity

/-- The state of a run after a shared increment. -/
structure Checkpoint (α : Type) where
  /-- The index of the increment. -/
  iteration : Nat
  /-- The number of samples that were requested. -/
  samples : Nat
  /-- The numbers of joint samples after the increment, by QoI. -/
  highCounts : List Nat
  /-- The cost charged so far, in high-fidelity evaluations. -/
  spent : α
  /-- The variances of the high-fidelity model, by QoI. -/
  varHigh : List α
  /-- The usable squared correlations. -/
  rhoSq : QoiMatrix α
  /-- The evaluation ratios. -/
  solution : RatioSolution α
  /-- The high-fidelity targets, by QoI. -/
  highTargets : List α
  /-- The fractions of the Monte Carlo variance that remain, by QoI. -/
  varianceRatios : List α
  /-- The number of samples that the next increment needs, zero once the targets are met. -/
  nextSamples : Nat
  deriving BEq

/-- What a run has estimated. -/
structure Report (α : Type) where
  /-- What became of the pilot samples. -/
  pilotMode : PilotMode
  /-- The final evaluation ratios. -/
  solution : RatioSolution α
  /-- The number of shared increments. -/
  iterations : Nat
  /-- The total cost in high-fidelity evaluations. -/
  spent : α
  /-- The Monte Carlo variances of the pilot, by QoI. -/
  pilotVariance : Option (List α)
  /-- The numbers of joint pilot samples, by QoI. -/
  pilotCounts : Option (List Nat)
  /-- The numbers of high-fidelity samples, drawn or projected, by QoI. -/
  highCounts : List Nat
  /-- The numbers of joint samples that were drawn, by QoI. -/
  sharedCounts : List Nat
  /-- The variances of the high-fidelity model, by QoI. -/
  varHigh : List α
  /-- The usable squared correlations. -/
  rhoSq : QoiMatrix α
  /-- The high-fidelity targets, by QoI. -/
  highTargets : List α
  /-- The fractions of the Monte Carlo variance that remain, by QoI. -/
  varianceRatios : List α
  /-- The numbers of low-fidelity samples, drawn or projected, by model and QoI. -/
  lowCounts : List (List Nat)
  /-- The estimates of the first four raw moments, by QoI, unless the profile is only projected. -/
  rawMoments : Option (List (Vector α 4))
  /-- What makes the results less trustworthy. -/
  warnings : List Warning

/-- The variances of two estimators of the mean, averaged over the QoI. -/
structure Summary (α : Type) where
  /-- Whether the sample profile is only projected. -/
  projected : Bool
  /-- The rounded average of the pilot counts, and the Monte Carlo variance of the pilot. -/
  initial : Option (Nat × α)
  /-- The rounded average of the high-fidelity counts. -/
  highSamples : Nat
  /-- The variance of the Monte Carlo estimator. -/
  monteCarlo : α
  /-- The variance of the multifidelity estimator. -/
  multifidelity : α
  /-- The second variance over the first one. -/
  ratio : α

variable {α : Type} [Scalar α]

/-- The count nearest to the average of counts, zero if there is none. -/
def roundedAverage (α : Type) [Scalar α] (counts : List Nat) : Nat :=
  (Scalar.toCount? (Scalar.round (averageCount counts : α))).getD 0

/-- The variances of the estimators of a report. -/
def Report.summary (report : Report α) : Summary α :=
  let monteCarlo := monteCarloVariance report.varHigh report.highCounts
  let multifidelity := List.zipWith (· * ·) monteCarlo report.varianceRatios
  { projected := report.pilotMode == .projection
    initial := match report.pilotVariance, report.pilotCounts with
      | some variance, some counts => some (roundedAverage α counts, average variance)
      | _, _ => none
    highSamples := roundedAverage α report.highCounts
    monteCarlo := average monteCarlo
    multifidelity := average multifidelity
    ratio := average multifidelity / average monteCarlo }

end Multifidelity
