import Multifidelity.Scalar.Basic

/-!
# Failures and warnings

A `Failure` ends a run.  A `Warning` is attached to its report: the results can be used but deserve
less trust.  Both name causes; the wording is in `Multifidelity.Message`.

## Main definitions

* `Failure`: why a run, or a part of it, has no result.
* `Warning`: what makes a result less trustworthy.
-/

namespace Multifidelity

/-- What is wrong with the settings of a run. -/
inductive SettingsFault (α : Type) where
  /-- The pilot has no samples. -/
  | noPilotSamples
  /-- The budget is not positive and finite. -/
  | invalidBudget (budget : α)
  /-- The tolerance is not positive and finite. -/
  | invalidTolerance (tolerance : α)
  /-- The ensemble lacks low-fidelity models or QoI. -/
  | emptyEnsemble (numApprox numFunctions : Nat)
  /-- A tolerance is relative to the estimator variance of the pilot, which is not known. -/
  | missingPilotVariance

/-- Why no evaluation ratios were found numerically. -/
inductive OptimizerFault (α : Type) where
  /-- The objective is infinite or undefined where the search starts. -/
  | startNotFinite (initial : List α)
  /-- The optimizer returned the wrong number of ratios, or one that is not finite. -/
  | invalidRatios (ratios : List α)
  /-- The optimizer gave up by itself. -/
  | reported (reason : String)

/-- The reason for which a run ends without a report. -/
inductive Failure (α : Type) where
  /-- An offline pilot can only be targeted at a budget. -/
  | budgetRequired
  /-- Both a budget and a tolerance are set. -/
  | conflictingTargets
  /-- Neither a budget nor a tolerance is set. -/
  | missingTarget
  /-- The settings are out of range or do not fit the ensemble. -/
  | invalidSettings (fault : SettingsFault α)
  /-- The ensemble has to report one positive finite cost per model. -/
  | invalidCosts (expected found invalid : Nat)
  /-- A QoI has too few samples at which all models are finite. -/
  | insufficientSamples (qoi count : Nat)
  /-- A response does not have one value per model and QoI. -/
  | responseLength (expected found : Nat)
  /-- The numerical search for evaluation ratios failed. -/
  | optimizer (fault : OptimizerFault α)

/-- A condition under which a result is less trustworthy. -/
inductive Warning where
  /-- No low-fidelity model is correlated with the high-fidelity one for this QoI. -/
  | degenerateCorrelation (qoi : Nat)
  /-- A squared correlation was clamped below one. -/
  | perfectCorrelation (qoi model : Nat)
  /-- The iteration limit ended the refinement before the high-fidelity target was met. -/
  | maxIterations (iterations remaining : Nat)
  deriving DecidableEq

end Multifidelity
