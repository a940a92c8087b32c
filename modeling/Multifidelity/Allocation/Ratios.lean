import Multifidelity.Allocation.Numerical
import Multifidelity.Allocation.Sanitize

/-!
# Allocation of samples

## Main definitions

* `EvalRatios`: evaluation ratios with the high-fidelity targets they lead to.
* `RatioInputs.evalRatios`: the ratios and targets of an iteration.
-/

namespace Multifidelity

/-- Evaluation ratios with the high-fidelity targets they lead to. -/
structure EvalRatios (α : Type) where
  /-- The evaluation ratios. -/
  solution : RatioSolution α
  /-- The high-fidelity targets by QoI. -/
  highTargets : List α
  /-- The usable squared correlations. -/
  rhoSq : QoiMatrix α
  /-- The warnings about the squared correlations. -/
  warnings : List Warning

namespace RatioInputs

variable {α : Type} [Scalar α] (inputs : RatioInputs α)

/-- The evaluation ratios in the form that suits the squared correlations. -/
def solution (rhoSq : QoiMatrix α) (optimizer : Optimizer α) : Recorded α (RatioSolution α) :=
  match selectForm rhoSq inputs.tolerances.ordering inputs.preferReordered with
  | .analytic => do
    log .analyticForm
    return .analytic (analyticRatios rhoSq inputs.costs)
  | .reordered => do
    let (order, ratios) := reorderedRatios rhoSq inputs.costs
    log (.reorderedForm order)
    return .reordered order ratios
  | .numerical => do
    log .numericalForm
    inputs.numericalSolution rhoSq optimizer

/-- The high-fidelity targets by QoI.  A search has found them together with the ratios. -/
def highTargets (rhoSq : QoiMatrix α) (solution : RatioSolution α) : Recorded α (List α) :=
  match solution, inputs.target with
  | .numerical _ _ highTarget _, _ => return List.replicate rhoSq.rows highTarget
  | _, .budget budget => return budgetTargets solution.ratios inputs.costs budget
  | _, .tolerance tolerance => do
    let pilotVariance ← inputs.requirePilotVariance
    return toleranceTargets (varianceRatios rhoSq solution.ratios solution.order)
      inputs.correlations.varHigh pilotVariance tolerance

/-- The evaluation ratios and high-fidelity targets of an iteration. -/
def evalRatios (optimizer : Optimizer α) : Recorded α (EvalRatios α) := do
  let (rhoSq, warnings) := sanitize inputs.correlations.rhoSq inputs.tolerances
  logAll (warnings.map .warning)
  let solution ← inputs.solution rhoSq optimizer
  let highTargets ← inputs.highTargets rhoSq solution
  log (.scaledProfile inputs.target (average highTargets))
  logAll <| (List.range rhoSq.rows).map fun qoi =>
    .qoiRatios qoi (rhoSq.row qoi) (solution.ratios.row qoi)
  return { solution, highTargets, rhoSq, warnings }

end RatioInputs

end Multifidelity
