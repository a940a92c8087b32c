import Multifidelity.Allocation.ClosedForm
import Multifidelity.Journal.Event

/-!
# Evaluation ratios by numerical search

## Main definitions

* `RatioInputs`: what a run knows when it allocates its samples.
* `RatioInputs.numericalSolution`: the ratios that an optimizer finds.
-/

namespace Multifidelity

/-- What a run knows when it allocates its samples. -/
structure RatioInputs (α : Type) where
  /-- The estimated second moments. -/
  correlations : Correlations α
  /-- The model costs. -/
  costs : Costs α
  /-- The target of the run. -/
  target : Target α
  /-- The numbers of high-fidelity samples by QoI. -/
  highCounts : List Nat
  /-- The cost charged so far, in high-fidelity evaluations. -/
  spent : α
  /-- The Monte Carlo variances of the pilot by QoI, which a tolerance refers to. -/
  pilotVariance : Option (List α)
  /-- The solution of the iteration before. -/
  previous : Option (RatioSolution α)
  /-- Whether models that are not ordered are allocated in closed form, not by search. -/
  preferReordered : Bool
  /-- The thresholds for squared correlations. -/
  tolerances : Tolerances α

namespace RatioInputs

variable {α : Type} [Scalar α] (inputs : RatioInputs α)

/-- The average number of high-fidelity samples. -/
def averageHigh : α :=
  averageCount inputs.highCounts

/-- Whether a budget leaves no room for more than the high-fidelity samples already drawn. -/
def isExhausted (numApprox : Nat) (budget : α) : Bool :=
  decide (budget ≤ inputs.spent)
    || decide (allocateBudget (.replicate numApprox 1) inputs.costs budget ≤ inputs.averageHigh)

/-- The solution that keeps to the samples already drawn. -/
def exhaustedSolution (rhoSq : QoiMatrix α) : RatioSolution α :=
  .numerical (correlationOrder rhoSq) (.filled rhoSq.rows rhoSq.cols 1) inputs.averageHigh
    (average (inputs.correlations.varHigh.map (· / inputs.averageHigh)))

/-- The Monte Carlo variances of the pilot, without which a tolerance has no meaning. -/
def requirePilotVariance : Recorded α (List α) :=
  match inputs.pilotVariance with
  | some variance => return variance
  | none => .fail (.invalidSettings .missingPilotVariance)

/-- The order and the ratios from which a search starts: those of the last search, or else those in
closed form along the order of the averaged correlations. -/
def startingPoint (rhoSq : QoiMatrix α) : Recorded α (ModelOrder × List α) :=
  match inputs.previous with
  | some (.numerical order ratios ..) => return (order, ratios.columnMeans)
  | _ => do
    let (order, ratios) := reorderedRatios rhoSq inputs.costs
    log (.initialGuess ratios.columnMeans)
    return (order, ratios.columnMeans)

/-- Initial ratios that leave room for the samples already drawn. -/
def fitGuess (ratios : List α) : Recorded α (List α) :=
  match inputs.target with
  | .budget budget =>
    if allocateBudget ratios inputs.costs budget < inputs.averageHigh then do
      let scaled := scaleToBudget ratios inputs.costs inputs.averageHigh budget
      log (.scaledGuess scaled)
      return scaled
    else
      return ratios
  | .tolerance _ => return ratios

/-- The problem that is handed to the optimizer. -/
def problem (rhoSq : QoiMatrix α) (order : ModelOrder) : Recorded α (RatioProblem α) := do
  let (constraint, minHigh) ← match inputs.target with
    | .budget budget => pure (Constraint.budget budget, some inputs.averageHigh)
    | .tolerance tolerance => do
      let pilotVariance ← inputs.requirePilotVariance
      pure (Constraint.estimatorVariance (tolerance * average pilotVariance), none)
  return {
    rhoSq, order, constraint, minHigh
    varHigh := inputs.correlations.varHigh
    varLow := inputs.correlations.varLow
    costs := inputs.costs }

/-- Ratios from an optimizer that leave room for the samples already drawn. -/
def fitResult (problem : RatioProblem α) (ratios : List α) : Recorded α (List α) :=
  match inputs.target with
  | .budget budget =>
    if problem.isFeasible ratios then
      return ratios
    else do
      log (.overshoot ratios inputs.averageHigh)
      return scaleToBudget ratios inputs.costs inputs.averageHigh budget
  | .tolerance _ => return ratios

/-- The solution found by an optimizer along a model order. -/
def searchedSolution (rhoSq : QoiMatrix α) (optimizer : Optimizer α) :
    Recorded α (RatioSolution α) := do
  let (order, guess) ← inputs.startingPoint rhoSq
  let initial ← inputs.fitGuess guess
  let problem ← inputs.problem rhoSq order
  let found ← consult optimizer problem initial
  if found.length != rhoSq.cols || found.any (!Scalar.isFinite ·) then
    Recorder.fail (.optimizer (.invalidRatios found))
  let ratios ← inputs.fitResult problem found
  let highTarget := problem.highTarget ratios
  let estimatorVariance := problem.varianceFactor ratios / highTarget
  log (.numericalSolution ratios highTarget estimatorVariance)
  return .numerical order (.ofRow rhoSq.rows ratios) highTarget estimatorVariance

/-- The ratios that an optimizer finds.  It is not consulted if the budget is exhausted by the
samples already drawn. -/
def numericalSolution (rhoSq : QoiMatrix α) (optimizer : Optimizer α) :
    Recorded α (RatioSolution α) :=
  match inputs.target with
  | .budget budget =>
    if inputs.isExhausted rhoSq.cols budget then do
      log (.budgetExhausted budget inputs.spent)
      return inputs.exhaustedSolution rhoSq
    else
      inputs.searchedSolution rhoSq optimizer
  | .tolerance _ => inputs.searchedSolution rhoSq optimizer

end RatioInputs

end Multifidelity
