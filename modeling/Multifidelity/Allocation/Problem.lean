import Multifidelity.Allocation.Budget
import Multifidelity.Allocation.Variance
import Multifidelity.Estimate.Correlation

/-!
# The evaluation-ratio problem

The ratios that all QoI share, at least one and non-increasing along a model order, are sought to
minimise the estimator variance under a budget, or the cost under a bound on the estimator variance.

## Main definitions

* `RatioProblem`: the data of the problem.
* `RatioProblem.isFeasible`: whether ratios respect the budget.
* `RatioProblem.highTarget`: the high-fidelity samples that meet the constraint.
* `RatioProblem.objective`: what is minimised.
-/

namespace Multifidelity

/-- The constraint that the sample profile has to meet. -/
inductive Constraint (α : Type) where
  /-- A total cost in high-fidelity evaluations. -/
  | budget (value : α)
  /-- An estimator variance averaged over the QoI. -/
  | estimatorVariance (value : α)

/-- The problem of finding evaluation ratios along a model order. -/
structure RatioProblem (α : Type) where
  /-- The squared correlations. -/
  rhoSq : QoiMatrix α
  /-- The variances of the high-fidelity model by QoI. -/
  varHigh : List α
  /-- The variances of the low-fidelity models. -/
  varLow : QoiMatrix α
  /-- The model costs. -/
  costs : Costs α
  /-- The models from the least to the most correlated one. -/
  order : ModelOrder
  /-- The constraint to meet. -/
  constraint : Constraint α
  /-- The high-fidelity samples that have already been drawn and that a budget has to cover. -/
  minHigh : Option α := none

namespace RatioProblem

variable {α : Type} [Scalar α] (problem : RatioProblem α)

/-- The number of low-fidelity models. -/
def numApprox : Nat :=
  problem.rhoSq.cols

/-- Covariances of the low-fidelity models with the high-fidelity one, up to their sign. -/
def cov : QoiMatrix α :=
  covariances problem.rhoSq problem.varLow problem.varHigh

/-- The cost of one high-fidelity sample with its low-fidelity companions, in high-fidelity
evaluations. -/
def relativeCost (ratios : List α) : α :=
  let costHigh := problem.costs.ofModel problem.numApprox
  (ratios.zip problem.costs.perModel).foldl
    (fun sum (ratio, cost) => sum + cost * ratio / costHigh) 1

/-- The estimator variance averaged over the QoI, times the number of high-fidelity samples. -/
def varianceFactor (ratios : List α) : α :=
  average <| problem.varHigh.mapIdx fun qoi var =>
    var * (1 - rSquared (problem.rhoSq.row qoi) ratios problem.order)

/-- Whether the high-fidelity samples already drawn stay within the budget, up to rounding. -/
def isFeasible (ratios : List α) : Bool :=
  match problem.constraint, problem.minHigh with
  | .budget budget, some high =>
    decide (high * problem.relativeCost ratios ≤ budget * (1 + 1e-10))
  | _, _ => true

/-- The number of high-fidelity samples that meets the constraint, at least those already drawn
under a budget. -/
def highTarget (ratios : List α) : α :=
  match problem.constraint, problem.minHigh with
  | .budget budget, some high => Scalar.larger (budget / problem.relativeCost ratios) high
  | .budget budget, none => budget / problem.relativeCost ratios
  | .estimatorVariance variance, _ => problem.varianceFactor ratios / variance

/-- What is minimised.  It is proportional to the estimator variance for a given budget and to the
cost for a given estimator variance, and infinite for ratios that are not feasible. -/
def objective (ratios : List α) : α :=
  if problem.isFeasible ratios then problem.varianceFactor ratios * problem.relativeCost ratios
  else Scalar.infinity

end RatioProblem

end Multifidelity
