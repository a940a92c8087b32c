import Multifidelity.ModelOrder
import Multifidelity.QoiMatrix

/-!
# Targets and evaluation ratios

A run spends a budget, or it reaches a tolerance.  Its allocation is described by evaluation ratios:
how often each low-fidelity model is evaluated per evaluation of the high-fidelity model.

## Main definitions

* `Target`: a budget or a tolerance.
* `Tolerances`: thresholds of the ratio solvers.
* `SolutionForm`: the ways to compute evaluation ratios.
* `RatioSolution`: evaluation ratios with what belongs to their form.
-/

namespace Multifidelity

/-- What the allocation is scaled to. -/
inductive Target (α : Type) where
  /-- A total cost in high-fidelity evaluations. -/
  | budget (value : α)
  /-- A final estimator variance relative to the one of the pilot. -/
  | tolerance (value : α)

/-- Thresholds for squared correlations. -/
structure Tolerances (α : Type) where
  /-- The largest decrease from one model to the next that still counts as ordered. -/
  ordering : α
  /-- Squared correlations up to this value count as zero. -/
  floor : α
  /-- Squared correlations are kept below one by at least this value. -/
  ceiling : α

/-- All thresholds are tiny. -/
def Tolerances.default {α : Type} [Scalar α] : Tolerances α :=
  ⟨1e-10, 1e-10, 1e-10⟩

/-- How evaluation ratios are computed. -/
inductive SolutionForm where
  /-- In closed form, for models ordered by correlation. -/
  | analytic
  /-- In closed form, along the order of the averaged correlations. -/
  | reordered
  /-- By numerical search along a model order. -/
  | numerical
  deriving DecidableEq

/-- Evaluation ratios by QoI and model. -/
inductive RatioSolution (α : Type) where
  /-- Ratios in closed form for every QoI by itself, in the nominal order. -/
  | analytic (ratios : QoiMatrix α)
  /-- Ratios in closed form that all QoI share. -/
  | reordered (order : ModelOrder) (ratios : QoiMatrix α)
  /-- Ratios found by search that all QoI share, with the high-fidelity target and the estimator
  variance they lead to. -/
  | numerical (order : ModelOrder) (ratios : QoiMatrix α) (highTarget estimatorVariance : α)
  deriving BEq

namespace RatioSolution

variable {α : Type}

/-- How the ratios were computed. -/
def form : RatioSolution α → SolutionForm
  | analytic .. => .analytic
  | reordered .. => .reordered
  | numerical .. => .numerical

/-- The evaluation ratios by QoI and model. -/
def ratios : RatioSolution α → QoiMatrix α
  | analytic ratios | reordered _ ratios | numerical _ ratios .. => ratios

/-- The model order along which the ratios do not increase. -/
def order : RatioSolution α → ModelOrder
  | analytic _ => []
  | reordered order _ | numerical order .. => order

end RatioSolution

end Multifidelity
