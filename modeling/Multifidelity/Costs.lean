import Multifidelity.Failure

/-!
# Model costs

## Main definitions

* `Costs`: what one evaluation of each model costs.
* `Costs.check`: the costs an ensemble reports, if they are usable.
* `Costs.equivalents`: the cost of a batch in evaluations of the high-fidelity model.
-/

namespace Multifidelity

/-- The cost of one evaluation of each model. -/
structure Costs (α : Type) where
  /-- The costs by model.  The high-fidelity model comes after the low-fidelity ones. -/
  perModel : List α

namespace Costs

variable {α : Type} [Scalar α]

/-- Accepts exactly one positive finite cost per model. -/
def check (numApprox : Nat) (costs : List α) : Except (Failure α) (Costs α) :=
  let invalid := costs.countP fun cost => !Scalar.isPositiveFinite cost
  if costs.length = numApprox + 1 ∧ invalid = 0 then
    .ok ⟨costs⟩
  else
    .error (.invalidCosts (numApprox + 1) costs.length invalid)

/-- The cost of a model. -/
def ofModel (costs : Costs α) (model : Nat) : α :=
  costs.perModel.getD model 0

/-- The cost of `samples` evaluations of each of `models`, in evaluations of the model `high`. -/
def equivalents (costs : Costs α) (high : Nat) (models : List Nat) (samples : Nat) : α :=
  Scalar.ofCount samples * total (models.map costs.ofModel) / costs.ofModel high

end Costs

end Multifidelity
