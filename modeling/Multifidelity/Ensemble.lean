import Multifidelity.Response

/-!
# Ensembles of models

An ensemble evaluates a hierarchy of models.  A run only decides how many samples are evaluated on
which models; how they are evaluated is up to the ensemble, which may change its state with every
increment.

## Main definitions

* `Call`: the request for an increment.
* `Ensemble`: what a run needs to know about the models.
-/

namespace Multifidelity

/-- The request for an increment, with the index of the iteration that makes it. -/
inductive Call where
  /-- New samples on all models. -/
  | shared (iteration samples : Nat)
  /-- New samples on some low-fidelity models. -/
  | approx (iteration : Nat) (models : List Nat) (samples : Nat)
  deriving DecidableEq

/-- A hierarchy of models with states of type `σ`. -/
structure Ensemble (σ α : Type) where
  /-- The numbers of low-fidelity models and QoI. -/
  dims : Dimensions
  /-- The cost of one evaluation of each model, the high-fidelity model last. -/
  costs : List α
  /-- The responses to a request.  Values of models that were not requested carry no meaning. -/
  respond : Call → σ → Batch α × σ

end Multifidelity
