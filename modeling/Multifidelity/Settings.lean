import Multifidelity.Allocation.Solution
import Multifidelity.Failure

/-!
# Settings of a run

## Main definitions

* `PilotMode`: what becomes of the pilot samples.
* `Settings`: what the user of a run decides.
* `Settings.target`: the target, if the settings are consistent.
-/

namespace Multifidelity

/-- What becomes of the pilot samples. -/
inductive PilotMode where
  /-- They are the first of the shared samples, which are refined until the targets are met. -/
  | online
  /-- They only provide correlations and are not charged.  One shared increment follows. -/
  | offline
  /-- They are the only samples, the rest of the allocation is projected. -/
  | projection
  deriving DecidableEq

/-- The settings of a run. -/
structure Settings (α : Type) where
  /-- The number of pilot samples. -/
  pilotSamples : Nat
  /-- The largest number of refinements after an online pilot. -/
  maxIterations : Nat
  /-- The budget in high-fidelity evaluations, if that is the target. -/
  budget : Option α
  /-- The final estimator variance relative to the one of the pilot, if that is the target. -/
  tolerance : Option α
  /-- What becomes of the pilot samples. -/
  pilotMode : PilotMode
  /-- Whether models that are not ordered are allocated in closed form, not by search. -/
  preferReordered : Bool
  /-- The thresholds for squared correlations. -/
  tolerances : Tolerances α

namespace Settings

variable {α : Type} [Scalar α]

/-- Settings without a target. -/
def default : Settings α where
  pilotSamples := 100
  maxIterations := 100
  budget := none
  tolerance := none
  pilotMode := .online
  preferReordered := false
  tolerances := .default

/-- Settings for a budget in high-fidelity evaluations. -/
def withBudget (pilotSamples : Nat) (budget : α) : Settings α :=
  { default with pilotSamples, budget := some budget }

/-- Settings for a final estimator variance relative to the one of the pilot. -/
def withTolerance (pilotSamples : Nat) (tolerance : α) : Settings α :=
  { default with pilotSamples, tolerance := some tolerance }

/-- The one target of the settings, which has to be positive and finite.  The tolerance refers to
charged pilot samples, so that it does not go with an offline pilot. -/
def target (settings : Settings α) : Except (Failure α) (Target α) :=
  if settings.pilotSamples = 0 then
    .error (.invalidSettings .noPilotSamples)
  else
    match settings.budget, settings.tolerance with
    | some _, some _ => .error .conflictingTargets
    | none, none => .error .missingTarget
    | some budget, none =>
      if Scalar.isPositiveFinite budget then .ok (.budget budget)
      else .error (.invalidSettings (.invalidBudget budget))
    | none, some tolerance =>
      if Scalar.isPositiveFinite tolerance then
        if settings.pilotMode = .offline then .error .budgetRequired else .ok (.tolerance tolerance)
      else .error (.invalidSettings (.invalidTolerance tolerance))

end Settings

end Multifidelity
