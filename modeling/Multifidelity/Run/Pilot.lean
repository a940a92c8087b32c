import Multifidelity.Run.Plan

/-!
# Pilots

## Main definitions

* `Pilot`: the Monte Carlo estimator after the pilot, to which later results are compared.
* `PilotSamples`: a pilot that only serves to estimate correlations.
* `Plan.pilot`: such a pilot.
-/

namespace Multifidelity

/-- The Monte Carlo estimator after the pilot. -/
structure Pilot (α : Type) where
  /-- Its variances by QoI. -/
  variance : List α
  /-- The numbers of joint samples by QoI. -/
  counts : List Nat

/-- A pilot that only serves to estimate correlations. -/
structure PilotSamples (σ α : Type) where
  /-- The estimated second moments. -/
  correlations : Correlations α
  /-- The numbers of joint samples by QoI. -/
  counts : List Nat
  /-- The state of the ensemble and the cost charged so far. -/
  bench : Bench σ α

variable {σ α : Type} [Scalar α]

/-- The Monte Carlo estimator over samples with given second moments. -/
def Pilot.of (correlations : Correlations α) (counts : List Nat) : Pilot α :=
  ⟨monteCarloVariance correlations.varHigh counts, counts⟩

/-- Draws a pilot that only serves to estimate correlations, so that first moments suffice. -/
def Plan.pilot (plan : Plan σ α) (charged : Bool) (state : σ) :
    Recorded α (PilotSamples σ α) := do
  let drawn ← plan.sharedIncrement 0 plan.settings.pilotSamples charged
    (JointSums.empty plan.ensemble.dims : JointSums α 1) ⟨state, 0⟩
  let correlations ← Recorder.ofExcept drawn.sums.correlations
  return ⟨correlations, drawn.sums.counts, drawn.bench⟩

end Multifidelity
