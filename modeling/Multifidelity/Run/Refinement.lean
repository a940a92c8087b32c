import Multifidelity.Estimate.Moments
import Multifidelity.Run.Pilot

/-!
# Refinement of the low-fidelity models

When the high-fidelity samples are complete the low-fidelity models are brought to their targets, on
nested ranges of the model order: first all models, then without the most correlated one, and so on
down to the least correlated model alone.

## Main definitions

* `Plan.approxIncrement`: new samples on the models at the first positions.
* `Plan.refine`: the increments on all nested ranges.
* `Plan.finish`: the report of a run after its last shared increment.
-/

namespace Multifidelity

/-- The state of the refinement. -/
structure Refinement (σ α : Type) where
  /-- The state of the ensemble and the cost charged so far. -/
  bench : Bench σ α
  /-- The sums over low-fidelity samples. -/
  pyramid : PyramidSums α
  /-- The number of increments that have drawn samples. -/
  drawn : Nat

namespace Plan

variable {σ α : Type} [Scalar α] (plan : Plan σ α)

/-- Draws samples on the models at the positions before `stop`, as many as the last of them
lacks. -/
def approxIncrement (iteration : Nat) (allocation : Allocation α) (stop : Nat)
    (refinement : Refinement σ α) : Recorded α (Refinement σ α) := do
  let order := allocation.evalRatios.solution.order
  let model := order.model (stop - 1)
  let targets := allocation.lowTargets model
  let counts := refinement.pyramid.refinedCounts model
  let samples := increment counts targets 1
  log (.refinement model (average targets) counts samples)
  if samples = 0 then
    return refinement
  let models := order.along stop
  let (batch, bench) ← plan.draw (.approx iteration models samples) refinement.bench
  let pyramid ← Recorder.ofExcept (refinement.pyramid.refine order 0 stop batch)
  return {
    pyramid
    bench := plan.charge models batch.length bench
    drawn := refinement.drawn + if batch.isEmpty then 0 else 1 }

/-- Increments on the nested ranges of positions, from the first `stop` ones down. -/
def refineBelow (iteration : Nat) (allocation : Allocation α) :
    Nat → Refinement σ α → Recorded α (Refinement σ α)
  | 0, refinement => return refinement
  | stop + 1, refinement => do
    let next ← plan.approxIncrement iteration allocation (stop + 1) refinement
    refineBelow iteration allocation stop next

/-- Brings all low-fidelity models to their targets. -/
def refine (iteration : Nat) (allocation : Allocation α) (sums : JointSums α 4)
    (bench : Bench σ α) : Recorded α (Refinement σ α) := do
  let refinement ← plan.refineBelow iteration allocation plan.numApprox ⟨bench, .ofJoint sums, 0⟩
  log (.refinementsDrawn refinement.drawn plan.numApprox)
  return refinement

/-- Refines the low-fidelity models, estimates the moments and reports. -/
def finish (iterations : Nat) (allocation : Allocation α) (sums : JointSums α 4)
    (bench : Bench σ α) (pilot : Option (Pilot α)) (warnings : List Warning) :
    Recorded α (Report α) := do
  let refinement ← plan.refine iterations allocation sums bench
  let moments ← rawMoments sums refinement.pyramid
  log (.finished iterations refinement.bench.spent)
  return {
    pilotMode := plan.settings.pilotMode
    solution := allocation.evalRatios.solution
    iterations := iterations
    spent := refinement.bench.spent
    pilotVariance := pilot.map Pilot.variance
    pilotCounts := pilot.map Pilot.counts
    highCounts := sums.counts
    sharedCounts := sums.counts
    varHigh := allocation.correlations.varHigh
    rhoSq := allocation.evalRatios.rhoSq
    highTargets := allocation.evalRatios.highTargets
    varianceRatios := allocation.varianceRatios
    lowCounts := (List.range plan.numApprox).map refinement.pyramid.refinedCounts
    rawMoments := some moments
    warnings := warnings }

end Plan

end Multifidelity
