import Multifidelity.Run.Pilot
import Multifidelity.Shortfall

/-!
# Projections from a pilot

Only the pilot is evaluated.  The report shows the sample profile and the variance reduction that
its allocation would lead to.

## Main definitions

* `Plan.projection`: the whole run.
-/

namespace Multifidelity.Plan

variable {σ α : Type} [Scalar α] (plan : Plan σ α)

/-- The counts after an increment that moves them to their targets.  Sums above `maxCount` are out
of the range of counts. -/
def projected (counts : List Nat) (targets : List α) : List Nat :=
  counts.map (· + increment counts targets 1)

/-- Evaluates the pilot and projects the rest of the run. -/
def projection (state : σ) : Recorded α (Report α) := do
  let samples ← plan.pilot true state
  let counts := samples.counts
  let spent := samples.bench.spent
  let pilot := Pilot.of samples.correlations counts
  let planned ← plan.allocate samples.correlations counts spent (some pilot.variance) none
  let highCounts := projected counts planned.evalRatios.highTargets
  let lowCounts := (List.range plan.numApprox).map fun model =>
    projected counts (planned.lowTargets model)
  let allocation := planned.realize highCounts
  let _ ← notify [] (allocation.checkpoint 0 plan.settings.pilotSamples counts spent 0)
  log (.projectedProfile highCounts lowCounts)
  return {
    pilotMode := plan.settings.pilotMode
    solution := allocation.evalRatios.solution
    iterations := 1
    spent := spent
    pilotVariance := some pilot.variance
    pilotCounts := some pilot.counts
    highCounts := highCounts
    sharedCounts := counts
    varHigh := allocation.correlations.varHigh
    rhoSq := allocation.evalRatios.rhoSq
    highTargets := allocation.evalRatios.highTargets
    varianceRatios := allocation.varianceRatios
    lowCounts := lowCounts
    rawMoments := none
    warnings := allocation.evalRatios.warnings }

end Multifidelity.Plan
