import Multifidelity.Run.Refinement

/-!
# Runs with an offline pilot

The pilot only provides the allocation.  It is neither charged nor used again: a single shared
increment of new samples follows.

## Main definitions

* `Plan.offline`: the whole run.
-/

namespace Multifidelity.Plan

variable {σ α : Type} [Scalar α] (plan : Plan σ α)

/-- The samples of the increment after an offline pilot.  Variances need at least two. -/
def offlineSamples (allocation : Allocation α) : Nat :=
  let zeros := List.replicate plan.ensemble.dims.numFunctions 0
  max (increment zeros allocation.evalRatios.highTargets 1) 2

/-- Allocates with a pilot, draws the shared samples at once, and reports. -/
def offline (state : σ) : Recorded α (Report α) := do
  let pilot ← plan.pilot false state
  let planned ← plan.allocate pilot.correlations pilot.counts pilot.bench.spent none none
  let checkpoints ← notify []
    (planned.checkpoint 0 plan.settings.pilotSamples pilot.counts pilot.bench.spent 0)
  let samples := plan.offlineSamples planned
  let drawn ← plan.sharedIncrement 1 samples true (.empty plan.ensemble.dims) pilot.bench
  let counts := drawn.sums.counts
  let allocation := planned.realize counts
  let _ ← notify checkpoints (allocation.checkpoint 1 samples counts drawn.bench.spent 0)
  plan.finish 2 allocation drawn.sums drawn.bench none allocation.evalRatios.warnings

end Multifidelity.Plan
