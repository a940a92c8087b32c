import Multifidelity.Run.Refinement

/-!
# Runs with an online pilot

The pilot is the first of a sequence of shared increments.  After each of them the samples are
allocated anew, until the high-fidelity targets are met or the iteration limit is reached.

## Main definitions

* `Progress`: the state of the run between two shared increments.
* `Plan.step`: one shared increment with the allocation that follows.
* `Plan.iterate`: the increments after the pilot.
* `Plan.online`: the whole run.
-/

namespace Multifidelity

/-- The state of a run between two shared increments. -/
structure Progress (σ α : Type) where
  /-- The state of the ensemble and the cost charged so far. -/
  bench : Bench σ α
  /-- The sums over the joint samples. -/
  sums : JointSums α 4
  /-- The Monte Carlo estimator after the pilot. -/
  pilot : Pilot α
  /-- The latest allocation. -/
  allocation : Allocation α
  /-- The checkpoints so far. -/
  checkpoints : List (Checkpoint α)
  /-- The number of shared increments. -/
  iterations : Nat
  /-- The number of samples that the high-fidelity targets still need. -/
  pending : Nat

namespace Plan

variable {σ α : Type} [Scalar α] (plan : Plan σ α)

/-- A shared increment and the allocation that follows.  There is no progress before the pilot. -/
def step (before : Option (Progress σ α)) (iteration samples : Nat) (bench : Bench σ α)
    (sums : JointSums α 4) : Recorded α (Progress σ α) := do
  let drawn ← plan.sharedIncrement iteration samples true sums bench
  let counts := drawn.sums.counts
  let spent := drawn.bench.spent
  let correlations ← Recorder.ofExcept drawn.sums.correlations
  let pilot := (before.map Progress.pilot).getD (.of correlations counts)
  let allocation ← plan.allocate correlations counts spent (some pilot.variance)
    (before.map Progress.allocation)
  let pending := increment counts allocation.evalRatios.highTargets 1
  let checkpoints ← notify ((before.map Progress.checkpoints).getD [])
    (allocation.checkpoint iteration samples counts spent pending)
  return {
    pilot, allocation, checkpoints, pending
    bench := drawn.bench
    sums := drawn.sums
    iterations := iteration + 1 }

/-- Shared increments until none is needed, at most as many as the first argument says. -/
def iterate : Nat → Progress σ α → Recorded α (Progress σ α)
  | 0, progress => return progress
  | limit + 1, progress =>
    if progress.pending = 0 then
      return progress
    else do
      let next ← plan.step (some progress) progress.iterations progress.pending progress.bench
        progress.sums
      iterate limit next

/-- What the iteration limit leaves undone. -/
def limitWarnings (progress : Progress σ α) : List Warning :=
  if progress.pending = 0 then [] else [.maxIterations progress.iterations progress.pending]

/-- Refines the high-fidelity samples, starting with the pilot, and reports. -/
def online (state : σ) : Recorded α (Report α) := do
  let first ← plan.step none 0 plan.settings.pilotSamples ⟨state, 0⟩ (.empty plan.ensemble.dims)
  let last ← plan.iterate plan.settings.maxIterations first
  let limited := limitWarnings last
  logAll (limited.map .warning)
  plan.finish last.iterations last.allocation last.sums last.bench (some last.pilot)
    (last.allocation.evalRatios.warnings ++ limited)

end Plan

end Multifidelity
