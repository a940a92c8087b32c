import Multifidelity.Allocation.Ratios
import Multifidelity.Shortfall

/-!
# The parts of a run

Every run draws increments, charges their cost and allocates samples.  It does so in one of three
ways, which have a module of their own each.

## Main definitions

* `Plan`: an ensemble with settings that have been checked.
* `Bench`: the state of the ensemble and the cost charged so far.
* `SharedSamples`: what is known after an increment on all models.
* `Plan.sharedIncrement`: new samples on all models.
* `Plan.allocate`: the allocation that the samples so far suggest.
-/

namespace Multifidelity

/-- An ensemble with settings that have been checked. -/
structure Plan (σ α : Type) where
  /-- The ensemble to sample. -/
  ensemble : Ensemble σ α
  /-- The settings of the run. -/
  settings : Settings α
  /-- The search for evaluation ratios. -/
  optimizer : Optimizer α
  /-- The target of the settings. -/
  target : Target α
  /-- The costs that the ensemble reports. -/
  costs : Costs α

/-- What changes while samples are drawn. -/
structure Bench (σ α : Type) where
  /-- The state of the ensemble. -/
  state : σ
  /-- The cost charged so far, in high-fidelity evaluations. -/
  spent : α

/-- What is known after shared samples have been drawn. -/
structure SharedSamples (σ α : Type) (M : Nat) where
  /-- The sums over the joint samples. -/
  sums : JointSums α M
  /-- The state of the ensemble and the cost charged so far. -/
  bench : Bench σ α

/-- The allocation of an iteration and what it is based on. -/
structure Allocation (α : Type) where
  /-- The estimated second moments. -/
  correlations : Correlations α
  /-- The evaluation ratios and the high-fidelity targets. -/
  evalRatios : EvalRatios α
  /-- The fractions of the Monte Carlo variance that remain, by QoI. -/
  varianceRatios : List α

namespace Allocation

variable {α : Type}

/-- The checkpoint after a shared increment. -/
def checkpoint (allocation : Allocation α) (iteration samples : Nat) (highCounts : List Nat)
    (spent : α) (nextSamples : Nat) : Checkpoint α where
  iteration := iteration
  samples := samples
  highCounts := highCounts
  spent := spent
  varHigh := allocation.correlations.varHigh
  rhoSq := allocation.evalRatios.rhoSq
  solution := allocation.evalRatios.solution
  highTargets := allocation.evalRatios.highTargets
  varianceRatios := allocation.varianceRatios
  nextSamples := nextSamples

variable [Scalar α]

/-- The allocation with the remaining variance of other high-fidelity counts. -/
def realize (allocation : Allocation α) (highCounts : List Nat) : Allocation α :=
  { allocation with
    varianceRatios := realizedVarianceRatios allocation.evalRatios.rhoSq
      allocation.evalRatios.solution allocation.evalRatios.highTargets highCounts }

/-- The targets of a low-fidelity model by QoI. -/
def lowTargets (allocation : Allocation α) (model : Nat) : List α :=
  allocation.evalRatios.highTargets.mapIdx fun qoi target =>
    allocation.evalRatios.solution.ratios.entry qoi model * target

end Allocation

namespace Plan

variable {σ α : Type} [Scalar α]

/-- Accepts settings with one target, an ensemble that is not empty, and usable costs. -/
def check (ensemble : Ensemble σ α) (settings : Settings α) (optimizer : Optimizer α) :
    Except (Failure α) (Plan σ α) := do
  let target ← settings.target
  let dims := ensemble.dims
  if dims.numApprox = 0 ∨ dims.numFunctions = 0 then
    throw (.invalidSettings (.emptyEnsemble dims.numApprox dims.numFunctions))
  let costs ← Costs.check dims.numApprox ensemble.costs
  return { ensemble, settings, optimizer, target, costs }

variable (plan : Plan σ α)

/-- The number of low-fidelity models. -/
def numApprox : Nat :=
  plan.ensemble.dims.numApprox

/-- Requests an increment. -/
def draw (call : Call) (bench : Bench σ α) : Recorded α (Batch α × Bench σ α) := do
  let (batch, state) := plan.ensemble.respond call bench.state
  Recorder.record [.increment call batch]
  return (batch, { bench with state })

/-- Charges the cost of `samples` evaluations of each of `models`. -/
def charge (models : List Nat) (samples : Nat) (bench : Bench σ α) : Bench σ α :=
  { bench with spent := bench.spent + plan.costs.equivalents plan.numApprox models samples }

/-- Draws samples on all models and adds them to `sums`. -/
def sharedIncrement {M : Nat} (iteration samples : Nat) (charged : Bool) (sums : JointSums α M)
    (bench : Bench σ α) : Recorded α (SharedSamples σ α M) := do
  log (.sharedIncrement iteration samples)
  let (batch, bench) ← plan.draw (.shared iteration samples) bench
  let sums ← Recorder.ofExcept (sums.accumulate batch)
  let models := List.range (plan.numApprox + 1)
  return ⟨sums, if charged then plan.charge models batch.length bench else bench⟩

/-- The allocation that the second moments suggest. -/
def allocate (correlations : Correlations α) (highCounts : List Nat) (spent : α)
    (pilotVariance : Option (List α)) (previous : Option (Allocation α)) :
    Recorded α (Allocation α) := do
  let inputs : RatioInputs α := {
    correlations, highCounts, spent, pilotVariance
    costs := plan.costs
    target := plan.target
    previous := previous.map (·.evalRatios.solution)
    preferReordered := plan.settings.preferReordered
    tolerances := plan.settings.tolerances }
  let evalRatios ← inputs.evalRatios plan.optimizer
  let varianceRatios := realizedVarianceRatios evalRatios.rhoSq evalRatios.solution
    evalRatios.highTargets highCounts
  logAll <| varianceRatios.mapIdx .qoiVariance
  return { correlations, evalRatios, varianceRatios }

end Plan

end Multifidelity
