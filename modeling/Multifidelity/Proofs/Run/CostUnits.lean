import Multifidelity.Proofs.Allocation.Units
import Multifidelity.Proofs.Run.Coupling
import Multifidelity.Proofs.Run.OnlineBudget

/-!
# The unit of the costs

A run depends on the costs only through their ratios. A common factor of all costs cancels in the
charges and in each allocation, so that runs whose costs differ by such a factor stay in lockstep.

## Main definitions

* `Ensemble.scaleCosts`: an ensemble with its costs in another unit
* `Coupling.same`: two runs that are given the same answers

## Main results

* `Plan.coupled_scale`: plans that differ in the unit of the costs are coupled
* `sample_scaleCosts`: a run does not depend on the unit of the costs
-/

namespace Multifidelity

open ExactReal Recorder

/-- The ensemble with its costs in another unit. -/
noncomputable def Ensemble.scaleCosts {σ : Type} (factor : ℝ) (ensemble : Ensemble σ ExactReal) :
    Ensemble σ ExactReal :=
  { ensemble with costs := ensemble.costs.map (real factor * ·) }

/-- Two runs that are given the same answers. -/
def Coupling.same {α : Type} [Scalar α] (dims : Dimensions) : Coupling α dims :=
  .ofBatches (fun _ => Eq) (fun h => congrArg List.length h)
    (fun _ h => congrArg _ h) (fun _ h => congrArg _ h)

variable {σ : Type}

/-- Plans that differ in the unit of the costs are coupled by equality. -/
theorem Plan.coupled_scale {factor : ℝ} (h : 0 < factor) {optimizer : Optimizer ExactReal}
    (hoptimizer : optimizer.UnitFree) (ensemble : Ensemble σ ExactReal)
    (settings : Settings ExactReal) (target : Target ExactReal) (costs : Costs ExactReal) :
    Plan.Coupled (Coupling.same ensemble.dims) Eq ⟨ensemble, settings, optimizer, target, costs⟩
      ⟨ensemble.scaleCosts factor, settings, optimizer, target, costs.scale factor⟩ where
  dims_first := rfl
  dims_second := rfl
  settings := rfl
  batch := by
    rintro call s _ rfl
    rfl
  state := by
    rintro call s _ rfl
    rfl
  equivalents models samples := (costs.equivalents_scale h _ models samples).symm
  evalRatios := by
    rintro x _ counts spent pilotVariance previous previous' rfl hprevious
    -- the inputs differ in the unit of the costs only
    have hinputs : Plan.ratioInputs
        ⟨ensemble.scaleCosts factor, settings, optimizer, target, costs.scale factor⟩ x counts spent
          pilotVariance previous' =
        (Plan.ratioInputs ⟨ensemble, settings, optimizer, target, costs⟩ x counts spent
          pilotVariance previous).withUnits factor x.varLow := by
      unfold Plan.ratioInputs RatioInputs.withUnits
      rw [hprevious]
    rw [hinputs]
    exact (RatioInputs.outcome_evalRatios_withUnits h _ _ hoptimizer).symm

/-- A run with an optimizer that does not depend on the units. -/
theorem sampleWith_scaleCosts {factor : ℝ} (h : 0 < factor) {optimizer : Optimizer ExactReal}
    (hoptimizer : optimizer.UnitFree) (ensemble : Ensemble σ ExactReal)
    (settings : Settings ExactReal) (state : σ) :
    Lockstep Eq (sampleWith optimizer ensemble settings state)
      (sampleWith optimizer (ensemble.scaleCosts factor) settings state) := by
  refine .mono (sampleWith_lockstep (.same ensemble.dims) Eq optimizer settings rfl rfl
    (Costs.check_scale h _ ensemble.costs) ?_) fun _ _ hagrees => hagrees.eq
  rintro target costs _ rfl
  exact Plan.coupled_scale h hoptimizer ensemble settings target costs

/-- Costs in another unit change neither the calls nor the checkpoints nor the result of a run. -/
theorem sample_scaleCosts {factor : ℝ} (h : 0 < factor) (ensemble : Ensemble σ ExactReal)
    (settings : Settings ExactReal) (state : σ) :
    moves (sample (ensemble.scaleCosts factor) settings state).journal =
        moves (sample ensemble settings state).journal ∧
      (sample (ensemble.scaleCosts factor) settings state).outcome =
        (sample ensemble settings state).outcome := by
  have hlockstep := sampleWith_scaleCosts h CompassSearch.default.unitFree_optimize ensemble
    settings state
  exact ⟨hlockstep.moves.symm, hlockstep.outcome.eq.symm⟩

/-- A run whose costs are doubled. -/
theorem sample_scaleCosts_of_spike :
    (0 : ℝ) < 2 ∧
      moves (sample (spikeEnsemble.scaleCosts 2) (.withBudget 2 (real 1)) ()).journal =
        moves (sample spikeEnsemble (.withBudget 2 (real 1)) ()).journal ∧
      (sample (spikeEnsemble.scaleCosts 2) (.withBudget 2 (real 1)) ()).outcome =
        (sample spikeEnsemble (.withBudget 2 (real 1)) ()).outcome :=
  ⟨two_pos, sample_scaleCosts two_pos spikeEnsemble (.withBudget 2 (real 1)) ()⟩

end Multifidelity
