import Multifidelity.Proofs.Estimate.Correlation
import Multifidelity.Proofs.Run.Transcript

/-!
# Runs that end with a report

A run can only be stopped by a response of the wrong length, by too few joint samples, or by an
allocation that fails. If no evaluation fails and all allocations succeed, it ends with a report.
Allocations in closed form succeed for any optimizer.

One such run is followed to its end. Its first round asks for a second one, and then both
low-fidelity models are refined until the budget is used up.

## Main definitions

* `Ensemble.Complete`: faultless ensembles whose responses have the right length
* `Plan.Allocates`: plans whose allocations succeed
* `quartetEnsemble`: an ensemble that repeats four samples

## Main results

* `Plan.allocates_of_preferReordered`: allocations in closed form
* `Plan.exists_step`, `Plan.exists_iterate`: the rounds of an online run
* `Plan.exists_approxIncrement`, `Plan.exists_finish`: what follows the last shared increment
* `exists_report_of_complete`: a run in any mode
* `exists_online_quartet`, `exists_projection_quartet`: what is drawn and what is projected
-/

namespace Multifidelity

variable {σ α : Type} [Scalar α]

/-! ## Allocations in closed form -/

namespace RatioInputs

variable {inputs : RatioInputs α}
  (hpilot : ∀ tolerance, inputs.target = .tolerance tolerance →
    ∃ variance, inputs.pilotVariance = some variance)
include hpilot

/-- Ratios that have not been searched are scaled to their target. The pilot is only needed for a
tolerance. -/
theorem exists_highTargets_of_form (rhoSq : QoiMatrix α) {solution : RatioSolution α}
    (hform : solution.form ≠ .numerical) :
    ∃ targets, (inputs.highTargets rhoSq solution).outcome = .ok targets := by
  cases htarget : inputs.target with
  | budget budget =>
    cases solution with
    | analytic | reordered =>
      simp only [highTargets, htarget]
      exact ⟨_, rfl⟩
    | numerical => exact absurd rfl hform
  | tolerance tolerance =>
    obtain ⟨variance, hvariance⟩ := hpilot tolerance htarget
    have hrequired := requirePilotVariance_eq_ok.mpr hvariance
    cases solution with
    | analytic | reordered =>
      simp only [highTargets, htarget]
      exact ⟨_, Recorder.outcome_bind_eq_ok.mpr ⟨variance, hrequired, rfl⟩⟩
    | numerical => exact absurd rfl hform

/-- Ratios in closed form have targets, whatever the optimizer does. -/
theorem exists_evalRatios_of_preferReordered (hprefer : inputs.preferReordered = true)
    (optimizer : Optimizer α) : ∃ result, (inputs.evalRatios optimizer).outcome = .ok result := by
  obtain ⟨rhoSq, hrho⟩ : ∃ rhoSq,
    rhoSq = (sanitize inputs.correlations.rhoSq inputs.tolerances).1 := ⟨_, rfl⟩
  obtain ⟨solution, hsolution, hform⟩ : ∃ solution,
      (inputs.solution rhoSq optimizer).outcome = .ok solution ∧ solution.form ≠ .numerical := by
    cases hordered : isOrdered rhoSq inputs.tolerances.ordering with
    | true =>
      refine ⟨.analytic (analyticRatios rhoSq inputs.costs), ?_, by simp [RatioSolution.form]⟩
      rw [RatioInputs.solution, selectForm, hordered]
      rfl
    | false =>
      exact ⟨_, solution_of_preferReordered hordered hprefer, by simp [RatioSolution.form]⟩
  obtain ⟨targets, htargets⟩ := exists_highTargets_of_form hpilot rhoSq hform
  exact ⟨⟨solution, targets, rhoSq, _⟩,
    evalRatios_eq_ok_iff.mpr ⟨by rw [hrho], hsolution, htargets⟩⟩

end RatioInputs

/-- A faultless ensemble whose responses all have the right length. -/
structure Ensemble.Complete (ensemble : Ensemble σ α) : Prop extends ensemble.Faultless where
  responses : ∀ call state, ∀ response ∈ (ensemble.respond call state).1,
    response.length = ensemble.dims.responseLength

namespace Plan

/-- Whatever has been sampled, it can be allocated. A tolerance refers to the pilot. -/
def Allocates (plan : Plan σ α) : Prop :=
  ∀ (correlations : Correlations α) (highCounts : List ℕ) (spent : α)
    (pilotVariance : Option (List α)) (previous : Option (Allocation α)),
    (∀ tolerance, plan.target = .tolerance tolerance →
      ∃ variance, pilotVariance = some variance) →
    ∃ allocation, (plan.allocate correlations highCounts spent pilotVariance previous).outcome =
      .ok allocation

/-- Allocations in closed form succeed. -/
theorem allocates_of_preferReordered {plan : Plan σ α}
    (h : plan.settings.preferReordered = true) : plan.Allocates := by
  intro correlations highCounts spent pilotVariance previous hpilot
  let inputs := plan.ratioInputs correlations highCounts spent pilotVariance previous
  obtain ⟨result, hresult⟩ : ∃ result, (inputs.evalRatios plan.optimizer).outcome = .ok result :=
    RatioInputs.exists_evalRatios_of_preferReordered hpilot h plan.optimizer
  exact ⟨⟨correlations, result, realizedVarianceRatios result.rhoSq result.solution
    result.highTargets highCounts⟩, allocate_eq_ok_iff.mpr ⟨hresult, rfl, rfl⟩⟩

end Plan

/-! ## Shared increments -/

/-- Two joint samples at every QoI have correlations. -/
theorem JointSums.exists_correlations_of_two_le {m : ℕ} {sums : JointSums α (m + 1)}
    (h : ∀ count ∈ sums.counts, 2 ≤ count) :
    ∃ correlations, sums.correlations = .ok correlations := by
  cases hcorrelations : sums.correlations with
  | ok correlations => exact ⟨correlations, rfl⟩
  | error failure =>
    obtain ⟨qoi, hqoi, -⟩ := correlations_eq_error_iff.mp hcorrelations
    obtain ⟨hlt, hfew, -⟩ := List.findIdx?_eq_some_iff_getElem.mp hqoi
    have htwo := h _ (List.getElem_mem hlt)
    simp only [decide_eq_true_eq] at hfew
    omega

namespace Plan

variable {plan : Plan σ α} (hcomplete : plan.ensemble.Complete) (hallocates : plan.Allocates)
include hcomplete

/-- A shared increment of a complete ensemble adds its samples to the counts of all QoI. -/
theorem exists_accumulate (iteration samples : ℕ) (bench : Bench σ α) {M : ℕ}
    {sums : JointSums α M} (hsums : sums.Sized plan.ensemble.dims) : ∃ result,
    sums.accumulate (plan.answer (.shared iteration samples) bench).1 = .ok result ∧
      result.Sized plan.ensemble.dims ∧ result.counts = sums.counts.map (· + samples) := by
  have hlengths : ∀ response ∈ (plan.answer (.shared iteration samples) bench).1,
      response.length = sums.dims.responseLength := by
    rw [hsums.dims_eq]
    exact hcomplete.responses _ bench.state
  have haccumulate := JointSums.accumulate_of_lengths sums hlengths
  exact ⟨_, haccumulate, accumulate_of_faultless hcomplete.toFaultless hsums haccumulate⟩

/-- A pilot of two samples or more succeeds. -/
theorem exists_pilot (hpilot : 2 ≤ plan.settings.pilotSamples) (charged : Bool) (state : σ) :
    ∃ pilot, (plan.pilot charged state).outcome = .ok pilot := by
  obtain ⟨sums, hsums, -, hcounts⟩ := exists_accumulate hcomplete 0 plan.settings.pilotSamples
    ⟨state, 0⟩ (JointSums.sized_empty (M := 1) plan.ensemble.dims)
  rw [JointSums.counts_empty, List.map_replicate, zero_add] at hcounts
  obtain ⟨correlations, hcorrelations⟩ := sums.exists_correlations_of_two_le fun count hcount => by
    rw [hcounts] at hcount
    rwa [List.eq_of_mem_replicate hcount]
  exact ⟨⟨correlations, sums.counts, _⟩,
    pilot_eq_ok_iff.mpr ⟨sums, hsums, hcorrelations, rfl, rfl⟩⟩

include hallocates in
/-- A projection ends with a report. -/
theorem exists_projection (hpilot : 2 ≤ plan.settings.pilotSamples) (state : σ) :
    ∃ report, (plan.projection state).outcome = .ok report := by
  obtain ⟨pilot, hdrawn⟩ := exists_pilot hcomplete hpilot true state
  obtain ⟨planned, hplanned⟩ := hallocates pilot.correlations pilot.counts pilot.bench.spent
    (some (Pilot.of pilot.correlations pilot.counts).variance) none fun _ _ => ⟨_, rfl⟩
  exact ⟨_, projection_eq_ok_iff.mpr ⟨pilot, planned, hdrawn, hplanned, rfl⟩⟩

/-! ## Rounds -/

section Rounds

include hallocates

/-- A round succeeds if every QoI has two samples then. -/
theorem exists_step (before : Option (Progress σ α)) (iteration samples : ℕ) (bench : Bench σ α)
    {sums : JointSums α 4} (hsums : sums.Sized plan.ensemble.dims)
    (htwo : ∀ count ∈ sums.counts, 2 ≤ count + samples) :
    ∃ next, plan.Steps before iteration samples bench sums next ∧
      next.sums.Sized plan.ensemble.dims ∧ next.sums.counts = sums.counts.map (· + samples) := by
  obtain ⟨result, hresult, hsized, hcounts⟩ :=
    exists_accumulate hcomplete iteration samples bench hsums
  obtain ⟨correlations, hcorrelations⟩ := result.exists_correlations_of_two_le fun count hmem => by
    rw [hcounts] at hmem
    obtain ⟨old, hold, rfl⟩ := List.mem_map.mp hmem
    exact htwo old hold
  let pilot := (before.map Progress.pilot).getD (.of correlations result.counts)
  let answer := plan.answer (.shared iteration samples) bench
  let bench' := plan.charge (List.range (plan.numApprox + 1)) answer.1.length
    ⟨answer.2, bench.spent⟩
  obtain ⟨allocation, hallocation⟩ := hallocates correlations result.counts bench'.spent
    (some pilot.variance) (before.map Progress.allocation) fun _ _ => ⟨_, rfl⟩
  obtain ⟨-, hsame, -⟩ := allocate_eq_ok_iff.mp hallocation
  subst hsame
  let pending := increment result.counts allocation.evalRatios.highTargets 1
  let checkpoint :=
    allocation.checkpoint iteration samples result.counts bench'.spent pending
  let checkpoints := (before.map Progress.checkpoints).getD [] ++ [checkpoint]
  exact ⟨⟨bench', result, pilot, allocation, checkpoints, iteration + 1, pending⟩,
    ⟨hresult, rfl, hcorrelations, rfl, hallocation, rfl, rfl, rfl⟩, hsized, hcounts⟩

/-- An online run goes on until no more samples are needed, or up to the limit. -/
theorem exists_iterate (limit : ℕ) {progress : Progress σ α}
    (hsums : progress.sums.Sized plan.ensemble.dims)
    (htwo : ∀ count ∈ progress.sums.counts, 2 ≤ count) :
    ∃ last, (plan.iterate limit progress).outcome = .ok last ∧
      last.sums.Sized plan.ensemble.dims ∧ ∀ count ∈ last.sums.counts, 2 ≤ count := by
  induction limit generalizing progress with
  | zero => exact ⟨progress, rfl, hsums, htwo⟩
  | succ limit ih =>
    unfold iterate
    split
    · exact ⟨progress, rfl, hsums, htwo⟩
    · -- counts only grow, so that the next round has samples enough
      obtain ⟨next, hnext, hsized, hcounts⟩ := exists_step hcomplete hallocates (some progress)
        progress.iterations progress.pending progress.bench hsums
        fun count hcount => (htwo count hcount).trans (Nat.le_add_right _ _)
      obtain ⟨last, hlast, hlarge⟩ := ih hsized fun count hcount => by
        rw [hcounts] at hcount
        obtain ⟨old, hold, rfl⟩ := List.mem_map.mp hcount
        exact (htwo old hold).trans (Nat.le_add_right _ _)
      exact ⟨last, Recorder.outcome_bind_eq_ok.mpr ⟨next, step_eq_ok_iff.mpr hnext, hlast⟩, hlarge⟩

end Rounds

/-! ## Refinements -/

section Refinements

variable (iteration : ℕ) (allocation : Allocation α) {refinement : Refinement σ α}
  (hsized : refinement.pyramid.Sized plan.ensemble.dims)
include hsized

theorem exists_approxIncrement (stop : ℕ) :
    ∃ next, (plan.approxIncrement iteration allocation stop refinement).outcome = .ok next ∧
      next.pyramid.Sized plan.ensemble.dims := by
  unfold approxIncrement
  rw [Recorder.bind_of_ok (outcome_log _)]
  dsimp only
  split
  · exact ⟨refinement, rfl, hsized⟩
  · rw [Recorder.bind_of_ok (outcome_draw _ _)]
    dsimp only
    generalize hcall : Call.approx iteration _ _ = call
    have hlengths : ∀ response ∈ (plan.answer call refinement.bench).1,
        response.length = refinement.pyramid.dims.responseLength := by
      rw [hsized.dims_eq]
      exact hcomplete.responses call refinement.bench.state
    obtain ⟨pyramid, hpyramid⟩ : ∃ pyramid,
        refinement.pyramid.refine allocation.evalRatios.solution.order 0 stop
          (plan.answer call refinement.bench).1 = .ok pyramid :=
      ⟨_, PyramidSums.refine_eq_ok_iff.mpr ⟨hlengths, rfl⟩⟩
    exact ⟨_, Recorder.outcome_bind_eq_ok.mpr ⟨pyramid, hpyramid, rfl⟩, hsized.refine hpyramid⟩

omit hcomplete in
/-- An increment leaves the models behind its positions as they are. -/
theorem refinedCounts_approxIncrement_of_le
    (horder : allocation.evalRatios.solution.order.Valid plan.ensemble.dims.numApprox)
    {stop i : ℕ} (hi : i < plan.ensemble.dims.numApprox) (hle : stop ≤ i)
    {next : Refinement σ α}
    (h : (plan.approxIncrement iteration allocation stop refinement).outcome = .ok next) :
    next.pyramid.refinedCounts (allocation.evalRatios.solution.order.model i) =
      refinement.pyramid.refinedCounts (allocation.evalRatios.solution.order.model i) := by
  rcases approxIncrement_eq_ok h with ⟨-, rfl⟩ | ⟨-, hpyramid, -⟩
  · rfl
  · exact PyramidSums.refinedCounts_refine_of_le hsized horder hi hle hpyramid

theorem exists_refineBelow (stop : ℕ) :
    ∃ last, (plan.refineBelow iteration allocation stop refinement).outcome = .ok last := by
  induction stop generalizing refinement with
  | zero => exact ⟨refinement, rfl⟩
  | succ stop ih =>
    obtain ⟨next, hnext, hnextSized⟩ :=
      exists_approxIncrement hcomplete iteration allocation hsized (stop + 1)
    obtain ⟨last, hlast⟩ := ih hnextSized
    exact ⟨last, Recorder.outcome_bind_eq_ok.mpr ⟨next, hnext, hlast⟩⟩

end Refinements

/-! ## Runs -/

omit hcomplete in
/-- A run ends with a report once its refinements are done, if there is a sample at every QoI. -/
theorem exists_finish_of_refineBelow {iterations : ℕ} {allocation : Allocation α}
    {sums : JointSums α 4} {bench : Bench σ α} {last : Refinement σ α}
    (hlast : (plan.refineBelow iterations allocation plan.numApprox
      ⟨bench, .ofJoint sums, 0⟩).outcome = .ok last)
    (hcounts : ∀ count ∈ sums.counts, 2 ≤ count) (pilot : Option (Pilot α))
    (warnings : List Warning) :
    ∃ moments, (plan.finish iterations allocation sums bench pilot warnings).outcome =
      .ok (plan.reportOf iterations allocation sums pilot warnings last moments) := by
  have hrefine : (plan.refine iterations allocation sums bench).outcome = .ok last :=
    Recorder.outcome_bind_eq_ok.mpr ⟨last, hlast, rfl⟩
  obtain ⟨moments, hmoments⟩ := exists_rawMoments (fun count hcount => by
    have htwo := hcounts count hcount
    omega) last.pyramid
  exact ⟨moments, Recorder.outcome_bind_eq_ok.mpr ⟨last, hrefine,
    Recorder.outcome_bind_eq_ok.mpr ⟨moments, hmoments, rfl⟩⟩⟩

/-- What follows the last shared increment succeeds. -/
theorem exists_finish (iterations : ℕ) (allocation : Allocation α) {sums : JointSums α 4}
    (hsums : sums.Sized plan.ensemble.dims) (hcounts : ∀ count ∈ sums.counts, 2 ≤ count)
    (bench : Bench σ α) (pilot : Option (Pilot α)) (warnings : List Warning) :
    ∃ report, (plan.finish iterations allocation sums bench pilot warnings).outcome =
      .ok report := by
  have hsized : (⟨bench, .ofJoint sums, 0⟩ : Refinement σ α).pyramid.Sized plan.ensemble.dims :=
    PyramidSums.sized_ofJoint hsums
  obtain ⟨last, hlast⟩ := exists_refineBelow hcomplete iterations allocation hsized plan.numApprox
  obtain ⟨moments, hmoments⟩ := exists_finish_of_refineBelow hlast hcounts pilot warnings
  exact ⟨_, hmoments⟩

include hallocates

theorem exists_online (hpilot : 2 ≤ plan.settings.pilotSamples) (state : σ) :
    ∃ report, (plan.online state).outcome = .ok report := by
  have hempty := JointSums.sized_empty (α := α) (M := 4) plan.ensemble.dims
  have hzero := JointSums.counts_empty (α := α) (M := 4) plan.ensemble.dims
  obtain ⟨first, hfirst, hsized, hcounts⟩ := exists_step hcomplete hallocates none 0
    plan.settings.pilotSamples ⟨state, 0⟩ hempty fun count _ =>
      hpilot.trans (Nat.le_add_left _ count)
  obtain ⟨last, hlast, hlastSized, htwo⟩ := exists_iterate hcomplete hallocates
    plan.settings.maxIterations hsized fun count hcount => by
      rw [hcounts, hzero, List.map_replicate, zero_add] at hcount
      rwa [List.eq_of_mem_replicate hcount]
  obtain ⟨report, hreport⟩ := exists_finish hcomplete last.iterations last.allocation hlastSized
    htwo last.bench (some last.pilot) (last.allocation.evalRatios.warnings ++ limitWarnings last)
  exact ⟨report, Recorder.outcome_bind_eq_ok.mpr ⟨first, step_eq_ok_iff.mpr hfirst,
    Recorder.outcome_bind_eq_ok.mpr ⟨last, hlast,
      Recorder.outcome_bind_eq_ok.mpr ⟨(), rfl, hreport⟩⟩⟩⟩

/-- An offline pilot is not charged, and it has a budget as its target. -/
theorem exists_offline (hpilot : 2 ≤ plan.settings.pilotSamples) {budget : α}
    (htarget : plan.target = .budget budget) (state : σ) :
    ∃ report, (plan.offline state).outcome = .ok report := by
  obtain ⟨pilot, hdrawn⟩ := exists_pilot hcomplete hpilot false state
  obtain ⟨planned, hplanned⟩ := hallocates pilot.correlations pilot.counts pilot.bench.spent none
    none fun tolerance htolerance => nomatch htarget.symm.trans htolerance
  have hempty := JointSums.sized_empty (α := α) (M := 4) plan.ensemble.dims
  have hzero := JointSums.counts_empty (α := α) (M := 4) plan.ensemble.dims
  obtain ⟨sums, hsums, hsized, hcounts⟩ :=
    exists_accumulate hcomplete 1 (plan.offlineSamples planned) pilot.bench hempty
  have htwo : ∀ count ∈ sums.counts, 2 ≤ count := fun count hcount => by
    rw [hcounts, hzero, List.map_replicate, zero_add] at hcount
    rw [List.eq_of_mem_replicate hcount]
    exact le_max_right _ _
  obtain ⟨report, hreport⟩ := exists_finish hcomplete 2 (planned.realize sums.counts) hsized htwo _
    none planned.evalRatios.warnings
  exact ⟨report, offline_eq_ok_iff.mpr ⟨pilot, planned, ⟨sums, _⟩, hdrawn, hplanned,
    sharedIncrement_eq_ok_iff.mpr ⟨hsums, rfl⟩, hreport⟩⟩

end Plan

/-- A run of an ensemble at which no evaluation fails ends with a report, whatever its mode is, if
its pilot has two samples or more and its allocations succeed. -/
theorem exists_report_of_complete {ensemble : Ensemble σ α} {settings : Settings α}
    {optimizer : Optimizer α} {plan : Plan σ α}
    (hchecked : Plan.Checked ensemble settings optimizer plan) (hcomplete : ensemble.Complete)
    (hallocates : plan.Allocates) (hpilot : 2 ≤ settings.pilotSamples) (state : σ) :
    ∃ report, (sampleWith optimizer ensemble settings state).outcome = .ok report := by
  rw [Plan.sampleWith_of_checked hchecked]
  rw [← hchecked.ensemble_eq] at hcomplete
  rw [← hchecked.settings_eq] at hpilot
  unfold Plan.execute
  cases hmode : plan.settings.pilotMode with
  | online => exact Plan.exists_online hcomplete hallocates hpilot state
  | offline =>
    obtain ⟨budget, hbudget⟩ := Settings.exists_budget_of_offline hchecked.target_eq
      (hchecked.settings_eq ▸ hmode)
    exact Plan.exists_offline hcomplete hallocates hpilot hbudget state
  | projection => exact Plan.exists_projection hcomplete hallocates hpilot state

open ExactReal
/-! ## A run with two rounds and two refinements -/

/-- Four samples of two low-fidelity models. All means vanish, and the second model is correlated
more closely than the first one. -/
noncomputable def quartet : List RealSample :=
  [⟨[1, 1], 1⟩, ⟨[0, 1], 0⟩, ⟨[-1, -1], 0⟩, ⟨[0, -1], -1⟩]

/-- The samples of an increment are those of the quartet, over and over again. -/
noncomputable def quartetSample (i : ℕ) : RealSample :=
  quartet.getD (i % 4) ⟨[0, 0], 0⟩

/-- An ensemble that answers every call with quartets. -/
noncomputable def quartetEnsemble : Ensemble Unit ExactReal where
  dims := ⟨2, 1⟩
  costs := [1, 4, 32].map Scalar.ofCount
  respond call _ := ((List.range call.samples).map fun i => (quartetSample i).response, ())

theorem length_low_quartetSample (i : ℕ) : (quartetSample i).low.length = 2 := by
  have hlt := Nat.mod_lt i (show 4 > 0 by decide)
  unfold quartetSample
  generalize i % 4 = k at hlt ⊢
  interval_cases k <;> rfl

theorem complete_quartetEnsemble : quartetEnsemble.Complete where
  length call _ := by simp [quartetEnsemble]
  value call _ response hresponse model hmodel _ qoi hqoi := by
    obtain ⟨i, -, rfl⟩ := List.mem_map.mp hresponse
    obtain rfl : qoi = 0 := Nat.lt_one_iff.mp hqoi
    have hvalue := (quartetSample i).value?_response model
    rw [length_low_quartetSample] at hvalue
    have hlt : model < (quartetSample i).response.length := by
      rw [RealSample.length_response, length_low_quartetSample]
      exact Nat.lt_succ_of_le hmodel
    exact ⟨_, hvalue.trans (List.getElem?_eq_getElem hlt)⟩
  responses call _ response hresponse := by
    obtain ⟨i, -, rfl⟩ := List.mem_map.mp hresponse
    rw [RealSample.length_response, length_low_quartetSample]
    rfl

/-- A budget of eleven evaluations. -/
noncomputable def quartetSettings (pilotMode : PilotMode) : Settings ExactReal :=
  { Settings.withBudget 4 (Scalar.ofCount 11) with pilotMode, preferReordered := true }

noncomputable def quartetPlan (optimizer : Optimizer ExactReal) (pilotMode : PilotMode) :
    Plan Unit ExactReal where
  ensemble := quartetEnsemble
  settings := quartetSettings pilotMode
  optimizer := optimizer
  target := .budget (Scalar.ofCount 11)
  costs := ⟨[1, 4, 32].map Scalar.ofCount⟩

theorem checked_quartetPlan (optimizer : Optimizer ExactReal) (pilotMode : PilotMode) :
    Plan.Checked quartetEnsemble (quartetSettings pilotMode) optimizer
      (quartetPlan optimizer pilotMode) := by
  refine Plan.checked_of_usable ?_ two_pos one_pos ⟨rfl, ?_⟩ _
  · exact Settings.target_eq_budget rfl rfl four_ne_zero (by simp [Scalar.isPositiveFinite])
  · simp [quartetEnsemble, Scalar.isPositiveFinite]

section

variable (optimizer : Optimizer ExactReal) (pilotMode : PilotMode)

theorem target_quartetPlan : (quartetPlan optimizer pilotMode).target = .budget (real 11) := by
  simp [quartetPlan]

theorem priced_quartetPlan : (quartetPlan optimizer pilotMode).Priced [1, 4, 32] where
  costs_eq := by simp [quartetPlan]
  length := rfl
  pos := by simp

theorem allocates_quartetPlan : (quartetPlan optimizer pilotMode).Allocates :=
  Plan.allocates_of_preferReordered rfl

variable {optimizer pilotMode}

theorem correlationSq_quartet {samples : List RealSample}
    (hsamples : samples = quartet ∨ samples = quartet ++ quartet) :
    correlationSq samples 0 = 1 / 4 ∧ correlationSq samples 1 = 1 / 2 := by
  rcases hsamples with rfl | rfl <;> constructor <;>
    norm_num [correlationSq, lowVariance, highVariance, crossCovariance, sampleCov, quartet,
      RealSample.value]

/-- One or two quartets lead to the same squared correlations. -/
theorem correlations_quartet {m : ℕ} {samples : List RealSample}
    (hsamples : samples = quartet ∨ samples = quartet ++ quartet)
    {sums : JointSums ExactReal (m + 1)}
    (hsums : (JointSums.empty ⟨2, 1⟩).accumulate (samples.map RealSample.response) = .ok sums)
    {correlations : Correlations ExactReal} (hcorrelations : sums.correlations = .ok correlations) :
    sums.counts = [samples.length] ∧
      correlations.rhoSq = .ofRows 2 [[real (1 / 4), real (1 / 2)]] := by
  have hlow : ∀ sample ∈ samples, sample.low.length = 2 := by
    rcases hsamples with rfl | rfl <;> simp [quartet]
  have hcount : 2 ≤ samples.length := by
    rcases hsamples with rfl | rfl <;> simp [quartet]
  have hlengths : ∀ response ∈ samples.map RealSample.response,
      response.length = (⟨2, 1⟩ : Dimensions).responseLength := by
    intro response hresponse
    obtain ⟨sample, hsample, rfl⟩ := List.mem_map.mp hresponse
    rw [RealSample.length_response, hlow sample hsample]
  have hjoint : ∀ qoi < 1, (samples.map RealSample.response).filterMap
      ((⟨2, 1⟩ : Dimensions).joint? · qoi) = samples.map RealSample.toJoint := by
    intro qoi hqoi
    obtain rfl : qoi = 0 := Nat.lt_one_iff.mp hqoi
    rw [List.filterMap_map, ← List.filterMap_eq_map]
    refine List.filterMap_congr fun sample hsample => ?_
    have hsampleJoint := sample.joint?_response
    rwa [hlow sample hsample] at hsampleJoint
  obtain ⟨sums', correlations', hsums', hcounts, hcorrelations', hrho⟩ :=
    JointSums.exists_correlations m ⟨2, 1⟩ _ (fun _ => samples) hlengths hjoint fun _ _ => hcount
  obtain rfl : sums = sums' := Except.ok.inj (hsums.symm.trans hsums')
  obtain rfl : correlations = correlations' :=
    Except.ok.inj (hcorrelations.symm.trans hcorrelations')
  obtain ⟨hfirst, hsecond⟩ := correlationSq_quartet hsamples
  refine ⟨hcounts, ?_⟩
  rw [hrho, ← hfirst, ← hsecond]
  rfl

/-- The closed form for these correlations and costs. -/
theorem sequenceRatios_quartet :
    sequenceRatios [real (1 / 4), real (1 / 2)] ⟨[1, 4, 32].map real⟩ [] = [real 4, real 2] := by
  have hfour : √(16 : ℝ) = 4 := by rw [Real.sqrt_eq_iff_mul_self_eq] <;> norm_num
  have htwo : √(4 : ℝ) = 2 := by rw [Real.sqrt_eq_iff_mul_self_eq] <;> norm_num
  have hunordered : unorderedRatios (real 32) (real (1 / 2)) 0 [real (1 / 4), real (1 / 2)]
      [real 1, real 4] = [real 4, real 2] := by
    simp only [unorderedRatios, zero_eq, one_eq, real_sub, larger_real]
    norm_num [sqrt_real, hfour, htwo]
  rw [sequenceRatios_eq_scatter (ModelOrder.valid_nil _), ModelOrder.scatter_nil]
  change suffixMaxima (unorderedRatios (real 32) (real (1 / 2)) 0 [real (1 / 4), real (1 / 2)]
    [real 1, real 4]) = _
  rw [hunordered]
  norm_num [suffixMaxima]

/-- The allocation of these correlations uses up the budget. -/
theorem evalRatios_quartet {inputs : RatioInputs ExactReal}
    (hrho : inputs.correlations.rhoSq = .ofRows 2 [[real (1 / 4), real (1 / 2)]])
    (htolerances : inputs.tolerances = .default) (hcosts : inputs.costs = ⟨[1, 4, 32].map real⟩)
    (htarget : inputs.target = .budget (real 11)) {result : EvalRatios ExactReal}
    (h : (inputs.evalRatios optimizer).outcome = .ok result) :
    result.solution = .analytic (.ofRows 2 [[real 4, real 2]]) ∧
      result.highTargets = [real 8] := by
  obtain ⟨-, hsolution, htargets⟩ := RatioInputs.evalRatios_eq_ok_iff.mp h
  have hresult : result.rhoSq = .ofRows 2 [[real (1 / 4), real (1 / 2)]] := by
    rw [RatioInputs.rhoSq_eq h, hrho, htolerances, sanitize, QoiMatrix.toRows_ofRows (by simp)]
    have hdefault : (Tolerances.default : Tolerances ExactReal) =
        ⟨real 1e-10, real 1e-10, real 1e-10⟩ := rfl
    norm_num [hdefault, Tolerances.clamp_real, QoiMatrix.ofRows]
  have hrows : result.rhoSq.toRows = [[real (1 / 4), real (1 / 2)]] := by
    rw [hresult, QoiMatrix.toRows_ofRows (by simp)]
  have hordered : isOrdered result.rhoSq inputs.tolerances.ordering = true := by
    rw [isOrdered, hrows, htolerances]
    norm_num [Tolerances.default]
  have hanalytic : result.solution = .analytic (.ofRows 2 [[real 4, real 2]]) := by
    rw [RatioInputs.solution, selectForm, hordered] at hsolution
    have hform : result.solution = .analytic (analyticRatios result.rhoSq inputs.costs) :=
      (Except.ok.inj hsolution).symm
    rw [hform, analyticRatios, hrows, hcosts, List.map_singleton, sequenceRatios_quartet, hresult]
    rfl
  refine ⟨hanalytic, ?_⟩
  rw [hanalytic] at htargets
  simp only [RatioInputs.highTargets, htarget] at htargets
  rw [← Except.ok.inj htargets, RatioSolution.ratios, budgetTargets,
    QoiMatrix.toRows_ofRows (by simp), hcosts, List.map_singleton]
  have hallocated : allocateBudget ([4, 2].map real) ⟨[1, 4, 32].map real⟩ (real 11) = _ :=
    allocateBudget_real (by norm_num) (by norm_num [profileCost]) 11
  norm_num [profileCost] at hallocated
  simpa using hallocated

/-- The ratios and targets that one or two quartets lead to. -/
structure Allocation.OfQuartets (allocation : Allocation ExactReal) : Prop where
  solution : allocation.evalRatios.solution = .analytic (.ofRows 2 [[real 4, real 2]])
  highTargets : allocation.evalRatios.highTargets = [real 8]

theorem Allocation.OfQuartets.lowTargets {allocation : Allocation ExactReal}
    (h : allocation.OfQuartets) :
    allocation.lowTargets 0 = [real 32] ∧ allocation.lowTargets 1 = [real 16] := by
  rw [Allocation.lowTargets, Allocation.lowTargets, h.solution, h.highTargets]
  constructor <;> norm_num [RatioSolution.ratios, QoiMatrix.entry, QoiMatrix.ofRows]

theorem ofQuartets_of_allocate {m : ℕ} {samples : List RealSample}
    (hsamples : samples = quartet ∨ samples = quartet ++ quartet)
    {sums : JointSums ExactReal (m + 1)}
    (hsums : (JointSums.empty ⟨2, 1⟩).accumulate (samples.map RealSample.response) = .ok sums)
    {correlations : Correlations ExactReal} (hcorrelations : sums.correlations = .ok correlations)
    {highCounts : List ℕ} {spent : ExactReal} {pilotVariance : Option (List ExactReal)}
    {previous : Option (Allocation ExactReal)} {allocation : Allocation ExactReal}
    (h : ((quartetPlan optimizer pilotMode).allocate correlations highCounts spent pilotVariance
      previous).outcome = .ok allocation) : allocation.OfQuartets := by
  obtain ⟨-, hrho⟩ := correlations_quartet hsamples hsums hcorrelations
  obtain ⟨heval, -, -⟩ := Plan.allocate_eq_ok_iff.mp h
  obtain ⟨hsolution, htargets⟩ := evalRatios_quartet hrho rfl
    (priced_quartetPlan optimizer pilotMode).costs_eq (target_quartetPlan optimizer pilotMode) heval
  exact ⟨hsolution, htargets⟩

theorem sampleCost_quartet : sampleCost [1, 4, 32] 2 = 37 / 32 := by
  norm_num [sampleCost, weight, Finset.sum_range_succ]

/-- The state of the run after one or two quartets. -/
structure Progress.OfQuartets (samples : List RealSample) (progress : Progress Unit ExactReal) :
    Prop where
  sums : (JointSums.empty ⟨2, 1⟩).accumulate (samples.map RealSample.response) = .ok progress.sums
  counts : progress.sums.counts = [samples.length]
  allocation : progress.allocation.OfQuartets
  spent : progress.bench.spent = real (samples.length * (37 / 32))
  pending : progress.pending = 8 - samples.length

/-- A round adds a quartet. -/
theorem ofQuartets_of_steps {past : List RealSample} (hpast : past = [] ∨ past = quartet)
    {before : Option (Progress Unit ExactReal)} {iteration : ℕ} {bench : Bench Unit ExactReal}
    (hspent : bench.spent = real (past.length * (37 / 32))) {sums : JointSums ExactReal 4}
    (hsums : (JointSums.empty ⟨2, 1⟩).accumulate (past.map RealSample.response) = .ok sums)
    {next : Progress Unit ExactReal}
    (h : (quartetPlan optimizer pilotMode).Steps before iteration 4 bench sums next) :
    next.OfQuartets (past ++ quartet) := by
  have hbatch : ((quartetPlan optimizer pilotMode).answer (.shared iteration 4) bench).1 =
      quartet.map RealSample.response := rfl
  have hnextSums : (JointSums.empty ⟨2, 1⟩).accumulate
      ((past ++ quartet).map RealSample.response) = .ok next.sums := by
    have haccumulated := h.sums
    rw [hbatch] at haccumulated
    obtain ⟨hpastLengths, rfl⟩ := JointSums.accumulate_eq_ok_iff.mp hsums
    obtain ⟨hlengths, heq⟩ := JointSums.accumulate_eq_ok_iff.mp haccumulated
    rw [JointSums.dims_foldl_addResponse] at hlengths
    refine JointSums.accumulate_eq_ok_iff.mpr ⟨?_, ?_⟩
    · rw [List.map_append]
      exact List.forall_mem_append.mpr ⟨hpastLengths, hlengths⟩
    · rw [List.map_append, List.foldl_append, heq]
  have hsamples : past ++ quartet = quartet ∨ past ++ quartet = quartet ++ quartet :=
    hpast.imp (congrArg (· ++ quartet)) (congrArg (· ++ quartet))
  obtain ⟨hcounts, -⟩ := correlations_quartet hsamples hnextSums h.correlations
  have hallocation := ofQuartets_of_allocate hsamples hnextSums h.correlations h.allocation
  refine ⟨hnextSums, hcounts, hallocation, ?_, ?_⟩
  · have hcharge := Plan.charge_all (priced_quartetPlan optimizer pilotMode) quartet.length ()
      (past.length * (37 / 32))
    rw [h.bench, hbatch, List.length_map, hspent]
    refine hcharge.trans ?_
    change real (_ + _ * sampleCost [1, 4, 32] 2) = _
    rw [sampleCost_quartet, List.length_append, Nat.cast_add, add_mul]
  · rw [h.pending, hcounts, hallocation.highTargets]
    refine (increment_replicate one_ne_zero (past ++ quartet).length 8).trans ?_
    have hceil : ⌈(8 : ℝ)⌉₊ = 8 := Nat.ceil_ofNat 8
    have hmax : 8 ≤ maxCount := by decide
    omega

variable (optimizer pilotMode)

/-- Both models are refined by eight samples, and the first one by sixteen more. -/
theorem exists_refineBelow_quartet {progress : Progress Unit ExactReal}
    (h : progress.OfQuartets (quartet ++ quartet)) :
    ∃ last, ((quartetPlan optimizer pilotMode).refineBelow 2 progress.allocation 2
        ⟨progress.bench, .ofJoint progress.sums, 0⟩).outcome = .ok last ∧
      (List.range 2).map last.pyramid.refinedCounts = [[32], [16]] ∧
      last.bench.spent = real 11 := by
  let plan := quartetPlan optimizer pilotMode
  have hcomplete : plan.ensemble.Complete := complete_quartetEnsemble
  have hpriced : plan.Priced [1, 4, 32] := priced_quartetPlan optimizer pilotMode
  have horder : progress.allocation.evalRatios.solution.order = [] := by
    rw [h.allocation.solution]
    rfl
  have hvalid : ModelOrder.Valid [] plan.numApprox := ModelOrder.valid_nil _
  obtain ⟨hfirst, hsecond⟩ := h.allocation.lowTargets
  have hsums := (JointSums.sized_empty ⟨2, 1⟩).accumulate h.sums
  have hstart : (⟨progress.bench, .ofJoint progress.sums, 0⟩ :
      Refinement Unit ExactReal).Level plan.ensemble.dims [] 2 8 (8 * (37 / 32)) :=
    ⟨PyramidSums.sized_ofJoint hsums, fun i hi =>
      (PyramidSums.refinedCounts_ofJoint hsums hi).trans h.counts, h.spent⟩
  -- the first range ends with the second model
  obtain ⟨wide, hwide, -⟩ := Plan.exists_approxIncrement hcomplete 2 progress.allocation
    hstart.sized 2
  obtain ⟨samples, hsamples, hwideLevel⟩ := hstart.approxIncrement hcomplete.toFaultless hpriced
    hvalid horder one_lt_two hwide
  obtain rfl : samples = 8 := by
    rw [hsamples, ModelOrder.model_nil, hsecond]
    exact (increment_replicate one_ne_zero 8 16).trans (by norm_num [maxCount])
  -- the second range is the first model alone
  have hwideLevel' : wide.Level plan.ensemble.dims [] 1 _ _ :=
    { hwideLevel with counts := fun i hi => hwideLevel.counts i (by omega) }
  obtain ⟨narrow, hnarrow, -⟩ := Plan.exists_approxIncrement hcomplete 2 progress.allocation
    hwideLevel.sized 1
  obtain ⟨samples, hsamples, hnarrowLevel⟩ := hwideLevel'.approxIncrement hcomplete.toFaultless
    hpriced hvalid horder two_pos hnarrow
  obtain rfl : samples = 16 := by
    rw [hsamples, ModelOrder.model_nil, hfirst]
    exact (increment_replicate one_ne_zero 16 32).trans (by norm_num [maxCount])
  have hkept := Plan.refinedCounts_approxIncrement_of_le 2 progress.allocation hwideLevel.sized
    (horder ▸ hvalid) one_lt_two le_rfl hnarrow
  rw [horder] at hkept
  refine ⟨narrow, Recorder.outcome_bind_eq_ok.mpr ⟨wide, hwide,
    Recorder.outcome_bind_eq_ok.mpr ⟨narrow, hnarrow, rfl⟩⟩, ?_, ?_⟩
  · have htwo : List.range 2 = [0, 1] := rfl
    rw [htwo, List.map_cons, List.map_singleton]
    exact congrArg₂ (fun x y => [x, y]) (hnarrowLevel.counts 0 one_pos)
      (hkept.trans (hwideLevel.counts 1 one_lt_two))
  · rw [hnarrowLevel.spent]
    change real (_ + _ * ∑ i ∈ Finset.range 2, weight [1, 4, 32] 2 i +
      _ * ∑ i ∈ Finset.range 1, weight [1, 4, 32] 2 i) = _
    norm_num [weight, Finset.sum_range_succ]

/-- The second round draws as many samples as the first one, and it is the last. -/
theorem exists_rounds_quartet :
    let plan := quartetPlan optimizer pilotMode
    ∃ first last : Progress Unit ExactReal,
      (plan.step none 0 4 ⟨(), 0⟩ (.empty plan.ensemble.dims)).outcome = .ok first ∧
        (plan.iterate 100 first).outcome = .ok last ∧ last.iterations = 2 ∧
        last.OfQuartets (quartet ++ quartet) := by
  intro plan
  have hcomplete : plan.ensemble.Complete := complete_quartetEnsemble
  have hallocates : plan.Allocates := allocates_quartetPlan optimizer pilotMode
  obtain ⟨first, hfirst, hsized, -⟩ := Plan.exists_step hcomplete hallocates none 0 4 ⟨(), 0⟩
    (JointSums.sized_empty plan.ensemble.dims) fun count _ => Nat.le_add_left_of_le (by decide)
  have hstate : first.OfQuartets ([] ++ quartet) :=
    ofQuartets_of_steps (.inl rfl) (by simp) rfl hfirst
  have hpending : first.pending = 4 := hstate.pending
  obtain ⟨last, hlast, -, -⟩ := Plan.exists_step hcomplete hallocates (some first)
    first.iterations 4 first.bench hsized fun count _ => Nat.le_add_left_of_le (by decide)
  have hlastState : last.OfQuartets (quartet ++ quartet) :=
    ofQuartets_of_steps (.inr rfl) hstate.spent hstate.sums hlast
  refine ⟨first, last, Plan.step_eq_ok_iff.mpr hfirst, ?_, ?_, hlastState⟩
  · unfold Plan.iterate
    rw [if_neg (by rw [hpending]; decide), hpending]
    exact Recorder.outcome_bind_eq_ok.mpr ⟨last, Plan.step_eq_ok_iff.mpr hlast,
      Plan.iterate_of_pending_eq_zero 99 hlastState.pending⟩
  · rw [hlast.iterations, hfirst.iterations]

/-- The run ends with a report when the refinements have used up the budget. -/
theorem exists_online_quartet :
    ∃ report, (sampleWith optimizer quartetEnsemble (quartetSettings .online) ()).outcome =
        .ok report ∧ report.iterations = 2 ∧
      report.solution = .analytic (.ofRows 2 [[real 4, real 2]]) ∧
      report.highTargets = [real 8] ∧ report.sharedCounts = [8] ∧
      report.lowCounts = [[32], [16]] ∧ report.spent = real 11 := by
  obtain ⟨first, last, hfirst, hlast, hiterations, hstate⟩ :=
    exists_rounds_quartet optimizer .online
  obtain ⟨final, hfinal, hlow, hspent⟩ := exists_refineBelow_quartet optimizer .online hstate
  have hcounts : ∀ count ∈ last.sums.counts, 2 ≤ count := by
    rw [hstate.counts]
    decide
  obtain ⟨moments, hmoments⟩ := Plan.exists_finish_of_refineBelow hfinal hcounts (some last.pilot)
    (last.allocation.evalRatios.warnings ++ Plan.limitWarnings last)
  have hrun : (sampleWith optimizer quartetEnsemble (quartetSettings .online) ()).outcome =
      .ok ((quartetPlan optimizer .online).reportOf 2 last.allocation last.sums (some last.pilot)
        (last.allocation.evalRatios.warnings ++ Plan.limitWarnings last) final moments) := by
    rw [Plan.sampleWith_of_checked (checked_quartetPlan optimizer .online)]
    refine Recorder.outcome_bind_eq_ok.mpr ⟨first, hfirst, ?_⟩
    refine Recorder.outcome_bind_eq_ok.mpr ⟨last, hlast, ?_⟩
    refine Recorder.outcome_bind_eq_ok.mpr ⟨(), rfl, ?_⟩
    rw [hiterations]
    exact hmoments
  exact ⟨_, hrun, rfl, hstate.allocation.solution, hstate.allocation.highTargets, hstate.counts,
    hlow, hspent⟩

/-- The projection of the run shows the samples that it will draw. -/
theorem exists_projection_quartet :
    ∃ report, (sampleWith optimizer quartetEnsemble (quartetSettings .projection) ()).outcome =
        .ok report ∧ report.sharedCounts = [4] ∧ report.highCounts = [8] ∧
      report.lowCounts = [[32], [16]] := by
  let plan := quartetPlan optimizer .projection
  have hcomplete : plan.ensemble.Complete := complete_quartetEnsemble
  have hallocates : plan.Allocates := allocates_quartetPlan optimizer .projection
  have hchecked := checked_quartetPlan optimizer .projection
  obtain ⟨pilot, hpilot⟩ := Plan.exists_pilot hcomplete
    (show 2 ≤ plan.settings.pilotSamples from Nat.le_of_lt (by decide : 2 < 4)) true ()
  obtain ⟨sums, hsums, hcorrelations, hpilotCounts, -⟩ := Plan.pilot_eq_ok_iff.mp hpilot
  obtain ⟨hcounts, -⟩ := correlations_quartet (.inl rfl) hsums hcorrelations
  obtain ⟨planned, hplanned⟩ := hallocates pilot.correlations pilot.counts pilot.bench.spent
    (some (Pilot.of pilot.correlations pilot.counts).variance) none fun _ _ => ⟨_, rfl⟩
  have hallocation := ofQuartets_of_allocate (.inl rfl) hsums hcorrelations hplanned
  obtain ⟨hfirst, hsecond⟩ := hallocation.lowTargets
  have hshared : pilot.counts = [4] := hpilotCounts.trans hcounts
  -- the QoI is brought to each target
  have hprojected : ∀ n : ℕ, 4 ≤ n → n ≤ 32 → Plan.projected [4] [real n] = [n] := by
    intro n hlower hupper
    have hincrement := increment_replicate one_ne_zero 4 (n : ℝ)
    rw [Nat.ceil_natCast] at hincrement
    have hmax : 32 ≤ maxCount := by decide
    change [4 + increment (List.replicate 1 4) (List.replicate 1 (real n)) 1] = [n]
    rw [hincrement]
    congr 1
    omega
  refine ⟨plan.projectedReport pilot planned, ?_, hshared, ?_, ?_⟩
  · rw [Plan.sampleWith_of_checked hchecked]
    exact Plan.projection_eq_ok_iff.mpr ⟨pilot, planned, hpilot, hplanned, rfl⟩
  · change Plan.projected pilot.counts planned.evalRatios.highTargets = [8]
    rw [hshared, hallocation.highTargets]
    exact hprojected 8 (by decide) (by decide)
  · change [Plan.projected pilot.counts (planned.lowTargets 0),
      Plan.projected pilot.counts (planned.lowTargets 1)] = _
    rw [hshared, hfirst, hsecond]
    exact congrArg₂ (fun x y => [x, y]) (hprojected 32 (by decide) (by decide))
      (hprojected 16 (by decide) (by decide))

end

end Multifidelity
