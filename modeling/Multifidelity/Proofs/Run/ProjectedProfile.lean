import Multifidelity.Proofs.Run.Prediction
import Multifidelity.Proofs.Run.Pyramid

/-!
# Projected profiles

A projection draws its pilot and nothing else. The numbers of samples that it projects are nested
like those of a run: every QoI of the pilot is raised by the same increment for the high-fidelity
model, and by one that is not smaller for each low-fidelity model, the larger the less the model is
correlated.

## Main definitions

* `Report.ProjectsPyramid`: reports whose projected samples are nested

## Main results

* `Allocation.increment_le_lowTargets`, `Allocation.increment_lowTargets_le`: the increments that
  nested ratios lead to
* `projects_pyramid`: the projected samples of a run
-/

namespace Multifidelity

open ExactReal

/-- The number of samples of a low-fidelity model at a QoI. -/
def Report.lowCount? {α : Type} (report : Report α) (model qoi : ℕ) : Option ℕ :=
  report.lowCounts[model]?.bind (·[qoi]?)

/-- A report about samples that are nested along the order of its solution, with the pilot in
front. No sum of counts exceeds the range of counts. -/
structure Report.ProjectsPyramid {α : Type} (dims : Dimensions) (report : Report α) : Prop where
  order : report.solution.order.Valid dims.numApprox
  /-- Every model has an increment, which is the same for all QoI. -/
  increments : ∃ (high : ℕ) (low : ℕ → ℕ),
    report.highCounts = report.sharedCounts.map (· + high) ∧
      report.lowCounts = (List.range dims.numApprox).map (fun model =>
        report.sharedCounts.map (· + low model)) ∧
      ∀ count ∈ report.sharedCounts, count + high ≤ maxCount ∧
        ∀ model < dims.numApprox, count + low model ≤ maxCount
  /-- No model has fewer samples than one that is more correlated. -/
  nested : ∀ qoi < dims.numFunctions, ∃ (shared high : ℕ) (low : ℕ → ℕ),
    report.sharedCounts[qoi]? = some shared ∧ report.highCounts[qoi]? = some high ∧
      (∀ model < dims.numApprox, report.lowCount? model qoi = some (low model)) ∧
      shared ≤ high ∧
      (∀ i < dims.numApprox, high ≤ low (report.solution.order.model i)) ∧
      ∀ i, i + 1 < dims.numApprox →
        low (report.solution.order.model (i + 1)) ≤ low (report.solution.order.model i)

/-! ## Increments -/

namespace Allocation

variable {dims : Dimensions} {allocation : Allocation ExactReal}
  (h : allocation.evalRatios.solution.IsNested dims) {counts : List ℕ}
  (hcounts : counts.length = dims.numFunctions)
include h hcounts

/-- A low-fidelity model does not lack fewer samples than the high-fidelity one. -/
theorem increment_le_lowTargets {model : ℕ} (hmodel : model < dims.numApprox) :
    increment counts allocation.evalRatios.highTargets 1 ≤
      increment counts (allocation.lowTargets model) 1 := by
  -- the targets of the high-fidelity model are those of a ratio of one
  have hone : allocation.evalRatios.highTargets =
      allocation.evalRatios.highTargets.mapIdx fun _ target => 1 * target :=
    List.ext_getElem (by simp) fun qoi _ _ => by rw [List.getElem_mapIdx, one_mul_eq]
  unfold lowTargets
  nth_rewrite 1 [hone]
  refine increment_mul_mono (fun qoi hqoi => ?_) _
  exact ⟨real_le_real.mpr le_rfl, h.one_le_entry (hcounts ▸ hqoi) hmodel⟩

/-- A low-fidelity model does not lack fewer samples than one behind it. -/
theorem increment_lowTargets_le {i j : ℕ} (hij : i < j) (hj : j < dims.numApprox) :
    let order := allocation.evalRatios.solution.order
    increment counts (allocation.lowTargets (order.model j)) 1 ≤
      increment counts (allocation.lowTargets (order.model i)) 1 := by
  intro order
  refine increment_mul_mono (fun qoi hqoi => ?_) _
  rw [hcounts] at hqoi
  exact ⟨h.one_le_entry hqoi (h.order.model_lt hj), h.entry_antitone hqoi hij hj⟩

end Allocation

/-! ## Projections -/

namespace Plan

variable {σ : Type} {plan : Plan σ ExactReal} {state : σ}

/-- The plan that a pilot leads to is nested, whatever the thresholds are. -/
theorem isNested_of_pilot (hplan : plan.WellPosed) (hordered : plan.optimizer.Ordered)
    {charged : Bool} {pilot : PilotSamples σ ExactReal}
    (hpilot : (plan.pilot charged state).outcome = .ok pilot)
    {pilotVariance : Option (List ExactReal)} {planned : Allocation ExactReal}
    (hplanned : (plan.allocate pilot.correlations pilot.counts pilot.bench.spent pilotVariance
      none).outcome = .ok planned) :
    planned.evalRatios.solution.IsNested plan.ensemble.dims ∧
      pilot.counts.length = plan.ensemble.dims.numFunctions := by
  obtain ⟨sums, hsums, hcorrelations, hcounts, -⟩ := pilot_eq_ok_iff.mp hpilot
  have hsized := (JointSums.sized_empty plan.ensemble.dims).accumulate hsums
  rw [hcounts] at hplanned ⊢
  have hinputs := hplan.wellPosed_ratioInputs hsized hcorrelations pilot.bench.spent pilotVariance
    none nofun
  refine ⟨hinputs.isNested hordered (allocate_eq_ok_iff.mp hplanned).1, ?_⟩
  rw [JointSums.counts, List.length_map, hsized.length_qois]

/-- What is projected from an allocation with nested ratios is nested, as far as it is in range. -/
theorem projectsPyramid_projectedReport {pilot : PilotSamples σ ExactReal}
    {planned : Allocation ExactReal}
    (hnested : planned.evalRatios.solution.IsNested plan.ensemble.dims)
    (hcounts : pilot.counts.length = plan.ensemble.dims.numFunctions)
    (hrange : (plan.projectedReport pilot planned).InRange) :
    (plan.projectedReport pilot planned).ProjectsPyramid plan.ensemble.dims where
  order := hnested.order
  increments := by
    refine ⟨_, fun model => increment pilot.counts (planned.lowTargets model) 1, rfl, rfl,
      fun count hcount =>
        ⟨hrange.highCounts _ (List.mem_map_of_mem hcount), fun model hmodel => ?_⟩⟩
    exact hrange.lowCounts _ (List.mem_map_of_mem (List.mem_range.mpr hmodel)) _
      (List.mem_map_of_mem hcount)
  nested qoi hqoi := by
    have hshared : pilot.counts[qoi]? = some pilot.counts[qoi] := List.getElem?_eq_getElem _
    refine ⟨pilot.counts[qoi], pilot.counts[qoi] + increment pilot.counts
      planned.evalRatios.highTargets 1, fun model => pilot.counts[qoi] +
        increment pilot.counts (planned.lowTargets model) 1, hshared, ?_, fun model hmodel => ?_,
      Nat.le_add_right _ _, fun i hi => ?_, fun i hi => ?_⟩
    · simp [projectedReport, projected, hshared]
    · simp [Report.lowCount?, projectedReport, projected, numApprox, hmodel, hshared]
    -- the same samples are in front of all increments
    · apply Nat.add_le_add_left
      exact Allocation.increment_le_lowTargets hnested hcounts (hnested.order.model_lt hi)
    · apply Nat.add_le_add_left
      exact Allocation.increment_lowTargets_le hnested hcounts (Nat.lt_succ_self i) hi

end Plan

/-- A projection requests its pilot and no other samples, and the samples that it projects are
nested. This holds for any optimizer that keeps to the constraints of its problems, whatever the
target, the thresholds and the form of the solution are, and however many evaluations failed, as
long as the projected counts are in range. -/
theorem projects_pyramid {σ : Type} {optimizer : Optimizer ExactReal}
    (hordered : optimizer.Ordered) {ensemble : Ensemble σ ExactReal}
    {settings : Settings ExactReal} (hmode : settings.pilotMode = .projection) {state : σ}
    {report : Report ExactReal}
    (hreport : (sampleWith optimizer ensemble settings state).outcome = .ok report)
    (hrange : report.InRange) :
    (∃ batch, increments (sampleWith optimizer ensemble settings state).journal =
        [(.shared 0 settings.pilotSamples, batch)]) ∧
      report.ProjectsPyramid ensemble.dims := by
  rcases Plan.sampleWith_eq optimizer ensemble settings state with ⟨plan, hchecked, hrun⟩ |
    ⟨failure, hrun⟩
  · have hexecute : plan.execute state = plan.projection state := by
      unfold Plan.execute
      rw [hchecked.settings_eq, hmode]
    rw [hrun, hexecute] at hreport ⊢
    obtain ⟨pilot, planned, hpilot, hplanned, rfl, htranscript⟩ :=
      Plan.transcript_projection hreport
    constructor
    · refine ⟨(plan.answer (.shared 0 settings.pilotSamples) ⟨state, 0⟩).1, ?_⟩
      rw [← increments_transcript, htranscript, hchecked.settings_eq]
      rfl
    · rw [← hchecked.ensemble_eq]
      obtain ⟨hnested, hcounts⟩ := Plan.isNested_of_pilot hchecked.wellPosed
        (hchecked.optimizer_eq ▸ hordered) hpilot hplanned
      exact Plan.projectsPyramid_projectedReport hnested hcounts hrange
  · rw [hrun] at hreport
    cases hreport

/-- The projection of a run that will draw eight samples of the high-fidelity model, and twice and
four times as many of the low-fidelity models. -/
theorem projects_pyramid_of_quartet :
    let run := sampleWith unitOptimizer quartetEnsemble (quartetSettings .projection) ()
    ∃ report, run.outcome = .ok report ∧ report.InRange ∧
      report.sharedCounts = [4] ∧ report.highCounts = [8] ∧ report.lowCounts = [[32], [16]] ∧
      (∃ batch, increments run.journal = [(.shared 0 4, batch)]) ∧
      report.ProjectsPyramid quartetEnsemble.dims := by
  intro run
  obtain ⟨report, hreport, hshared, hhigh, hlow⟩ := exists_projection_quartet unitOptimizer
  have hrange := Report.inRange_quartet hhigh hlow
  exact ⟨report, hreport, hrange, hshared, hhigh, hlow,
    projects_pyramid ordered_unitOptimizer rfl hreport hrange⟩

end Multifidelity
