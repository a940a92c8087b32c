import Multifidelity.Proofs.Allocation.Uniform
import Multifidelity.Proofs.Run.Estimates
import Multifidelity.Proofs.Run.VarianceReduction

/-!
# The low-fidelity samples of a run

The samples of a low-fidelity model come from the increments on all ranges that reach its position:
its own, which brings it to its target, and those of the models behind it, which have been made
before. As targets do not increase along the order, the latter never go beyond its own target. In
the end every model has exactly the samples that its target asks for, rounded up, and no fewer than
the shared ones.

## Main definitions

* `Report.MeetsTargets`: reports about low-fidelity samples that meet their targets

## Main results

* `Plan.Refines.exists_next`, `Plan.Refines.exists_low`: one increment, and all of them
* `Plan.meetsTargets_reportOf`: the low-fidelity samples after the last shared increment
* `lowCounts_meet_targets`: online and offline runs
-/

namespace Multifidelity

open ExactReal

/-- Every model has the larger number of the shared samples and its target, rounded up. -/
def Report.MeetsTargets (dims : Dimensions) (report : Report ExactReal) (ratio : ℕ → ExactReal)
    (target : ExactReal) : Prop :=
  ∀ model < dims.numApprox, ∀ qoi < dims.numFunctions, ∃ shared counts low,
    report.sharedCounts[qoi]? = some shared ∧ report.lowCounts[model]? = some counts ∧
      counts[qoi]? = some low ∧
      (Scalar.ofCount low : ExactReal) =
        Scalar.larger (Scalar.ceil (ratio model * target)) (Scalar.ofCount shared)

namespace Plan

variable {σ : Type} {plan : Plan σ ExactReal} {iteration stop : ℕ}
  {allocation : Allocation ExactReal} {refinement last : Refinement σ ExactReal}
  {events : List (Event ExactReal)} {state : σ}

/-! ## Refinements -/

section Refines

variable (horder : allocation.evalRatios.solution.order.Valid plan.ensemble.dims.numApprox)
  (hsized : refinement.pyramid.Sized plan.ensemble.dims)
include horder hsized

/-- The increments on the positions before `stop` leave the models behind as they are. -/
theorem Refines.refinedCounts_of_le
    (h : plan.Refines iteration allocation stop refinement events last) {i : ℕ}
    (hi : i < plan.ensemble.dims.numApprox) (hle : stop ≤ i) :
    last.pyramid.refinedCounts (allocation.evalRatios.solution.order.model i) =
      refinement.pyramid.refinedCounts (allocation.evalRatios.solution.order.model i) := by
  induction h with
  | done => rfl
  | skip _ _ ih => exact ih hsized (by omega)
  | draw _ _ _ hpyramid _ _ ih =>
    rw [ih (hsized.refine hpyramid) (by omega),
      PyramidSums.refinedCounts_refine_of_le hsized horder hi hle hpyramid]

/-- The first increment adds what the last model lacks to all models of its range. -/
theorem Refines.exists_next (hfaultless : plan.ensemble.Faultless)
    (h : plan.Refines iteration allocation (stop + 1) refinement events last)
    (hstop : stop < plan.ensemble.dims.numApprox) :
    ∃ next rest, plan.Refines iteration allocation stop next rest last ∧
      next.pyramid.Sized plan.ensemble.dims ∧
      ∀ i ≤ stop, next.pyramid.refinedCounts (allocation.evalRatios.solution.order.model i) =
        (refinement.pyramid.refinedCounts (allocation.evalRatios.solution.order.model i)).map
          (· + refinement.missing allocation stop) := by
  cases h with
  | skip hnone hrest =>
    refine ⟨refinement, _, hrest, hsized, fun i hi => ?_⟩
    rw [hnone]
    simp
  | @draw _ _ next _ call batch rest hsome hcall hbatch hpyramid hbench hrest =>
    refine ⟨next, rest, hrest, hsized.refine hpyramid, fun i hi => ?_⟩
    have hlength : batch.length = refinement.missing allocation stop := by
      rw [hbatch, answer, hfaultless.length, hcall]
      rfl
    rw [PyramidSums.refinedCounts_refine hsized horder hstop (Nat.lt_succ_of_le hi) hpyramid,
      hlength]
    intro response hresponse qoi hqoi
    rw [hbatch] at hresponse
    refine hfaultless.value _ refinement.bench.state response hresponse _
      (horder.model_lt (by omega)).le ?_ qoi hqoi
    rw [hcall]
    exact List.mem_map_of_mem (List.mem_range.mpr (Nat.lt_succ_of_le hi))

/-- Equal counts grow to the least ones that cover the targets, on all ranges one after another. -/
theorem Refines.exists_low (hfaultless : plan.ensemble.Faultless)
    (h : plan.Refines iteration allocation stop refinement events last)
    (hstop : stop ≤ plan.ensemble.dims.numApprox) (hqoi : plan.ensemble.dims.numFunctions ≠ 0)
    {count : ℕ} (hcount : 0 < count) {target : ℕ → ExactReal}
    (hcounts : ∀ i < stop,
      refinement.pyramid.refinedCounts (allocation.evalRatios.solution.order.model i) =
        List.replicate plan.ensemble.dims.numFunctions count)
    (htargets : ∀ i < stop,
      allocation.lowTargets (allocation.evalRatios.solution.order.model i) =
        List.replicate plan.ensemble.dims.numFunctions (target i))
    (habove : ∀ i j, i < j → j < stop → ∀ k : ℕ, real k < target j → real k < target i)
    (hrange : ∀ i < stop,
      ∀ low ∈ last.pyramid.refinedCounts (allocation.evalRatios.solution.order.model i),
        low ≤ maxCount) :
    ∀ i < stop, ∃ low,
      last.pyramid.refinedCounts (allocation.evalRatios.solution.order.model i) =
          List.replicate plan.ensemble.dims.numFunctions low ∧
        IsLeast (coveringCounts count (target i)) low := by
  -- the first range ends with the smallest target, and all models reach that together
  induction stop generalizing refinement count events with
  | zero => exact fun i hi => absurd hi (Nat.not_lt_zero i)
  | succ stop ih =>
    obtain ⟨next, rest, hrest, hsized', hnext⟩ := h.exists_next horder hsized hfaultless hstop
    have hmissing : refinement.missing allocation stop =
        increment (List.replicate plan.ensemble.dims.numFunctions count)
          (List.replicate plan.ensemble.dims.numFunctions (target stop)) 1 := by
      unfold Refinement.missing
      dsimp only
      rw [hcounts stop (Nat.lt_succ_self stop), htargets stop (Nat.lt_succ_self stop)]
    have hgrown : ∀ i ≤ stop,
        next.pyramid.refinedCounts (allocation.evalRatios.solution.order.model i) =
          List.replicate plan.ensemble.dims.numFunctions
            (count + refinement.missing allocation stop) := by
      intro i hi
      rw [hnext i hi, hcounts i (Nat.lt_succ_of_le hi), List.map_replicate]
    -- no later increment reaches the last model of this range
    have hlast : last.pyramid.refinedCounts (allocation.evalRatios.solution.order.model stop) =
        List.replicate plan.ensemble.dims.numFunctions
          (count + refinement.missing allocation stop) :=
      (hrest.refinedCounts_of_le horder hsized' hstop le_rfl).trans (hgrown stop le_rfl)
    have hleast : IsLeast (coveringCounts count (target stop))
        (count + refinement.missing allocation stop) := by
      have hle := hrange stop (Nat.lt_succ_self stop) (count + refinement.missing allocation stop)
        (by rw [hlast]; exact List.mem_replicate.mpr ⟨hqoi, rfl⟩)
      rw [hmissing] at hle ⊢
      exact isLeast_coveringCounts_increment hqoi hcount (target stop) hle
    intro i hi
    rcases Nat.lt_succ_iff_lt_or_eq.mp hi with hlt | rfl
    · obtain ⟨low, hlow, hcovers⟩ := ih hsized' hrest (by omega) (by omega)
        (fun i hi => hgrown i hi.le) (fun i hi => htargets i (by omega))
        (fun i j hij hj => habove i j hij (by omega)) (fun i hi => hrange i (by omega)) i hlt
      exact ⟨low, hlow, isLeast_coveringCounts_trans hleast hcovers
        (habove i stop hlt (Nat.lt_succ_self stop))⟩
    · exact ⟨_, hlast, hleast⟩

end Refines

/-! ## Reports -/

/-- After the last shared increment the models are refined until they meet their targets. -/
theorem meetsTargets_reportOf (hfaultless : plan.ensemble.Faultless)
    (hqoi : 0 < plan.ensemble.dims.numFunctions)
    (horder : allocation.evalRatios.solution.order.Valid plan.ensemble.dims.numApprox)
    {sums : JointSums ExactReal 4} (hsums : sums.Sized plan.ensemble.dims) {count : ℕ}
    (hcounts : sums.counts = List.replicate plan.ensemble.dims.numFunctions count)
    {bench : Bench σ ExactReal} {final : Refinement σ ExactReal}
    (hrefines : plan.Refines iteration allocation plan.numApprox ⟨bench, .ofJoint sums, 0⟩ events
      final)
    {moments : List (Vector ExactReal 4)}
    (hmoments : (rawMoments sums final.pyramid).outcome = .ok moments)
    {ratio : ℕ → ExactReal} {target : ExactReal}
    (huniform : allocation.evalRatios.solution.Uniform plan.ensemble.dims
      allocation.evalRatios.highTargets ratio target)
    (pilot : Option (Pilot ExactReal)) (warnings : List Warning)
    (hrange : ∀ counts ∈ (plan.reportOf iteration allocation sums pilot warnings final
      moments).lowCounts, ∀ low ∈ counts, low ≤ maxCount) :
    (plan.reportOf iteration allocation sums pilot warnings final moments).MeetsTargets
      plan.ensemble.dims ratio target := by
  have hsized := PyramidSums.sized_ofJoint hsums
  have hcount : 0 < count := by
    apply counts_pos_of_rawMoments hsums (hrefines.sized hsized) hmoments
    rw [hcounts]
    exact List.mem_replicate.mpr ⟨hqoi.ne', rfl⟩
  have hlow := hrefines.exists_low horder hsized hfaultless le_rfl hqoi.ne' hcount
    (fun i hi => (PyramidSums.refinedCounts_ofJoint hsums (horder.model_lt hi)).trans hcounts)
    (fun i hi => huniform.lowTargets_eq (horder.model_lt hi))
    (fun i j hij hj k => huniform.lt_of_lt hij hj)
    (fun i hi low hlow => hrange _ (List.mem_map_of_mem
      (List.mem_range.mpr (horder.model_lt hi))) low hlow)
  intro model hmodel qoi hqoi'
  obtain ⟨i, hi, rfl⟩ := List.mem_map.mp (horder.mem_along.mpr hmodel)
  obtain ⟨low, heq, hleast⟩ := hlow i (List.mem_range.mp hi)
  refine ⟨count, List.replicate plan.ensemble.dims.numFunctions low, low, ?_, ?_, ?_,
    ofCount_eq_of_isLeast hleast⟩
  · show sums.counts[qoi]? = some count
    rw [hcounts, List.getElem?_replicate, if_pos hqoi']
  · show ((List.range plan.ensemble.dims.numApprox).map final.pyramid.refinedCounts)[_]? = some _
    rw [List.getElem?_map, List.getElem?_range hmodel, Option.map_some, heq]
  · rw [List.getElem?_replicate, if_pos hqoi']

/-- Between two rounds of a faultless ensemble all QoI have the same count. -/
theorem Reaches.exists_count {past : List (Event ExactReal)} {progress : Progress σ ExactReal}
    (h : plan.Reaches state past progress) (hfaultless : plan.ensemble.Faultless) :
    ∃ count, progress.sums.counts = List.replicate plan.ensemble.dims.numFunctions count := by
  induction h with
  | pilot h =>
    obtain ⟨-, hcounts⟩ := accumulate_of_faultless hfaultless (JointSums.sized_empty _) h.sums
    rw [JointSums.counts_empty, List.map_replicate] at hcounts
    exact ⟨_, hcounts⟩
  | round hpast _ _ h ih =>
    obtain ⟨count, hcount⟩ := ih
    obtain ⟨-, hcounts⟩ := accumulate_of_faultless hfaultless hpast.settled.sums h.sums
    rw [hcount, List.map_replicate] at hcounts
    exact ⟨_, hcounts⟩

theorem meetsTargets_online (hfaultless : plan.ensemble.Faultless)
    (hqoi : 0 < plan.ensemble.dims.numFunctions) {report : Report ExactReal}
    (h : (plan.online state).outcome = .ok report)
    (hrange : ∀ counts ∈ report.lowCounts, ∀ low ∈ counts, low ≤ maxCount)
    {ratio : ℕ → ExactReal} {target : ExactReal}
    (huniform : report.solution.Uniform plan.ensemble.dims report.highTargets ratio target) :
    report.MeetsTargets plan.ensemble.dims ratio target := by
  obtain ⟨past, last, hreaches, -, final, moments, events, hrefines, hmoments, -, rfl⟩ :=
    exists_reaches_of_online h
  obtain ⟨count, hcounts⟩ := hreaches.exists_count hfaultless
  exact meetsTargets_reportOf hfaultless hqoi hreaches.settled.order hreaches.settled.sums hcounts
    hrefines hmoments huniform _ _ hrange

theorem meetsTargets_offline (hfaultless : plan.ensemble.Faultless)
    (hqoi : 0 < plan.ensemble.dims.numFunctions) {report : Report ExactReal}
    (h : (plan.offline state).outcome = .ok report)
    (hrange : ∀ counts ∈ report.lowCounts, ∀ low ∈ counts, low ≤ maxCount)
    {ratio : ℕ → ExactReal} {target : ExactReal}
    (huniform : report.solution.Uniform plan.ensemble.dims report.highTargets ratio target) :
    report.MeetsTargets plan.ensemble.dims ratio target := by
  obtain ⟨pilot, planned, drawn, hpilot, hplanned, hdrawn, final, moments, events, hrefines,
    hmoments, -, rfl⟩ := exists_refines_of_offline h
  obtain ⟨hsums, -⟩ := sharedIncrement_eq_ok_iff.mp hdrawn
  obtain ⟨hsized, hcounts⟩ := accumulate_of_faultless hfaultless (JointSums.sized_empty _) hsums
  rw [JointSums.counts_empty, List.map_replicate] at hcounts
  have horder := valid_order_of_pilot hpilot hplanned
  change (planned.realize drawn.sums.counts).evalRatios.solution.order.Valid _ at horder
  exact meetsTargets_reportOf hfaultless hqoi horder hsized hcounts hrefines hmoments huniform _ _
    hrange

/-! ## Uniform allocations -/

section Allocate

variable {m : ℕ} {sums : JointSums ExactReal (m + 1)} (hsums : sums.Sized plan.ensemble.dims)
  {correlations : Correlations ExactReal} (hcorrelations : sums.correlations = .ok correlations)
  {spent : ExactReal} {pilotVariance : Option (List ExactReal)}
  {previous : Option (Allocation ExactReal)}
  (h : (plan.allocate correlations sums.counts spent pilotVariance previous).outcome =
    .ok allocation)
include hsums hcorrelations h

/-- Ratios from averaged correlations are uniform under a budget. -/
theorem uniform_of_reordered {cs : List ℝ} (hpriced : plan.Priced cs) {budget : ℝ}
    (htarget : plan.target = .budget (real budget)) (hbudget : 0 < budget)
    (hqoi : 0 < plan.ensemble.dims.numFunctions) {count : ℕ}
    (hcounts : sums.counts = List.replicate plan.ensemble.dims.numFunctions count)
    (hprevious : ∀ allocation, previous = some allocation →
      allocation.evalRatios.solution.order.Valid plan.numApprox)
    (hform : allocation.evalRatios.solution.form = .reordered) :
    ∃ ratio target, allocation.evalRatios.solution.Uniform plan.ensemble.dims
      allocation.evalRatios.highTargets ratio target :=
  (funded_ratioInputs hpriced htarget hbudget hqoi hsums hcounts hcorrelations spent pilotVariance
    previous hprevious).uniform_of_reordered (allocate_eq_ok_iff.mp h).1 hform

/-- Allocations for a single QoI are uniform. -/
theorem WellPosed.uniform_of_single (hplan : plan.WellPosed) (hordered : plan.optimizer.Ordered)
    (htolerance : ∀ tolerance, plan.target = .tolerance tolerance → ¬ tolerance < 0)
    (hone : plan.ensemble.dims.numFunctions = 1) {responses : List (Response ExactReal)}
    (hresponses : sums = responses.foldl JointSums.addResponse (.empty plan.ensemble.dims))
    (hpilot : ∀ variance, pilotVariance = some variance →
      variance.length = plan.ensemble.dims.numFunctions ∧ ∀ var ∈ variance, ¬ var < 0)
    (hprevious : ∀ allocation, previous = some allocation →
      allocation.evalRatios.solution.order.Valid plan.ensemble.dims.numApprox) :
    ∃ ratio target, allocation.evalRatios.solution.Uniform plan.ensemble.dims
      allocation.evalRatios.highTargets ratio target := by
  have hestimated := hresponses ▸ hcorrelations
  obtain ⟨vars, hlength, hnonneg, hvarHigh⟩ := JointSums.exists_varHigh hestimated
  refine (hplan.wellPosed_ratioInputs hsums hcorrelations spent pilotVariance previous
    hprevious).uniform_of_single hordered (allocate_eq_ok_iff.mp h).1
    (JointSums.not_one_lt_of_mem_rhoSq hestimated) ⟨?_, ?_⟩
    (fun variance hvariance => (hpilot variance hvariance).2) htolerance hone
    fun variance hvariance => (hpilot variance hvariance).1
  · rw [ratioInputs, hvarHigh, List.length_map, hlength]
  · rw [ratioInputs, hvarHigh]
    intro var hvar
    obtain ⟨x, hx, rfl⟩ := List.mem_map.mp hvar
    exact not_lt_of_le (real_le_real.mpr (hnonneg x hx))

end Allocate

/-- What the allocation between two rounds is based on. Only a round before has led to a previous
one. -/
theorem Reaches.exists_allocate {past : List (Event ExactReal)} {progress : Progress σ ExactReal}
    (h : plan.Reaches state past progress) :
    progress.sums.correlations = .ok progress.allocation.correlations ∧
      ∃ previous, (plan.allocate progress.allocation.correlations progress.sums.counts
        progress.bench.spent (some progress.pilot.variance) previous).outcome =
          .ok progress.allocation ∧
        ∀ allocation, previous = some allocation → ∃ past' before,
          plan.Reaches state past' before ∧ before.allocation = allocation := by
  cases h with
  | pilot h => exact ⟨h.correlations, none, h.allocation, nofun⟩
  | round hpast _ _ h =>
    refine ⟨h.correlations, _, h.allocation, fun allocation hallocation => ?_⟩
    cases hallocation
    exact ⟨_, _, hpast, rfl⟩

/-- The variances of the pilot are not negative. -/
theorem Reaches.not_pilot_lt_zero {past : List (Event ExactReal)} {progress : Progress σ ExactReal}
    (h : plan.Reaches state past progress) : ∀ var ∈ progress.pilot.variance, ¬ var < 0 := by
  -- the sums are always those of the responses so far
  have hresponses := h.documents.1.sums
  induction h with
  | pilot h =>
    obtain ⟨vars, -, hnonneg, hvarHigh⟩ := JointSums.exists_varHigh (hresponses ▸ h.correlations)
    rw [h.pilot]
    show ∀ var ∈ monteCarloVariance _ _, ¬ var < 0
    rw [hvarHigh, monteCarloVariance_real (counts_pos_of_correlations h.correlations)]
    intro var hvar
    obtain ⟨x, hx, rfl⟩ := List.mem_map.mp hvar
    obtain ⟨j, hj, rfl⟩ := List.mem_iff_getElem.mp hx
    rw [List.getElem_zipWith]
    exact not_lt_of_le (real_le_real.mpr
      (div_nonneg (hnonneg _ (List.getElem_mem _)) (Nat.cast_nonneg _)))
  | round hpast _ _ h ih =>
    rw [h.pilot]
    exact ih hpast.documents.1.sums

/-! ## Uniform reports -/

section Reordered

variable (hfaultless : plan.ensemble.Faultless) {cs : List ℝ} (hpriced : plan.Priced cs)
  {budget : ℝ} (htarget : plan.target = .budget (real budget)) (hbudget : 0 < budget)
  (hqoi : 0 < plan.ensemble.dims.numFunctions) {report : Report ExactReal}
  (hform : report.solution.form = .reordered)
include hfaultless hpriced htarget hbudget hqoi hform

theorem uniform_online_of_reordered (h : (plan.online state).outcome = .ok report) :
    ∃ ratio target,
      report.solution.Uniform plan.ensemble.dims report.highTargets ratio target := by
  obtain ⟨past, last, hreaches, -, final, moments, events, -, -, -, rfl⟩ :=
    exists_reaches_of_online h
  obtain ⟨count, hcounts⟩ := hreaches.exists_count hfaultless
  obtain ⟨hcorrelations, previous, hallocate, hprevious⟩ := hreaches.exists_allocate
  refine uniform_of_reordered hreaches.settled.sums hcorrelations hallocate hpriced htarget
    hbudget hqoi hcounts (fun allocation hallocation => ?_) hform
  obtain ⟨past', before, hbefore, rfl⟩ := hprevious allocation hallocation
  exact hbefore.settled.order

theorem uniform_offline_of_reordered (h : (plan.offline state).outcome = .ok report) :
    ∃ ratio target,
      report.solution.Uniform plan.ensemble.dims report.highTargets ratio target := by
  obtain ⟨pilot, planned, drawn, hpilot, hplanned, -, final, moments, events, -, -, -, rfl⟩ :=
    exists_refines_of_offline h
  obtain ⟨sums, hsums, hcorrelations, hcounts, -⟩ := pilot_eq_ok_iff.mp hpilot
  obtain ⟨hsized, hequal⟩ := accumulate_of_faultless hfaultless (JointSums.sized_empty _) hsums
  rw [JointSums.counts_empty, List.map_replicate] at hequal
  rw [hcounts] at hplanned
  -- the report has the ratios and the targets of the plan
  have huniform : ∃ ratio target, planned.evalRatios.solution.Uniform plan.ensemble.dims
      planned.evalRatios.highTargets ratio target :=
    uniform_of_reordered hsized hcorrelations hplanned hpriced htarget hbudget hqoi hequal nofun
      hform
  exact huniform

end Reordered

section Single

variable (hplan : plan.WellPosed) (hordered : plan.optimizer.Ordered)
  (htolerance : ∀ tolerance, plan.target = .tolerance tolerance → ¬ tolerance < 0)
  (hone : plan.ensemble.dims.numFunctions = 1) {report : Report ExactReal}
include hplan hordered htolerance hone

theorem uniform_online_of_single (h : (plan.online state).outcome = .ok report) :
    ∃ ratio target,
      report.solution.Uniform plan.ensemble.dims report.highTargets ratio target := by
  obtain ⟨past, last, hreaches, -, final, moments, events, -, -, -, rfl⟩ :=
    exists_reaches_of_online h
  obtain ⟨hcorrelations, previous, hallocate, hprevious⟩ := hreaches.exists_allocate
  refine hplan.uniform_of_single hreaches.settled.sums hcorrelations hallocate hordered htolerance
    hone hreaches.documents.1.sums ?_ fun allocation hallocation => ?_
  · rintro variance ⟨⟩
    exact ⟨hreaches.settled.pilot, hreaches.not_pilot_lt_zero⟩
  · obtain ⟨past', before, hbefore, rfl⟩ := hprevious allocation hallocation
    exact hbefore.settled.order

theorem uniform_offline_of_single (h : (plan.offline state).outcome = .ok report) :
    ∃ ratio target,
      report.solution.Uniform plan.ensemble.dims report.highTargets ratio target := by
  obtain ⟨pilot, planned, drawn, hpilot, hplanned, -, final, moments, events, -, -, -, rfl⟩ :=
    exists_refines_of_offline h
  obtain ⟨sums, hsums, hcorrelations, hcounts, -⟩ := pilot_eq_ok_iff.mp hpilot
  obtain ⟨-, hresponses⟩ := JointSums.accumulate_eq_ok_iff.mp hsums
  rw [hcounts] at hplanned
  have huniform : ∃ ratio target, planned.evalRatios.solution.Uniform plan.ensemble.dims
      planned.evalRatios.highTargets ratio target :=
    hplan.uniform_of_single ((JointSums.sized_empty _).accumulate hsums) hcorrelations hplanned
      hordered htolerance hone hresponses nofun nofun
  exact huniform

end Single

end Plan

/-- The low-fidelity samples of an online or offline run of a faultless ensemble meet their targets
if the ratios and targets are uniform. This is so for ratios from averaged correlations under a
budget, and for a single QoI if the optimizer keeps to the constraints of its problems. An increment
is never larger than the largest count, so that the reported counts have to be in range. -/
theorem lowCounts_meet_targets {σ : Type} {optimizer : Optimizer ExactReal}
    {ensemble : Ensemble σ ExactReal} (hfaultless : ensemble.Faultless)
    {settings : Settings ExactReal} (hmode : settings.pilotMode ≠ .projection) {state : σ}
    {report : Report ExactReal}
    (hreport : (sampleWith optimizer ensemble settings state).outcome = .ok report)
    (hrange : ∀ counts ∈ report.lowCounts, ∀ low ∈ counts, low ≤ maxCount) :
    (∀ ratio target, report.solution.Uniform ensemble.dims report.highTargets ratio target →
        report.MeetsTargets ensemble.dims ratio target) ∧
      (settings.budget.isSome → report.solution.form = .reordered →
        ∃ ratio target, report.solution.Uniform ensemble.dims report.highTargets ratio target) ∧
      (ensemble.dims.numFunctions = 1 → optimizer.Ordered →
        ∃ ratio target,
          report.solution.Uniform ensemble.dims report.highTargets ratio target) := by
  rcases Plan.sampleWith_eq optimizer ensemble settings state with ⟨plan, hchecked, hrun⟩ |
    ⟨failure, hrun⟩
  · rw [hrun, Plan.execute, hchecked.settings_eq] at hreport
    have hqoi := hchecked.numFunctions_pos
    obtain ⟨cs, hpriced, -⟩ := hchecked.exists_priced
    rw [← hchecked.ensemble_eq] at hfaultless hqoi ⊢
    have htolerance : ∀ tolerance, plan.target = .tolerance tolerance → ¬ tolerance < 0 := by
      intro tolerance heq
      obtain ⟨t, ht, rfl⟩ := isPositiveFinite_iff.mp
        (Settings.isPositiveFinite_of_tolerance (hchecked.target_eq.trans (congrArg _ heq)))
      exact not_lt_of_le (real_le_real.mpr ht.le)
    have hfunded : settings.budget.isSome → ∃ budget : ℝ, 0 < budget ∧
        plan.target = .budget (real budget) := by
      intro hsome
      obtain ⟨budget, hbudget⟩ := Option.isSome_iff_exists.mp hsome
      obtain ⟨htarget, hpositive, -⟩ := Settings.target_of_budget hbudget hchecked.target_eq
      obtain ⟨b, hb, rfl⟩ := isPositiveFinite_iff.mp hpositive
      exact ⟨b, hb, htarget⟩
    cases hpilot : settings.pilotMode with
    | online =>
      rw [hpilot] at hreport
      refine ⟨fun ratio target => ?meets, fun hsome hform => ?reordered,
        fun hone hordered => ?single⟩
      case meets => exact Plan.meetsTargets_online hfaultless hqoi hreport hrange
      case reordered =>
        obtain ⟨b, hb, htarget⟩ := hfunded hsome
        exact Plan.uniform_online_of_reordered hfaultless hpriced htarget hb hqoi hform hreport
      case single =>
        rw [← hchecked.optimizer_eq] at hordered
        exact Plan.uniform_online_of_single hchecked.wellPosed hordered htolerance hone hreport
    | offline =>
      rw [hpilot] at hreport
      refine ⟨fun ratio target => ?meets, fun hsome hform => ?reordered,
        fun hone hordered => ?single⟩
      case meets => exact Plan.meetsTargets_offline hfaultless hqoi hreport hrange
      case reordered =>
        obtain ⟨b, hb, htarget⟩ := hfunded hsome
        exact Plan.uniform_offline_of_reordered hfaultless hpriced htarget hb hqoi hform hreport
      case single =>
        rw [← hchecked.optimizer_eq] at hordered
        exact Plan.uniform_offline_of_single hchecked.wellPosed hordered htolerance hone hreport
    | projection => exact absurd hpilot hmode
  · rw [hrun] at hreport
    cases hreport

/-- The targets of a run with two rounds are sixteen and thirty-two low-fidelity samples. -/
theorem lowCounts_meet_targets_of_quartet :
    ∃ report, (sampleWith unitOptimizer quartetEnsemble (quartetSettings .online) ()).outcome =
        .ok report ∧ report.sharedCounts = [8] ∧ report.lowCounts = [[32], [16]] ∧
      ∃ ratio target,
        report.solution.Uniform quartetEnsemble.dims report.highTargets ratio target ∧
          report.MeetsTargets quartetEnsemble.dims ratio target := by
  obtain ⟨report, hreport, -, -, -, hshared, hlow, -⟩ := exists_online_quartet unitOptimizer
  have hmode : (quartetSettings .online).pilotMode ≠ .projection := by decide
  have hrange : ∀ counts ∈ report.lowCounts, ∀ low ∈ counts, low ≤ maxCount := by
    rw [hlow]
    decide
  obtain ⟨hmeets, -, hsingle⟩ :=
    lowCounts_meet_targets complete_quartetEnsemble.toFaultless hmode hreport hrange
  obtain ⟨ratio, target, huniform⟩ := hsingle rfl ordered_unitOptimizer
  exact ⟨report, hreport, hshared, hlow, ratio, target, huniform, hmeets ratio target huniform⟩

end Multifidelity
