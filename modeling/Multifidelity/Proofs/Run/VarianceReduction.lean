import Multifidelity.Proofs.Estimate.Reduction
import Multifidelity.Proofs.Run.Pyramid
import Multifidelity.Proofs.Run.Rounds

/-!
# The variance reduction of a run

No run reports a multifidelity estimator that is worse than the Monte Carlo estimator. Wherever it
has high-fidelity samples of all QoI, each of them is left with a positive fraction of its variance,
and with one that is at most one: after every round, and in the report.

## Main definitions

* `Allocation.IsMeasured`: allocations that rest on the responses of an ensemble
* `Checkpoint.Reduces`: checkpoints about fractions of the variance
* `Progress.Reduces`: what holds between two rounds

## Main results

* `Plan.Proper.isMeasured_allocate`: an allocation after a shared increment
* `Plan.Steps.reduces`, `Plan.Reaches.reduces`: one round, and all of them
* `variance_reduced`: runs in all pilot modes
-/

namespace Multifidelity

open ExactReal

/-- An allocation with usable ratios and with variances that are not negative. -/
structure Allocation.IsMeasured (dims : Dimensions) (allocation : Allocation ExactReal) :
    Prop where
  usable : allocation.evalRatios.IsUsable dims
  varHigh : ∃ vars : List ℝ, vars.length = dims.numFunctions ∧ (∀ var ∈ vars, 0 ≤ var) ∧
    allocation.correlations.varHigh = vars.map real

/-- A checkpoint that has samples of all QoI is about fractions of the variance. -/
def Checkpoint.Reduces (dims : Dimensions) (checkpoint : Checkpoint ExactReal) : Prop :=
  (∀ count ∈ checkpoint.highCounts, 0 < count) →
    checkpoint.varianceRatios.length = dims.numFunctions ∧
      ∀ ratio ∈ checkpoint.varianceRatios, 0 < ratio ∧ ratio ≤ 1

/-- A report about an allocation and positive numbers of samples shows a reduction. -/
theorem Allocation.IsMeasured.reduces {dims : Dimensions} {allocation : Allocation ExactReal}
    (h : allocation.IsMeasured dims) (hpos : 0 < dims.numFunctions) {report : Report ExactReal}
    (hvarHigh : report.varHigh = allocation.correlations.varHigh)
    (hlength : report.highCounts.length = dims.numFunctions)
    (hcounts : ∀ count ∈ report.highCounts, 0 < count)
    (hfractions : AreFractions dims.numFunctions report.varianceRatios) :
    report.Reduces dims := by
  obtain ⟨vars, hvars, hnonneg, hvar⟩ := h.varHigh
  exact Report.reduces_of_fractions hpos hvars hnonneg (hvarHigh.trans hvar) hlength hcounts
    hfractions

/-- Moments are only estimated if every QoI has a sample. -/
theorem counts_pos_of_rawMoments {α : Type} [Scalar α] {dims : Dimensions} {sums : JointSums α 4}
    (hsums : sums.Sized dims) {pyramid : PyramidSums α} (hpyramid : pyramid.Sized dims)
    {moments : List (Vector α 4)} (h : (rawMoments sums pyramid).outcome = .ok moments) :
    ∀ count ∈ sums.counts, 0 < count := by
  obtain ⟨hcounts, -⟩ := rawMoments_eq_ok h
  intro count hcount
  obtain ⟨qoiSums, hmem, rfl⟩ := List.mem_map.mp hcount
  obtain ⟨qoi, hqoi, rfl⟩ := List.mem_iff_getElem.mp hmem
  -- the pyramid has tallies for every QoI
  have hqoi' : qoi < (sums.qois.zip pyramid.qois).length := by
    rw [List.length_zip, hpyramid.length_qois, ← hsums.length_qois]
    omega
  have hentry := hcounts _ (List.getElem_mem hqoi')
  rw [List.getElem_zip] at hentry
  exact Nat.pos_of_ne_zero hentry

/-- The state between two rounds: the allocation is about fractions of the variance, and so are all
checkpoints. -/
structure Progress.Reduces {σ : Type} (dims : Dimensions) (progress : Progress σ ExactReal) :
    Prop where
  allocation : progress.allocation.IsMeasured dims
  fractions : AreFractions dims.numFunctions progress.allocation.varianceRatios
  checkpoints : ∀ checkpoint ∈ progress.checkpoints, checkpoint.Reduces dims

namespace Plan

variable {σ : Type} {plan : Plan σ ExactReal} {state : σ}

/-! ## Allocations -/

section Allocate

variable (hplan : plan.Proper) {m : ℕ} {sums : JointSums ExactReal (m + 1)}
  (hsums : sums.Sized plan.ensemble.dims) {responses : List (Response ExactReal)}
  (hresponses : sums = responses.foldl JointSums.addResponse (.empty plan.ensemble.dims))
  {correlations : Correlations ExactReal} (hcorrelations : sums.correlations = .ok correlations)
  {spent : ExactReal} {pilotVariance : Option (List ExactReal)}
  {previous : Option (Allocation ExactReal)}
  (hprevious : ∀ allocation, previous = some allocation →
    allocation.evalRatios.solution.IsPyramid plan.ensemble.dims)
  {allocation : Allocation ExactReal}
  (h : (plan.allocate correlations sums.counts spent pilotVariance previous).outcome =
    .ok allocation)

include hcorrelations in
theorem counts_pos_of_correlations : ∀ count ∈ sums.counts, 0 < count := fun count hcount =>
  zero_lt_two.trans_le (JointSums.two_le_of_correlations hcorrelations count hcount)

include hplan hsums hcorrelations hprevious h

include hresponses in
/-- An allocation after a shared increment rests on the responses so far. -/
theorem Proper.isMeasured_allocate : allocation.IsMeasured plan.ensemble.dims where
  usable := (hplan.sound_ratioInputs hsums hcorrelations spent pilotVariance previous
    hprevious).isUsable hplan.ordered (allocate_eq_ok_iff.mp h).1
  varHigh := by
    rw [(allocate_eq_ok_iff.mp h).2.1]
    exact JointSums.exists_varHigh (hresponses ▸ hcorrelations)

/-- Every QoI is left with a fraction of its variance. -/
theorem Proper.areFractions_allocate :
    AreFractions plan.ensemble.dims.numFunctions allocation.varianceRatios := by
  obtain ⟨heval, -, hratios⟩ := allocate_eq_ok_iff.mp h
  have husable := (hplan.sound_ratioInputs hsums hcorrelations spent pilotVariance previous
    hprevious).isUsable hplan.ordered heval
  rw [hratios]
  exact husable.areFractions (counts_pos_of_correlations hcorrelations)

end Allocate

/-! ## Rounds -/

/-- A round adds a checkpoint about fractions of the variance. -/
theorem Steps.reduces {before : Option (Progress σ ExactReal)} {iteration samples : ℕ}
    {bench : Bench σ ExactReal} {sums : JointSums ExactReal 4} {next : Progress σ ExactReal}
    (h : plan.Steps before iteration samples bench sums next) (hplan : plan.Proper)
    (hsums : next.sums.Sized plan.ensemble.dims) {responses : List (Response ExactReal)}
    (hresponses : next.sums = responses.foldl JointSums.addResponse (.empty plan.ensemble.dims))
    (hbefore : ∀ progress, before = some progress → progress.Reduces plan.ensemble.dims) :
    next.Reduces plan.ensemble.dims := by
  have hprevious : ∀ allocation, before.map Progress.allocation = some allocation →
      allocation.evalRatios.solution.IsPyramid plan.ensemble.dims := by
    intro allocation hallocation
    obtain ⟨progress, hprogress, rfl⟩ := Option.map_eq_some_iff.mp hallocation
    exact (hbefore progress hprogress).allocation.usable.isPyramid
  have hfractions :=
    hplan.areFractions_allocate hsums h.correlations hprevious h.allocation
  refine ⟨hplan.isMeasured_allocate hsums hresponses h.correlations hprevious h.allocation,
    hfractions, fun checkpoint hmem => ?_⟩
  rw [h.checkpoints] at hmem
  rcases List.mem_append.mp hmem with hmem | hmem
  · cases before with
    | none => exact absurd hmem List.not_mem_nil
    | some progress => exact (hbefore progress rfl).checkpoints checkpoint hmem
  · rw [List.mem_singleton.mp hmem]
    exact fun _ => hfractions.bounds

/-- Rounds add checkpoints about fractions of the variance. -/
theorem Reaches.reduces {past : List (Event ExactReal)} {progress : Progress σ ExactReal}
    (h : plan.Reaches state past progress) (hplan : plan.Proper) :
    progress.Reduces plan.ensemble.dims := by
  -- the sums are always those of the responses so far
  have hresponses := h.documents.1.sums
  have hsums := h.settled.sums
  induction h with
  | pilot h => exact h.reduces hplan hsums hresponses nofun
  | round hpast _ _ h ih =>
    refine h.reduces hplan hsums hresponses fun progress hprogress => ?_
    cases hprogress
    exact ih hpast.documents.1.sums hpast.settled.sums

/-! ## Runs -/

theorem reduces_online (hplan : plan.Proper) {report : Report ExactReal}
    (h : (plan.online state).outcome = .ok report) :
    (∀ checkpoints ∈ notifications (plan.online state).journal,
      ∀ checkpoint ∈ checkpoints, checkpoint.Reduces plan.ensemble.dims) ∧
      report.Reduces plan.ensemble.dims := by
  obtain ⟨past, last, hreaches, -, final, moments, events, hrefines, hmoments, htranscript, rfl⟩ :=
    exists_reaches_of_online h
  have hreduces := hreaches.reduces hplan
  have hsums := hreaches.settled.sums
  constructor
  · intro checkpoints hcheckpoints checkpoint hmem
    rw [← notifications_transcript, htranscript, notifications_append,
      hrefines.notifications_eq_nil, List.append_nil, hreaches.documents.1.notifications]
      at hcheckpoints
    obtain ⟨i, -, rfl⟩ := List.mem_map.mp hcheckpoints
    exact hreduces.checkpoints checkpoint (List.mem_of_mem_take hmem)
  · have hlength : last.sums.counts.length = plan.ensemble.dims.numFunctions := by
      rw [JointSums.counts, List.length_map, hsums.length_qois]
    exact hreduces.allocation.reduces hplan.numFunctions_pos rfl hlength
      (counts_pos_of_rawMoments hsums (hrefines.sized (PyramidSums.sized_ofJoint hsums)) hmoments)
      hreduces.fractions

/-- The plan that a pilot leads to rests on its responses. -/
theorem isMeasured_of_pilot (hplan : plan.Proper) {charged : Bool}
    {pilot : PilotSamples σ ExactReal} (hpilot : (plan.pilot charged state).outcome = .ok pilot)
    {pilotVariance : Option (List ExactReal)} {planned : Allocation ExactReal}
    (hplanned : (plan.allocate pilot.correlations pilot.counts pilot.bench.spent pilotVariance
      none).outcome = .ok planned) :
    planned.IsMeasured plan.ensemble.dims ∧
      AreFractions plan.ensemble.dims.numFunctions planned.varianceRatios ∧
      pilot.counts.length = plan.ensemble.dims.numFunctions ∧
      ∀ count ∈ pilot.counts, 0 < count := by
  obtain ⟨sums, hsums, hcorrelations, hcounts, -⟩ := pilot_eq_ok_iff.mp hpilot
  rw [hcounts] at hplanned ⊢
  obtain ⟨-, hresponses⟩ := JointSums.accumulate_eq_ok_iff.mp hsums
  have hsized := (JointSums.sized_empty plan.ensemble.dims).accumulate hsums
  have hprevious : ∀ allocation : Allocation ExactReal, none = some allocation →
      allocation.evalRatios.solution.IsPyramid plan.ensemble.dims := nofun
  refine ⟨hplan.isMeasured_allocate hsized hresponses hcorrelations hprevious hplanned,
    hplan.areFractions_allocate hsized hcorrelations hprevious hplanned, ?_,
    counts_pos_of_correlations hcorrelations⟩
  rw [JointSums.counts, List.length_map, hsized.length_qois]

theorem reduces_offline (hplan : plan.Proper) {report : Report ExactReal}
    (h : (plan.offline state).outcome = .ok report) :
    (∀ checkpoints ∈ notifications (plan.offline state).journal,
      ∀ checkpoint ∈ checkpoints, checkpoint.Reduces plan.ensemble.dims) ∧
      report.Reduces plan.ensemble.dims := by
  obtain ⟨pilot, planned, drawn, hpilot, hplanned, hdrawn, final, moments, events, hrefines,
    hmoments, htranscript, rfl⟩ := exists_refines_of_offline h
  obtain ⟨hmeasured, hfractions, -⟩ := isMeasured_of_pilot hplan hpilot hplanned
  obtain ⟨hsums, -⟩ := sharedIncrement_eq_ok_iff.mp hdrawn
  have hsized := (JointSums.sized_empty plan.ensemble.dims).accumulate hsums
  constructor
  · intro checkpoints hcheckpoints checkpoint hmem
    rw [← notifications_transcript, htranscript, notifications_append,
      hrefines.notifications_eq_nil, List.append_nil] at hcheckpoints
    have hfirst : (planned.checkpoint 0 plan.settings.pilotSamples pilot.counts pilot.bench.spent
        0).Reduces plan.ensemble.dims := fun _ => hfractions.bounds
    have hsecond : ((planned.realize drawn.sums.counts).checkpoint 1 (plan.offlineSamples planned)
        drawn.sums.counts drawn.bench.spent 0).Reduces plan.ensemble.dims := fun hpos =>
      (hmeasured.usable.areFractions hpos).bounds
    rcases List.mem_pair.mp hcheckpoints with rfl | rfl
    · rw [List.mem_singleton.mp hmem]
      exact hfirst
    · rcases List.mem_pair.mp hmem with rfl | rfl
      · exact hfirst
      · exact hsecond
  · have hpos := counts_pos_of_rawMoments hsized
      (hrefines.sized (PyramidSums.sized_ofJoint hsized)) hmoments
    have hlength : drawn.sums.counts.length = plan.ensemble.dims.numFunctions := by
      rw [JointSums.counts, List.length_map, hsized.length_qois]
    exact hmeasured.reduces hplan.numFunctions_pos rfl hlength hpos
      (hmeasured.usable.areFractions hpos)

theorem reduces_projection (hplan : plan.Proper) {report : Report ExactReal}
    (h : (plan.projection state).outcome = .ok report) :
    (∀ checkpoints ∈ notifications (plan.projection state).journal,
      ∀ checkpoint ∈ checkpoints, checkpoint.Reduces plan.ensemble.dims) ∧
      report.Reduces plan.ensemble.dims := by
  -- no projected number of samples is below the one of the pilot
  have hprojected : ∀ {counts : List ℕ}, (∀ count ∈ counts, 0 < count) →
      ∀ targets : List ExactReal, ∀ count ∈ projected counts targets, 0 < count := by
    intro counts hcounts targets count hcount
    obtain ⟨drawn, hdrawn, rfl⟩ := List.mem_map.mp hcount
    exact (hcounts drawn hdrawn).trans_le (Nat.le_add_right _ _)
  constructor
  · obtain ⟨pilot, planned, hpilot, hplanned, -, htranscript⟩ := transcript_projection h
    obtain ⟨hmeasured, -, -, hpos⟩ := isMeasured_of_pilot hplan hpilot hplanned
    intro checkpoints hcheckpoints checkpoint hmem
    rw [← notifications_transcript, htranscript] at hcheckpoints
    rw [List.mem_singleton.mp hcheckpoints] at hmem
    rw [List.mem_singleton.mp hmem]
    exact fun _ => (hmeasured.usable.areFractions (hprojected hpos _)).bounds
  · obtain ⟨pilot, planned, hpilot, hplanned, rfl⟩ := projection_eq_ok_iff.mp h
    obtain ⟨hmeasured, -, hlength, hpos⟩ := isMeasured_of_pilot hplan hpilot hplanned
    have hhigh := hprojected hpos planned.evalRatios.highTargets
    apply hmeasured.reduces hplan.numFunctions_pos rfl _ hhigh
    · exact hmeasured.usable.areFractions hhigh
    · exact (List.length_map _).trans hlength

theorem reduces_execute (hplan : plan.Proper) {report : Report ExactReal}
    (h : (plan.execute state).outcome = .ok report) :
    (∀ checkpoints ∈ notifications (plan.execute state).journal,
      ∀ checkpoint ∈ checkpoints, checkpoint.Reduces plan.ensemble.dims) ∧
      report.Reduces plan.ensemble.dims := by
  unfold execute at h ⊢
  cases hmode : plan.settings.pilotMode with
  | online =>
    rw [hmode] at h
    exact reduces_online hplan h
  | offline =>
    rw [hmode] at h
    exact reduces_offline hplan h
  | projection =>
    rw [hmode] at h
    exact reduces_projection hplan h

end Plan

/-- A run that ends with a report never makes the variance larger, in no pilot mode, provided that
squared correlations are cut off at a floor that is not negative and at a positive distance from
one, and that the optimizer keeps to the constraints of its problems. Every checkpoint with samples
of all QoI is about fractions of the variance, and so is the report, whose summary shows a
reduction. -/
theorem variance_reduced {σ : Type} {optimizer : Optimizer ExactReal}
    (hordered : optimizer.Ordered) {ensemble : Ensemble σ ExactReal}
    {settings : Settings ExactReal} (hfloor : 0 ≤ settings.tolerances.floor)
    (hpositive : 0 < settings.tolerances.ceiling) (hceiling : settings.tolerances.ceiling ≤ 1)
    {state : σ} {report : Report ExactReal}
    (hreport : (sampleWith optimizer ensemble settings state).outcome = .ok report) :
    (∀ checkpoints,
      .notified checkpoints ∈ (sampleWith optimizer ensemble settings state).journal →
        ∀ checkpoint ∈ checkpoints, checkpoint.Reduces ensemble.dims) ∧
      report.Reduces ensemble.dims := by
  rcases Plan.sampleWith_eq optimizer ensemble settings state with ⟨plan, hchecked, hrun⟩ |
    ⟨failure, hrun⟩
  · rw [hrun] at hreport ⊢
    rw [← hchecked.ensemble_eq]
    have hplan := hchecked.proper ⟨hfloor, hpositive, hceiling⟩ hordered
    obtain ⟨htold, hreduces⟩ := Plan.reduces_execute hplan hreport
    refine ⟨fun checkpoints hmem => htold checkpoints ?_, hreduces⟩
    exact List.mem_filterMap.mpr ⟨_, hmem, rfl⟩
  · rw [hrun] at hreport
    cases hreport

/-- A run with the usual thresholds that evaluates the low-fidelity models four times and twice as
often as the high-fidelity one shows a reduction. -/
theorem variance_reduced_of_quartet :
    let run := sampleWith unitOptimizer quartetEnsemble (quartetSettings .online) ()
    ∃ report, run.outcome = .ok report ∧ report.iterations = 2 ∧
      report.solution = .analytic (.ofRows 2 [[real 4, real 2]]) ∧
      (∀ checkpoints, .notified checkpoints ∈ run.journal →
        ∀ checkpoint ∈ checkpoints, checkpoint.Reduces quartetEnsemble.dims) ∧
      report.Reduces quartetEnsemble.dims := by
  intro run
  obtain ⟨report, hreport, hiterations, hsolution, -⟩ := exists_online_quartet unitOptimizer
  have hproper : (quartetSettings .online).tolerances.Proper := Tolerances.proper_default
  exact ⟨report, hreport, hiterations, hsolution, variance_reduced ordered_unitOptimizer
    hproper.floor hproper.ceiling_pos hproper.ceiling_le hreport⟩

end Multifidelity
