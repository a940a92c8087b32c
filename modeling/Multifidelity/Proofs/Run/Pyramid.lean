import Multifidelity.Proofs.Allocation.Compass
import Multifidelity.Proofs.Allocation.Pyramid
import Multifidelity.Proofs.Run.Completion
import Multifidelity.Proofs.Run.OnlineBudget

/-!
# The solutions of a run

Every solution that a run hands to its listener, or reports, is a pyramid. A search starts from the
order and the ratios of the solution before, so that a step needs an order that lists every model
once, and it leaves one.

## Main definitions

* `Plan.WellPosed`, `Plan.Proper`: plans whose allocations are nested, and pyramids
* `Event.HasPyramids`: what holds at a notification
* `Progress.Pyramidal`: what holds between two shared increments

## Main results

* `Plan.Steps.pyramidal`, `Plan.only_hasPyramids_iterate`: one step, and all of them
* `solutions_isPyramid`: the solutions of a run with the usual compass search
-/

namespace Multifidelity

open ExactReal

/-! ## Plans -/

/-- The target of settings is a budget only if that is positive and finite. -/
theorem Settings.isPositiveFinite_of_target {α : Type} [Scalar α] {settings : Settings α}
    {budget : α} (h : settings.target = .ok (.budget budget)) :
    Scalar.isPositiveFinite budget = true := by
  cases hbudget : settings.budget with
  | some other =>
    obtain ⟨heq, hpositive, -⟩ := Settings.target_of_budget hbudget h
    cases heq
    exact hpositive
  | none =>
    -- without a budget the target is a tolerance, if anything
    unfold Settings.target at h
    rw [hbudget] at h
    cases htolerance : settings.tolerance with
    | none =>
      rw [htolerance] at h
      dsimp only at h
      split at h <;> cases h
    | some tolerance =>
      rw [htolerance] at h
      dsimp only at h
      repeat' split at h
      all_goals cases h

/-- The target of settings is a tolerance only if that is positive and finite. -/
theorem Settings.isPositiveFinite_of_tolerance {α : Type} [Scalar α] {settings : Settings α}
    {tolerance : α} (h : settings.target = .ok (.tolerance tolerance)) :
    Scalar.isPositiveFinite tolerance = true := by
  cases hbudget : settings.budget with
  | some budget =>
    obtain ⟨heq, -, -⟩ := Settings.target_of_budget hbudget h
    cases heq
  | none =>
    unfold Settings.target at h
    rw [hbudget] at h
    cases htolerance : settings.tolerance with
    | none =>
      rw [htolerance] at h
      dsimp only at h
      split at h <;> cases h
    | some other =>
      rw [htolerance] at h
      dsimp only at h
      split at h
      · cases h
      · split at h
        · split at h
          · cases h
          · cases h
            assumption
        · cases h

/-- A plan with usable costs. A budget is positive and finite. -/
structure Plan.WellPosed {σ : Type} (plan : Plan σ ExactReal) : Prop where
  costs : plan.costs.Usable plan.numApprox
  target : ∀ budget, plan.target = .budget budget → Scalar.isPositiveFinite budget = true
  numFunctions_pos : 0 < plan.ensemble.dims.numFunctions

/-- A well-posed plan with proper thresholds, and with an optimizer that keeps to the constraints of
its problems. -/
structure Plan.Proper {σ : Type} (plan : Plan σ ExactReal) : Prop extends plan.WellPosed where
  tolerances : plan.settings.tolerances.Proper
  ordered : plan.optimizer.Ordered

section Checked

variable {σ : Type} {ensemble : Ensemble σ ExactReal} {settings : Settings ExactReal}
  {optimizer : Optimizer ExactReal} {plan : Plan σ ExactReal}
  (h : Plan.Checked ensemble settings optimizer plan)
include h

theorem Plan.Checked.wellPosed : plan.WellPosed where
  costs := by
    rw [Plan.numApprox, h.ensemble_eq]
    exact (Costs.check_eq_ok_iff.mp h.costs_eq).2
  target budget hbudget := by
    have htarget := h.target_eq
    rw [hbudget] at htarget
    exact Settings.isPositiveFinite_of_target htarget
  numFunctions_pos := by
    rw [h.ensemble_eq]
    exact h.numFunctions_pos

theorem Plan.Checked.proper (htolerances : settings.tolerances.Proper)
    (hordered : optimizer.Ordered) : plan.Proper where
  toWellPosed := h.wellPosed
  tolerances := by rwa [h.settings_eq]
  ordered := by rwa [h.optimizer_eq]

end Checked

/-! ## Notifications -/

/-- At a notification all solutions are pyramids. -/
def Event.HasPyramids (dims : Dimensions) : Event ExactReal → Prop
  | .notified checkpoints => ∀ checkpoint ∈ checkpoints, checkpoint.solution.IsPyramid dims
  | .increment .. | .consulted .. | .logged _ => True

theorem Event.IsRefinement.hasPyramids {event : Event ExactReal} (h : event.IsRefinement)
    (dims : Dimensions) : event.HasPyramids dims := by
  cases event with
  | notified => exact h.elim
  | increment => trivial
  | consulted => trivial
  | logged => trivial

theorem only_hasPyramids_of_internal {β : Type} {computation : Recorded ExactReal β}
    (h : computation.Only Event.IsInternal) (dims : Dimensions) :
    computation.Only (Event.HasPyramids dims) :=
  h.mono fun _ hevent => hevent.isRefinement.hasPyramids dims

/-- The listener is told one more solution. -/
theorem only_hasPyramids_notify {dims : Dimensions} {checkpoints : List (Checkpoint ExactReal)}
    (hcheckpoints : ∀ checkpoint ∈ checkpoints, checkpoint.solution.IsPyramid dims)
    {checkpoint : Checkpoint ExactReal} (h : checkpoint.solution.IsPyramid dims) :
    (notify checkpoints checkpoint).Only (Event.HasPyramids dims) := by
  intro event hevent
  rw [journal_notify] at hevent
  obtain rfl := List.mem_singleton.mp hevent
  intro other hother
  rcases List.mem_append.mp hother with hmem | hmem
  · exact hcheckpoints other hmem
  · rw [List.mem_singleton.mp hmem]
    exact h

namespace Plan

variable {σ : Type} {plan : Plan σ ExactReal} {iteration samples : ℕ}
  {bench : Bench σ ExactReal} {before : Option (Progress σ ExactReal)}
  {sums : JointSums ExactReal 4} {state : σ}

theorem only_hasPyramids_sharedIncrement {M : ℕ} (plan : Plan σ ExactReal) (iteration samples : ℕ)
    (charged : Bool) (sums : JointSums ExactReal M) (bench : Bench σ ExactReal)
    (dims : Dimensions) :
    (plan.sharedIncrement iteration samples charged sums bench).Only
      (Event.HasPyramids dims) := by
  intro event hevent
  rw [sharedIncrement_journal] at hevent
  rcases List.mem_pair.mp hevent with rfl | rfl
  · trivial
  · trivial

/-! ## Allocations -/

/-- What an allocation is based on after a shared increment. -/
theorem WellPosed.wellPosed_ratioInputs (hplan : plan.WellPosed) {m : ℕ}
    {sums : JointSums ExactReal (m + 1)} (hsums : sums.Sized plan.ensemble.dims)
    {correlations : Correlations ExactReal} (hcorrelations : sums.correlations = .ok correlations)
    (spent : ExactReal) (pilotVariance : Option (List ExactReal))
    (previous : Option (Allocation ExactReal))
    (hprevious : ∀ allocation, previous = some allocation →
      allocation.evalRatios.solution.order.Valid plan.ensemble.dims.numApprox) :
    (plan.ratioInputs correlations sums.counts spent pilotVariance previous).WellPosed
      plan.ensemble.dims where
  costs := hplan.costs
  target := hplan.target
  averageHigh := by
    -- correlations need two samples of every QoI
    have htwo := JointSums.two_le_of_correlations hcorrelations
    have hlength : sums.counts.length = plan.ensemble.dims.numFunctions := by
      rw [JointSums.counts, List.length_map, hsums.length_qois]
    have hpos := hplan.numFunctions_pos
    have hne : sums.counts ≠ [] := by
      rw [← List.length_pos_iff]
      omega
    have hsum := List.card_nsmul_le_sum sums.counts 2 htwo
    rw [hlength, smul_eq_mul] at hsum
    rw [RatioInputs.averageHigh, ratioInputs, averageCount_of_ne_nil hne, hlength, zero_eq,
      real_lt_real]
    have hnum : (0 : ℝ) < (sums.counts.sum : ℕ) := by
      exact_mod_cast (by omega : 0 < sums.counts.sum)
    exact div_pos hnum (by exact_mod_cast hpos)
  numFunctions_pos := hplan.numFunctions_pos
  full := JointSums.full_correlations hsums hcorrelations
  rows := by
    rw [ratioInputs, JointSums.rows_correlations hcorrelations, JointSums.counts, List.length_map,
      hsums.length_qois]
  cols := by rw [ratioInputs, JointSums.cols_correlations hcorrelations, hsums.dims_eq]
  previous := by
    intro solution hsolution
    obtain ⟨allocation, hallocation, rfl⟩ := Option.map_eq_some_iff.mp hsolution
    exact hprevious allocation hallocation

theorem Proper.sound_ratioInputs (hplan : plan.Proper) {m : ℕ}
    {sums : JointSums ExactReal (m + 1)} (hsums : sums.Sized plan.ensemble.dims)
    {correlations : Correlations ExactReal} (hcorrelations : sums.correlations = .ok correlations)
    (spent : ExactReal) (pilotVariance : Option (List ExactReal))
    (previous : Option (Allocation ExactReal))
    (hprevious : ∀ allocation, previous = some allocation →
      allocation.evalRatios.solution.IsPyramid plan.ensemble.dims) :
    (plan.ratioInputs correlations sums.counts spent pilotVariance previous).Sound
      plan.ensemble.dims where
  toWellPosed := hplan.wellPosed_ratioInputs hsums hcorrelations spent pilotVariance previous
    fun allocation hallocation => (hprevious allocation hallocation).order
  tolerances := hplan.tolerances

/-- An allocation after a shared increment is a pyramid. -/
theorem Proper.isPyramid_allocate (hplan : plan.Proper) {m : ℕ}
    {sums : JointSums ExactReal (m + 1)} (hsums : sums.Sized plan.ensemble.dims)
    {correlations : Correlations ExactReal} (hcorrelations : sums.correlations = .ok correlations)
    {spent : ExactReal} {pilotVariance : Option (List ExactReal)}
    {previous : Option (Allocation ExactReal)}
    (hprevious : ∀ allocation, previous = some allocation →
      allocation.evalRatios.solution.IsPyramid plan.ensemble.dims)
    {allocation : Allocation ExactReal}
    (h : (plan.allocate correlations sums.counts spent pilotVariance previous).outcome =
      .ok allocation) :
    allocation.evalRatios.solution.IsPyramid plan.ensemble.dims :=
  (hplan.sound_ratioInputs hsums hcorrelations spent pilotVariance previous hprevious).isPyramid
    hplan.ordered (allocate_eq_ok_iff.mp h).1

/-! ## Steps -/

end Plan

/-- The state between two shared increments: all solutions so far are pyramids. -/
structure Progress.Pyramidal {σ : Type} (plan : Plan σ ExactReal)
    (progress : Progress σ ExactReal) : Prop where
  sized : progress.sums.Sized plan.ensemble.dims
  solution : progress.allocation.evalRatios.solution.IsPyramid plan.ensemble.dims
  checkpoints : ∀ checkpoint ∈ progress.checkpoints,
    checkpoint.solution.IsPyramid plan.ensemble.dims

namespace Plan

variable {σ : Type} {plan : Plan σ ExactReal} {iteration samples : ℕ}
  {bench : Bench σ ExactReal} {before : Option (Progress σ ExactReal)}
  {sums : JointSums ExactReal 4} {state : σ}

/-- A step adds a pyramid. -/
theorem Steps.pyramidal {next : Progress σ ExactReal}
    (h : plan.Steps before iteration samples bench sums next) (hplan : plan.Proper)
    (hsums : sums.Sized plan.ensemble.dims)
    (hbefore : ∀ progress, before = some progress → progress.Pyramidal plan) :
    next.Pyramidal plan := by
  have hsized := hsums.accumulate h.sums
  have hsolution : next.allocation.evalRatios.solution.IsPyramid plan.ensemble.dims := by
    refine hplan.isPyramid_allocate hsized h.correlations (fun allocation hallocation => ?_)
      h.allocation
    obtain ⟨progress, hprogress, rfl⟩ := Option.map_eq_some_iff.mp hallocation
    exact (hbefore progress hprogress).solution
  refine ⟨hsized, hsolution, fun checkpoint hmem => ?_⟩
  rw [h.checkpoints] at hmem
  rcases List.mem_append.mp hmem with hmem | hmem
  · cases before with
    | none => exact absurd hmem List.not_mem_nil
    | some progress => exact (hbefore progress rfl).checkpoints checkpoint hmem
  · rw [List.mem_singleton.mp hmem]
    exact hsolution

theorem only_hasPyramids_step (hplan : plan.Proper) (hsums : sums.Sized plan.ensemble.dims)
    (hbefore : ∀ progress, before = some progress → progress.Pyramidal plan) :
    (plan.step before iteration samples bench sums).Only
      (Event.HasPyramids plan.ensemble.dims) := by
  obtain ⟨internal, hinternal, hjournal⟩ :=
    step_journal plan before iteration samples bench sums
  intro event hevent
  rw [hjournal, List.mem_cons, List.mem_cons, List.mem_append] at hevent
  rcases hevent with rfl | rfl | hevent | hevent
  · trivial
  · trivial
  · exact (hinternal event hevent).isRefinement.hasPyramids _
  · cases hnext : (plan.step before iteration samples bench sums).outcome with
    | error failure =>
      rw [hnext] at hevent
      exact absurd hevent List.not_mem_nil
    | ok next =>
      rw [hnext] at hevent
      rw [List.mem_singleton.mp hevent]
      exact ((step_eq_ok_iff.mp hnext).pyramidal hplan hsums hbefore).checkpoints

/-- Steps add pyramids. -/
theorem only_hasPyramids_iterate (hplan : plan.Proper) {limit : ℕ}
    {progress : Progress σ ExactReal} (hprogress : progress.Pyramidal plan) :
    (plan.iterate limit progress).Only (Event.HasPyramids plan.ensemble.dims) ∧
      ∀ last, (plan.iterate limit progress).outcome = .ok last → last.Pyramidal plan := by
  induction limit generalizing progress with
  | zero =>
    refine ⟨.pure _, fun last hlast => ?_⟩
    cases hlast
    exact hprogress
  | succ limit ih =>
    unfold iterate
    split
    · refine ⟨.pure _, fun last hlast => ?_⟩
      cases hlast
      exact hprogress
    · have hbefore : ∀ before, some progress = some before → before.Pyramidal plan :=
        fun before heq => by cases heq; exact hprogress
      have hnext : ∀ next, (plan.step (some progress) progress.iterations progress.pending
          progress.bench progress.sums).outcome = .ok next → next.Pyramidal plan :=
        fun next hnext => (step_eq_ok_iff.mp hnext).pyramidal hplan hprogress.sized hbefore
      refine ⟨.bind (only_hasPyramids_step hplan hprogress.sized hbefore) fun next heq =>
        (ih (hnext next heq)).1, fun last hlast => ?_⟩
      obtain ⟨next, heq, hlast⟩ := Recorder.outcome_bind_eq_ok.mp hlast
      exact (ih (hnext next heq)).2 last hlast

/-! ## Runs -/

theorem hasPyramids_online (hplan : plan.Proper) :
    (plan.online state).Only (Event.HasPyramids plan.ensemble.dims) ∧
      ∀ report, (plan.online state).outcome = .ok report →
        report.solution.IsPyramid plan.ensemble.dims := by
  have hstart : ∀ first, (plan.step none 0 plan.settings.pilotSamples ⟨state, 0⟩
      (.empty plan.ensemble.dims)).outcome = .ok first → first.Pyramidal plan := fun first hfirst =>
    (step_eq_ok_iff.mp hfirst).pyramidal hplan (JointSums.sized_empty _) nofun
  unfold online
  constructor
  · refine .bind (only_hasPyramids_step hplan (JointSums.sized_empty _) nofun)
      fun first hfirst => ?_
    refine .bind (only_hasPyramids_iterate hplan (hstart first hfirst)).1 fun last _ => ?_
    refine .bind (only_logAll (fun _ => trivial) _) fun _ _ => ?_
    exact (only_finish _ _ _ _ _ _).mono fun _ hevent => hevent.hasPyramids _
  · intro report hreport
    obtain ⟨first, hfirst, hreport⟩ := Recorder.outcome_bind_eq_ok.mp hreport
    obtain ⟨last, hlast, hreport⟩ := Recorder.outcome_bind_eq_ok.mp hreport
    obtain ⟨-, -, hreport⟩ := Recorder.outcome_bind_eq_ok.mp hreport
    obtain ⟨-, -, -, hsolution⟩ := finish_eq_ok hreport
    rw [hsolution]
    exact ((only_hasPyramids_iterate hplan (hstart first hfirst)).2 last hlast).solution

theorem only_hasPyramids_pilot (plan : Plan σ ExactReal) (charged : Bool) (state : σ)
    (dims : Dimensions) : (plan.pilot charged state).Only (Event.HasPyramids dims) := by
  intro event hevent
  rw [pilot_journal] at hevent
  rcases List.mem_pair.mp hevent with rfl | rfl
  · trivial
  · trivial

/-- The plan that a pilot leads to is a pyramid. -/
theorem isPyramid_of_pilot (hplan : plan.Proper) {charged : Bool}
    {pilot : PilotSamples σ ExactReal} (hpilot : (plan.pilot charged state).outcome = .ok pilot)
    {pilotVariance : Option (List ExactReal)} {planned : Allocation ExactReal}
    (hplanned : (plan.allocate pilot.correlations pilot.counts pilot.bench.spent pilotVariance
      none).outcome = .ok planned) :
    planned.evalRatios.solution.IsPyramid plan.ensemble.dims := by
  obtain ⟨sums, hsums, hcorrelations, hcounts, -⟩ := pilot_eq_ok_iff.mp hpilot
  rw [hcounts] at hplanned
  exact hplan.isPyramid_allocate ((JointSums.sized_empty _).accumulate hsums) hcorrelations
    (by simp) hplanned

theorem hasPyramids_offline (hplan : plan.Proper) :
    (plan.offline state).Only (Event.HasPyramids plan.ensemble.dims) ∧
      ∀ report, (plan.offline state).outcome = .ok report →
        report.solution.IsPyramid plan.ensemble.dims := by
  constructor
  · unfold offline
    refine .bind (only_hasPyramids_pilot plan false state _) fun pilot hpilot => ?_
    refine .bind (only_hasPyramids_of_internal only_allocate _) fun planned hplanned => ?_
    have hpyramid := isPyramid_of_pilot hplan hpilot hplanned
    refine .bind (only_hasPyramids_notify (by simp) hpyramid) fun checkpoints hcheckpoints => ?_
    refine .bind (only_hasPyramids_sharedIncrement _ _ _ _ _ _ _) fun drawn _ => ?_
    cases hcheckpoints
    refine .bind (only_hasPyramids_notify (fun checkpoint hmem => ?_) hpyramid) fun _ _ => ?_
    · rw [List.mem_singleton.mp hmem]
      exact hpyramid
    · exact (only_finish _ _ _ _ _ _).mono fun _ hevent => hevent.hasPyramids _
  · intro report hreport
    obtain ⟨pilot, planned, drawn, hpilot, hplanned, -, hreport⟩ := offline_eq_ok_iff.mp hreport
    obtain ⟨-, -, -, hsolution⟩ := finish_eq_ok hreport
    -- the solution is the one that was planned
    have hpyramid := isPyramid_of_pilot hplan hpilot hplanned
    rw [hsolution]
    exact hpyramid

theorem hasPyramids_projection (hplan : plan.Proper) :
    (plan.projection state).Only (Event.HasPyramids plan.ensemble.dims) ∧
      ∀ report, (plan.projection state).outcome = .ok report →
        report.solution.IsPyramid plan.ensemble.dims := by
  constructor
  · unfold projection
    refine .bind (only_hasPyramids_pilot plan true state _) fun pilot hpilot => ?_
    refine .bind (only_hasPyramids_of_internal only_allocate _) fun planned hplanned => ?_
    have hpyramid := isPyramid_of_pilot hplan hpilot hplanned
    refine .bind (only_hasPyramids_notify (by simp) hpyramid) fun _ _ => ?_
    exact .bind (only_log (fun _ => trivial) _) fun _ _ => .pure _
  · intro report hreport
    obtain ⟨pilot, planned, hpilot, hplanned, rfl⟩ := projection_eq_ok_iff.mp hreport
    exact isPyramid_of_pilot hplan hpilot hplanned

theorem hasPyramids_execute (hplan : plan.Proper) (state : σ) :
    (plan.execute state).Only (Event.HasPyramids plan.ensemble.dims) ∧
      ∀ report, (plan.execute state).outcome = .ok report →
        report.solution.IsPyramid plan.ensemble.dims := by
  unfold execute
  cases plan.settings.pilotMode with
  | online => exact hasPyramids_online hplan
  | offline => exact hasPyramids_offline hplan
  | projection => exact hasPyramids_projection hplan

end Plan

/-- All solutions of a run with the usual compass search are pyramids, those at every notification
and the one of the report, provided that squared correlations are cut off at a floor that is not
negative, and at a positive distance from one. -/
theorem solutions_isPyramid {σ : Type} (ensemble : Ensemble σ ExactReal)
    {settings : Settings ExactReal} (hfloor : 0 ≤ settings.tolerances.floor)
    (hpositive : 0 < settings.tolerances.ceiling) (hceiling : settings.tolerances.ceiling ≤ 1)
    (state : σ) :
    let run := sample ensemble settings state
    (∀ checkpoints, .notified checkpoints ∈ run.journal →
        ∀ checkpoint ∈ checkpoints, checkpoint.solution.IsPyramid ensemble.dims) ∧
      ∀ report, run.outcome = .ok report → report.solution.IsPyramid ensemble.dims := by
  intro run
  have hordered := CompassSearch.bounded_default.ordered_optimize
  rcases Plan.sampleWith_eq CompassSearch.default.optimize ensemble settings state with
    ⟨plan, hchecked, hrun⟩ | ⟨failure, hrun⟩
  · have hexecute := Plan.hasPyramids_execute
      (hchecked.proper ⟨hfloor, hpositive, hceiling⟩ hordered) state
    rw [hchecked.ensemble_eq, ← hrun] at hexecute
    exact ⟨fun checkpoints hmem => hexecute.1 _ hmem, hexecute.2⟩
  · have hfail : run = .fail failure := hrun
    rw [hfail, Recorder.journal_fail, Recorder.outcome_fail]
    constructor
    · intro checkpoints hmem
      exact absurd hmem List.not_mem_nil
    · intro report hreport
      cases hreport

/-- With the usual thresholds, a run with two rounds reports a pyramid in closed form, and one whose
pilot spends its budget reports a pyramid from a search. -/
theorem solutions_isPyramid_of_quartet :
    (∃ report, (sample quartetEnsemble (quartetSettings .online) ()).outcome = .ok report ∧
      report.iterations = 2 ∧ report.solution = .analytic (.ofRows 2 [[real 4, real 2]]) ∧
      report.solution.IsPyramid quartetEnsemble.dims) ∧
    ∃ report, (sample spikeEnsemble (.withBudget 2 (real 1)) ()).outcome = .ok report ∧
      report.solution.form = .numerical ∧ report.solution.IsPyramid spikeEnsemble.dims := by
  have hproper : (Tolerances.default : Tolerances ExactReal).Proper := Tolerances.proper_default
  constructor
  · obtain ⟨report, hreport, hiterations, hsolution, -⟩ :=
      exists_online_quartet CompassSearch.default.optimize
    exact ⟨report, hreport, hiterations, hsolution, (solutions_isPyramid quartetEnsemble
      hproper.floor hproper.ceiling_pos hproper.ceiling_le ()).2 report hreport⟩
  · obtain ⟨report, hreport, hform⟩ :=
      exists_online_spike CompassSearch.bounded_default.ordered_optimize
    exact ⟨report, hreport, hform, (solutions_isPyramid spikeEnsemble hproper.floor
      hproper.ceiling_pos hproper.ceiling_le ()).2 report hreport⟩

end Multifidelity
