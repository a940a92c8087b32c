import Multifidelity.Proofs.Allocation.Sanitize
import Multifidelity.Proofs.Estimate.Correlation
import Multifidelity.Proofs.Run.Step
import Multifidelity.Proofs.Shortfall

/-!
# Exhausted budgets

Once the cost of a run has reached its budget, a search keeps to the samples already drawn: its
target is their average. No shared increment follows if the counts of all QoI are equal. Otherwise
some count is below the average, and shared increments go on until the iteration limit is reached.

## Main definitions

* `HeedsBudget`: what holds at a notification, given the events that follow

## Main results

* `Plan.Steps.pending_eq_zero_iff`: what a step decides once the budget is spent
* `shared_follows_exhausted_checkpoint_iff`: when a run goes on nevertheless
-/

namespace Multifidelity

open ExactReal

/-! ## A step with an exhausted budget -/

namespace Plan

variable {σ : Type} {plan : Plan σ ExactReal} {iteration samples : ℕ} {bench : Bench σ ExactReal}
  {before : Option (Progress σ ExactReal)} {sums : JointSums ExactReal 4}
  {next : Progress σ ExactReal} {budget : ExactReal}

/-- A step that leaves a search with a spent budget ends the sampling if the counts of all QoI are
equal, and only then. -/
theorem Steps.pending_eq_zero_iff (h : plan.Steps before iteration samples bench sums next)
    (htarget : plan.target = .budget budget)
    (hform : next.allocation.evalRatios.solution.form = .numerical)
    (hspent : budget ≤ next.bench.spent) :
    next.pending = 0 ↔ ∀ a ∈ next.sums.counts, ∀ b ∈ next.sums.counts, a = b := by
  obtain ⟨heval, -, -⟩ := allocate_eq_ok_iff.mp h.allocation
  have hrows : next.allocation.evalRatios.rhoSq.rows = next.sums.counts.length := by
    rw [RatioInputs.rows_rhoSq heval]
    exact JointSums.rows_correlations h.correlations
  have htargets := RatioInputs.highTargets_of_isExhausted htarget heval hform (by
    rw [RatioInputs.isExhausted, Bool.or_eq_true]
    exact Or.inl (decide_eq_true hspent))
  rw [h.pending, htargets, hrows]
  exact increment_averageCount_eq_zero_iff

/-- A step that spends the budget succeeds if the models are not ordered. -/
theorem exists_step_of_exhausted (before : Option (Progress σ ExactReal))
    {result : JointSums ExactReal 4} {correlations : Correlations ExactReal}
    (htarget : plan.target = .budget budget)
    (hsums : sums.accumulate (plan.answer (.shared iteration samples) bench).1 = .ok result)
    (hcorrelations : result.correlations = .ok correlations)
    (hform : selectForm (sanitize correlations.rhoSq plan.settings.tolerances).1
      plan.settings.tolerances.ordering plan.settings.preferReordered = .numerical)
    (hspent : budget ≤ bench.spent + plan.costs.equivalents plan.numApprox
      (List.range (plan.numApprox + 1)) (plan.answer (.shared iteration samples) bench).1.length) :
    ∃ next, (plan.step before iteration samples bench sums).outcome = .ok next ∧
      next.sums = result ∧ next.allocation.evalRatios.solution.form = .numerical ∧
      budget ≤ next.bench.spent := by
  let charged := plan.charge (List.range (plan.numApprox + 1))
    (plan.answer (.shared iteration samples) bench).1.length
    ⟨(plan.answer (.shared iteration samples) bench).2, bench.spent⟩
  let pilot := (before.map Progress.pilot).getD (.of correlations result.counts)
  let inputs := plan.ratioInputs correlations result.counts charged.spent (some pilot.variance)
    (before.map Progress.allocation)
  have htarget' : inputs.target = .budget budget := htarget
  -- the charge of the increment has reached the budget, so that no optimizer is asked
  have hexhausted : inputs.isExhausted (sanitize correlations.rhoSq
      plan.settings.tolerances).1.cols budget = true := by
    rw [RatioInputs.isExhausted, Bool.or_eq_true]
    exact Or.inl (decide_eq_true hspent)
  obtain ⟨evalRatios, heval, hsolution⟩ :=
    RatioInputs.exists_evalRatios_of_isExhausted htarget' rfl hform hexhausted plan.optimizer
  let allocation : Allocation ExactReal := ⟨correlations, evalRatios, realizedVarianceRatios
    evalRatios.rhoSq evalRatios.solution evalRatios.highTargets result.counts⟩
  have hallocation : (plan.allocate correlations result.counts charged.spent
      (some pilot.variance) (before.map Progress.allocation)).outcome = .ok allocation :=
    allocate_eq_ok_iff.mpr ⟨heval, rfl, rfl⟩
  let pending := increment result.counts evalRatios.highTargets 1
  refine ⟨⟨charged, result, pilot, allocation, (before.map Progress.checkpoints).getD [] ++
    [allocation.checkpoint iteration samples result.counts charged.spent pending], iteration + 1,
    pending⟩, step_eq_ok_iff.mpr ⟨hsums, rfl, hcorrelations, rfl, hallocation, rfl, rfl, rfl⟩,
    rfl, ?_, hspent⟩
  exact congrArg RatioSolution.form hsolution

end Plan

/-! ## The journal of a run -/

section Journal

variable (budget : ExactReal) (limit : ℕ)

/-- At a notification about a search with a spent budget: the counts decide whether the sampling is
over, and a shared increment follows if it is not, unless the limit is reached. -/
def HeedsBudget : Event ExactReal → List (Event ExactReal) → Prop
  | .notified checkpoints, after =>
    ∀ earlier checkpoint, checkpoints = earlier ++ [checkpoint] →
      checkpoint.solution.form = .numerical → budget ≤ checkpoint.spent →
      (checkpoint.nextSamples = 0 ↔
          ∀ a ∈ checkpoint.highCounts, ∀ b ∈ checkpoint.highCounts, a = b) ∧
        ((∃ event ∈ after, event.IsShared) ↔
          checkpoint.nextSamples ≠ 0 ∧ checkpoint.iteration < limit)
  | .increment .., _ | .consulted .., _ | .logged _, _ => True

variable {budget limit}

theorem heedsBudget_of_isRefinement {event : Event ExactReal} (h : event.IsRefinement)
    (after : List (Event ExactReal)) : HeedsBudget budget limit event after := by
  cases event with
  | increment => trivial
  | consulted => trivial
  | notified => exact h.elim
  | logged => trivial

namespace Plan

variable {σ β : Type} {plan : Plan σ ExactReal} {iteration samples : ℕ} {bench : Bench σ ExactReal}
  {before : Option (Progress σ ExactReal)} {sums : JointSums ExactReal 4}

theorem exists_isShared_step_bind (rest : Progress σ ExactReal → Recorded ExactReal β) :
    ∃ event ∈ (plan.step before iteration samples bench sums >>= rest).journal,
      event.IsShared := by
  obtain ⟨internal, -, hjournal⟩ := step_journal plan before iteration samples bench sums
  refine ⟨.increment (.shared iteration samples)
    (plan.answer (.shared iteration samples) bench).1, ?_, trivial⟩
  rw [Recorder.journal_bind, hjournal]
  simp

/-- A step heeds the budget if the events after it do, and if they go on exactly when the step says
so. -/
theorem atEach_step_bind (htarget : plan.target = .budget budget)
    {rest : Progress σ ExactReal → Recorded ExactReal β}
    (hrest : ∀ next, plan.Steps before iteration samples bench sums next →
      AtEach (HeedsBudget budget limit) (rest next).journal ∧
        ((∃ event ∈ (rest next).journal, event.IsShared) ↔
          next.pending ≠ 0 ∧ iteration < limit)) :
    AtEach (HeedsBudget budget limit)
      (plan.step before iteration samples bench sums >>= rest).journal := by
  obtain ⟨internal, honly, hjournal⟩ := step_journal plan before iteration samples bench sums
  -- internal events tell the listener nothing
  have hinternal : ∀ after, AtEach (fun event later =>
      HeedsBudget budget limit event (later ++ after)) internal := fun after =>
    atEach_of_forall fun event hevent later =>
      heedsBudget_of_isRefinement (honly event hevent).isRefinement _
  cases hnext : (plan.step before iteration samples bench sums).outcome with
  | error failure =>
    rw [hnext, List.append_nil] at hjournal
    rw [Recorder.bind_of_error hnext, hjournal]
    refine ⟨trivial, trivial, ?_⟩
    simpa using hinternal []
  | ok next =>
    have hsteps := step_eq_ok_iff.mp hnext
    obtain ⟨hafter, hshared⟩ := hrest next hsteps
    rw [hnext] at hjournal
    rw [Recorder.bind_of_ok hnext, hjournal]
    dsimp only
    rw [List.cons_append, List.cons_append, List.append_assoc, List.singleton_append]
    refine ⟨trivial, trivial, atEach_append.mpr ⟨hinternal _, ?_, hafter⟩⟩
    -- the checkpoint of this step is the last one that the listener is told
    intro earlier checkpoint hlast hform hspent
    rw [hsteps.checkpoints] at hlast
    obtain ⟨-, hcheckpoint⟩ := List.append_inj' hlast rfl
    obtain rfl := (List.cons.inj hcheckpoint).1
    exact ⟨hsteps.pending_eq_zero_iff htarget hform hspent, hshared⟩

/-- After an iteration that needs none, no shared increment follows. -/
theorem exists_isShared_iterate_bind {rest : Progress σ ExactReal → Recorded ExactReal β}
    (hrest : ∀ last, (rest last).Only Event.IsRefinement) (steps : ℕ)
    (progress : Progress σ ExactReal) :
    (∃ event ∈ (plan.iterate steps progress >>= rest).journal, event.IsShared) ↔
      progress.pending ≠ 0 ∧ steps ≠ 0 := by
  -- the rest only refines, so that a shared increment can only come from a step
  have hdone : ¬ ∃ event ∈ (rest progress).journal, event.IsShared := by
    rintro ⟨event, hevent, hshared⟩
    exact (hrest progress event hevent).not_isShared hshared
  cases steps with
  | zero =>
    rw [iterate, pure_bind]
    simpa using hdone
  | succ steps =>
    rw [iterate]
    by_cases hpending : progress.pending = 0
    · rw [if_pos hpending, pure_bind]
      simpa [hpending] using hdone
    · rw [if_neg hpending, bind_assoc]
      simpa [hpending] using exists_isShared_step_bind _

/-- The steps after the pilot heed the budget. The iterations done and those left make up the
limit. -/
theorem atEach_iterate_bind (htarget : plan.target = .budget budget)
    {rest : Progress σ ExactReal → Recorded ExactReal β}
    (hrest : ∀ last, (rest last).Only Event.IsRefinement) (steps : ℕ)
    (progress : Progress σ ExactReal) (hlimit : progress.iterations + steps = limit + 1) :
    AtEach (HeedsBudget budget limit) (plan.iterate steps progress >>= rest).journal := by
  -- the steps left decrease as the iterations done increase
  induction steps generalizing progress with
  | zero =>
    rw [iterate, pure_bind]
    exact atEach_of_forall fun event hevent after =>
      heedsBudget_of_isRefinement (hrest progress event hevent) after
  | succ steps ih =>
    rw [iterate]
    by_cases hpending : progress.pending = 0
    · rw [if_pos hpending, pure_bind]
      exact atEach_of_forall fun event hevent after =>
        heedsBudget_of_isRefinement (hrest progress event hevent) after
    · rw [if_neg hpending, bind_assoc]
      refine atEach_step_bind htarget fun next hnext => ⟨ih next ?_, ?_⟩
      · rw [hnext.iterations]
        omega
      · rw [exists_isShared_iterate_bind hrest]
        have hsteps : steps ≠ 0 ↔ progress.iterations < limit := by omega
        rw [hsteps]

/-- An online run heeds its budget. -/
theorem atEach_online (htarget : plan.target = .budget budget) (state : σ) :
    AtEach (HeedsBudget budget plan.settings.maxIterations) (plan.online state).journal := by
  have hfinish : ∀ last : Progress σ ExactReal, (do
      logAll ((limitWarnings last).map .warning)
      plan.finish last.iterations last.allocation last.sums last.bench (some last.pilot)
        (last.allocation.evalRatios.warnings ++ limitWarnings last)).Only Event.IsRefinement :=
    fun last => .bind (only_logAll (fun _ => trivial) _) fun _ _ => only_finish _ _ _ _ _ _
  refine atEach_step_bind htarget fun first hfirst => ⟨?_, ?_⟩
  · exact atEach_iterate_bind htarget hfinish _ first (by rw [hfirst.iterations, add_comm])
  · rw [exists_isShared_iterate_bind hfinish, Nat.pos_iff_ne_zero]

end Plan

end Journal

/-! ## Runs -/

/-- An online run with a budget goes on after a checkpoint about a search, although its cost has
reached the budget, exactly if the counts of the QoI differ and the iteration limit is not
reached. -/
theorem shared_follows_exhausted_checkpoint_iff {σ : Type} (optimizer : Optimizer ExactReal)
    (ensemble : Ensemble σ ExactReal) (settings : Settings ExactReal) (state : σ)
    {budget : ExactReal} (honline : settings.pilotMode = .online)
    (hbudget : settings.budget = some budget) {before after : List (Event ExactReal)}
    {earlier : List (Checkpoint ExactReal)} {checkpoint : Checkpoint ExactReal}
    (hjournal : (sampleWith optimizer ensemble settings state).journal =
      before ++ .notified (earlier ++ [checkpoint]) :: after)
    (hform : checkpoint.solution.form = .numerical) (hspent : budget ≤ checkpoint.spent) :
    (checkpoint.nextSamples = 0 ↔
        ∀ a ∈ checkpoint.highCounts, ∀ b ∈ checkpoint.highCounts, a = b) ∧
      ((∃ event ∈ after, event.IsShared) ↔
        checkpoint.nextSamples ≠ 0 ∧ checkpoint.iteration < settings.maxIterations) := by
  rcases Plan.sampleWith_eq optimizer ensemble settings state with ⟨plan, hplan, hrun⟩ |
    ⟨failure, hrun⟩
  · have htarget := (Settings.target_of_budget hbudget hplan.target_eq).1
    -- the property holds at every notification, and thus at the given one
    have hheeds := Plan.atEach_online htarget state
    rw [hrun, Plan.execute, hplan.settings_eq, honline] at hjournal
    dsimp only at hjournal
    rw [hjournal, hplan.settings_eq] at hheeds
    exact hheeds.of_append_cons earlier checkpoint rfl hform hspent
  · rw [hrun, Recorder.journal_fail] at hjournal
    simp at hjournal

/-! ## A run that goes on -/

/-- Two QoI of two low-fidelity models. The third evaluation of the high-fidelity model fails at
the second QoI. -/
noncomputable def faultyRow : ℕ → Response ExactReal
  | 0 => [1, 1, 0, 0, 1, 1]
  | 2 => [0, 0, 0, 0, 0, posInf]
  | _ => [0, 0, 0, 0, 0, 0]

/-- An ensemble that answers every call with three samples. -/
noncomputable def faultyEnsemble : Ensemble Unit ExactReal where
  dims := ⟨2, 2⟩
  costs := [1, 1, 1]
  respond _ _ := ((List.range 3).map faultyRow, ())

theorem joint_faultyRow {qoi : ℕ} (hqoi : qoi < 2) :
    ((List.range 3).map faultyRow).filterMap ((⟨2, 2⟩ : Dimensions).joint? · qoi) =
      (spike (2 - qoi)).map RealSample.toJoint := by
  have hthree : List.range 3 = [0, 1, 2] := rfl
  have htwo : List.range 2 = [0, 1] := rfl
  interval_cases qoi
  · simp [hthree, htwo, faultyRow, Dimensions.joint?, Dimensions.value?, spike,
      RealSample.toJoint, List.replicate]
  · simp [hthree, htwo, faultyRow, Dimensions.joint?, Dimensions.value?, spike,
      RealSample.toJoint]

/-- A run with three pilot samples, which cost more than its budget. -/
noncomputable def faultyPlan : Plan Unit ExactReal where
  ensemble := faultyEnsemble
  settings := .withBudget 3 (real 1)
  optimizer _ _ := pure []
  target := .budget (real 1)
  costs := ⟨[1, 1, 1]⟩

theorem checked_faultyPlan :
    Plan.Checked faultyEnsemble (.withBudget 3 (real 1)) (fun _ _ => pure []) faultyPlan := by
  have htarget : (Settings.withBudget 3 (real 1)).target = .ok (.budget (real 1)) :=
    Settings.target_eq_budget rfl rfl three_ne_zero (by simp [Scalar.isPositiveFinite])
  refine Plan.checked_of_usable htarget two_pos two_pos ⟨rfl, ?_⟩ _
  simp [faultyEnsemble, Scalar.isPositiveFinite]

theorem exists_faulty_step :
    ∃ next, (faultyPlan.step none 0 3 ⟨(), 0⟩ (.empty ⟨2, 2⟩)).outcome = .ok next ∧
      next.sums.counts = [3, 2] ∧ next.allocation.evalRatios.solution.form = .numerical ∧
      real 1 ≤ next.bench.spent := by
  have hbatch : (faultyPlan.answer (.shared 0 3) ⟨(), 0⟩).1 = (List.range 3).map faultyRow := rfl
  -- three samples at the first QoI and two at the second one
  obtain ⟨sums, correlations, hsums, hcounts, hcorrelations, hrho⟩ :=
    JointSums.exists_correlations 3 ⟨2, 2⟩ ((List.range 3).map faultyRow)
      (fun qoi => spike (2 - qoi))
      (by simp [List.range_succ, faultyRow, Dimensions.responseLength])
      (fun qoi hqoi => joint_faultyRow hqoi)
      (fun qoi (hqoi : qoi < 2) => by
        rw [spike, List.length_cons, List.length_replicate]
        omega)
  rw [← hbatch] at hsums
  have hrows : correlations.rhoSq = .ofRows 2 (List.replicate 2 [real 1, real 0]) := by
    simp [hrho, List.range_succ, correlationSq_spike_zero, correlationSq_spike_one,
      List.replicate]
  have hform : selectForm (sanitize correlations.rhoSq faultyPlan.settings.tolerances).1
      faultyPlan.settings.tolerances.ordering faultyPlan.settings.preferReordered =
        .numerical := by
    rw [hrows]
    exact selectForm_perfect_then_none two_ne_zero
  have hcharge : real 1 ≤ (0 : ExactReal) + faultyPlan.costs.equivalents faultyPlan.numApprox
      (List.range (faultyPlan.numApprox + 1))
      (faultyPlan.answer (.shared 0 3) ⟨(), 0⟩).1.length := by
    have hcosts : faultyPlan.costs = ⟨[1, 1, 1].map real⟩ := rfl
    have hmodels : List.range (faultyPlan.numApprox + 1) = [0, 1, 2] := rfl
    have hhigh : faultyPlan.numApprox = 2 := rfl
    rw [hbatch, hcosts, hmodels, hhigh, Costs.equivalents_real (by norm_num), zero_eq, real_add,
      real_le_real]
    norm_num
  obtain ⟨next, hstep, rfl, hnumerical, hspent⟩ :=
    Plan.exists_step_of_exhausted none rfl hsums hcorrelations hform hcharge
  exact ⟨next, hstep, hcounts, hnumerical, hspent⟩

/-- With different counts a run goes on, although the budget is spent. -/
theorem shared_follows_exhausted_checkpoint :
    ∃ before after earlier checkpoint,
      (sampleWith (fun _ _ => pure []) faultyEnsemble (.withBudget 3 (real 1)) ()).journal =
        before ++ .notified (earlier ++ [checkpoint]) :: after ∧
      checkpoint.solution.form = .numerical ∧ real 1 ≤ checkpoint.spent ∧
      checkpoint.nextSamples ≠ 0 ∧ ∃ event ∈ after, event.IsShared := by
  obtain ⟨next, hstep, hcounts, hnumerical, hspent⟩ := exists_faulty_step
  obtain ⟨first, hfirst⟩ := Plan.step_bind_journal hstep
  have hjournal : ∃ after,
      (sampleWith (fun _ _ => pure []) faultyEnsemble (.withBudget 3 (real 1)) ()).journal =
        first ++ .notified ([] ++ [next.allocation.checkpoint 0 3 next.sums.counts
          next.bench.spent next.pending]) :: after := by
    rw [Plan.sampleWith_of_checked checked_faultyPlan]
    exact ⟨_, hfirst _⟩
  obtain ⟨after, hjournal⟩ := hjournal
  obtain ⟨hzero, hshared⟩ := shared_follows_exhausted_checkpoint_iff _ _ _ _ rfl rfl hjournal
    hnumerical hspent
  have hpending : next.pending ≠ 0 := by
    intro h
    have hequal := hzero.mp h 3 (by simp [Allocation.checkpoint, hcounts]) 2
      (by simp [Allocation.checkpoint, hcounts])
    omega
  exact ⟨first, after, [], _, hjournal, hnumerical, hspent, hpending,
    hshared.mpr ⟨hpending, Nat.succ_pos 99⟩⟩

end Multifidelity
