import Multifidelity.Proofs.Allocation.Targets
import Multifidelity.Proofs.Sums.Joint
import Multifidelity.Run.Sample

/-!
# The parts of a run

## Main definitions

* `Plan.Checked`: what a plan takes from an ensemble and settings
* `Plan.Priced`: the costs of a plan as real numbers
* `Ensemble.Faultless`: ensembles at which no evaluation fails
* `Plan.answer`: the answer of the ensemble to a call
* `Plan.ratioInputs`: what an allocation is based on

## Main results

* `Plan.sampleWith_eq`: a run executes a checked plan
* `Plan.sharedIncrement_eq_ok_iff`, `Plan.sharedIncrement_journal`: shared increments
* `Plan.allocate_eq_ok_iff`, `Plan.only_allocate`: allocations
-/

namespace Multifidelity

namespace Plan

variable {σ α : Type} [Scalar α]

/-! ## Checked plans -/

/-- A plan that has been checked: an ensemble that is not empty, settings with one target, and
costs that are accepted. -/
structure Checked (ensemble : Ensemble σ α) (settings : Settings α) (optimizer : Optimizer α)
    (plan : Plan σ α) : Prop where
  ensemble_eq : plan.ensemble = ensemble
  settings_eq : plan.settings = settings
  optimizer_eq : plan.optimizer = optimizer
  target_eq : settings.target = .ok plan.target
  numApprox_pos : 0 < ensemble.dims.numApprox
  numFunctions_pos : 0 < ensemble.dims.numFunctions
  costs_eq : Costs.check ensemble.dims.numApprox ensemble.costs = .ok plan.costs

variable {ensemble : Ensemble σ α} {settings : Settings α} {optimizer : Optimizer α}

theorem check_eq_ok_iff {plan : Plan σ α} :
    check ensemble settings optimizer = .ok plan ↔
      Checked ensemble settings optimizer plan := by
  unfold check
  constructor
  · intro h
    cases htarget : settings.target with
    | error failure =>
      rw [htarget] at h
      cases h
    | ok target =>
      rw [htarget] at h
      simp only [bind, Except.bind] at h
      split at h
      · cases h
      · rename_i hempty
        rw [not_or] at hempty
        cases hcosts : Costs.check ensemble.dims.numApprox ensemble.costs with
        | error failure =>
          rw [hcosts] at h
          cases h
        | ok costs =>
          rw [hcosts] at h
          cases h
          exact ⟨rfl, rfl, rfl, htarget, Nat.pos_of_ne_zero hempty.1,
            Nat.pos_of_ne_zero hempty.2, hcosts⟩
  · obtain ⟨ensemble', settings', optimizer', target, costs⟩ := plan
    rintro ⟨rfl, rfl, rfl, htarget, hlow, hqoi, hcosts⟩
    dsimp only at htarget hlow hqoi hcosts ⊢
    have hempty : ¬ (ensemble'.dims.numApprox = 0 ∨ ensemble'.dims.numFunctions = 0) := by
      omega
    rw [htarget, hcosts]
    simp only [bind, Except.bind]
    rw [if_neg hempty]
    rfl

/-- Costs of a plan that are positive real numbers. -/
structure Priced (plan : Plan σ ExactReal) (cs : List ℝ) : Prop where
  costs_eq : plan.costs = ⟨cs.map .real⟩
  length : cs.length = plan.numApprox + 1
  pos : ∀ c ∈ cs, 0 < c

theorem Checked.exists_priced {ensemble : Ensemble σ ExactReal} {settings : Settings ExactReal}
    {optimizer : Optimizer ExactReal} {plan : Plan σ ExactReal}
    (h : Checked ensemble settings optimizer plan) :
    ∃ cs, plan.Priced cs ∧ ensemble.costs = cs.map .real := by
  obtain ⟨hcosts, husable⟩ := Costs.check_eq_ok_iff.mp h.costs_eq
  obtain ⟨cs, hlength, hpos, hcs⟩ := husable.exists_real
  refine ⟨cs, ⟨hcs, ?_, hpos⟩, ?_⟩
  · rw [hlength, numApprox, h.ensemble_eq]
  · rw [hcs] at hcosts
    exact (congrArg Costs.perModel hcosts).symm

/-- An ensemble with usable costs and settings with a target make up a plan. -/
theorem checked_of_usable {ensemble : Ensemble σ ExactReal} {settings : Settings ExactReal}
    {target : Target ExactReal} (htarget : settings.target = .ok target)
    (hlow : 0 < ensemble.dims.numApprox) (hqoi : 0 < ensemble.dims.numFunctions)
    (hcosts : (⟨ensemble.costs⟩ : Costs ExactReal).Usable ensemble.dims.numApprox)
    (optimizer : Optimizer ExactReal) :
    Checked ensemble settings optimizer
      ⟨ensemble, settings, optimizer, target, ⟨ensemble.costs⟩⟩ where
  ensemble_eq := rfl
  settings_eq := rfl
  optimizer_eq := rfl
  target_eq := htarget
  numApprox_pos := hlow
  numFunctions_pos := hqoi
  costs_eq := Costs.check_eq_ok_iff.mpr ⟨rfl, hcosts⟩

theorem sampleWith_of_checked {plan : Plan σ α} (h : Checked ensemble settings optimizer plan)
    (state : σ) : sampleWith optimizer ensemble settings state = plan.execute state := by
  unfold sampleWith
  rw [check_eq_ok_iff.mpr h, Recorder.bind_of_ok (Recorder.outcome_ofExcept _)]
  rfl

/-- A run whose plan is checked executes it. A run whose plan is not checked does nothing. -/
theorem sampleWith_eq (optimizer : Optimizer α) (ensemble : Ensemble σ α) (settings : Settings α)
    (state : σ) :
    (∃ plan, Checked ensemble settings optimizer plan ∧
        sampleWith optimizer ensemble settings state = plan.execute state) ∨
      ∃ failure, sampleWith optimizer ensemble settings state = .fail failure := by
  cases hcheck : check ensemble settings optimizer with
  | error failure =>
    right
    unfold sampleWith
    rw [hcheck]
    exact ⟨failure, Recorder.bind_of_error rfl _⟩
  | ok plan =>
    have hplan := check_eq_ok_iff.mp hcheck
    exact Or.inl ⟨plan, hplan, sampleWith_of_checked hplan state⟩

end Plan

/-- A budget that is accepted is positive and finite, and it is the target. -/
theorem Settings.target_of_budget {α : Type} [Scalar α] {settings : Settings α} {budget : α}
    {target : Target α} (hbudget : settings.budget = some budget)
    (h : settings.target = .ok target) :
    target = .budget budget ∧ Scalar.isPositiveFinite budget = true ∧
      settings.pilotSamples ≠ 0 := by
  unfold Settings.target at h
  rw [hbudget] at h
  split at h
  · cases h
  · rename_i hpilot
    cases htolerance : settings.tolerance with
    | some tolerance =>
      rw [htolerance] at h
      cases h
    | none =>
      rw [htolerance] at h
      dsimp only at h
      split at h
      · rename_i hpositive
        cases h
        exact ⟨rfl, hpositive, hpilot⟩
      · cases h

/-- A budget is the target of settings that have no tolerance. -/
theorem Settings.target_eq_budget {α : Type} [Scalar α] {settings : Settings α} {budget : α}
    (hbudget : settings.budget = some budget) (htolerance : settings.tolerance = none)
    (hpilot : settings.pilotSamples ≠ 0) (hpositive : Scalar.isPositiveFinite budget = true) :
    settings.target = .ok (.budget budget) := by
  unfold Settings.target
  rw [if_neg hpilot, hbudget, htolerance]
  exact if_pos hpositive

/-- An offline pilot has no tolerance as its target. -/
theorem Settings.exists_budget_of_offline {α : Type} [Scalar α] {settings : Settings α}
    {target : Target α} (h : settings.target = .ok target)
    (hmode : settings.pilotMode = .offline) : ∃ budget, target = .budget budget := by
  unfold Settings.target at h
  repeat' split at h
  all_goals cases h
  exact ⟨_, rfl⟩

/-! ## Faultless ensembles -/

/-- The number of samples that a call requests. -/
def Call.samples : Call → ℕ
  | .shared _ samples | .approx _ _ samples => samples

/-- The models on which a call requests samples. -/
def Call.models (numApprox : ℕ) : Call → List ℕ
  | .shared .. => List.range (numApprox + 1)
  | .approx _ models _ => models

/-- An ensemble that answers every call with the number of samples it requests, and with a finite
value of every model it requests. -/
structure Ensemble.Faultless {σ α : Type} [Scalar α] (ensemble : Ensemble σ α) : Prop where
  length : ∀ call state, (ensemble.respond call state).1.length = call.samples
  value : ∀ call state, ∀ response ∈ (ensemble.respond call state).1,
    ∀ model ≤ ensemble.dims.numApprox, model ∈ call.models ensemble.dims.numApprox →
      ∀ qoi < ensemble.dims.numFunctions, ∃ x, ensemble.dims.value? response model qoi = some x

/-- A faultless ensemble with real costs, an optimizer that keeps to the constraints of its
problems, and a budget. -/
structure Plan.Reliable {σ : Type} (plan : Plan σ ExactReal) (cs : List ℝ) (budget : ℝ) : Prop where
  faultless : plan.ensemble.Faultless
  priced : plan.Priced cs
  ordered : plan.optimizer.Ordered
  target : plan.target = .budget (.real budget)
  budget_pos : 0 < budget
  numFunctions_pos : 0 < plan.ensemble.dims.numFunctions

/-- A plan for a faultless ensemble is reliable if its optimizer is ordered. -/
theorem Plan.Checked.exists_reliable {σ : Type} {ensemble : Ensemble σ ExactReal}
    {settings : Settings ExactReal} {optimizer : Optimizer ExactReal} {plan : Plan σ ExactReal}
    (h : Checked ensemble settings optimizer plan) (hfaultless : ensemble.Faultless)
    (hordered : optimizer.Ordered) {budget : ExactReal} (hbudget : settings.budget = some budget) :
    ∃ cs b, budget = .real b ∧ plan.Reliable cs b ∧
      1 + (⟨ensemble.costs⟩ : Costs ExactReal).companions ensemble.dims.numApprox =
        .real (sampleCost cs plan.numApprox) := by
  obtain ⟨htarget, hpositive, -⟩ := Settings.target_of_budget hbudget h.target_eq
  obtain ⟨b, hb, rfl⟩ := ExactReal.isPositiveFinite_iff.mp hpositive
  obtain ⟨cs, hpriced, hcosts⟩ := h.exists_priced
  refine ⟨cs, b, rfl, ⟨?_, hpriced, ?_, htarget, hb, ?_⟩, ?_⟩
  · rwa [h.ensemble_eq]
  · rwa [h.optimizer_eq]
  · rw [h.ensemble_eq]
    exact h.numFunctions_pos
  · have hone := one_add_companions_real hpriced.length hpriced.pos
    rw [hcosts, ← hone, Plan.numApprox, h.ensemble_eq]

namespace Plan

variable {σ α : Type} [Scalar α] (plan : Plan σ α)

/-! ## Shared increments -/

/-- The batch and the next state of the ensemble that answer a call. -/
def answer (call : Call) (bench : Bench σ α) : Batch α × σ :=
  plan.ensemble.respond call bench.state

variable {plan} {M : ℕ} {iteration samples : ℕ} {bench : Bench σ α}

omit [Scalar α] in
theorem outcome_draw (call : Call) (bench : Bench σ α) :
    (plan.draw call bench).outcome =
      .ok ((plan.answer call bench).1, ⟨(plan.answer call bench).2, bench.spent⟩) := rfl

omit [Scalar α] in
theorem journal_draw (call : Call) (bench : Bench σ α) :
    (plan.draw call bench).journal = [.increment call (plan.answer call bench).1] := rfl

theorem sharedIncrement_journal (charged : Bool) (sums : JointSums α M) :
    (plan.sharedIncrement iteration samples charged sums bench).journal =
      [.logged (.sharedIncrement iteration samples),
        .increment (.shared iteration samples)
          (plan.answer (.shared iteration samples) bench).1] := by
  unfold sharedIncrement
  rw [Recorder.bind_of_ok (outcome_log _), Recorder.bind_of_ok (outcome_draw _ bench),
    journal_log, journal_draw]
  dsimp only
  rw [Recorder.journal_bind, Recorder.journal_ofExcept, Recorder.outcome_ofExcept]
  cases sums.accumulate (plan.answer (.shared iteration samples) bench).1 with
  | ok result => rfl
  | error failure => rfl

theorem sharedIncrement_eq_ok_iff {charged : Bool} {sums : JointSums α M}
    {drawn : SharedSamples σ α M} :
    (plan.sharedIncrement iteration samples charged sums bench).outcome = .ok drawn ↔
      let answer := plan.answer (.shared iteration samples) bench
      sums.accumulate answer.1 = .ok drawn.sums ∧
        drawn.bench = if charged then
            plan.charge (List.range (plan.numApprox + 1)) answer.1.length ⟨answer.2, bench.spent⟩
          else ⟨answer.2, bench.spent⟩ := by
  unfold sharedIncrement
  rw [Recorder.bind_of_ok (outcome_log _), Recorder.bind_of_ok (outcome_draw _ bench)]
  dsimp only
  rw [Recorder.outcome_bind_eq_ok, Recorder.outcome_ofExcept]
  constructor
  · rintro ⟨result, hresult, h⟩
    cases h
    exact ⟨hresult, rfl⟩
  · rintro ⟨hresult, hbench⟩
    refine ⟨drawn.sums, hresult, ?_⟩
    rw [Recorder.outcome_pure, ← hbench]

/-- A shared increment of a faultless ensemble adds its samples to the counts of all QoI. -/
theorem accumulate_of_faultless (h : plan.ensemble.Faultless) {sums result : JointSums α M}
    (hsums : sums.Sized plan.ensemble.dims)
    (hresult : sums.accumulate (plan.answer (.shared iteration samples) bench).1 = .ok result) :
    result.Sized plan.ensemble.dims ∧ result.counts = sums.counts.map (· + samples) := by
  have hlength : (plan.answer (.shared iteration samples) bench).1.length = samples :=
    h.length _ bench.state
  refine ⟨hsums.accumulate hresult, ?_⟩
  -- every response is a joint sample at every QoI, as all models have been requested
  rw [JointSums.counts_accumulate hresult, hlength]
  intro response hresponse qoi hqoi
  rw [hsums.dims_eq]
  refine Dimensions.exists_joint? fun model hmodel => ?_
  exact h.value _ bench.state response hresponse model hmodel (List.mem_range.mpr (by omega)) qoi
    (hsums.length_qois ▸ hqoi)

/-! ## Charges -/

section Charge

open ExactReal

variable {plan : Plan σ ExactReal} {cs : List ℝ} (hpriced : plan.Priced cs)
include hpriced

theorem charge_all (samples : ℕ) (state : σ) (spent : ℝ) :
    (plan.charge (List.range (plan.numApprox + 1)) samples ⟨state, real spent⟩).spent =
      real (spent + samples * sampleCost cs plan.numApprox) := by
  unfold charge
  dsimp only
  rw [hpriced.costs_eq, equivalents_all hpriced.length hpriced.pos, real_add]

theorem charge_along (order : ModelOrder) (stop samples : ℕ) (state : σ) (spent : ℝ) :
    (plan.charge (order.along stop) samples ⟨state, real spent⟩).spent =
      real (spent + samples *
        ∑ i ∈ Finset.range stop, weight cs plan.numApprox (order.model i)) := by
  have hhigh := (getD_pos hpriced.length hpriced.pos le_rfl).ne'
  unfold charge
  dsimp only
  rw [hpriced.costs_eq, Costs.equivalents_real hhigh, real_add, ModelOrder.along, List.map_map,
    sum_map_range]
  congr 2
  rw [mul_div_assoc, Finset.sum_div]
  rfl

end Charge

/-! ## Allocations -/

variable (plan) in
/-- What an allocation is based on. -/
def ratioInputs (correlations : Correlations α) (highCounts : List ℕ) (spent : α)
    (pilotVariance : Option (List α)) (previous : Option (Allocation α)) : RatioInputs α where
  correlations := correlations
  costs := plan.costs
  target := plan.target
  highCounts := highCounts
  spent := spent
  pilotVariance := pilotVariance
  previous := previous.map (·.evalRatios.solution)
  preferReordered := plan.settings.preferReordered
  tolerances := plan.settings.tolerances

section Allocate

variable {correlations : Correlations α} {highCounts : List ℕ} {spent : α}
  {pilotVariance : Option (List α)} {previous : Option (Allocation α)}

/-- An allocation is what its inputs lead to. -/
theorem allocate_eq_ok_iff {allocation : Allocation α} :
    (plan.allocate correlations highCounts spent pilotVariance previous).outcome =
        .ok allocation ↔
    ((plan.ratioInputs correlations highCounts spent pilotVariance previous).evalRatios
        plan.optimizer).outcome = .ok allocation.evalRatios ∧
      allocation.correlations = correlations ∧
      allocation.varianceRatios = realizedVarianceRatios allocation.evalRatios.rhoSq
        allocation.evalRatios.solution allocation.evalRatios.highTargets highCounts := by
  unfold allocate
  constructor
  · intro h
    obtain ⟨evalRatios, heval, h⟩ := Recorder.outcome_bind_eq_ok.mp h
    obtain ⟨-, -, h⟩ := Recorder.outcome_bind_eq_ok.mp h
    cases h
    exact ⟨heval, rfl, rfl⟩
  · obtain ⟨correlations', evalRatios, varianceRatios⟩ := allocation
    dsimp only
    rintro ⟨heval, rfl, rfl⟩
    exact Recorder.outcome_bind_eq_ok.mpr ⟨evalRatios, heval, rfl⟩

theorem only_allocate :
    (plan.allocate correlations highCounts spent pilotVariance previous).Only
      Event.IsInternal := by
  unfold allocate
  refine .bind RatioInputs.only_evalRatios fun _ _ => ?_
  exact .bind (only_logAll (fun _ => trivial) _) fun _ _ => .pure _

end Allocate

/-- What an allocation is based on if all QoI have the same count. -/
theorem funded_ratioInputs {plan : Plan σ ExactReal} {cs : List ℝ} {m count : ℕ} {budget : ℝ}
    (hpriced : plan.Priced cs) (htarget : plan.target = .budget (.real budget))
    (hbudget : 0 < budget) (hqoi : 0 < plan.ensemble.dims.numFunctions)
    {sums : JointSums ExactReal (m + 1)} (hsums : sums.Sized plan.ensemble.dims)
    (hcounts : sums.counts = List.replicate plan.ensemble.dims.numFunctions count)
    {correlations : Correlations ExactReal} (hcorrelations : sums.correlations = .ok correlations)
    (spent : ExactReal) (pilotVariance : Option (List ExactReal))
    (previous : Option (Allocation ExactReal))
    (hprevious : ∀ allocation, previous = some allocation →
      allocation.evalRatios.solution.order.Valid plan.numApprox) :
    (plan.ratioInputs correlations sums.counts spent pilotVariance previous).Funded cs
      plan.ensemble.dims count budget where
  target := htarget
  budget_pos := hbudget
  costs := hpriced.costs_eq
  length := hpriced.length
  cost_pos := hpriced.pos
  numFunctions_pos := hqoi
  full := JointSums.full_correlations hsums hcorrelations
  rows := by
    rw [ratioInputs, JointSums.rows_correlations hcorrelations, hcounts, List.length_replicate]
  cols := by
    rw [ratioInputs, JointSums.cols_correlations hcorrelations, hsums.dims_eq]
  counts := hcounts
  count_pos := by
    -- correlations need two samples
    have htwo := JointSums.two_le_of_correlations hcorrelations count (by
      rw [hcounts]
      exact List.mem_replicate.mpr ⟨hqoi.ne', rfl⟩)
    omega
  previous := by
    intro solution hsolution
    obtain ⟨allocation, hallocation, rfl⟩ := Option.map_eq_some_iff.mp hsolution
    exact hprevious allocation hallocation

end Plan

end Multifidelity
