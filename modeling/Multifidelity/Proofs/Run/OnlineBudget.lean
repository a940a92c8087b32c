import Multifidelity.Proofs.Run.Exhaustion
import Multifidelity.Proofs.Run.Refinement

/-!
# The cost of online runs

An online run that ends with a search keeps to its budget, up to one sample of every model and up to
rounding, unless already the pilot costs more. Between two shared increments all QoI have the same
count, and every sample of it has been charged on all models. The next increment stops at the first
count that covers the high-fidelity targets.

## Main definitions

* `Progress.Balanced`: what holds between two shared increments

## Main results

* `Plan.Steps.balanced`, `Plan.exists_balanced_of_iterate`: one step, and all of them
* `online_spent_le`: the cost of a run that ends with a search
-/

namespace Multifidelity

open ExactReal

/-! ## Increments -/

/-- The next increment exceeds the budget by less than one sample of all models. A search that finds
the budget exhausted needs no increment. -/
theorem RatioInputs.Funded.increment_eq_zero_or_le {inputs : RatioInputs ExactReal} {cs : List ℝ}
    {dims : Dimensions} {count : ℕ} {budget : ℝ} (h : inputs.Funded cs dims count budget)
    {optimizer : Optimizer ExactReal} (hordered : optimizer.Ordered)
    {result : EvalRatios ExactReal} (hresult : (inputs.evalRatios optimizer).outcome = .ok result) :
    increment (List.replicate dims.numFunctions count) result.highTargets 1 = 0 ∨
      (count + increment (List.replicate dims.numFunctions count) result.highTargets 1) *
          sampleCost cs dims.numApprox ≤ budget * (1 + 1e-10) + sampleCost cs dims.numApprox := by
  by_cases hexhausted : result.solution.form = .numerical ∧
      inputs.isExhausted dims.numApprox (real budget) = true
  · left
    rw [(h.within_of_isExhausted hresult hexhausted.1 hexhausted.2).highTargets,
      increment_replicate h.numFunctions_pos.ne', Nat.ceil_natCast, Nat.sub_self, Nat.zero_min]
  · have htargets := h.highTargets_le hresult hordered fun hform =>
      Bool.eq_false_of_not_eq_true fun htrue => hexhausted ⟨hform, htrue⟩
    have hcost := zero_lt_one.trans_le (one_le_sampleCost h.length h.cost_pos)
    have hbudget := h.budget_pos
    have hle := increment_le (q := dims.numFunctions) (n := count)
      fun target htarget => Or.inl (htargets target htarget)
    rcases Nat.eq_zero_or_pos
      (increment (List.replicate dims.numFunctions count) result.highTargets 1) with hzero | hpos
    · exact Or.inl hzero
    · right
      generalize increment (List.replicate dims.numFunctions count) result.highTargets 1 =
        pending at hle hpos ⊢
      -- the increment stops at the first count that covers the largest target
      have hceil : count + pending ≤
          ⌈budget * (1 + 1e-10) / sampleCost cs dims.numApprox⌉₊ := by omega
      have hlt := Nat.ceil_lt_add_one
        (show 0 ≤ budget * (1 + 1e-10) / sampleCost cs dims.numApprox by positivity)
      have hsum : (count + pending : ℝ) ≤
          budget * (1 + 1e-10) / sampleCost cs dims.numApprox + 1 := by
        refine le_trans ?_ hlt.le
        exact_mod_cast hceil
      calc (count + pending : ℝ) * sampleCost cs dims.numApprox
          ≤ (budget * (1 + 1e-10) / sampleCost cs dims.numApprox + 1) *
              sampleCost cs dims.numApprox := mul_le_mul_of_nonneg_right hsum hcost.le
        _ = budget * (1 + 1e-10) + sampleCost cs dims.numApprox := by
          rw [add_mul, div_mul_cancel₀ _ hcost.ne', one_mul]

/-! ## Balance -/

/-- The state between two shared increments: equal counts that have been charged on all models, and
a next increment that exceeds the budget by less than one sample of all models. A search keeps to
the counts, or its targets are within the budget and cover the counts. -/
structure Progress.Balanced {σ : Type} (plan : Plan σ ExactReal) (cs : List ℝ) (budget : ℝ)
    (count : ℕ) (progress : Progress σ ExactReal) : Prop where
  sized : progress.sums.Sized plan.ensemble.dims
  counts : progress.sums.counts = List.replicate plan.ensemble.dims.numFunctions count
  spent : progress.bench.spent = real (count * sampleCost cs plan.numApprox)
  order : progress.allocation.evalRatios.solution.order.Valid plan.numApprox
  pending : progress.pending = 0 ∨ (count + progress.pending) * sampleCost cs plan.numApprox ≤
    budget * (1 + 1e-10) + sampleCost cs plan.numApprox
  within : progress.allocation.evalRatios.solution.form = .numerical →
    progress.allocation.evalRatios.Within cs plan.ensemble.dims
        (count * sampleCost cs plan.numApprox) count (fun _ => count) ∨
      ∃ high low, progress.allocation.evalRatios.Within cs plan.ensemble.dims
        (budget * (1 + 1e-10)) high low ∧ count ≤ high

namespace Plan

variable {σ : Type} {plan : Plan σ ExactReal} {cs : List ℝ} {budget : ℝ}
  {before : Option (Progress σ ExactReal)} {iteration samples count : ℕ}
  {bench : Bench σ ExactReal} {sums : JointSums ExactReal 4} {next : Progress σ ExactReal}

section Step

variable (h : plan.Steps before iteration samples bench sums next)
  (hplan : plan.Reliable cs budget) (hsums : sums.Sized plan.ensemble.dims)
  (hcounts : sums.counts = List.replicate plan.ensemble.dims.numFunctions count)
  (hbefore : ∀ progress, before = some progress →
    progress.allocation.evalRatios.solution.order.Valid plan.numApprox)
include h hplan hsums hcounts

omit hbefore in
theorem Steps.counts_eq : next.sums.Sized plan.ensemble.dims ∧
    next.sums.counts = List.replicate plan.ensemble.dims.numFunctions (count + samples) := by
  obtain ⟨hsized, hnext⟩ := accumulate_of_faultless hplan.faultless hsums h.sums
  rw [hcounts, List.map_replicate] at hnext
  exact ⟨hsized, hnext⟩

include hbefore

theorem Steps.funded : (plan.ratioInputs next.allocation.correlations next.sums.counts
    next.bench.spent (some next.pilot.variance) (before.map Progress.allocation)).Funded cs
      plan.ensemble.dims (count + samples) budget := by
  obtain ⟨hsized, hnext⟩ := h.counts_eq hplan hsums hcounts
  refine funded_ratioInputs hplan.priced hplan.target hplan.budget_pos hplan.numFunctions_pos
    hsized hnext h.correlations _ _ _ fun allocation hallocation => ?_
  obtain ⟨progress, hprogress, rfl⟩ := Option.map_eq_some_iff.mp hallocation
  exact hbefore progress hprogress

/-- A step keeps the balance. -/
theorem Steps.balanced (hspent : bench.spent = real (count * sampleCost cs plan.numApprox)) :
    next.Balanced plan cs budget (count + samples) := by
  obtain ⟨hsized, hnext⟩ := h.counts_eq hplan hsums hcounts
  have hfunded := h.funded hplan hsums hcounts hbefore
  obtain ⟨heval, -, -⟩ := allocate_eq_ok_iff.mp h.allocation
  have hdrawn : (plan.answer (.shared iteration samples) bench).1.length = samples :=
    hplan.faultless.length _ bench.state
  refine ⟨hsized, hnext, ?_, hfunded.valid_order heval, ?_, fun hform => ?_⟩
  · rw [h.bench, hdrawn, hspent, charge_all hplan.priced, Nat.cast_add, add_mul]
  · rw [h.pending, hnext]
    exact hfunded.increment_eq_zero_or_le hplan.ordered heval
  · -- a search has found the budget exhausted, or not
    cases hexhausted : RatioInputs.isExhausted _ plan.ensemble.dims.numApprox (real budget) with
    | true => exact Or.inl (hfunded.within_of_isExhausted heval hform hexhausted)
    | false =>
      obtain ⟨high, low, hwithin, hcount⟩ :=
        hfunded.exists_within heval hplan.ordered (Or.inl hform) fun _ => hexhausted
      exact Or.inr ⟨high, low, hwithin, hcount hform⟩

/-- A search keeps to the counts once the cost has reached the budget. -/
theorem Steps.within_of_spent
    (hform : next.allocation.evalRatios.solution.form = .numerical)
    (hspent : real budget ≤ next.bench.spent) :
    next.allocation.evalRatios.Within cs plan.ensemble.dims
      ((count + samples : ℕ) * sampleCost cs plan.numApprox) (count + samples : ℕ)
      fun _ => (count + samples : ℕ) := by
  obtain ⟨heval, -, -⟩ := allocate_eq_ok_iff.mp h.allocation
  refine (h.funded hplan hsums hcounts hbefore).within_of_isExhausted heval hform ?_
  rw [RatioInputs.isExhausted, Bool.or_eq_true]
  exact Or.inl (decide_eq_true hspent)

end Step

/-- Steps that start with a balanced state end with one, and they exceed the budget by no more than
one sample of all models unless they did so at the start. -/
theorem exists_balanced_of_iterate (hplan : plan.Reliable cs budget) {limit : ℕ}
    {progress last : Progress σ ExactReal} (hprogress : progress.Balanced plan cs budget count)
    (hlast : (plan.iterate limit progress).outcome = .ok last) :
    ∃ final, last.Balanced plan cs budget final ∧
      (final = count ∨ final * sampleCost cs plan.numApprox ≤
        budget * (1 + 1e-10) + sampleCost cs plan.numApprox) := by
  -- either no step has been made, or the last one stopped at a count within the bound
  induction limit generalizing progress count with
  | zero =>
    cases hlast
    exact ⟨count, hprogress, Or.inl rfl⟩
  | succ limit ih =>
    unfold iterate at hlast
    split at hlast
    · cases hlast
      exact ⟨count, hprogress, Or.inl rfl⟩
    · rename_i hpending
      obtain ⟨next, hnext, hlast⟩ := Recorder.outcome_bind_eq_ok.mp hlast
      have hbalanced := (step_eq_ok_iff.mp hnext).balanced hplan hprogress.sized hprogress.counts
        (fun _ hbefore => by cases hbefore; exact hprogress.order) hprogress.spent
      obtain ⟨final, hfinal, hcost⟩ := ih hbalanced hlast
      refine ⟨final, hfinal, Or.inr ?_⟩
      rcases hcost with rfl | hcost
      · rw [Nat.cast_add]
        exact hprogress.pending.resolve_left hpending
      · exact hcost

/-- The cost of an online run that ends with a search. -/
theorem exists_spent_le_of_online (hplan : plan.Reliable cs budget) {state : σ}
    {report : Report ExactReal} (hreport : (plan.online state).outcome = .ok report)
    (hform : report.solution.form = .numerical) :
    ∃ final, report.spent = real final ∧
      final ≤ max (plan.settings.pilotSamples * sampleCost cs plan.numApprox)
        (budget * (1 + 1e-10) + sampleCost cs plan.numApprox) := by
  unfold online at hreport
  obtain ⟨first, hfirst, hreport⟩ := Recorder.outcome_bind_eq_ok.mp hreport
  obtain ⟨last, hlast, hreport⟩ := Recorder.outcome_bind_eq_ok.mp hreport
  obtain ⟨-, -, hreport⟩ := Recorder.outcome_bind_eq_ok.mp hreport
  -- the pilot is a step from empty sums
  have hstart : first.Balanced plan cs budget (0 + plan.settings.pilotSamples) :=
    (step_eq_ok_iff.mp hfirst).balanced hplan (JointSums.sized_empty _)
      (JointSums.counts_empty _) (by simp) (by simp)
  rw [zero_add] at hstart
  obtain ⟨count, hbalanced, hcount⟩ := exists_balanced_of_iterate hplan hstart hlast
  obtain ⟨-, -, -, hsolution⟩ := finish_eq_ok hreport
  rw [hsolution] at hform
  rcases hbalanced.within hform with hwithin | ⟨high, low, hwithin, hhigh⟩
  · -- the search has found the budget exhausted, and nothing has been drawn since
    refine ⟨_, spent_of_finish_of_le hplan.faultless hplan.priced hbalanced.order hwithin
      hplan.numFunctions_pos hbalanced.sized hbalanced.counts hbalanced.spent hreport
      fun _ _ => le_rfl, ?_⟩
    rcases hcount with rfl | hcount
    · exact le_max_left _ _
    · exact hcount.trans (le_max_right _ _)
  · obtain ⟨final, hfinal, hle⟩ := exists_spent_le_of_finish hplan.faultless hplan.priced
      hbalanced.order hwithin hplan.numFunctions_pos hbalanced.sized hbalanced.counts
      hbalanced.spent hreport le_rfl (by linarith) rfl
    rw [one_mul] at hle
    exact ⟨final, hfinal, hle.trans (le_max_right _ _)⟩

/-- A run whose pilot spends the budget, and that searches then, ends with a report at once. -/
theorem exists_online_of_spent (hplan : plan.Reliable cs budget) {state : σ}
    {first : Progress σ ExactReal}
    (hfirst : (plan.step none 0 plan.settings.pilotSamples ⟨state, 0⟩
      (.empty plan.ensemble.dims)).outcome = .ok first)
    (hform : first.allocation.evalRatios.solution.form = .numerical)
    (hspent : real budget ≤ first.bench.spent) :
    ∃ report, (plan.online state).outcome = .ok report ∧
      report.solution.form = .numerical := by
  have hsteps := step_eq_ok_iff.mp hfirst
  have hcounts := JointSums.counts_empty (α := ExactReal) (M := 4) plan.ensemble.dims
  have hbalanced : first.Balanced plan cs budget (0 + plan.settings.pilotSamples) :=
    hsteps.balanced hplan (JointSums.sized_empty _) hcounts (by simp) (by simp)
  have hfunded := hsteps.funded hplan (JointSums.sized_empty _) hcounts (by simp)
  have hwithin := hsteps.within_of_spent hplan (JointSums.sized_empty _) hcounts (by simp) hform
    hspent
  -- the search keeps to the counts, so that no increment follows
  have hpending : first.pending = 0 := by
    rw [hsteps.pending, hbalanced.counts, hwithin.highTargets,
      increment_replicate hplan.numFunctions_pos.ne', Nat.ceil_natCast, Nat.sub_self, Nat.zero_min]
  have hiterate : (plan.iterate plan.settings.maxIterations first).outcome = .ok first :=
    iterate_of_pending_eq_zero plan.settings.maxIterations hpending
  obtain ⟨report, hreport, hsolution⟩ := exists_finish_of_within hbalanced.order hwithin
    hbalanced.sized hbalanced.counts hfunded.count_pos (fun _ _ => le_rfl) first.iterations
    first.bench (some first.pilot) (first.allocation.evalRatios.warnings ++ limitWarnings first)
  refine ⟨report, ?_, ?_⟩
  · unfold online
    refine Recorder.outcome_bind_eq_ok.mpr ⟨first, hfirst, ?_⟩
    refine Recorder.outcome_bind_eq_ok.mpr ⟨first, hiterate, ?_⟩
    exact Recorder.outcome_bind_eq_ok.mpr ⟨(), rfl, hreport⟩
  · rw [hsolution]
    exact hform

end Plan

/-! ## Runs -/

/-- An online run of a faultless ensemble that ends with a search costs at most its pilot, or the
budget, up to rounding, and one sample of every model more. -/
theorem online_spent_le {σ : Type} {optimizer : Optimizer ExactReal}
    (hordered : optimizer.Ordered) {ensemble : Ensemble σ ExactReal}
    (hfaultless : ensemble.Faultless) {settings : Settings ExactReal}
    (honline : settings.pilotMode = .online) {budget : ExactReal}
    (hbudget : settings.budget = some budget) {state : σ} {report : Report ExactReal}
    (hreport : (sampleWith optimizer ensemble settings state).outcome = .ok report)
    (hform : report.solution.form = .numerical) :
    let companions := (⟨ensemble.costs⟩ : Costs ExactReal).companions ensemble.dims.numApprox
    report.spent ≤ Scalar.larger (Scalar.ofCount settings.pilotSamples * (1 + companions))
      (budget * (1 + 1e-10) + (1 + companions)) := by
  intro companions
  rcases Plan.sampleWith_eq optimizer ensemble settings state with ⟨plan, hchecked, hrun⟩ |
    ⟨failure, hrun⟩
  · obtain ⟨cs, b, rfl, hplan, hcompanions⟩ :=
      hchecked.exists_reliable hfaultless hordered hbudget
    rw [hrun, Plan.execute, hchecked.settings_eq, honline] at hreport
    obtain ⟨final, hfinal, hle⟩ := Plan.exists_spent_le_of_online hplan hreport hform
    rw [hchecked.settings_eq] at hle
    rw [hfinal, hcompanions]
    simpa using hle
  · rw [hrun] at hreport
    cases hreport

/-! ## A pilot that spends the budget -/

/-- The first response is the only one that does not vanish. The first of two low-fidelity models
agrees with the high-fidelity one. -/
noncomputable def spikeRow : ℕ → Response ExactReal
  | 0 => [1, 0, 1]
  | _ => [0, 0, 0]

/-- An ensemble that answers every call with a single spike. -/
noncomputable def spikeEnsemble : Ensemble Unit ExactReal where
  dims := ⟨2, 1⟩
  costs := [1, 1, 1]
  respond call _ := ((List.range call.samples).map spikeRow, ())

theorem exists_spikeRow (i : ℕ) : ∃ x y z, spikeRow i = [real x, real y, real z] := by
  cases i with
  | zero => exact ⟨1, 0, 1, rfl⟩
  | succ i => exact ⟨0, 0, 0, rfl⟩

theorem faultless_spikeEnsemble : spikeEnsemble.Faultless where
  length call _ := by simp [spikeEnsemble]
  value call _ response hresponse model hmodel _ qoi hqoi := by
    obtain ⟨i, -, rfl⟩ := List.mem_map.mp hresponse
    obtain ⟨x, y, z, hrow⟩ := exists_spikeRow i
    have hmodel : model ≤ 2 := hmodel
    have hqoi : qoi < 1 := hqoi
    rw [hrow]
    interval_cases qoi
    interval_cases model <;> simp [Dimensions.value?, spikeEnsemble]

theorem joint_spikeRow (zeros : ℕ) {qoi : ℕ} (hqoi : qoi < 1) :
    ((List.range (zeros + 1)).map spikeRow).filterMap ((⟨2, 1⟩ : Dimensions).joint? · qoi) =
      (spike zeros).map RealSample.toJoint := by
  have htwo : List.range 2 = [0, 1] := rfl
  interval_cases qoi
  rw [List.range_succ_eq_map, List.map_cons, List.map_map]
  have hzeros : (List.range zeros).map (spikeRow ∘ Nat.succ) =
      List.replicate zeros [real 0, real 0, real 0] := by
    refine List.eq_replicate_iff.mpr ⟨by simp, fun row hrow => ?_⟩
    obtain ⟨i, -, rfl⟩ := List.mem_map.mp hrow
    rfl
  rw [hzeros, spike, List.filterMap_cons, List.filterMap_replicate]
  simp [spikeRow, Dimensions.joint?, Dimensions.value?, htwo, RealSample.toJoint]

/-- An increment on all models leads to correlations that are not ordered. -/
theorem exists_spike_correlations (m zeros : ℕ) (hzeros : zeros ≠ 0) :
    ∃ (sums : JointSums ExactReal (m + 1)) (correlations : Correlations ExactReal),
      (JointSums.empty ⟨2, 1⟩).accumulate ((List.range (zeros + 1)).map spikeRow) = .ok sums ∧
      sums.correlations = .ok correlations ∧
      selectForm (sanitize correlations.rhoSq .default).1
        (Tolerances.default : Tolerances ExactReal).ordering false = .numerical := by
  obtain ⟨sums, correlations, hsums, -, hcorrelations, hrho⟩ :=
    JointSums.exists_correlations m ⟨2, 1⟩ ((List.range (zeros + 1)).map spikeRow)
      (fun _ => spike zeros)
      (fun response hresponse => by
        obtain ⟨i, -, rfl⟩ := List.mem_map.mp hresponse
        obtain ⟨x, y, z, hrow⟩ := exists_spikeRow i
        rw [hrow]
        rfl)
      (fun qoi hqoi => joint_spikeRow zeros hqoi)
      (fun qoi _ => by
        rw [spike, List.length_cons, List.length_replicate]
        omega)
  refine ⟨sums, correlations, hsums, hcorrelations, ?_⟩
  have hrows : correlations.rhoSq = .ofRows 2 (List.replicate 1 [real 1, real 0]) := by
    have htwo : List.range 2 = [0, 1] := rfl
    simp [hrho, htwo, correlationSq_spike_zero hzeros, correlationSq_spike_one]
  rw [hrows]
  exact selectForm_perfect_then_none one_ne_zero

/-- A run with a budget of one evaluation. -/
noncomputable def spikePlan (settings : Settings ExactReal) : Plan Unit ExactReal where
  ensemble := spikeEnsemble
  settings := settings
  optimizer := unitOptimizer
  target := .budget (real 1)
  costs := ⟨[1, 1, 1]⟩

theorem checked_spikePlan {settings : Settings ExactReal}
    (htarget : settings.target = .ok (.budget (real 1))) :
    Plan.Checked spikeEnsemble settings unitOptimizer (spikePlan settings) := by
  refine Plan.checked_of_usable htarget two_pos one_pos ⟨rfl, ?_⟩ _
  simp [spikeEnsemble, Scalar.isPositiveFinite]

theorem priced_spikePlan (settings : Settings ExactReal) :
    (spikePlan settings).Priced [1, 1, 1] where
  costs_eq := rfl
  length := rfl
  pos := by simp

theorem reliable_spikePlan (settings : Settings ExactReal) :
    (spikePlan settings).Reliable [1, 1, 1] 1 where
  faultless := faultless_spikeEnsemble
  priced := priced_spikePlan settings
  ordered := ordered_unitOptimizer
  target := rfl
  budget_pos := one_pos
  numFunctions_pos := one_pos

theorem sampleCost_spike : sampleCost [1, 1, 1] 2 = 3 := by
  norm_num [sampleCost, weight, Finset.sum_range_succ]

theorem one_add_companions_spike :
    1 + (⟨spikeEnsemble.costs⟩ : Costs ExactReal).companions spikeEnsemble.dims.numApprox =
      real 3 := by
  have hone := one_add_companions_real (priced_spikePlan .default).length
    (priced_spikePlan .default).pos
  rwa [show (spikePlan .default).numApprox = 2 from rfl, sampleCost_spike] at hone

/-- All samples of a pilot are charged. -/
theorem charge_spike (settings : Settings ExactReal) (samples : ℕ) :
    (0 : ExactReal) + (spikePlan settings).costs.equivalents (spikePlan settings).numApprox
      (List.range ((spikePlan settings).numApprox + 1))
      ((spikePlan settings).answer (.shared 0 samples) ⟨(), 0⟩).1.length = real (samples * 3) := by
  have hlength : ((spikePlan settings).answer (.shared 0 samples) ⟨(), 0⟩).1.length = samples :=
    faultless_spikeEnsemble.length (.shared 0 samples) ()
  have hcharge := Plan.charge_all (priced_spikePlan settings) samples () 0
  rw [show (spikePlan settings).numApprox = 2 from rfl, sampleCost_spike, zero_add] at hcharge
  rw [hlength]
  exact hcharge

/-- A pilot of two samples spends a budget of a single evaluation. Whatever the optimizer is, the
run ends with a search that keeps to the pilot. -/
theorem exists_online_spike {optimizer : Optimizer ExactReal} (hordered : optimizer.Ordered) :
    ∃ report, (sampleWith optimizer spikeEnsemble (.withBudget 2 (real 1)) ()).outcome =
        .ok report ∧ report.solution.form = .numerical := by
  let plan : Plan Unit ExactReal := { spikePlan (.withBudget 2 (real 1)) with optimizer }
  have hplan : plan.Reliable [1, 1, 1] 1 :=
    ⟨faultless_spikeEnsemble, ⟨rfl, rfl, by simp⟩, hordered, rfl, one_pos, one_pos⟩
  have hchecked : Plan.Checked spikeEnsemble (.withBudget 2 (real 1)) optimizer plan :=
    Plan.checked_of_usable
      (Settings.target_eq_budget rfl rfl two_ne_zero (by simp [Scalar.isPositiveFinite]))
      two_pos one_pos ⟨rfl, by simp [spikeEnsemble, Scalar.isPositiveFinite]⟩ optimizer
  obtain ⟨sums, correlations, hsums, hcorrelations, hform⟩ :=
    exists_spike_correlations 3 1 one_ne_zero
  -- the pilot spends the budget
  have hanswer : (plan.answer (.shared 0 2) ⟨(), 0⟩).1 = (List.range 2).map spikeRow := rfl
  rw [← hanswer] at hsums
  have hcharge : real 1 ≤ real ((2 : ℕ) * 3) := by norm_num
  rw [← charge_spike (.withBudget 2 (real 1))] at hcharge
  obtain ⟨first, hfirst, -, hnumerical, hspent⟩ :=
    Plan.exists_step_of_exhausted none hplan.target hsums hcorrelations hform hcharge
  rw [Plan.sampleWith_of_checked hchecked]
  exact Plan.exists_online_of_spent hplan hfirst hnumerical hspent

/-- A pilot of two samples costs six evaluations. The run keeps to them, although its budget is a
single evaluation. -/
theorem online_spent_le_of_spike :
    ∃ report, (sampleWith unitOptimizer spikeEnsemble (.withBudget 2 (real 1)) ()).outcome =
        .ok report ∧
      report.solution.form = .numerical ∧ report.spent ≤ real 6 := by
  obtain ⟨report, hrun, hform⟩ := exists_online_spike ordered_unitOptimizer
  have hle := online_spent_le ordered_unitOptimizer faultless_spikeEnsemble rfl rfl hrun hform
  refine ⟨report, hrun, hform, ExactReal.le_trans hle ?_⟩
  rw [one_add_companions_spike]
  simp only [Settings.withBudget, ofCount_eq, ofScientific_eq, one_eq, real_add, real_mul,
    larger_real, real_le_real]
  norm_num

end Multifidelity
