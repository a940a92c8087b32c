import Multifidelity.Proofs.Run.Modes
import Multifidelity.Proofs.Run.OnlineBudget

/-!
# The cost of offline runs

An offline pilot is not charged, and its size should not matter to the cost of a run. It does matter
if a search finds the budget exhausted by the pilot: the high-fidelity target is then the size of
the pilot, and as many samples are drawn and charged. In any other case a run with a single QoI
keeps to its budget, up to rounding and two samples of every model.

## Main results

* `Plan.exists_spent_of_offline`: the cost of a run with a single QoI
* `offline_spent_le_iff`: the runs that keep to their budget
-/

namespace Multifidelity

open ExactReal

namespace Plan

/-! ## The cost of a run -/

variable {σ : Type} {plan : Plan σ ExactReal} {cs : List ℝ} {budget : ℝ} {state : σ}

/-- What an offline plan is based on. -/
theorem funded_of_pilot (hplan : plan.Reliable cs budget) {pilot : PilotSamples σ ExactReal}
    (hpilot : (plan.pilot false state).outcome = .ok pilot) :
    2 ≤ plan.settings.pilotSamples ∧ pilot.bench.spent = real 0 ∧
      (plan.ratioInputs pilot.correlations pilot.counts pilot.bench.spent none none).Funded cs
        plan.ensemble.dims plan.settings.pilotSamples budget := by
  obtain ⟨sums, hsums, hcorrelations, hcounts, hbench⟩ := pilot_eq_ok_iff.mp hpilot
  obtain ⟨hsized, hequal⟩ :=
    accumulate_of_faultless hplan.faultless (JointSums.sized_empty _) hsums
  rw [JointSums.counts_empty, List.map_replicate, zero_add] at hequal
  rw [hcounts, hbench]
  refine ⟨JointSums.two_le_of_correlations hcorrelations _ ?_, rfl,
    funded_ratioInputs hplan.priced hplan.target hplan.budget_pos hplan.numFunctions_pos hsized
      hequal hcorrelations _ _ _ (by simp)⟩
  rw [hequal]
  exact List.mem_replicate.mpr ⟨hplan.numFunctions_pos.ne', rfl⟩

/-- The single increment of a run, which is charged on all models. -/
theorem drawn_of_reliable (hplan : plan.Reliable cs budget) {samples : ℕ}
    {bench : Bench σ ExactReal} (hbench : bench.spent = real 0)
    {drawn : SharedSamples σ ExactReal 4}
    (hdrawn : (plan.sharedIncrement 1 samples true (.empty plan.ensemble.dims) bench).outcome =
      .ok drawn) :
    drawn.sums.Sized plan.ensemble.dims ∧
      drawn.sums.counts = List.replicate plan.ensemble.dims.numFunctions samples ∧
      drawn.bench.spent = real (samples * sampleCost cs plan.numApprox) := by
  obtain ⟨hsums, hcharged⟩ := sharedIncrement_eq_ok_iff.mp hdrawn
  obtain ⟨hsized, hcounts⟩ :=
    accumulate_of_faultless hplan.faultless (JointSums.sized_empty _) hsums
  rw [JointSums.counts_empty, List.map_replicate, zero_add] at hcounts
  have hlength : (plan.answer (.shared 1 samples) bench).1.length = samples :=
    hplan.faultless.length _ bench.state
  refine ⟨hsized, hcounts, ?_⟩
  rw [hcharged, if_pos rfl, hlength, hbench, charge_all hplan.priced, zero_add]

/-- Targets that are a count in range lead to as many samples. -/
theorem offlineSamples_of_targets {planned : Allocation ExactReal} {count : ℕ}
    (hqoi : 0 < plan.ensemble.dims.numFunctions) (htwo : 2 ≤ count) (hmax : count ≤ maxCount)
    (htargets : planned.evalRatios.highTargets =
      List.replicate plan.ensemble.dims.numFunctions (real count)) :
    plan.offlineSamples planned = count := by
  unfold offlineSamples
  dsimp only
  rw [htargets, increment_replicate hqoi.ne', Nat.ceil_natCast]
  omega

/-- A run with a single QoI keeps to its budget, up to rounding and two samples of every model, or
it is charged for as many samples of every model as its pilot has, because a search has found the
budget exhausted by the pilot. -/
theorem exists_spent_of_offline (hplan : plan.Reliable cs budget)
    (hone : plan.ensemble.dims.numFunctions = 1) (hpilot : plan.settings.pilotSamples ≤ maxCount)
    {report : Report ExactReal} (hreport : (plan.offline state).outcome = .ok report) :
    ∃ final, report.spent = real final ∧
      (report.solution.form = .numerical ∧
          final = plan.settings.pilotSamples * sampleCost cs plan.numApprox ∨
        final ≤ budget * (1 + 1e-10) + 2 * sampleCost cs plan.numApprox ∧
          (report.solution.form = .numerical →
            plan.settings.pilotSamples * sampleCost cs plan.numApprox ≤
              budget * (1 + 1e-10))) := by
  obtain ⟨pilot, planned, drawn, hplanned, hallocated, hdrawn, hreport⟩ :=
    offline_eq_ok_iff.mp hreport
  obtain ⟨htwo, hzero, hfunded⟩ := funded_of_pilot hplan hplanned
  obtain ⟨heval, -, -⟩ := allocate_eq_ok_iff.mp hallocated
  obtain ⟨hsized, hcounts, hspent⟩ := drawn_of_reliable hplan hzero hdrawn
  obtain ⟨-, -, -, hsolution⟩ := finish_eq_ok hreport
  have horder : (planned.realize drawn.sums.counts).evalRatios.solution.order.Valid
      plan.numApprox := hfunded.valid_order heval
  have hform : report.solution.form = planned.evalRatios.solution.form :=
    congrArg RatioSolution.form hsolution
  rw [hform]
  by_cases hexhausted : planned.evalRatios.solution.form = .numerical ∧
      (plan.ratioInputs pilot.correlations pilot.counts pilot.bench.spent none none).isExhausted
        plan.ensemble.dims.numApprox (real budget) = true
  · -- the target is the size of the pilot, and no model lacks samples after the increment
    have hwithin := hfunded.within_of_isExhausted heval hexhausted.1 hexhausted.2
    have hsamples : plan.offlineSamples planned = plan.settings.pilotSamples :=
      offlineSamples_of_targets hplan.numFunctions_pos htwo hpilot hwithin.highTargets
    rw [hsamples] at hcounts hspent
    refine ⟨_, spent_of_finish_of_le hplan.faultless hplan.priced horder hwithin
      hplan.numFunctions_pos hsized hcounts hspent hreport fun _ _ => le_rfl,
      Or.inl ⟨hexhausted.1, rfl⟩⟩
  · obtain ⟨high, low, hwithin, hcount⟩ := hfunded.exists_within heval hplan.ordered (Or.inr hone)
      fun hform => Bool.eq_false_of_not_eq_true fun htrue => hexhausted ⟨hform, htrue⟩
    have haffordable := hwithin.affordable 0 hplan.numFunctions_pos
    -- rounding up adds less than one sample, and the forced minimum is two
    have hsamples : (plan.offlineSamples planned : ℝ) ≤ high + 2 := by
      unfold offlineSamples
      dsimp only
      rw [hwithin.highTargets, increment_replicate hplan.numFunctions_pos.ne', Nat.sub_zero]
      have hceil := Nat.ceil_lt_add_one haffordable.high_nonneg
      have hmin : ((min ⌈high⌉₊ maxCount : ℕ) : ℝ) ≤ ⌈high⌉₊ := by
        exact_mod_cast Nat.min_le_left _ _
      rw [Nat.cast_max]
      exact max_le (by linarith) (by have := haffordable.high_nonneg; push_cast; linarith)
    obtain ⟨final, hfinal, hle⟩ := exists_spent_le_of_finish hplan.faultless hplan.priced horder
      hwithin hplan.numFunctions_pos hsized hcounts hspent hreport one_le_two hsamples rfl
    refine ⟨final, hfinal, Or.inr ⟨hle, fun hform => ?_⟩⟩
    have hcost := zero_le_one.trans (one_le_sampleCost hplan.priced.length hplan.priced.pos)
    exact (mul_le_mul_of_nonneg_right (hcount hform) hcost).trans
      (haffordable.high_mul_le hplan.priced.length hplan.priced.pos)

/-- A run whose pilot exhausts the budget ends with a report if it searches. -/
theorem exists_offline_of_exhausted (hplan : plan.Reliable cs budget)
    (hpilot : plan.settings.pilotSamples ≤ maxCount)
    (hlength : ∀ call state, ∀ response ∈ (plan.ensemble.respond call state).1,
      response.length = plan.ensemble.dims.responseLength)
    {pilot : PilotSamples σ ExactReal} (hdrawn : (plan.pilot false state).outcome = .ok pilot)
    (hform : selectForm (sanitize pilot.correlations.rhoSq plan.settings.tolerances).1
      plan.settings.tolerances.ordering plan.settings.preferReordered = .numerical)
    (hexhausted : budget ≤ plan.settings.pilotSamples * sampleCost cs plan.numApprox) :
    ∃ report, (plan.offline state).outcome = .ok report ∧ report.solution.form = .numerical := by
  obtain ⟨htwo, hzero, hfunded⟩ := funded_of_pilot hplan hdrawn
  have hroom := hfunded.isExhausted_of_le hexhausted
  have hcols : (sanitize pilot.correlations.rhoSq plan.settings.tolerances).1.cols =
      plan.ensemble.dims.numApprox := hfunded.cols
  have hroom' : (plan.ratioInputs pilot.correlations pilot.counts pilot.bench.spent none
      none).isExhausted (sanitize pilot.correlations.rhoSq plan.settings.tolerances).1.cols
        (real budget) = true := by
    rw [hcols]
    exact hroom
  obtain ⟨result, hresult, hsolution⟩ := RatioInputs.exists_evalRatios_of_isExhausted
    hfunded.target rfl hform hroom' plan.optimizer
  have hnumerical : result.solution.form = .numerical := by
    rw [hsolution]
    rfl
  -- the plan keeps to the count of the pilot
  have hwithin := hfunded.within_of_isExhausted hresult hnumerical hroom
  let planned : Allocation ExactReal := ⟨pilot.correlations, result, realizedVarianceRatios
    result.rhoSq result.solution result.highTargets pilot.counts⟩
  have hplanned : (plan.allocate pilot.correlations pilot.counts pilot.bench.spent none
      none).outcome = .ok planned := allocate_eq_ok_iff.mpr ⟨hresult, rfl, rfl⟩
  have hsamples : plan.offlineSamples planned = plan.settings.pilotSamples :=
    offlineSamples_of_targets hplan.numFunctions_pos htwo hpilot hwithin.highTargets
  -- the increment succeeds, and then no model lacks samples
  obtain ⟨drawn, hincrement⟩ : ∃ drawn, (plan.sharedIncrement 1 (plan.offlineSamples planned) true
      (.empty plan.ensemble.dims : JointSums ExactReal 4) pilot.bench).outcome = .ok drawn :=
    ⟨⟨_, _⟩, sharedIncrement_eq_ok_iff.mpr
      ⟨JointSums.accumulate_of_lengths _ (hlength _ pilot.bench.state), rfl⟩⟩
  obtain ⟨hsized, hcounts, -⟩ := drawn_of_reliable hplan hzero hincrement
  rw [hsamples] at hcounts
  have horder : (planned.realize drawn.sums.counts).evalRatios.solution.order.Valid
      plan.numApprox := hfunded.valid_order hresult
  obtain ⟨report, hreport, hfinal⟩ := exists_finish_of_within horder hwithin hsized hcounts
    hfunded.count_pos (fun _ _ => le_rfl) 2 drawn.bench none result.warnings
  refine ⟨report, offline_eq_ok_iff.mpr ⟨pilot, planned, drawn, hdrawn, hplanned, hincrement,
    hreport⟩, ?_⟩
  rw [hfinal]
  exact hnumerical

end Plan

/-! ## Runs -/

/-- An offline run of a faultless ensemble with a single QoI keeps to its budget, up to rounding and
two samples of every model, exactly if it does not end with a search, or if as many samples of
every model as its pilot has are within that bound. -/
theorem offline_spent_le_iff {σ : Type} {optimizer : Optimizer ExactReal}
    (hordered : optimizer.Ordered) {ensemble : Ensemble σ ExactReal}
    (hfaultless : ensemble.Faultless) (hone : ensemble.dims.numFunctions = 1)
    {settings : Settings ExactReal} (hoffline : settings.pilotMode = .offline)
    (hpilot : settings.pilotSamples ≤ maxCount) {budget : ExactReal}
    (hbudget : settings.budget = some budget) {state : σ} {report : Report ExactReal}
    (hreport : (sampleWith optimizer ensemble settings state).outcome = .ok report) :
    let companions := (⟨ensemble.costs⟩ : Costs ExactReal).companions ensemble.dims.numApprox
    let bound := budget * (1 + 1e-10) + Scalar.ofCount 2 * (1 + companions)
    report.spent ≤ bound ↔ (report.solution.form = .numerical →
      Scalar.ofCount settings.pilotSamples * (1 + companions) ≤ bound) := by
  intro companions bound
  rcases Plan.sampleWith_eq optimizer ensemble settings state with ⟨plan, hchecked, hrun⟩ |
    ⟨failure, hrun⟩
  · obtain ⟨cs, b, rfl, hplan, hcompanions⟩ :=
      hchecked.exists_reliable hfaultless hordered hbudget
    rw [hrun, Plan.execute, hchecked.settings_eq, hoffline] at hreport
    obtain ⟨final, hfinal, hcases⟩ := Plan.exists_spent_of_offline hplan
      (by rwa [hchecked.ensemble_eq]) (by rwa [hchecked.settings_eq]) hreport
    rw [hchecked.settings_eq] at hcases
    have hcost := zero_lt_one.trans_le (one_le_sampleCost hplan.priced.length hplan.priced.pos)
    have hbound : bound = real (b * (1 + 1e-10) + 2 * sampleCost cs plan.numApprox) :=
      congrArg (fun cost => real b * (1 + 1e-10) + Scalar.ofCount 2 * cost) hcompanions
    rw [hfinal, hbound, hcompanions, ofCount_eq, real_mul, real_le_real, real_le_real]
    rcases hcases with ⟨hform, rfl⟩ | ⟨hle, hsearch⟩
    · exact ⟨fun h _ => h, fun h => h hform⟩
    · refine ⟨fun _ hform => (hsearch hform).trans ?_, fun _ => hle⟩
      linarith
  · rw [hrun] at hreport
    cases hreport

/-! ## A pilot that is charged after all -/

/-- Three pilot samples, which are not charged, for a budget of one evaluation. -/
noncomputable def spikeSettings : Settings ExactReal :=
  { Settings.withBudget 3 (real 1) with pilotMode := .offline }

theorem exists_spike_report :
    ∃ report, (sampleWith unitOptimizer spikeEnsemble spikeSettings ()).outcome = .ok report ∧
      report.solution.form = .numerical := by
  have htarget : spikeSettings.target = .ok (.budget (real 1)) :=
    Settings.target_eq_budget rfl rfl three_ne_zero (by simp [Scalar.isPositiveFinite])
  have hchecked := checked_spikePlan htarget
  have hplan := reliable_spikePlan spikeSettings
  obtain ⟨sums, correlations, hsums, hcorrelations, hform⟩ :=
    exists_spike_correlations 0 2 two_ne_zero
  have hpilot : ((spikePlan spikeSettings).pilot false ()).outcome =
      .ok ⟨correlations, sums.counts, ⟨(), 0⟩⟩ :=
    Plan.pilot_eq_ok_iff.mpr ⟨sums, hsums, hcorrelations, rfl, rfl⟩
  have hlength : ∀ call state, ∀ response ∈ (spikeEnsemble.respond call state).1,
      response.length = spikeEnsemble.dims.responseLength := by
    intro call state response hresponse
    obtain ⟨i, -, rfl⟩ := List.mem_map.mp hresponse
    obtain ⟨x, y, z, hrow⟩ := exists_spikeRow i
    rw [hrow]
    rfl
  obtain ⟨report, hreport, hnumerical⟩ := Plan.exists_offline_of_exhausted hplan
    (by norm_num [spikePlan, spikeSettings, Settings.withBudget, maxCount]) hlength hpilot hform
    (by
      rw [show (spikePlan spikeSettings).numApprox = 2 from rfl, sampleCost_spike]
      norm_num [spikePlan, spikeSettings, Settings.withBudget])
  refine ⟨report, ?_, hnumerical⟩
  rw [Plan.sampleWith_of_checked hchecked]
  exact hreport

/-- As many samples as the pilot has are drawn again and cost nine evaluations. The budget leaves
room for seven, up to rounding. -/
theorem offline_overspends_of_spike :
    ∃ report, (sampleWith unitOptimizer spikeEnsemble spikeSettings ()).outcome = .ok report ∧
      ¬ report.spent ≤ real 1 * (1 + 1e-10) + Scalar.ofCount 2 *
        (1 + (⟨spikeEnsemble.costs⟩ : Costs ExactReal).companions
          spikeEnsemble.dims.numApprox) := by
  obtain ⟨report, hreport, hnumerical⟩ := exists_spike_report
  refine ⟨report, hreport, ?_⟩
  have hiff := offline_spent_le_iff ordered_unitOptimizer faultless_spikeEnsemble rfl rfl
    (show 3 ≤ maxCount by norm_num [maxCount]) rfl hreport
  dsimp only at hiff
  rw [hiff, one_add_companions_spike]
  intro hle
  have hover := hle hnumerical
  simp only [spikeSettings, Settings.withBudget, ofCount_eq, ofScientific_eq, one_eq, real_add,
    real_mul, real_le_real] at hover
  norm_num at hover

end Multifidelity
