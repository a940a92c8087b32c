import Multifidelity.Proofs.Allocation.EvalRatios

/-!
# Budget safety of the numerical solution

Whatever an optimizer returns, the numerical solution respects a budget that has room: it covers the
high-fidelity samples already drawn and costs no more than the budget with its slack for rounding.
The one exception are ratios whose profile costs nothing at all. Some of them are negative, which an
optimizer should not return, and then the high-fidelity target is infinite.

## Main definitions

* `RatioInputs.HasLeeway`: inputs of a search under a budget that is not exhausted

## Main results

* `numericalSolution_within_budget`: budget safety for any optimizer
* `numericalSolution_of_free_profile`: the exception
-/

namespace Multifidelity

open ExactReal

namespace RatioInputs

/-- At least one low-fidelity model with usable costs, and a budget with room for more than the
high-fidelity samples already drawn. The order of a solution before lists every model once. -/
structure HasLeeway (inputs : RatioInputs ExactReal) (rhoSq : QoiMatrix ExactReal)
    (budget : ExactReal) : Prop where
  target : inputs.target = .budget budget
  positive : Scalar.isPositiveFinite budget = true
  numApprox_pos : 0 < rhoSq.cols
  costs : inputs.costs.Usable rhoSq.cols
  averageHigh_pos : 0 < inputs.averageHigh
  notExhausted : inputs.isExhausted rhoSq.cols budget = false
  previous : ∀ solution, inputs.previous = some solution → solution.order.Valid rhoSq.cols

namespace HasRoom

variable {inputs : RatioInputs ExactReal} {rhoSq : QoiMatrix ExactReal} {cs : List ℝ}
  {high budget : ℝ} (h : inputs.HasRoom rhoSq cs high budget)
include h

/-- The high-fidelity target of ratios that fit the budget respects it, unless they cost nothing. -/
theorem highTarget_respects {rs : List ℝ}
    (hfit : high * profileCost (cs.getD rhoSq.cols 0) rs cs ≤ budget * (1 + 1e-10)) :
    let problem := inputs.budgetProblem rhoSq (real budget)
    let ratios := rs.map real
    real high ≤ problem.highTarget ratios ∧
      (problem.highTarget ratios * problem.relativeCost ratios ≤ real budget * (1 + 1e-10) ∨
        problem.relativeCost ratios = 0 ∧ problem.highTarget ratios = Scalar.infinity ∧
          ∃ ratio ∈ ratios, ratio < 0) := by
  intro problem ratios
  have hcostHigh := getD_pos h.length h.cost_pos le_rfl
  have hrelative : problem.relativeCost ratios =
      real (profileCost (cs.getD rhoSq.cols 0) rs cs) := h.relativeCost_real rs
  have hbudget := h.budget_pos
  have hhigh := h.high_pos
  by_cases hcost : profileCost (cs.getD rhoSq.cols 0) rs cs = 0
  · have htarget : problem.highTarget ratios = posInf := by
      have haverage : problem.minHigh = some (real high) := congrArg some h.averageHigh
      have hconstraint : problem.constraint = .budget (real budget) := rfl
      simp only [RatioProblem.highTarget, hconstraint, haverage, hrelative, hcost,
        real_div_zero, infinite_of_pos hbudget, Scalar.larger]
      simp
    refine ⟨by rw [htarget]; exact real_le_posInf high, Or.inr ⟨by rw [hrelative, hcost]; rfl,
      htarget, ?_⟩⟩
    -- ratios that are not negative cost at least the high-fidelity sample itself
    by_contra hnonneg
    have hratio : ∀ r ∈ rs, 0 ≤ r := by
      intro r hr
      by_contra hlt
      exact hnonneg ⟨real r, List.mem_map_of_mem hr, by simpa using hlt⟩
    have hone := one_le_profileCost hcostHigh h.cost_pos hratio
    linarith
  · have htarget : problem.highTarget ratios =
        real (max (budget / profileCost (cs.getD rhoSq.cols 0) rs cs) high) :=
      h.highTarget_real hcost
    rw [htarget, hrelative]
    refine ⟨by simp, Or.inl ?_⟩
    generalize profileCost (cs.getD rhoSq.cols 0) rs cs = cost at *
    -- a negative cost is below the budget in any case, and a positive one divides it
    have hmax : max (budget / cost) high * cost ≤ budget * (1 + 1e-10) := by
      rcases lt_or_gt_of_ne hcost with hneg | hpos
      · have hlarge : 0 < max (budget / cost) high := lt_max_of_lt_right hhigh
        nlinarith
      · rw [max_mul_of_nonneg _ _ hpos.le, div_mul_cancel₀ _ hcost]
        exact max_le (by linarith) hfit
    simpa using hmax

/-- Ratios that use up the budget with the high-fidelity samples already drawn have them as their
target. -/
theorem highTarget_eq {rs : List ℝ}
    (hexact : profileCost (cs.getD rhoSq.cols 0) rs cs = budget / high) :
    (inputs.budgetProblem rhoSq (real budget)).highTarget (rs.map real) = real high := by
  have hcost : profileCost (cs.getD rhoSq.cols 0) rs cs ≠ 0 := by
    rw [hexact]
    exact (div_pos h.budget_pos h.high_pos).ne'
  rw [h.highTarget_real hcost, hexact, div_div_cancel₀ h.budget_pos.ne', max_self]

end HasRoom

end RatioInputs

open RatioInputs

/-- Under a budget with room for more than the high-fidelity samples already drawn, the numerical
solution fails only if the optimizer fails or does not return one finite ratio per model. Otherwise
its target is at least the samples already drawn, and their profile costs at most the budget up to
rounding, or nothing at all. Ratios that are not feasible are replaced by ratios of one or more with
which the samples already drawn use up the budget. -/
theorem numericalSolution_within_budget {inputs : RatioInputs ExactReal}
    {rhoSq : QoiMatrix ExactReal} {budget : ExactReal} (optimizer : Optimizer ExactReal)
    (hinputs : inputs.HasLeeway rhoSq budget) :
    (inputs.startingOrder rhoSq).Valid rhoSq.cols ∧ ∃ initial,
      .consulted (inputs.budgetProblem rhoSq budget) initial ∈
        (inputs.numericalSolution rhoSq optimizer).journal ∧
      match (optimizer (inputs.budgetProblem rhoSq budget) initial).outcome with
      | .error failure => (inputs.numericalSolution rhoSq optimizer).outcome = .error failure
      | .ok found =>
        if found.length = rhoSq.cols ∧ ∀ ratio ∈ found, Scalar.isFinite ratio = true then
          ∃ ratios highTarget variance,
            (inputs.numericalSolution rhoSq optimizer).outcome =
              .ok (.numerical (inputs.startingOrder rhoSq) (.ofRow rhoSq.rows ratios) highTarget
                variance) ∧
            ratios.length = rhoSq.cols ∧
            inputs.averageHigh ≤ highTarget ∧
            (highTarget * (inputs.budgetProblem rhoSq budget).relativeCost ratios ≤
                budget * (1 + 1e-10) ∨
              (inputs.budgetProblem rhoSq budget).relativeCost ratios = 0 ∧
                highTarget = Scalar.infinity ∧ ∃ ratio ∈ ratios, ratio < 0) ∧
            ((inputs.budgetProblem rhoSq budget).isFeasible found = true → ratios = found) ∧
            ((inputs.budgetProblem rhoSq budget).isFeasible found = false →
              (∀ ratio ∈ ratios, 1 ≤ ratio) ∧
              inputs.averageHigh * (inputs.budgetProblem rhoSq budget).relativeCost ratios =
                budget ∧
              highTarget = inputs.averageHigh)
        else
          (inputs.numericalSolution rhoSq optimizer).outcome =
            .error (.optimizer (.invalidRatios found)) := by
  refine ⟨valid_startingOrder hinputs.previous, ?_⟩
  have htarget := hinputs.target
  have hroom := hinputs.notExhausted
  obtain ⟨cs, high, b, rfl, h⟩ := hasRoom_of_not_isExhausted htarget hinputs.positive hinputs.costs
    hinputs.averageHigh_pos hroom
  obtain ⟨initial, hmem, houtcome⟩ :=
    searchedSolution_outcome inputs rhoSq optimizer htarget
  rw [numericalSolution_eq_searchedSolution htarget hroom]
  refine ⟨initial, hmem, ?_⟩
  cases hfound : (optimizer (inputs.budgetProblem rhoSq (real b)) initial).outcome with
  | error failure =>
    rw [hfound] at houtcome
    exact houtcome
  | ok found =>
    rw [hfound] at houtcome
    dsimp only
    by_cases hvalid : found.length = rhoSq.cols ∧ ∀ ratio ∈ found, Scalar.isFinite ratio = true
    · rw [if_pos hvalid]
      change _ = if _ then _ else _ at houtcome
      rw [if_pos hvalid] at houtcome
      obtain ⟨rs, rfl⟩ := exists_map_real hvalid.2
      refine ⟨_, _, _, houtcome, ?_⟩
      rw [h.averageHigh]
      rcases h.fitted_real (by simpa using hvalid.1) with ⟨hcase, hfitted⟩ | ⟨hcase, hinfeasible⟩
      · rw [hfitted, hcase]
        obtain ⟨hlower, hupper⟩ := h.highTarget_respects ((h.isFeasible_real rs).mp hcase)
        exact ⟨hvalid.1, hlower, hupper, fun _ => rfl, fun hfalse => by simp at hfalse⟩
      · -- the scaled ratios use up the budget with the samples already drawn
        obtain ⟨factor, -, hfitted, hexact⟩ := hinfeasible
        rw [hfitted, hcase, h.highTarget_eq hexact, h.relativeCost_real, hexact]
        have hcancel : high * (b / high) = b := mul_div_cancel₀ b h.high_pos.ne'
        have hb := h.budget_pos
        refine ⟨by simpa using hvalid.1, by simp, Or.inl ?_, fun htrue => by simp at htrue,
          fun _ => ⟨?_, ?_, rfl⟩⟩
        · have hslack : b ≤ b * (1 + 1e-10) := by linarith
          simpa [hcancel] using hslack
        · simp
        · simp [hcancel]
    · rw [if_neg hvalid]
      change _ = if _ then _ else _ at houtcome
      rwa [if_neg hvalid] at houtcome

/-! ## Two samples of one model -/

/-- The squared correlation of a single low-fidelity model. -/
noncomputable def halfCorrelated : QoiMatrix ExactReal :=
  ⟨1, 1, [real 0.5]⟩

@[simp] theorem cols_halfCorrelated : halfCorrelated.cols = 1 := rfl

/-- Two joint samples of one low-fidelity model that costs as much as the high-fidelity one. -/
noncomputable def twoSamples : RatioInputs ExactReal where
  correlations := ⟨⟨1, 1, [1]⟩, [1], halfCorrelated⟩
  costs := ⟨[1, 1]⟩
  target := .budget (real 10)
  highCounts := [2]
  spent := real 4
  pilotVariance := none
  previous := none
  preferReordered := false
  tolerances := .default

theorem target_twoSamples : twoSamples.target = .budget (real 10) := rfl

theorem averageHigh_twoSamples : twoSamples.averageHigh = real 2 := by
  have haverage := averageCount_replicate one_ne_zero 2
  simpa [RatioInputs.averageHigh, twoSamples] using haverage

theorem usable_twoSamples : twoSamples.costs.Usable halfCorrelated.cols := by
  refine ⟨rfl, ?_⟩
  simp [twoSamples, Scalar.isPositiveFinite]

theorem isExhausted_twoSamples : twoSamples.isExhausted halfCorrelated.cols (real 10) = false := by
  have hallocated : allocateBudget (List.replicate 1 1) twoSamples.costs (real 10) = real 5 := by
    have h : allocateBudget ([1].map real) ⟨[1, 1].map real⟩ (real 10) = _ :=
      allocateBudget_real (by simp) (by norm_num [profileCost]) 10
    norm_num [profileCost] at h
    simpa [twoSamples] using h
  rw [isExhausted, cols_halfCorrelated, hallocated, averageHigh_twoSamples]
  norm_num [twoSamples]

theorem hasRoom_twoSamples : twoSamples.HasRoom halfCorrelated [1, 1] 2 10 where
  target := rfl
  costs := rfl
  length := rfl
  cost_pos := by simp
  averageHigh := averageHigh_twoSamples
  high_pos := two_pos
  budget_pos := by norm_num
  room := by norm_num [profileCost]

theorem hasLeeway_twoSamples : twoSamples.HasLeeway halfCorrelated (real 10) where
  target := rfl
  positive := by simp [Scalar.isPositiveFinite]
  numApprox_pos := one_pos
  costs := usable_twoSamples
  averageHigh_pos := by simp [averageHigh_twoSamples]
  notExhausted := isExhausted_twoSamples
  previous := nofun

/-- A ratio of twenty is far too large, and it is replaced by one that uses up the budget. -/
theorem numericalSolution_of_large_ratio :
    twoSamples.HasLeeway halfCorrelated (real 10) ∧ ∃ order ratios variance,
      (twoSamples.numericalSolution halfCorrelated fun _ _ => pure [real 20]).outcome =
        .ok (.numerical order (.ofRow 1 ratios) (real 2) variance) ∧
      order.Valid 1 ∧ ratios.length = 1 ∧ (∀ ratio ∈ ratios, 1 ≤ ratio) ∧
      real 2 * (twoSamples.budgetProblem halfCorrelated (real 10)).relativeCost ratios =
        real 10 := by
  obtain ⟨horder, initial, -, h⟩ :=
    numericalSolution_within_budget (fun _ _ => pure [real 20]) hasLeeway_twoSamples
  have hinfeasible : (twoSamples.budgetProblem halfCorrelated (real 10)).isFeasible
      [real 20] = false := by
    rw [← Bool.not_eq_true]
    intro hfeasible
    have hfit := (hasRoom_twoSamples.isFeasible_real [20]).mp hfeasible
    norm_num [profileCost] at hfit
  simp only [Recorder.outcome_pure] at h
  rw [if_pos ⟨rfl, by simp⟩] at h
  obtain ⟨ratios, highTarget, variance, houtcome, hlength, -, -, -, hscaled⟩ := h
  obtain ⟨hone, hcost, rfl⟩ := hscaled hinfeasible
  rw [averageHigh_twoSamples] at houtcome hcost
  exact ⟨hasLeeway_twoSamples, _, ratios, variance, houtcome, horder, hlength, hone, hcost⟩

/-- A ratio of minus one costs nothing together with its high-fidelity sample. It is feasible, and
no finite number of samples uses up the budget. -/
theorem numericalSolution_of_free_profile :
    twoSamples.HasLeeway halfCorrelated (real 10) ∧
      ∃ order highTarget variance,
        (twoSamples.numericalSolution halfCorrelated fun _ _ => pure [real (-1)]).outcome =
          .ok (.numerical order (.ofRow 1 [real (-1)]) highTarget variance) ∧
        ¬ highTarget * (twoSamples.budgetProblem halfCorrelated (real 10)).relativeCost
            [real (-1)] ≤ real 10 * (1 + 1e-10) := by
  refine ⟨hasLeeway_twoSamples, ?_⟩
  have hfree : profileCost 1 [-1] [1, 1] = 0 := by norm_num [profileCost]
  have hfeasible : (twoSamples.budgetProblem halfCorrelated (real 10)).isFeasible
      [real (-1)] = true := by
    refine (hasRoom_twoSamples.isFeasible_real [-1]).mpr ?_
    norm_num [hfree]
  have hcost : (twoSamples.budgetProblem halfCorrelated (real 10)).relativeCost
      [real (-1)] = real 0 := by
    have hrelative := hasRoom_twoSamples.relativeCost_real [-1]
    simpa [hfree] using hrelative
  obtain ⟨initial, -, houtcome⟩ := searchedSolution_outcome twoSamples halfCorrelated
    (fun _ _ => pure [real (-1)]) target_twoSamples
  rw [Recorder.outcome_pure] at houtcome
  change _ = if _ then _ else _ at houtcome
  rw [if_pos ⟨rfl, by simp⟩, fitted, if_pos hfeasible] at houtcome
  rw [numericalSolution_eq_searchedSolution target_twoSamples isExhausted_twoSamples]
  refine ⟨_, _, _, houtcome, ?_⟩
  have hinfinite : (twoSamples.budgetProblem halfCorrelated (real 10)).highTarget
      [real (-1)] = posInf := by
    have hconstraint : (twoSamples.budgetProblem halfCorrelated (real 10)).constraint =
        .budget (real 10) := rfl
    have hmin : (twoSamples.budgetProblem halfCorrelated (real 10)).minHigh =
        some (real 2) := congrArg some averageHigh_twoSamples
    simp only [RatioProblem.highTarget, hconstraint, hmin, hcost, real_div_zero]
    rw [infinite_of_pos (by norm_num), Scalar.larger]
    simp
  rw [hinfinite, hcost, posInf_mul_zero]
  exact not_nan_le _

end Multifidelity
