import Multifidelity.Proofs.Allocation.Pyramid
import Multifidelity.Proofs.Allocation.Variance
import Multifidelity.Run.Plan

/-!
# Profiles that all QoI share

If the ratios and the target of all QoI are the same, the low-fidelity targets of a model are the
same too, and they do not increase along the order. This holds for a single QoI, whatever the
thresholds for its correlations are, and for ratios that are computed from averaged correlations and
scaled to a budget.

## Main definitions

* `RatioSolution.Uniform`: equal ratios and targets

## Main results

* `RatioSolution.Uniform.lowTargets_eq`, `RatioSolution.Uniform.lt_of_lt`: the low-fidelity targets
* `RatioInputs.Funded.uniform_of_reordered`: ratios from averaged correlations
* `RatioInputs.WellPosed.not_lt_zero_of_mem_highTargets`: high-fidelity targets are not negative
* `RatioInputs.WellPosed.uniform_of_single`: a single QoI
-/

namespace Multifidelity

open ExactReal

/-- All QoI have the same ratios, which do not increase along the order, and the same target, which
is not negative. -/
structure RatioSolution.Uniform (dims : Dimensions) (solution : RatioSolution ExactReal)
    (highTargets : List ExactReal) (ratio : ℕ → ExactReal) (target : ExactReal) : Prop where
  ratios : ∀ qoi < dims.numFunctions, ∀ model < dims.numApprox,
    solution.ratios.entry qoi model = ratio model
  antitone : ∀ i j, i < j → j < dims.numApprox →
    ratio (solution.order.model j) ≤ ratio (solution.order.model i)
  targets : highTargets = List.replicate dims.numFunctions target
  nonneg : ¬ target < 0

namespace RatioSolution.Uniform

variable {dims : Dimensions} {allocation : Allocation ExactReal} {ratio : ℕ → ExactReal}
  {target : ExactReal}
  (h : allocation.evalRatios.solution.Uniform dims allocation.evalRatios.highTargets ratio target)
include h

theorem lowTargets_eq {model : ℕ} (hmodel : model < dims.numApprox) :
    allocation.lowTargets model = List.replicate dims.numFunctions (ratio model * target) := by
  unfold Allocation.lowTargets
  rw [h.targets]
  refine List.ext_getElem (by simp) fun qoi hqoi _ => ?_
  rw [List.length_mapIdx, List.length_replicate] at hqoi
  rw [List.getElem_mapIdx, List.getElem_replicate, List.getElem_replicate,
    h.ratios qoi hqoi model hmodel]

/-- Whatever count is below the target at a position is below the target at each one before it. -/
theorem lt_of_lt {i j : ℕ} (hij : i < j) (hj : j < dims.numApprox) {count : ℕ}
    (hlt : real count < ratio (allocation.evalRatios.solution.order.model j) * target) :
    real count < ratio (allocation.evalRatios.solution.order.model i) * target :=
  lt_mul_of_le (Nat.cast_nonneg count) h.nonneg (h.antitone i j hij hj) hlt

end RatioSolution.Uniform

/-- Nested ratios that all QoI share. -/
theorem RatioSolution.uniform_of_row {dims : Dimensions} {solution : RatioSolution ExactReal}
    {highTargets ratios : List ExactReal} {target : ExactReal}
    (hcols : solution.ratios.cols = dims.numApprox)
    (hrow : ∀ qoi < dims.numFunctions, solution.ratios.row qoi = ratios)
    (hnested : solution.order.Nested dims.numApprox ratios)
    (htargets : highTargets = List.replicate dims.numFunctions target) (hnonneg : ¬ target < 0) :
    solution.Uniform dims highTargets (fun model => ratios.getD model 0) target where
  ratios qoi hqoi model hmodel := by
    rw [QoiMatrix.entry_eq_getD_row _ _ (hcols ▸ hmodel), hrow qoi hqoi]
  antitone := hnested.antitone
  targets := htargets
  nonneg := hnonneg

namespace RatioInputs

/-! ## Ratios from averaged correlations -/

/-- Ratios from averaged correlations that are scaled to a budget are uniform. -/
theorem Funded.uniform_of_reordered {inputs : RatioInputs ExactReal} {cs : List ℝ}
    {dims : Dimensions} {count : ℕ} {budget : ℝ} (h : inputs.Funded cs dims count budget)
    {optimizer : Optimizer ExactReal} {result : EvalRatios ExactReal}
    (hresult : (inputs.evalRatios optimizer).outcome = .ok result)
    (hform : result.solution.form = .reordered) :
    ∃ ratio target, result.solution.Uniform dims result.highTargets ratio target := by
  have hne : result.solution.form ≠ .numerical := by
    rw [hform]
    decide
  have hnested := h.nested_of_form hresult hne
  -- all rows are those of the averaged correlations
  have hrow : ∀ qoi < dims.numFunctions,
      result.solution.ratios.row qoi = result.solution.ratios.row 0 := by
    intro qoi hqoi
    rw [← h.rows_result hresult] at hqoi
    have hpos : 0 < result.rhoSq.rows := (Nat.zero_le qoi).trans_lt hqoi
    rcases closedForm_of_evalRatios hresult hne with heq | heq
    · rw [heq] at hform
      cases hform
    · rw [heq]
      exact (row_reorderedRatios _ _ hqoi).trans (row_reorderedRatios _ _ hpos).symm
  obtain ⟨high, low, hhigh, haffordable⟩ :=
    h.exists_affordable_of_form hresult hne h.numFunctions_pos
  have htargets : result.highTargets = List.replicate dims.numFunctions (real high) := by
    refine List.eq_replicate_iff.mpr ⟨h.length_highTargets_of_form hresult hne, ?_⟩
    intro target htarget
    rcases scaled_of_evalRatios h.target hresult with ⟨-, hscaled⟩ | ⟨-, _, _, _, _, heq, -⟩
    · rw [hscaled, budgetTargets] at htarget hhigh
      obtain ⟨row, hmem, rfl⟩ := List.mem_map.mp htarget
      obtain ⟨qoi, hqoi, rfl⟩ := List.mem_map.mp hmem
      rw [List.mem_range, hnested.rows] at hqoi
      rw [hrow qoi hqoi]
      rw [List.getElem?_map, QoiMatrix.toRows, List.getElem?_map, hnested.rows,
        List.getElem?_range h.numFunctions_pos] at hhigh
      exact Option.some_inj.mp hhigh
    · rw [heq] at hne
      exact absurd rfl hne
  exact ⟨_, _, RatioSolution.uniform_of_row hnested.cols hrow
    (hnested.nested 0 h.numFunctions_pos) htargets
    (not_lt_of_le (real_le_real.mpr haffordable.high_nonneg))⟩

end RatioInputs

/-! ## Signs of targets -/

/-- Parts of variances that are not negative lead to targets that are not negative. -/
theorem not_lt_zero_of_mem_toleranceTargets {ratios varHigh pilotVariance : List ExactReal}
    (hratios : ∀ ratio ∈ ratios, ¬ ratio < 0) (hvar : ∀ var ∈ varHigh, ¬ var < 0)
    {tolerance : ExactReal} (htolerance : ¬ tolerance < 0) {target : ExactReal}
    (h : target ∈ toleranceTargets ratios varHigh pilotVariance tolerance) : ¬ target < 0 := by
  obtain ⟨⟨ratio, var, pilot⟩, hmem, rfl⟩ := List.mem_map.mp h
  obtain ⟨hratio, hrest⟩ := List.of_mem_zip hmem
  dsimp only
  split
  · rename_i hpilot
    have hvar := hvar var (List.of_mem_zip hrest).1
    exact not_div_lt_zero (not_mul_lt_zero (hratios ratio hratio) hvar)
      (not_mul_lt_zero (not_lt_of_le (ExactReal.le_of_lt hpilot)) htolerance)
  · exact not_lt_of_le (real_le_real.mpr le_rfl)

namespace RatioInputs.WellPosed

variable {inputs : RatioInputs ExactReal} {dims : Dimensions} (h : inputs.WellPosed dims)
  {optimizer : Optimizer ExactReal} (hordered : optimizer.Ordered) {result : EvalRatios ExactReal}
  (hresult : (inputs.evalRatios optimizer).outcome = .ok result)
  (hrho : ∀ rho ∈ inputs.correlations.rhoSq.entries, ¬ 1 < rho)
include h hordered hresult hrho

/-- Whatever the thresholds are, no QoI is left with a negative part of its variance. -/
theorem not_part_lt_zero {qoi : ℕ} (hqoi : qoi < dims.numFunctions) :
    ¬ 1 - rSquared (result.rhoSq.row qoi) (result.solution.ratios.row qoi) result.solution.order <
      0 := by
  have hnested := h.isNested hordered hresult
  have hrows : result.rhoSq.rows = dims.numFunctions := (rows_rhoSq hresult).trans h.rows
  have hlength : (result.rhoSq.row qoi).length = dims.numApprox :=
    ((full_rhoSq h.full hresult).length_row (hrows ▸ hqoi)).trans
      ((cols_rhoSq hresult).trans h.cols)
  apply not_one_sub_rSquared_lt_zero
  · exact hlength ▸ hnested.order
  · exact (hnested.length qoi hqoi).trans hlength.symm
  · exact hlength ▸ hnested.nested qoi hqoi
  · -- what was at most one is so after it has been moved into range
    intro value hvalue
    have hfst : result.rhoSq = _ := congrArg Prod.fst (evalRatios_eq_ok_iff.mp hresult).1
    obtain ⟨rho, hmem, rfl⟩ := exists_clamp_of_mem_sanitize value
      (hfst ▸ QoiMatrix.mem_entries_of_mem_row hvalue)
    exact inputs.tolerances.not_one_lt_clamp (hrho rho hmem)

variable (hvarHigh : inputs.correlations.varHigh.length = dims.numFunctions ∧
    ∀ var ∈ inputs.correlations.varHigh, ¬ var < 0)
  (hpilot : ∀ variance, inputs.pilotVariance = some variance → ∀ var ∈ variance, ¬ var < 0)
  (htolerance : ∀ tolerance, inputs.target = .tolerance tolerance → ¬ tolerance < 0)
include hvarHigh hpilot htolerance

/-- The target that a search has found is not negative. -/
theorem not_highTarget_lt_zero {order : ModelOrder} {ratios : QoiMatrix ExactReal}
    {highTarget variance : ExactReal}
    (hsolution : result.solution = .numerical order ratios highTarget variance) :
    ¬ highTarget < 0 := by
  have hrows : result.rhoSq.rows = dims.numFunctions := (rows_rhoSq hresult).trans h.rows
  have hform : result.solution.form = .numerical := by
    rw [hsolution]
    rfl
  have hsearch := numericalSolution_of_evalRatios hresult hform
  rcases numericalSolution_cases hsearch with heq | ⟨-, hsearched⟩
  · rw [hsolution, exhaustedSolution] at heq
    cases heq
    exact not_lt_of_le (ExactReal.le_of_lt h.averageHigh)
  · obtain ⟨problem, _, _, fit, _, hproblem, -, -, -, heq⟩ := searchedSolution_eq_ok hsearched
    obtain ⟨hsame, horder, -, -⟩ := problem_eq_ok hproblem
    obtain ⟨hvar, hcases⟩ := highTarget_of_problem hproblem fit
    have htarget : highTarget = problem.highTarget fit := by
      rw [hsolution] at heq
      cases heq
      rfl
    rw [htarget]
    rcases hcases with ⟨limit, hlarger⟩ | ⟨tolerance, pilotVariance, hgoal, hsome, hquotient⟩
    · rw [hlarger]
      exact not_larger_lt_zero _ h.averageHigh
    · rw [hquotient]
      refine not_div_lt_zero (not_average_lt_zero fun value hvalue => ?_)
        (not_mul_lt_zero (htolerance _ hgoal) (not_average_lt_zero (hpilot _ hsome)))
      -- the averaged variance is that of the ratios which the solution has for all QoI
      obtain ⟨qoi, hqoi, rfl⟩ := List.mem_mapIdx.mp hvalue
      have hlt : qoi < dims.numFunctions := by
        rw [hvar, hvarHigh.1] at hqoi
        exact hqoi
      have hrow : result.solution.ratios.row qoi = fit := by
        rw [heq]
        exact QoiMatrix.row_ofRow (hrows ▸ hlt) fit
      have hsolutionOrder : result.solution.order = problem.order := by
        rw [heq, horder]
        rfl
      have hpart := h.not_part_lt_zero hordered hresult hrho hlt
      rw [hrow, hsolutionOrder, ← hsame] at hpart
      exact not_mul_lt_zero (hvarHigh.2 _ (hvar ▸ List.getElem_mem hqoi)) hpart

/-- High-fidelity targets are not negative. -/
theorem not_lt_zero_of_mem_highTargets {target : ExactReal} (hmem : target ∈ result.highTargets) :
    ¬ target < 0 := by
  have hnested := h.isNested hordered hresult
  obtain ⟨-, -, htargets⟩ := evalRatios_eq_ok_iff.mp hresult
  unfold highTargets at htargets
  split at htargets
  · rename_i hsolution
    rw [← Except.ok.inj htargets] at hmem
    rw [List.eq_of_mem_replicate hmem]
    exact h.not_highTarget_lt_zero hordered hresult hrho hvarHigh hpilot htolerance hsolution
  · rename_i hgoal _
    rw [← Except.ok.inj htargets] at hmem
    obtain ⟨row, hrow, rfl⟩ := List.mem_map.mp hmem
    obtain ⟨qoi, hqoi, rfl⟩ := List.mem_map.mp hrow
    rw [List.mem_range, hnested.rows] at hqoi
    obtain ⟨cs, hlength, hpos, hcosts⟩ := h.costs.exists_real
    obtain ⟨b, hb, rfl⟩ := isPositiveFinite_iff.mp (h.target _ hgoal)
    obtain ⟨high, low, hallocated, haffordable⟩ := exists_affordable hlength hpos
      (hnested.length qoi hqoi) (hnested.nested qoi hqoi) hb
    rw [hcosts, hallocated]
    exact not_lt_of_le (real_le_real.mpr haffordable.high_nonneg)
  · rename_i hgoal _
    obtain ⟨variance, -, htargets⟩ := Recorder.outcome_bind_eq_ok.mp htargets
    rw [← Except.ok.inj htargets] at hmem
    refine not_lt_zero_of_mem_toleranceTargets (fun ratio hratio => ?_) hvarHigh.2
      (htolerance _ hgoal) hmem
    obtain ⟨qoi, hqoi, rfl⟩ := List.mem_map.mp hratio
    rw [List.mem_range, rows_rhoSq hresult, h.rows] at hqoi
    exact h.not_part_lt_zero hordered hresult hrho hqoi

/-- The ratios and the target of a single QoI are uniform. -/
theorem uniform_of_single (hone : dims.numFunctions = 1)
    (hlength : ∀ variance, inputs.pilotVariance = some variance →
      variance.length = dims.numFunctions) :
    ∃ ratio target, result.solution.Uniform dims result.highTargets ratio target := by
  have hnested := h.isNested hordered hresult
  have htargets : result.highTargets.length = 1 := by
    rw [length_highTargets_of_evalRatios (hvarHigh.1.trans h.rows.symm)
      (fun variance hvariance => (hlength variance hvariance).trans h.rows.symm) hresult, h.rows,
      hone]
  obtain ⟨target, htarget⟩ := List.length_eq_one_iff.mp htargets
  have hqoi : ∀ qoi < dims.numFunctions,
      result.solution.ratios.row qoi = result.solution.ratios.row 0 := by
    intro qoi hqoi
    obtain rfl : qoi = 0 := by omega
    rfl
  refine ⟨_, target, RatioSolution.uniform_of_row hnested.cols hqoi
    (hnested.nested 0 h.numFunctions_pos) (by rw [hone, htarget]; rfl) ?_⟩
  apply h.not_lt_zero_of_mem_highTargets hordered hresult hrho hvarHigh hpilot htolerance
  rw [htarget]
  exact List.mem_singleton_self target

end RatioInputs.WellPosed

end Multifidelity
