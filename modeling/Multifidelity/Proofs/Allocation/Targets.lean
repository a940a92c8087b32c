import Multifidelity.Proofs.Allocation.ClosedForm
import Multifidelity.Proofs.Allocation.EvalRatios
import Multifidelity.Proofs.Allocation.Profile

/-!
# Targets under a budget

An allocation for equal counts leads to targets that its budget pays for, in whatever form the
ratios are computed. The exception is a search that finds the budget exhausted, whose targets are
the samples already drawn.

## Main definitions

* `Optimizer.Ordered`: optimizers that keep to the constraints of their problem
* `unitOptimizer`: the one that always returns ratios of one
* `RatioInputs.Funded`: equal counts and a budget with real costs
* `EvalRatios.Within`: targets that all QoI share and that cost at most a limit

## Main results

* `RatioInputs.Funded.exists_within`: the targets of a search, or of a single QoI
* `RatioInputs.Funded.highTargets_le`: the high-fidelity targets in any form
-/

namespace Multifidelity

open ExactReal

/-- An optimizer whose ratios are one or more and do not increase along the order of the problem.
Nothing is asked where the order does not list every model once, or where the ratios are not one for
every model. -/
def Optimizer.Ordered (optimizer : Optimizer ExactReal) : Prop :=
  ∀ problem initial found, problem.order.Valid problem.numApprox →
    (optimizer problem initial).outcome = .ok found → found.length = problem.numApprox →
      problem.order.Nested problem.numApprox found

/-- An optimizer that always returns ratios of one. -/
noncomputable def unitOptimizer : Optimizer ExactReal :=
  fun problem _ => pure (List.replicate problem.numApprox 1)

theorem ordered_unitOptimizer : unitOptimizer.Ordered := by
  intro problem initial found horder hfound _
  cases hfound
  exact horder.nested_replicate

/-- All QoI have the same real targets, which cost at most `limit`. -/
structure EvalRatios.Within (cs : List ℝ) (dims : Dimensions) (limit : ℝ)
    (result : EvalRatios ExactReal) (high : ℝ) (low : ℕ → ℝ) : Prop where
  highTargets : result.highTargets = List.replicate dims.numFunctions (real high)
  cols : result.solution.ratios.cols = dims.numApprox
  affordable : ∀ qoi < dims.numFunctions, Affordable cs result.solution.order dims.numApprox limit
    (result.solution.ratios.row qoi) high low

/-! ## Fitted ratios -/

namespace RatioInputs.HasRoom

variable {inputs : RatioInputs ExactReal} {rhoSq : QoiMatrix ExactReal} {cs : List ℝ}
  {high budget : ℝ} (h : inputs.HasRoom rhoSq cs high budget) {order : ModelOrder} {rs : List ℝ}
include h

/-- Nested ratios are still nested after they have been scaled to the budget. -/
theorem exists_nested_fitted (hlength : rs.length = rhoSq.cols) (horder : order.Valid rhoSq.cols)
    (hnested : order.Nested rhoSq.cols (rs.map real)) :
    ∃ fit : List ℝ, fit.length = rhoSq.cols ∧
      inputs.fitted rhoSq (real budget) (rs.map real) = fit.map real ∧
      order.Nested rhoSq.cols (fit.map real) ∧
      high * profileCost (cs.getD rhoSq.cols 0) fit cs ≤ budget * (1 + 1e-10) := by
  rcases h.fitted_real hlength with ⟨hfeasible, hfitted⟩ | ⟨-, factor, hfactor, hfitted, hcost⟩
  · exact ⟨rs, hlength, hfitted, hnested, (h.isFeasible_real rs).mp hfeasible⟩
  · rw [← hlength] at horder hnested
    refine ⟨_, by simpa using hlength, hfitted, ?_, ?_⟩
    · rw [← hlength]
      exact hnested.clamped horder hfactor.le
    · rw [hcost, mul_div_cancel₀ _ h.high_pos.ne']
      have hbudget := h.budget_pos
      linarith

/-- The target of ratios that fit covers the samples already drawn and respects the budget. -/
theorem exists_highTarget (hratio : ∀ r ∈ rs, 0 ≤ r)
    (hfit : high * profileCost (cs.getD rhoSq.cols 0) rs cs ≤ budget * (1 + 1e-10)) :
    ∃ target, (inputs.budgetProblem rhoSq (real budget)).highTarget (rs.map real) = real target ∧
      high ≤ target ∧ target * profileCost (cs.getD rhoSq.cols 0) rs cs ≤ budget * (1 + 1e-10) := by
  have hcost := one_le_profileCost (getD_pos h.length h.cost_pos le_rfl) h.cost_pos hratio
  have hcost_pos := zero_lt_one.trans_le hcost
  have hbudget := h.budget_pos
  refine ⟨_, h.highTarget_real hcost_pos.ne', le_max_right _ _, ?_⟩
  rw [max_mul_of_nonneg _ _ hcost_pos.le, div_mul_cancel₀ _ hcost_pos.ne']
  exact max_le (by linarith) hfit

end RatioInputs.HasRoom

/-! ## Equal counts -/

namespace RatioInputs

/-- Inputs of an ensemble at which no evaluation failed: all QoI have the same positive number of
samples. There is a budget, and the costs are positive real numbers. -/
structure Funded (inputs : RatioInputs ExactReal) (cs : List ℝ) (dims : Dimensions) (count : ℕ)
    (budget : ℝ) : Prop where
  target : inputs.target = .budget (real budget)
  budget_pos : 0 < budget
  costs : inputs.costs = ⟨cs.map real⟩
  length : cs.length = dims.numApprox + 1
  cost_pos : ∀ c ∈ cs, 0 < c
  numFunctions_pos : 0 < dims.numFunctions
  full : inputs.correlations.rhoSq.Full
  rows : inputs.correlations.rhoSq.rows = dims.numFunctions
  cols : inputs.correlations.rhoSq.cols = dims.numApprox
  counts : inputs.highCounts = List.replicate dims.numFunctions count
  count_pos : 0 < count
  previous : ∀ solution, inputs.previous = some solution → solution.order.Valid dims.numApprox

namespace Funded

variable {inputs : RatioInputs ExactReal} {cs : List ℝ} {dims : Dimensions} {count : ℕ}
  {budget : ℝ} (h : inputs.Funded cs dims count budget) {optimizer : Optimizer ExactReal}
  {result : EvalRatios ExactReal}
include h

theorem averageHigh : inputs.averageHigh = real count := by
  rw [RatioInputs.averageHigh, h.counts]
  exact averageCount_replicate h.numFunctions_pos.ne' count

theorem valid_startingOrder {rhoSq : QoiMatrix ExactReal} (hcols : rhoSq.cols = dims.numApprox) :
    (inputs.startingOrder rhoSq).Valid rhoSq.cols := by
  refine RatioInputs.valid_startingOrder ?_
  rw [hcols]
  exact h.previous

/-- A budget that does not pay for one more sample of every model is exhausted. -/
theorem isExhausted_of_le (hle : budget ≤ count * sampleCost cs dims.numApprox) :
    inputs.isExhausted dims.numApprox (real budget) = true := by
  have hunit : profileCost (cs.getD dims.numApprox 0) (List.replicate dims.numApprox 1) cs =
      sampleCost cs dims.numApprox := by
    rw [profileCost_eq_sum (by rw [List.length_replicate, h.length]; omega), sampleCost,
      List.length_replicate]
    congr 1
    refine Finset.sum_congr rfl fun model hmodel => ?_
    rw [List.getD_replicate 1 (Finset.mem_range.mp hmodel), mul_one]
  have hcost := zero_lt_one.trans_le (one_le_sampleCost h.length h.cost_pos)
  -- the budget pays for as many samples of every model as their cost fits into it
  have hallocated : allocateBudget (List.replicate dims.numApprox 1) inputs.costs (real budget) =
      real (budget / sampleCost cs dims.numApprox) := by
    have hhigh : cs.getD (List.replicate dims.numApprox (1 : ℝ)).length 0 ≠ 0 := by
      rw [List.length_replicate]
      exact (getD_pos h.length h.cost_pos le_rfl).ne'
    have hprofile : profileCost (cs.getD (List.replicate dims.numApprox (1 : ℝ)).length 0)
        (List.replicate dims.numApprox 1) cs ≠ 0 := by
      rw [List.length_replicate, hunit]
      exact hcost.ne'
    have hreal := allocateBudget_real hhigh hprofile budget
    rw [List.length_replicate, hunit, List.map_replicate] at hreal
    rw [h.costs]
    exact hreal
  rw [isExhausted, Bool.or_eq_true]
  right
  rw [hallocated, h.averageHigh]
  exact decide_eq_true (real_le_real.mpr ((div_le_iff₀ hcost).mpr hle))

section Result

variable (hresult : (inputs.evalRatios optimizer).outcome = .ok result)
include hresult

theorem rows_result : result.rhoSq.rows = dims.numFunctions :=
  (rows_rhoSq hresult).trans h.rows

theorem cols_result : result.rhoSq.cols = dims.numApprox :=
  (cols_rhoSq hresult).trans h.cols

theorem full_result : result.rhoSq.Full :=
  full_rhoSq h.full hresult

/-- The order of a solution lists every model once. -/
theorem valid_order : result.solution.order.Valid dims.numApprox := by
  rw [← h.cols]
  refine valid_order_of_evalRatios ?_ hresult
  rw [h.cols]
  exact h.previous

/-! ### The three forms -/

/-- A search that finds the budget exhausted keeps to one sample of every model for each one of the
high-fidelity model. -/
theorem within_of_isExhausted (hform : result.solution.form = .numerical)
    (hexhausted : inputs.isExhausted dims.numApprox (real budget) = true) :
    result.Within cs dims (count * sampleCost cs dims.numApprox) count fun _ => count := by
  have hcols := h.cols_result hresult
  have hrows := h.rows_result hresult
  rw [← hcols] at hexhausted
  -- the solution is the one that keeps to the samples already drawn
  have hsolution : result.solution = inputs.exhaustedSolution result.rhoSq := by
    rcases scaled_of_evalRatios h.target hresult with ⟨hne, -⟩ | ⟨hsearch, -⟩
    · exact absurd hform hne
    · rw [numericalSolution_of_isExhausted h.target hexhausted] at hsearch
      exact (Except.ok.inj hsearch).symm
  refine ⟨?_, ?_, fun qoi hqoi => ?_⟩
  · rw [highTargets_of_isExhausted h.target hresult hform hexhausted, hrows, h.averageHigh]
  · rw [hsolution]
    exact hcols
  · have hrow : result.solution.ratios.row qoi = List.replicate dims.numApprox 1 := by
      rw [hsolution, ← hcols]
      exact QoiMatrix.row_filled (hrows ▸ hqoi) _ _
    rw [hrow]
    refine ⟨Nat.cast_nonneg count, fun _ _ => le_rfl, fun _ _ _ _ => le_rfl, fun model hmodel => ?_,
      ?_⟩
    · rw [List.getD_replicate 1 hmodel, one_eq, real_mul, one_mul]
      exact Or.inl rfl
    · rw [← Finset.sum_mul, sampleCost]
      exact le_of_eq (by ring)

/-- A search within a budget that has room leads to targets within the budget, up to rounding. -/
theorem within_of_search (hordered : optimizer.Ordered)
    (hsearch : (inputs.numericalSolution result.rhoSq optimizer).outcome = .ok result.solution)
    (hexhausted : inputs.isExhausted dims.numApprox (real budget) = false) :
    ∃ high low, result.Within cs dims (budget * (1 + 1e-10)) high low ∧ count ≤ high := by
  have hcols := h.cols_result hresult
  have hrows := h.rows_result hresult
  have hvalid := h.valid_startingOrder hcols
  rw [← hcols] at hexhausted
  have hroom : inputs.HasRoom result.rhoSq cs count budget :=
    hasRoom_of_isExhausted_eq_false h.target h.costs (by rw [h.length, hcols]) h.cost_pos
      h.averageHigh (by exact_mod_cast h.count_pos) hexhausted
  rcases numericalSolution_eq_ok h.target hsearch with
    ⟨hfalse, -⟩ | ⟨-, initial, found, hfound, ⟨hlength, hfinite⟩, hsolution⟩
  · rw [hexhausted] at hfalse
    cases hfalse
  · -- what the optimizer returns is nested, and it is so after it has been made to fit
    have hnested := hordered _ _ _ hvalid hfound hlength
    obtain ⟨rs, rfl⟩ := exists_map_real hfinite
    obtain ⟨fit, hfitlength, hfitted, hfit, hcost⟩ :=
      hroom.exists_nested_fitted (by simpa using hlength) hvalid hnested
    obtain ⟨high, hhigh, hcount, hlimit⟩ := hroom.exists_highTarget (fun r hr =>
      zero_le_one.trans (real_le_real.mp (hfit.one_le _ (List.mem_map_of_mem hr)))) hcost
    rw [hfitted] at hsolution
    have htargets : result.highTargets = List.replicate dims.numFunctions (real high) := by
      have heval := (evalRatios_eq_ok_iff.mp hresult).2.2
      rw [hsolution, solutionOf, highTargets, hhigh, hrows] at heval
      exact (Except.ok.inj heval).symm
    refine ⟨high, fun model => fit.getD model 0 * high, ⟨htargets, ?_, fun qoi hqoi => ?_⟩, hcount⟩
    · rw [hsolution, ← hcols, ← hfitlength, ← List.length_map real]
      rfl
    · have hrow : result.solution.ratios.row qoi = fit.map real := by
        rw [hsolution]
        exact QoiMatrix.row_ofRow (hrows ▸ hqoi) _
      have horder : result.solution.order = inputs.startingOrder result.rhoSq := by
        rw [hsolution]
        rfl
      rw [hrow, horder]
      rw [hcols] at hfit hfitlength hlimit
      exact affordable_real hfitlength (by rw [h.length]; omega) hfit
        ((Nat.cast_nonneg count).trans hcount) hlimit

theorem nested_of_form (hform : result.solution.form ≠ .numerical) :
    result.solution.IsNested dims := by
  have hcols := h.cols_result hresult
  have hrows := h.rows_result hresult
  rcases closedForm_of_evalRatios hresult hform with heq | heq
  · rw [heq]
    exact isNested_analytic hrows hcols inputs.costs (h.full_result hresult)
  · rw [heq]
    exact isNested_reordered hrows hcols inputs.costs

/-- Ratios in closed form lead to targets within the budget, by QoI. -/
theorem exists_affordable_of_form (hform : result.solution.form ≠ .numerical) {qoi : ℕ}
    (hqoi : qoi < dims.numFunctions) :
    ∃ high low, result.highTargets[qoi]? = some (real high) ∧
      Affordable cs result.solution.order dims.numApprox budget (result.solution.ratios.row qoi)
        high low := by
  have hnested := h.nested_of_form hresult hform
  obtain ⟨high, low, hallocated, haffordable⟩ := exists_affordable h.length h.cost_pos
    (hnested.length qoi hqoi) (hnested.nested qoi hqoi) h.budget_pos
  refine ⟨high, low, ?_, haffordable⟩
  rcases scaled_of_evalRatios h.target hresult with ⟨-, htargets⟩ | ⟨-, _, _, _, _, heq, -⟩
  · rw [htargets, budgetTargets, h.costs, List.getElem?_map, QoiMatrix.toRows, List.getElem?_map,
      hnested.rows, List.getElem?_range hqoi]
    exact congrArg some hallocated
  · rw [heq] at hform
    exact absurd rfl hform

/-! ### Any form -/

theorem length_highTargets_of_form (hform : result.solution.form ≠ .numerical) :
    result.highTargets.length = dims.numFunctions := by
  rcases scaled_of_evalRatios h.target hresult with ⟨-, htargets⟩ | ⟨-, _, _, _, _, heq, -⟩
  · rw [htargets, budgetTargets, List.length_map, QoiMatrix.length_toRows,
      (h.nested_of_form hresult hform).rows]
  · rw [heq] at hform
    exact absurd rfl hform

/-- A search within a budget that has room, or any form for a single QoI, leads to shared targets
within the budget. -/
theorem exists_within (hordered : optimizer.Ordered)
    (hshared : result.solution.form = .numerical ∨ dims.numFunctions = 1)
    (hroom : result.solution.form = .numerical →
      inputs.isExhausted dims.numApprox (real budget) = false) :
    ∃ high low, result.Within cs dims (budget * (1 + 1e-10)) high low ∧
      (result.solution.form = .numerical → count ≤ high) := by
  by_cases hform : result.solution.form = .numerical
  · rcases scaled_of_evalRatios h.target hresult with ⟨hne, -⟩ | ⟨hsearch, -⟩
    · exact absurd hform hne
    · obtain ⟨high, low, hwithin, hcount⟩ :=
        h.within_of_search hresult hordered hsearch (hroom hform)
      exact ⟨high, low, hwithin, fun _ => hcount⟩
  · have hone : dims.numFunctions = 1 := hshared.resolve_left hform
    have hbudget := h.budget_pos
    obtain ⟨high, low, htarget, haffordable⟩ :=
      h.exists_affordable_of_form hresult hform h.numFunctions_pos
    refine ⟨high, low, ⟨?_, ?_, fun qoi hqoi => ?_⟩, fun hnumerical => absurd hnumerical hform⟩
    · have hlength := h.length_highTargets_of_form hresult hform
      rw [hone] at hlength ⊢
      obtain ⟨target, htargets⟩ := List.length_eq_one_iff.mp hlength
      rw [htargets] at htarget ⊢
      simpa using htarget
    · exact (h.nested_of_form hresult hform).cols
    · obtain rfl : qoi = 0 := by omega
      exact haffordable.mono (by linarith)

/-- The high-fidelity targets of any form are within the budget, together with one companion of
each model. -/
theorem highTargets_le (hordered : optimizer.Ordered)
    (hroom : result.solution.form = .numerical →
      inputs.isExhausted dims.numApprox (real budget) = false) :
    ∀ target ∈ result.highTargets,
      target ≤ real (budget * (1 + 1e-10) / sampleCost cs dims.numApprox) := by
  have hcost := one_le_sampleCost h.length h.cost_pos
  have hbudget := h.budget_pos
  intro target htarget
  by_cases hform : result.solution.form = .numerical
  · obtain ⟨high, low, hwithin, -⟩ := h.exists_within hresult hordered (Or.inl hform) hroom
    rw [hwithin.highTargets] at htarget
    rw [List.eq_of_mem_replicate htarget, real_le_real, le_div_iff₀ (by linarith)]
    exact (hwithin.affordable 0 h.numFunctions_pos).high_mul_le h.length h.cost_pos
  · obtain ⟨qoi, hqoi, rfl⟩ := List.mem_iff_getElem.mp htarget
    have hlength := h.length_highTargets_of_form hresult hform
    obtain ⟨high, low, hhigh, haffordable⟩ :=
      h.exists_affordable_of_form hresult hform (hlength ▸ hqoi)
    rw [List.getElem?_eq_getElem hqoi, Option.some_inj] at hhigh
    rw [hhigh, real_le_real, le_div_iff₀ (by linarith)]
    have hle := haffordable.high_mul_le h.length h.cost_pos
    linarith

end Result

end Funded

end RatioInputs

end Multifidelity
