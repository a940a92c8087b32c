import Multifidelity.Proofs.Allocation.ClosedForm
import Multifidelity.Proofs.Allocation.SearchOrder
import Multifidelity.Proofs.Relabelling

/-!
# Allocations under other labels

An allocation works with positions along an order of the models, with labels that are looked up
there, and with sums over all models. It does not depend on how the models are labelled: under other
labels it leads to the same variances, targets and objective, and to the same order and ratios with
the labels exchanged.

## Main definitions

* `Relabelling.costs`, `Relabelling.solution`, `Relabelling.problem`: costs, solutions and problems
  under the new labels

## Main results

* `Relabelling.correlationOrder_matrix`: models with different correlations are sorted alike
* `Relabelling.rounds_values`: a profile is scaled to a budget model by model
* `relabelled_allocation`: what is computed under other labels
-/

namespace Multifidelity

open ExactReal

namespace Relabelling

variable {numApprox : ℕ} (p : Relabelling numApprox)

section Definitions

variable {α : Type}

/-- The costs under the new labels. The high-fidelity model stays last. -/
def costs (costs : Costs α) : Costs α :=
  ⟨p.values costs.perModel⟩

/-- A solution under the new labels. -/
def solution : RatioSolution α → RatioSolution α
  | .analytic ratios => .analytic (p.matrix ratios)
  | .reordered order ratios => .reordered (p.order order) (p.matrix ratios)
  | .numerical order ratios highTarget variance =>
    .numerical (p.order order) (p.matrix ratios) highTarget variance

/-- A problem under the new labels. -/
def problem (problem : RatioProblem α) : RatioProblem α :=
  { problem with
    rhoSq := p.matrix problem.rhoSq
    varLow := p.matrix problem.varLow
    costs := p.costs problem.costs
    order := p.order problem.order }

theorem ratios_solution (solution : RatioSolution α) :
    (p.solution solution).ratios = p.matrix solution.ratios := by
  cases solution <;> rfl

theorem order_solution (solution : RatioSolution α) :
    (p.solution solution).order = p.order solution.order := by
  cases solution <;> rfl

end Definitions

variable {costs : Costs ExactReal} (hcosts : costs.perModel.length = numApprox + 1)

include hcosts in
theorem ofModel_costs : (p.costs costs).ofModel numApprox = costs.ofModel numApprox := by
  have hhigh := p.getD_values (by omega : numApprox ≤ costs.perModel.length) numApprox 0
  rwa [p.symm_of_le le_rfl] at hhigh

/-! ## Ratios in closed form -/

section ClosedForm

variable {rhoSq : QoiMatrix ExactReal} (hfull : rhoSq.Full) (hcols : rhoSq.cols = numApprox)

include hfull hcols in
theorem columnMeans_matrix : (p.matrix rhoSq).columnMeans = p.values rhoSq.columnMeans := by
  have hlength : rhoSq.columnMeans.length = rhoSq.cols := by simp [QoiMatrix.columnMeans]
  have hcolumn : ∀ model < rhoSq.cols,
      (p.matrix rhoSq).column model = rhoSq.column (p.perm.symm model) := by
    intro model hmodel
    rw [QoiMatrix.column, QoiMatrix.column, rows_matrix]
    refine List.map_congr_left fun qoi hqoi => ?_
    exact p.entry_matrix hfull hcols.ge (List.mem_range.mp hqoi) hmodel
  apply List.ext_getElem?
  intro model
  rw [p.getElem?_values (by omega), QoiMatrix.columnMeans, QoiMatrix.columnMeans, cols_matrix,
    List.getElem?_map, List.getElem?_map]
  rcases lt_or_ge model rhoSq.cols with hlt | hge
  · rw [List.getElem?_range hlt, List.getElem?_range ((p.symm_lt_iff hcols.ge).mpr hlt),
      Option.map_some, Option.map_some, hcolumn model hlt]
  · rw [p.symm_of_le (hcols ▸ hge)]
    simp [hge]

include hfull hcols in
/-- Models with different averages are sorted alike, whatever their labels are. -/
theorem correlationOrder_matrix
    (hnumbers : ∀ mean ∈ rhoSq.columnMeans, Scalar.isNaN mean = false)
    (hdistinct : rhoSq.columnMeans.Nodup) :
    correlationOrder (p.matrix rhoSq) = p.order (correlationOrder rhoSq) := by
  have hlength : rhoSq.columnMeans.length = numApprox := by
    simp [QoiMatrix.columnMeans, hcols]
  have hmeans := p.columnMeans_matrix hfull hcols
  have hperm := p.values_perm hlength.ge
  have hold := isAscending_correlationOrder hnumbers
  have hnew : (correlationOrder (p.matrix rhoSq)).IsAscending (p.matrix rhoSq) := by
    apply isAscending_correlationOrder
    intro mean hmean
    rw [hmeans, hperm.mem_iff] at hmean
    exact hnumbers mean hmean
  have hmodels : (correlationOrder rhoSq).Perm (List.range numApprox) := hcols ▸ hold.perm
  have hmodels' : (correlationOrder (p.matrix rhoSq)).Perm (List.range numApprox) :=
    hcols ▸ hnew.perm
  -- both list the models by increasing averages, which no two models share
  refine List.Perm.eq_of_pairwise (fun a b ha hb hab hba => ?_) hnew.sorted ?_
    (hmodels'.trans (p.order_perm hmodels le_rfl).symm)
  · have hlength' : (p.matrix rhoSq).columnMeans.length = numApprox := by
      rw [hmeans, hperm.length_eq, hlength]
    have hlt : a < (p.matrix rhoSq).columnMeans.length := by
      rw [hlength', ← List.mem_range, ← hmodels'.mem_iff]
      exact ha
    have hlt' : b < (p.matrix rhoSq).columnMeans.length := by
      rw [hlength', ← List.mem_range]
      exact (p.order_perm hmodels le_rfl).mem_iff.mp hb
    have hequal := ExactReal.le_antisymm hab hba
    rw [List.getD_eq_getElem _ _ hlt, List.getD_eq_getElem _ _ hlt'] at hequal
    have hnodup : (p.matrix rhoSq).columnMeans.Nodup := by
      rw [hmeans]
      exact hperm.nodup_iff.mpr hdistinct
    exact hnodup.getElem_inj_iff.mp hequal
  · rw [Relabelling.order, List.pairwise_map, hmeans]
    refine hold.sorted.imp fun {a b} hle => ?_
    rwa [p.getD_values_apply hlength.ge, p.getD_values_apply hlength.ge]

include hcosts in
theorem sequenceRatios_values {rho : List ExactReal} (hrho : rho.length = numApprox)
    {order : ModelOrder} (horder : order.Perm (List.range numApprox)) :
    sequenceRatios (p.values rho) (p.costs costs) (p.order order) =
      p.values (sequenceRatios rho costs order) := by
  have hlength := p.length_values hrho.ge
  have hvalid : order.Valid rho.length := Or.inr (hrho ▸ horder)
  have hvalid' : (p.order order).Valid (p.values rho).length :=
    Or.inr (by rw [hlength, hrho]; exact p.order_perm horder le_rfl)
  rw [sequenceRatios_eq_scatter hvalid, sequenceRatios_eq_scatter hvalid', hlength, hrho,
    p.gather_order horder le_rfl hrho.ge, p.ofModel_costs hcosts, Relabelling.costs,
    p.gather_order horder le_rfl (by omega : numApprox ≤ costs.perModel.length)]
  exact p.scatter_order (by simpa using horder) (by simp) (by simp)

include hfull hcols hcosts in
/-- The shared closed form has the same order and ratios under other labels. -/
theorem reorderedRatios_matrix
    (hnumbers : ∀ mean ∈ rhoSq.columnMeans, Scalar.isNaN mean = false)
    (hdistinct : rhoSq.columnMeans.Nodup) :
    reorderedRatios (p.matrix rhoSq) (p.costs costs) =
      (p.order (reorderedRatios rhoSq costs).1, p.matrix (reorderedRatios rhoSq costs).2) := by
  have hlength : rhoSq.columnMeans.length = numApprox := by
    simp [QoiMatrix.columnMeans, hcols]
  have horder : (correlationOrder rhoSq).Perm (List.range numApprox) :=
    hcols ▸ correlationOrder_perm rhoSq
  rw [reorderedRatios, reorderedRatios, p.correlationOrder_matrix hfull hcols hnumbers hdistinct,
    p.columnMeans_matrix hfull hcols, p.sequenceRatios_values hcosts hlength horder, rows_matrix,
    p.matrix_ofRow rhoSq.rows (by rw [length_sequenceRatios, hlength])]

end ClosedForm

/-! ## Variances -/

section Variance

variable {order : ModelOrder} (horder : order.Perm (List.range numApprox))
include horder

/-- Correlations and ratios are only read along an order. -/
theorem rSquared_values {rho ratios : List ExactReal} (hrho : rho.length = numApprox)
    (hratios : ratios.length = numApprox) :
    rSquared (p.values rho) (p.values ratios) (p.order order) = rSquared rho ratios order := by
  rw [rSquared, rSquared, p.length_values hrho.ge, hrho, p.gather_order horder le_rfl hrho.ge,
    p.gather_order horder le_rfl hratios.ge]

variable {rhoSq ratios : QoiMatrix ExactReal} (hrhoFull : rhoSq.Full)
  (hrhoCols : rhoSq.cols = numApprox) (hratiosFull : ratios.Full)
  (hratiosCols : ratios.cols = numApprox) (hrows : ratios.rows = rhoSq.rows)
include hrhoFull hrhoCols hratiosFull hratiosCols hrows

theorem varianceRatios_matrix :
    varianceRatios (p.matrix rhoSq) (p.matrix ratios) (p.order order) =
      varianceRatios rhoSq ratios order := by
  rw [varianceRatios, varianceRatios, rows_matrix]
  refine List.map_congr_left fun qoi hqoi => ?_
  replace hqoi := List.mem_range.mp hqoi
  rw [p.row_matrix hrhoFull hrhoCols.ge hqoi,
    p.row_matrix hratiosFull hratiosCols.ge (hrows ▸ hqoi),
    p.rSquared_values horder ((hrhoFull.length_row hqoi).trans hrhoCols)
      ((hratiosFull.length_row (hrows ▸ hqoi)).trans hratiosCols)]

omit horder hrhoFull hrhoCols hrows in
theorem realizedRatios_matrix (target : ExactReal) (counts : List ℕ) :
    realizedRatios (p.matrix ratios) target counts =
      p.matrix (realizedRatios ratios target counts) := by
  rw [realizedRatios, realizedRatios, p.matrix_ofFn _ hratiosCols.ge, rows_matrix, cols_matrix]
  refine QoiMatrix.ofFn_congr fun qoi hqoi model hmodel => ?_
  rw [p.entry_matrix hratiosFull hratiosCols.ge hqoi hmodel]

/-- Neither does the variance that is left depend on labels if more samples were drawn. -/
theorem realizedVarianceRatios_solution {solution : RatioSolution ExactReal}
    (hsolution : solution.ratios = ratios) (hsolutionOrder : solution.order = order)
    (highTargets : List ExactReal) (counts : List ℕ) :
    realizedVarianceRatios (p.matrix rhoSq) (p.solution solution) highTargets counts =
      realizedVarianceRatios rhoSq solution highTargets counts := by
  have hrealized : (realizedRatios ratios (average highTargets) counts).Full := by
    rw [realizedRatios, QoiMatrix.ofFn_eq_ofRows]
    refine QoiMatrix.full_ofRows fun row hrow => ?_
    obtain ⟨qoi, -, rfl⟩ := List.mem_map.mp hrow
    rw [List.length_map, List.length_range]
  rw [realizedVarianceRatios, realizedVarianceRatios, p.ratios_solution, p.order_solution,
    hsolution, hsolutionOrder, p.realizedRatios_matrix hratiosFull hratiosCols]
  split
  · exact p.varianceRatios_matrix horder hrhoFull hrhoCols hrealized hratiosCols hrows
  · exact p.varianceRatios_matrix horder hrhoFull hrhoCols hratiosFull hratiosCols hrows

end Variance

/-! ## Targets -/

section Targets

variable {row : List ExactReal} (hrow : row.length = numApprox)
include hcosts hrow

/-- The models may be charged for in any order. -/
theorem zip_values_perm :
    ((p.values row).zip (p.costs costs).perModel).Perm (row.zip costs.perModel) := by
  have hzip := p.zipWith_values Prod.mk hrow.ge (by omega : numApprox ≤ costs.perModel.length)
  rw [List.zip, Relabelling.costs, hzip]
  exact p.values_perm (by simp; omega)

theorem allocateBudget_values (budget : ExactReal) :
    allocateBudget (p.values row) (p.costs costs) budget = allocateBudget row costs budget := by
  simp only [allocateBudget, p.length_values hrow.ge, hrow, p.ofModel_costs hcosts]
  rw [(p.zip_values_perm hcosts hrow).foldl_eq']
  intro x _ y _ sum
  exact ExactReal.add_right_comm _ _ _

omit hrow in
theorem budgetTargets_matrix {ratios : QoiMatrix ExactReal} (hfull : ratios.Full)
    (hcols : ratios.cols = numApprox) (budget : ExactReal) :
    budgetTargets (p.matrix ratios) (p.costs costs) budget =
      budgetTargets ratios costs budget := by
  rw [budgetTargets, budgetTargets, p.toRows_matrix hfull hcols.ge, List.map_map]
  refine List.map_congr_left fun row hrow => ?_
  exact p.allocateBudget_values hcosts ((hfull.length_of_mem_toRows hrow).trans hcols) budget

end Targets

/-! ## Profiles scaled to a budget -/

section Scaling

open BudgetScaling

variable (costHigh share : ExactReal) {slots : List (Slot ExactReal)}

omit p in
theorem length_round (slots : List (Slot ExactReal)) :
    (BudgetScaling.round costHigh share slots).1.length = slots.length := by
  unfold BudgetScaling.round
  split
  · dsimp only
    split <;> simp
  · rfl

variable (h : numApprox ≤ slots.length)
include h

theorem fixedCost_values : fixedCost costHigh (p.values slots) = fixedCost costHigh slots :=
  total_perm (((p.values_perm h).filter _).map _)

theorem freeCost_values : freeCost costHigh (p.values slots) = freeCost costHigh slots :=
  total_perm (((p.values_perm h).filter _).map _)

/-- A round treats every slot alike, given what the others cost. -/
theorem round_values : BudgetScaling.round costHigh share (p.values slots) =
    (p.values (BudgetScaling.round costHigh share slots).1,
      (BudgetScaling.round costHigh share slots).2) := by
  have hcount : ∀ factor, ((p.values slots).map (Slot.scale factor)).countP Slot.isFixed =
      (slots.map (Slot.scale factor)).countP Slot.isFixed := fun factor =>
    ((p.values_perm h).map _).countP_eq _
  rw [BudgetScaling.round, BudgetScaling.round, factor, factor, p.fixedCost_values costHigh h,
    p.freeCost_values costHigh h]
  dsimp only
  rw [hcount, (p.values_perm h).countP_eq]
  split
  · split
    · rw [p.map_values]
    · rw [p.map_values, p.map_values]
  · rfl

theorem rounds_values (fuel : ℕ) : rounds costHigh share fuel (p.values slots) =
    p.values (rounds costHigh share fuel slots) := by
  induction fuel generalizing slots with
  | zero => rfl
  | succ fuel ih =>
    have hlength := length_round costHigh share slots
    rw [rounds, rounds, p.round_values costHigh share h]
    cases hround : BudgetScaling.round costHigh share slots with
    | mk next again =>
      rw [hround] at hlength
      cases again with
      | true => exact ih (h.trans hlength.ge)
      | false => rfl

end Scaling

include hcosts in
/-- A profile is scaled to a budget model by model. -/
theorem scaleToBudget_values {row : List ExactReal} (hrow : row.length = numApprox)
    (high budget : ExactReal) :
    scaleToBudget (p.values row) (p.costs costs) high budget =
      p.values (scaleToBudget row costs high budget) := by
  have hslots := p.zipWith_values
    (fun ratio cost => (⟨ratio, cost, false⟩ : BudgetScaling.Slot ExactReal)) hrow.ge
    (by omega : numApprox ≤ costs.perModel.length)
  unfold scaleToBudget
  dsimp only
  rw [p.length_values hrow.ge, hrow, p.ofModel_costs hcosts]
  rw [show (p.costs costs).perModel = p.values costs.perModel from rfl, hslots,
    p.rounds_values _ _ (by simp; omega), p.map_values]

/-! ## The objective -/

/-- The objective is the same at the same ratios. -/
theorem objective_problem {problem : RatioProblem ExactReal} (hfull : problem.rhoSq.Full)
    (hcols : problem.rhoSq.cols = numApprox) (hvar : problem.varHigh.length = problem.rhoSq.rows)
    (hcosts : problem.costs.perModel.length = numApprox + 1)
    (horder : problem.order.Perm (List.range numApprox)) {row : List ExactReal}
    (hrow : row.length = numApprox) :
    (p.problem problem).objective (p.values row) = problem.objective row := by
  have hhigh := p.ofModel_costs hcosts
  have hcost : (p.problem problem).relativeCost (p.values row) = problem.relativeCost row := by
    have hnew : (p.problem problem).numApprox = numApprox := hcols
    have hold : problem.numApprox = numApprox := hcols
    rw [RatioProblem.relativeCost, RatioProblem.relativeCost, hnew, hold,
      show (p.problem problem).costs = p.costs problem.costs from rfl, hhigh,
      (p.zip_values_perm hcosts hrow).foldl_eq']
    intro x _ y _ sum
    exact ExactReal.add_right_comm _ _ _
  have hfactor : (p.problem problem).varianceFactor (p.values row) =
      problem.varianceFactor row := by
    refine congrArg average (List.mapIdx_eq_mapIdx_iff.mpr fun qoi hqoi => ?_)
    replace hqoi : qoi < problem.rhoSq.rows := hvar ▸ hqoi
    have hsame : rSquared ((p.matrix problem.rhoSq).row qoi) (p.values row)
        (p.order problem.order) = rSquared (problem.rhoSq.row qoi) row problem.order := by
      rw [p.row_matrix hfull hcols.ge hqoi]
      exact p.rSquared_values horder ((hfull.length_row hqoi).trans hcols) hrow
    exact congrArg (fun removed => problem.varHigh[qoi] * (1 - removed)) hsame
  have hfeasible : (p.problem problem).isFeasible (p.values row) = problem.isFeasible row := by
    unfold RatioProblem.isFeasible
    rw [hcost]
    rfl
  rw [RatioProblem.objective, RatioProblem.objective, hfeasible, hfactor, hcost]

end Relabelling

/-- What an allocation computes does not depend on how the models are labelled. The closed form that
the QoI share has the same order and the same ratios under the new labels, if no two models are
equally correlated on average. The variances, the targets and the objective do not change, whatever
the order and the ratios are, and the ratios scaled to a budget move along with their models. -/
theorem relabelled_allocation {numApprox : ℕ} (p : Relabelling numApprox)
    {costs : Costs ExactReal} (hcosts : costs.perModel.length = numApprox + 1)
    {rhoSq : QoiMatrix ExactReal} (hrhoFull : rhoSq.Full) (hrhoCols : rhoSq.cols = numApprox)
    {solution : RatioSolution ExactReal} (hratiosFull : solution.ratios.Full)
    (hratiosCols : solution.ratios.cols = numApprox) (hrows : solution.ratios.rows = rhoSq.rows)
    (horder : solution.order.Perm (List.range numApprox)) :
    ((∀ mean ∈ rhoSq.columnMeans, Scalar.isNaN mean = false) → rhoSq.columnMeans.Nodup →
      reorderedRatios (p.matrix rhoSq) (p.costs costs) =
        (p.order (reorderedRatios rhoSq costs).1, p.matrix (reorderedRatios rhoSq costs).2)) ∧
    varianceRatios (p.matrix rhoSq) (p.solution solution).ratios (p.solution solution).order =
      varianceRatios rhoSq solution.ratios solution.order ∧
    (∀ highTargets counts,
      realizedVarianceRatios (p.matrix rhoSq) (p.solution solution) highTargets counts =
        realizedVarianceRatios rhoSq solution highTargets counts) ∧
    (∀ budget, budgetTargets (p.solution solution).ratios (p.costs costs) budget =
      budgetTargets solution.ratios costs budget) ∧
    (∀ row high budget, row.length = numApprox →
      scaleToBudget (p.values row) (p.costs costs) high budget =
        p.values (scaleToBudget row costs high budget)) ∧
    ∀ problem : RatioProblem ExactReal, problem.rhoSq = rhoSq → problem.costs = costs →
      problem.order = solution.order → problem.varHigh.length = rhoSq.rows →
      ∀ row, row.length = numApprox →
        (p.problem problem).objective (p.values row) = problem.objective row := by
  refine ⟨p.reorderedRatios_matrix hcosts hrhoFull hrhoCols, ?_, fun highTargets counts => ?_,
    fun budget => ?_, fun row high budget hrow => p.scaleToBudget_values hcosts hrow high budget,
    ?_⟩
  · rw [p.ratios_solution, p.order_solution]
    exact p.varianceRatios_matrix horder hrhoFull hrhoCols hratiosFull hratiosCols hrows
  · exact p.realizedVarianceRatios_solution horder hrhoFull hrhoCols hratiosFull hratiosCols hrows
      rfl rfl highTargets counts
  · rw [p.ratios_solution]
    exact p.budgetTargets_matrix hcosts hratiosFull hratiosCols budget
  · intro problem hproblem hproblemCosts hproblemOrder hvar row hrow
    subst hproblem hproblemCosts
    exact p.objective_problem hrhoFull hrhoCols hvar hcosts (hproblemOrder ▸ horder) hrow

/-- The relabelling that exchanges two models. -/
def exchange : Relabelling 2 where
  perm := Equiv.swap 0 1
  fixes _ h := Equiv.swap_apply_of_ne_of_ne (by omega) (by omega)

/-- Two models of different costs, under exchanged labels. -/
theorem relabelled_allocation_exchange :
    let costs : Costs ExactReal := ⟨[1, real 2, real 4]⟩
    let solution : RatioSolution ExactReal := .reordered [1, 0] (.ofRow 1 [real 2, real 3])
    reorderedRatios (exchange.matrix secondCorrelated) (exchange.costs costs) =
        (exchange.order (reorderedRatios secondCorrelated costs).1,
          exchange.matrix (reorderedRatios secondCorrelated costs).2) ∧
      varianceRatios (exchange.matrix secondCorrelated) (exchange.matrix solution.ratios) [0, 1] =
        varianceRatios secondCorrelated solution.ratios [1, 0] := by
  intro costs solution
  have hfull : solution.ratios.Full := QoiMatrix.full_ofRows (by simp)
  obtain ⟨hreordered, hvariance, -⟩ := relabelled_allocation exchange
    (rfl : costs.perModel.length = 3) (show secondCorrelated.Full from rfl) rfl hfull rfl rfl
    (List.Perm.swap 0 1 [])
  refine ⟨hreordered ?_ ?_, hvariance⟩
  · simp [columnMeans_secondCorrelated]
  · rw [columnMeans_secondCorrelated]
    norm_num

end Multifidelity
