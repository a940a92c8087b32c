import Multifidelity.Allocation.Compass
import Multifidelity.Proofs.Allocation.EvalRatios
import Multifidelity.Proofs.Lockstep

/-!
# Allocations in other units

An allocation uses the costs only through their ratios, and the variances of the low-fidelity models
not at all: a common factor of all costs cancels in each of its formulas, and so does the unit of a
low-fidelity model, of which only the squared correlations are seen. An optimizer that shares this
property leads to the same allocation in all units.

## Main definitions

* `Costs.scale`: the costs in another unit
* `RatioProblem.withUnits`, `RatioInputs.withUnits`: data in other units
* `Optimizer.UnitFree`: optimizers that do not depend on the units

## Main results

* `ExactReal.pos_mul_div_pos_mul`: a positive factor cancels, whatever the operands are
* `Costs.check_scale`: costs are accepted in each unit alike
* `allocateBudget_scale`, `scaleToBudget_scale`, `sequenceRatios_scale`: what does not depend on
  the unit of the costs
* `CompassSearch.unitFree_optimize`: the compass search does not depend on the units
* `RatioInputs.outcome_evalRatios_withUnits`: neither does an allocation
-/

namespace Multifidelity

/-! ## Positive factors -/

namespace ExactReal

variable {factor : ℝ} (h : 0 < factor)

protected theorem mul_comm (x y : ExactReal) : x * y = y * x := by
  cases x with
  | real x =>
    cases y with
    | real y => exact congrArg real (mul_comm x y)
    | posInf => rfl
    | negInf => rfl
    | nan => rfl
  | posInf => cases y <;> rfl
  | negInf => cases y <;> rfl
  | nan => cases y <;> rfl

theorem one_real_mul (x : ExactReal) : real 1 * x = x := by
  cases x with
  | real x => rw [real_mul, one_mul]
  | posInf => exact infinite_of_pos one_pos
  | negInf => exact (if_neg (by norm_num)).trans (if_pos (by norm_num))
  | nan => rfl

theorem real_mul_zero (x : ℝ) : real x * 0 = 0 :=
  congrArg real (mul_zero x)

theorem getD_map_real_mul (x : ℝ) (values : List ExactReal) (i : ℕ) :
    (values.map (real x * ·)).getD i 0 = real x * values.getD i 0 := by
  rw [← real_mul_zero x, List.getD_map, real_mul_zero]

theorem lift_infinite (f : ℝ → ℝ) (x : ℝ) : lift f (infinite x) = infinite x := by
  unfold infinite
  split
  · rfl
  · split <;> rfl

include h

theorem infinite_pos_mul (x : ℝ) : infinite (factor * x) = infinite x := by
  have hneg : factor * x < 0 ↔ x < 0 := by
    rw [← not_le, ← not_le, mul_nonneg_iff_of_pos_left h]
  unfold infinite
  simp only [mul_pos_iff_of_pos_left h, hneg]

/-- A positive factor leaves the infinities and the NaN in place. -/
theorem pos_mul_eq_lift (x : ExactReal) : real factor * x = lift (factor * ·) x := by
  cases x with
  | real x => rfl
  | posInf => exact infinite_of_pos h
  | negInf => exact (if_neg (by linarith)).trans (if_pos (by linarith))
  | nan => rfl

theorem pos_mul_mul (x y : ExactReal) : real factor * x * y = real factor * (x * y) := by
  rw [pos_mul_eq_lift h, pos_mul_eq_lift h]
  cases x with
  | real x =>
    -- the sign of a product with an infinity is that of the other operand
    have hsign : ∀ sign : ℝ, infinite (factor * sign) = lift (factor * ·) (infinite sign) :=
      fun sign => (infinite_pos_mul h sign).trans (lift_infinite _ sign).symm
    cases y with
    | real y => exact congrArg real (mul_assoc factor x y)
    | posInf => exact hsign x
    | negInf => exact (congrArg infinite (mul_neg factor x).symm).trans (hsign (-x))
    | nan => rfl
  | posInf =>
    cases y with
    | real y => exact (lift_infinite _ y).symm
    | posInf => rfl
    | negInf => rfl
    | nan => rfl
  | negInf =>
    cases y with
    | real y => exact (lift_infinite _ (-y)).symm
    | posInf => rfl
    | negInf => rfl
    | nan => rfl
  | nan => cases y <;> rfl

theorem mul_pos_mul (x y : ExactReal) : x * (real factor * y) = real factor * (x * y) := by
  rw [ExactReal.mul_comm, pos_mul_mul h, ExactReal.mul_comm y]

theorem pos_mul_add (x y : ExactReal) :
    real factor * (x + y) = real factor * x + real factor * y := by
  rw [pos_mul_eq_lift h, pos_mul_eq_lift h, pos_mul_eq_lift h]
  cases x with
  | real x =>
    cases y with
    | real y => exact congrArg real (mul_add factor x y)
    | posInf => rfl
    | negInf => rfl
    | nan => rfl
  | posInf => cases y <;> rfl
  | negInf => cases y <;> rfl
  | nan => cases y <;> rfl

theorem pos_mul_div (x y : ExactReal) : real factor * x / y = real factor * (x / y) := by
  rw [pos_mul_eq_lift h, pos_mul_eq_lift h]
  cases x with
  | real x =>
    cases y with
    | real y =>
      rw [lift, real_div_eq, real_div_eq]
      split
      · rw [infinite_pos_mul h, lift_infinite]
      · rw [lift, mul_div_assoc]
    | posInf => exact congrArg real (mul_zero factor).symm
    | negInf => exact congrArg real (mul_zero factor).symm
    | nan => rfl
  | posInf =>
    cases y with
    | real y => exact (apply_ite (lift (factor * ·)) (0 ≤ y) posInf negInf).symm
    | posInf => rfl
    | negInf => rfl
    | nan => rfl
  | negInf =>
    cases y with
    | real y => exact (apply_ite (lift (factor * ·)) (0 ≤ y) negInf posInf).symm
    | posInf => rfl
    | negInf => rfl
    | nan => rfl
  | nan => cases y <;> rfl

theorem div_pos_mul (x y : ExactReal) : x / (real factor * y) = real factor⁻¹ * (x / y) := by
  rw [pos_mul_eq_lift h, pos_mul_eq_lift (inv_pos.mpr h)]
  cases y with
  | real y =>
    have hzero : factor * y = 0 ↔ y = 0 := mul_eq_zero_iff_left h.ne'
    have hsign : 0 ≤ factor * y ↔ 0 ≤ y := mul_nonneg_iff_of_pos_left h
    cases x with
    | real x =>
      rw [lift, real_div_eq, real_div_eq]
      simp only [hzero]
      split
      · rw [lift_infinite]
      · rw [lift, div_mul_eq_div_div, div_right_comm, inv_mul_eq_div]
    | posInf =>
      change (if 0 ≤ factor * y then posInf else negInf) = lift _ (if 0 ≤ y then posInf else negInf)
      rw [if_congr hsign rfl rfl]
      exact (apply_ite (lift (factor⁻¹ * ·)) (0 ≤ y) posInf negInf).symm
    | negInf =>
      change (if 0 ≤ factor * y then negInf else posInf) = lift _ (if 0 ≤ y then negInf else posInf)
      rw [if_congr hsign rfl rfl]
      exact (apply_ite (lift (factor⁻¹ * ·)) (0 ≤ y) negInf posInf).symm
    | nan => rfl
  | posInf =>
    cases x with
    | real x => exact congrArg real (mul_zero factor⁻¹).symm
    | posInf => rfl
    | negInf => rfl
    | nan => rfl
  | negInf =>
    cases x with
    | real x => exact congrArg real (mul_zero factor⁻¹).symm
    | posInf => rfl
    | negInf => rfl
    | nan => rfl
  | nan => cases x <;> rfl

/-- A positive factor and its inverse cancel. -/
theorem inv_mul_pos_mul (x : ExactReal) : real factor⁻¹ * (real factor * x) = x := by
  rw [← pos_mul_mul (inv_pos.mpr h), real_mul, inv_mul_cancel₀ h.ne', one_real_mul]

/-- A positive factor of both operands of a division cancels. -/
theorem pos_mul_div_pos_mul (x y : ExactReal) :
    real factor * x / (real factor * y) = x / y := by
  rw [div_pos_mul h, pos_mul_div h, inv_mul_pos_mul h]

/-- A positive factor of a divisor and of what the quotient is multiplied by cancels. -/
theorem div_pos_mul_mul (x y z : ExactReal) :
    x / (real factor * y) * (real factor * z) = x / y * z := by
  rw [div_pos_mul h, pos_mul_mul (inv_pos.mpr h), mul_pos_mul h, inv_mul_pos_mul h]

theorem total_pos_mul (values : List ExactReal) :
    total (values.map (real factor * ·)) = real factor * total values := by
  unfold total
  rw [List.foldl_map]
  nth_rewrite 1 [← real_mul_zero factor]
  exact List.foldl_hom (real factor * ·) fun sum value => (pos_mul_add h sum value).symm

theorem isPositiveFinite_pos_mul (x : ExactReal) :
    Scalar.isPositiveFinite (real factor * x) = Scalar.isPositiveFinite x := by
  rw [Bool.eq_iff_iff, isPositiveFinite_iff, isPositiveFinite_iff, pos_mul_eq_lift h]
  cases x with
  | real x => simp [lift, mul_pos_iff_of_pos_left h]
  | posInf => simp [lift]
  | negInf => simp [lift]
  | nan => simp [lift]

end ExactReal

open ExactReal
open Recorder (Lockstep)

/-! ## Costs -/

/-- The costs in another unit. -/
noncomputable def Costs.scale (factor : ℝ) (costs : Costs ExactReal) : Costs ExactReal :=
  ⟨costs.perModel.map (real factor * ·)⟩

section Costs

variable {factor : ℝ} (h : 0 < factor) (costs : Costs ExactReal)

theorem Costs.scale_one : costs.scale 1 = costs := by
  unfold Costs.scale
  rw [funext one_real_mul, List.map_id']

theorem Costs.ofModel_scale (model : ℕ) :
    (costs.scale factor).ofModel model = real factor * costs.ofModel model := by
  unfold Costs.ofModel Costs.scale
  exact getD_map_real_mul factor costs.perModel model

theorem ModelOrder.gather_pos_mul (order : ModelOrder) (count : ℕ) (values : List ExactReal) :
    order.gather count (values.map (real factor * ·)) =
      (order.gather count values).map (real factor * ·) := by
  unfold ModelOrder.gather
  rw [List.map_map]
  exact List.map_congr_left fun model _ => getD_map_real_mul factor values model

include h

/-- Costs are accepted in each unit alike. -/
theorem Costs.check_scale (numApprox : ℕ) (values : List ExactReal) :
    Alike (fun costs costs' => costs' = costs.scale factor) (Costs.check numApprox values)
      (Costs.check numApprox (values.map (real factor * ·))) := by
  unfold Costs.check
  dsimp only
  rw [List.countP_map, List.length_map]
  simp only [Function.comp_def, isPositiveFinite_pos_mul h]
  split
  · exact .ok rfl
  · exact .error _

/-- The cost of a batch in high-fidelity evaluations does not depend on the unit. -/
theorem Costs.equivalents_scale (high : ℕ) (models : List ℕ) (samples : ℕ) :
    (costs.scale factor).equivalents high models samples =
      costs.equivalents high models samples := by
  have hmap : models.map (costs.scale factor).ofModel =
      (models.map costs.ofModel).map (real factor * ·) := by
    rw [List.map_map]
    exact List.map_congr_left fun model _ => costs.ofModel_scale model
  unfold Costs.equivalents
  rw [hmap, costs.ofModel_scale, total_pos_mul h, mul_pos_mul h, pos_mul_div_pos_mul h]

/-! ## Formulas -/

theorem unorderedRatios_scale (costHigh last before : ExactReal) (rhoSq costs : List ExactReal) :
    unorderedRatios (real factor * costHigh) last before rhoSq (costs.map (real factor * ·)) =
      unorderedRatios costHigh last before rhoSq costs := by
  induction rhoSq generalizing before costs with
  | nil => rfl
  | cons rho rhoSq ih =>
    cases costs with
    | nil => rfl
    | cons cost costs =>
      simp only [List.map_cons, unorderedRatios, pos_mul_div_pos_mul h, ih]

/-- The ratios in closed form do not depend on the unit of the costs. -/
theorem sequenceRatios_scale (rhoSq : List ExactReal) (order : ModelOrder) :
    sequenceRatios rhoSq (costs.scale factor) order = sequenceRatios rhoSq costs order := by
  unfold sequenceRatios
  dsimp only
  rw [costs.ofModel_scale, Costs.scale, ModelOrder.gather_pos_mul, unorderedRatios_scale h]

theorem analyticRatios_scale (rhoSq : QoiMatrix ExactReal) :
    analyticRatios rhoSq (costs.scale factor) = analyticRatios rhoSq costs := by
  unfold analyticRatios
  simp only [sequenceRatios_scale h]

theorem reorderedRatios_scale (rhoSq : QoiMatrix ExactReal) :
    reorderedRatios rhoSq (costs.scale factor) = reorderedRatios rhoSq costs := by
  unfold reorderedRatios
  simp only [sequenceRatios_scale h]

/-- The high-fidelity samples that a budget pays for do not depend on the unit of the costs. -/
theorem allocateBudget_scale (ratios : List ExactReal) (budget : ExactReal) :
    allocateBudget ratios (costs.scale factor) budget = allocateBudget ratios costs budget := by
  have hzip : ratios.zip (costs.scale factor).perModel =
      (ratios.zip costs.perModel).map (Prod.map id (real factor * ·)) := by
    rw [Costs.scale, List.zip_map_right]
  unfold allocateBudget
  dsimp only
  rw [hzip, costs.ofModel_scale, List.foldl_map]
  -- the cost of a sample is multiplied by the factor, one model after the other
  refine (congrArg (budget / · * (real factor * costs.ofModel ratios.length))
    (List.foldl_hom (real factor * ·) fun sum entry => ?_)).trans (div_pos_mul_mul h _ _ _)
  dsimp only [Prod.map_snd, Prod.map_fst, id_eq]
  rw [pos_mul_mul h, pos_mul_add h]

theorem budgetTargets_scale (ratios : QoiMatrix ExactReal) (budget : ExactReal) :
    budgetTargets ratios (costs.scale factor) budget = budgetTargets ratios costs budget := by
  unfold budgetTargets
  simp only [allocateBudget_scale h]

end Costs

/-! ## Ratios scaled to a budget -/

namespace BudgetScaling

/-- A slot with the cost in another unit. -/
noncomputable def Slot.scaleCost (factor : ℝ) (slot : Slot ExactReal) : Slot ExactReal :=
  { slot with cost := real factor * slot.cost }

variable {factor : ℝ} (h : 0 < factor) (costHigh share : ExactReal)
  (slots : List (Slot ExactReal))
include h

theorem fixedCost_scaleCost :
    fixedCost (real factor * costHigh) (slots.map (Slot.scaleCost factor)) =
      fixedCost costHigh slots := by
  unfold fixedCost
  rw [List.filter_map, List.map_map]
  exact congrArg total (List.map_congr_left fun slot _ => pos_mul_div_pos_mul h _ _)

theorem freeCost_scaleCost :
    freeCost (real factor * costHigh) (slots.map (Slot.scaleCost factor)) =
      freeCost costHigh slots := by
  unfold freeCost
  rw [List.filter_map, List.map_map]
  refine congrArg total (List.map_congr_left fun slot _ => ?_)
  exact (congrArg (· / _) (pos_mul_mul h _ _)).trans (pos_mul_div_pos_mul h _ _)

omit h in
theorem map_scale_scaleCost (x : ExactReal) :
    (slots.map (Slot.scaleCost factor)).map (Slot.scale x) =
      (slots.map (Slot.scale x)).map (Slot.scaleCost factor) := by
  rw [List.map_map, List.map_map]
  refine List.map_congr_left fun slot _ => ?_
  by_cases hfixed : slot.isFixed
  · simp [Slot.scale, Slot.scaleCost, hfixed]
  · by_cases hsmall : slot.ratio * x ≤ real 1 <;> simp [Slot.scale, Slot.scaleCost, hfixed, hsmall]

omit h in
theorem map_unscale_scaleCost (x : ExactReal) :
    (slots.map (Slot.scaleCost factor)).map (Slot.unscale x) =
      (slots.map (Slot.unscale x)).map (Slot.scaleCost factor) := by
  rw [List.map_map, List.map_map]
  refine List.map_congr_left fun slot _ => ?_
  by_cases hfixed : slot.isFixed <;> simp [Slot.unscale, Slot.scaleCost, hfixed]

omit h in
theorem countP_isFixed_scaleCost :
    (slots.map (Slot.scaleCost factor)).countP Slot.isFixed = slots.countP Slot.isFixed :=
  List.countP_map

/-- A round does the same in each unit. -/
theorem round_scaleCost :
    round (real factor * costHigh) share (slots.map (Slot.scaleCost factor)) =
      ((round costHigh share slots).1.map (Slot.scaleCost factor),
        (round costHigh share slots).2) := by
  unfold round BudgetScaling.factor
  rw [freeCost_scaleCost h, fixedCost_scaleCost h]
  dsimp only
  rw [map_scale_scaleCost, map_unscale_scaleCost, countP_isFixed_scaleCost,
    countP_isFixed_scaleCost]
  split
  · split <;> rfl
  · rfl

theorem rounds_scaleCost (fuel : ℕ) :
    rounds (real factor * costHigh) share fuel (slots.map (Slot.scaleCost factor)) =
      (rounds costHigh share fuel slots).map (Slot.scaleCost factor) := by
  induction fuel generalizing slots with
  | zero => rfl
  | succ fuel ih =>
    rw [rounds, rounds, round_scaleCost h]
    cases round costHigh share slots with
    | mk next again =>
      cases again with
      | true => exact ih next
      | false => rfl

end BudgetScaling

/-- The ratios that exhaust a budget do not depend on the unit of the costs. -/
theorem scaleToBudget_scale {factor : ℝ} (h : 0 < factor) (ratios : List ExactReal)
    (costs : Costs ExactReal) (high budget : ExactReal) :
    scaleToBudget ratios (costs.scale factor) high budget =
      scaleToBudget ratios costs high budget := by
  have hslots : List.zipWith (fun ratio cost => (⟨ratio, cost, false⟩ : BudgetScaling.Slot _))
      ratios (costs.scale factor).perModel =
      (List.zipWith (fun ratio cost => ⟨ratio, cost, false⟩) ratios costs.perModel).map
        (BudgetScaling.Slot.scaleCost factor) := by
    rw [Costs.scale, List.zipWith_map_right, List.map_zipWith]
    rfl
  unfold scaleToBudget
  dsimp only
  rw [hslots, costs.ofModel_scale, BudgetScaling.rounds_scaleCost h, List.map_map]
  rfl

/-! ## Problems in other units -/

/-- The problem with the costs in another unit and other variances of the low-fidelity models. -/
noncomputable def RatioProblem.withUnits (factor : ℝ) (varLow : QoiMatrix ExactReal)
    (problem : RatioProblem ExactReal) : RatioProblem ExactReal :=
  { problem with costs := problem.costs.scale factor, varLow := varLow }

/-- Optimizers whose results do not depend on the units of a problem. -/
def Optimizer.UnitFree (optimizer : Optimizer ExactReal) : Prop :=
  ∀ factor : ℝ, 0 < factor → ∀ varLow problem initial,
    (optimizer (problem.withUnits factor varLow) initial).outcome =
      (optimizer problem initial).outcome

namespace RatioProblem

variable {factor : ℝ} (h : 0 < factor) (varLow : QoiMatrix ExactReal)
  (problem : RatioProblem ExactReal) (ratios : List ExactReal)
include h

theorem relativeCost_withUnits :
    (problem.withUnits factor varLow).relativeCost ratios = problem.relativeCost ratios := by
  change (ratios.zip (problem.costs.scale factor).perModel).foldl (fun sum entry =>
    sum + entry.2 * entry.1 / (problem.costs.scale factor).ofModel problem.numApprox) 1 = _
  rw [Costs.ofModel_scale, Costs.scale, List.zip_map_right, List.foldl_map]
  refine congrArg (fun step => List.foldl step 1 (ratios.zip problem.costs.perModel)) ?_
  funext sum ⟨ratio, cost⟩
  simp only [Prod.map_apply, id_eq, pos_mul_mul h, pos_mul_div_pos_mul h]

theorem isFeasible_withUnits :
    (problem.withUnits factor varLow).isFeasible ratios = problem.isFeasible ratios := by
  unfold isFeasible
  rw [relativeCost_withUnits h]
  rfl

theorem highTarget_withUnits :
    (problem.withUnits factor varLow).highTarget ratios = problem.highTarget ratios := by
  unfold highTarget
  rw [relativeCost_withUnits h]
  rfl

/-- What is minimised does not depend on the units. -/
theorem objective_withUnits :
    (problem.withUnits factor varLow).objective ratios = problem.objective ratios := by
  unfold objective
  rw [relativeCost_withUnits h, isFeasible_withUnits h]
  rfl

end RatioProblem

/-- The compass search does not depend on the units, since it only sees the order and the objective
of a problem. -/
theorem CompassSearch.unitFree_optimize (search : CompassSearch ExactReal) :
    search.optimize.UnitFree := by
  intro factor h varLow problem initial
  unfold CompassSearch.optimize
  simp only [RatioProblem.objective_withUnits h]
  rfl

/-! ## Allocations in other units -/

namespace RatioInputs

/-- What a run knows, with the costs in another unit and other variances of the low-fidelity
models. -/
noncomputable def withUnits (factor : ℝ) (varLow : QoiMatrix ExactReal)
    (inputs : RatioInputs ExactReal) : RatioInputs ExactReal :=
  { inputs with
    costs := inputs.costs.scale factor
    correlations := { inputs.correlations with varLow := varLow } }

section Fields

variable (factor : ℝ) (varLow : QoiMatrix ExactReal) (inputs : RatioInputs ExactReal)

@[simp] theorem costs_withUnits :
    (inputs.withUnits factor varLow).costs = inputs.costs.scale factor := rfl

@[simp] theorem target_withUnits : (inputs.withUnits factor varLow).target = inputs.target := rfl

@[simp] theorem spent_withUnits : (inputs.withUnits factor varLow).spent = inputs.spent := rfl

@[simp] theorem previous_withUnits :
    (inputs.withUnits factor varLow).previous = inputs.previous := rfl

@[simp] theorem preferReordered_withUnits :
    (inputs.withUnits factor varLow).preferReordered = inputs.preferReordered := rfl

@[simp] theorem tolerances_withUnits :
    (inputs.withUnits factor varLow).tolerances = inputs.tolerances := rfl

@[simp] theorem averageHigh_withUnits :
    (inputs.withUnits factor varLow).averageHigh = inputs.averageHigh := rfl

@[simp] theorem requirePilotVariance_withUnits :
    (inputs.withUnits factor varLow).requirePilotVariance = inputs.requirePilotVariance := rfl

end Fields

variable {factor : ℝ} (h : 0 < factor) (varLow : QoiMatrix ExactReal)
  (inputs : RatioInputs ExactReal) (rhoSq : QoiMatrix ExactReal)
include h

theorem isExhausted_withUnits (numApprox : ℕ) (budget : ExactReal) :
    (inputs.withUnits factor varLow).isExhausted numApprox budget =
      inputs.isExhausted numApprox budget := by
  simp only [isExhausted, costs_withUnits, spent_withUnits, averageHigh_withUnits,
    allocateBudget_scale h]
  rfl

theorem startingPoint_withUnits :
    (inputs.withUnits factor varLow).startingPoint rhoSq = inputs.startingPoint rhoSq := by
  simp only [startingPoint, previous_withUnits, costs_withUnits, reorderedRatios_scale h]

theorem fitGuess_withUnits (guess : List ExactReal) :
    (inputs.withUnits factor varLow).fitGuess guess = inputs.fitGuess guess := by
  simp only [fitGuess, target_withUnits, costs_withUnits, averageHigh_withUnits,
    allocateBudget_scale h, scaleToBudget_scale h]

theorem fitResult_withUnits (problem : RatioProblem ExactReal) (ratios : List ExactReal) :
    (inputs.withUnits factor varLow).fitResult (problem.withUnits factor varLow) ratios =
      inputs.fitResult problem ratios := by
  simp only [fitResult, target_withUnits, costs_withUnits, averageHigh_withUnits,
    RatioProblem.isFeasible_withUnits h, scaleToBudget_scale h]

omit h in
/-- The problem of an allocation in other units is its problem in these units. -/
theorem problem_withUnits (order : ModelOrder) :
    Lockstep (fun problem problem' => problem' = problem.withUnits factor varLow)
      (inputs.problem rhoSq order) ((inputs.withUnits factor varLow).problem rhoSq order) := by
  unfold problem
  dsimp only
  rw [target_withUnits, requirePilotVariance_withUnits, averageHigh_withUnits]
  split
  · exact .pure rfl
  · exact .bind_self _ fun pilotVariance => .pure rfl

variable {optimizer : Optimizer ExactReal} (hoptimizer : optimizer.UnitFree)
include hoptimizer

theorem searchedSolution_withUnits :
    Lockstep Eq (inputs.searchedSolution rhoSq optimizer)
      ((inputs.withUnits factor varLow).searchedSolution rhoSq optimizer) := by
  unfold searchedSolution
  rw [startingPoint_withUnits h]
  refine .bind_self _ fun ⟨order, guess⟩ => ?_
  dsimp only
  rw [fitGuess_withUnits h]
  refine .bind_self _ fun initial => ?_
  refine .bind (problem_withUnits varLow inputs rhoSq order) ?_
  rintro problem _ rfl
  have hfound : Lockstep Eq (consult optimizer problem initial)
      (consult optimizer (problem.withUnits factor varLow) initial) :=
    .of_internal (only_consult (fun _ => trivial) trivial)
      (only_consult (fun _ => trivial) trivial)
      (.of_eq (hoptimizer factor h varLow problem initial).symm)
  refine .bind hfound ?_
  rintro found _ rfl
  simp only [fitResult_withUnits h, RatioProblem.highTarget_withUnits h]
  exact .refl _

theorem numericalSolution_withUnits :
    Lockstep Eq (inputs.numericalSolution rhoSq optimizer)
      ((inputs.withUnits factor varLow).numericalSolution rhoSq optimizer) := by
  have hsearched := searchedSolution_withUnits h varLow inputs rhoSq hoptimizer
  unfold numericalSolution
  rw [target_withUnits]
  split
  · rw [isExhausted_withUnits h]
    split
    · exact .refl _
    · exact hsearched
  · exact hsearched

theorem solution_withUnits :
    Lockstep Eq (inputs.solution rhoSq optimizer)
      ((inputs.withUnits factor varLow).solution rhoSq optimizer) := by
  unfold solution
  rw [costs_withUnits, tolerances_withUnits, preferReordered_withUnits, analyticRatios_scale h,
    reorderedRatios_scale h]
  split
  · exact .refl _
  · exact .refl _
  · exact .bind (.log _ _) fun _ _ _ => numericalSolution_withUnits h varLow inputs rhoSq hoptimizer

omit hoptimizer in
theorem highTargets_withUnits (solution : RatioSolution ExactReal) :
    (inputs.withUnits factor varLow).highTargets rhoSq solution =
      inputs.highTargets rhoSq solution := by
  unfold highTargets
  rw [target_withUnits, costs_withUnits, requirePilotVariance_withUnits]
  simp only [budgetTargets_scale h]
  rfl

/-- An allocation is the same in all units. -/
theorem outcome_evalRatios_withUnits :
    ((inputs.withUnits factor varLow).evalRatios optimizer).outcome =
      (inputs.evalRatios optimizer).outcome := by
  have hlockstep : Lockstep Eq (inputs.evalRatios optimizer)
      ((inputs.withUnits factor varLow).evalRatios optimizer) := by
    unfold evalRatios
    rw [target_withUnits, tolerances_withUnits]
    refine .bind_self _ fun _ => ?_
    refine .bind (solution_withUnits h varLow inputs _ hoptimizer) ?_
    rintro solution _ rfl
    rw [highTargets_withUnits h]
    exact .refl _
  exact hlockstep.outcome.eq.symm

end RatioInputs

end Multifidelity
