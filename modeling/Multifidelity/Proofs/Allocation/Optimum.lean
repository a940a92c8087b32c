import Multifidelity.Proofs.Allocation.Majorant

/-!
# The optimum in closed form

The objective of a problem with one QoI is a product of two sums over the models along the order:
the gains divided by the ratios, and the weights times the ratios. By the Cauchy–Schwarz inequality
no positive ratios make it smaller than those whose squares are proportional to the gains per
weight. These are the ratios of the closed form, as long as they are at least one and do not
increase along the order.

## Main definitions

* `RatioProblem.IsSingle`: problems with one QoI over real numbers
* `closedRatio`: the closed form before it is clamped
* `ClosedFormFits`: where the closed form needs no clamping
* `budgetVariance`: the estimator variance that a budget leads to

## Main results

* `sum_div_mul_sum_mul_le`: the inequality behind the optimum
* `RatioProblem.IsSingle.objective_real`: the objective as a product of two sums
* `RatioProblem.IsSingle.exists_sequenceRatios`: the ratios that need no clamping
* `sequenceRatios_optimal`: they are the optimum
-/

namespace Multifidelity

open ExactReal

/-! ## The inequality -/

/-- Among positive ratios `r` the product of the sums of `g / r` and of `w * r` is least at those
for which `g` is proportional to `w * r ^ 2`. -/
theorem sum_div_mul_sum_mul_le {s : Finset ℕ} {g w best r : ℕ → ℝ} {c : ℝ} (hc : 0 ≤ c)
    (hw : ∀ i ∈ s, 0 ≤ w i) (hbest : ∀ i ∈ s, 0 < best i) (hr : ∀ i ∈ s, 0 < r i)
    (hg : ∀ i ∈ s, g i = c * (w i * best i ^ 2)) :
    (∑ i ∈ s, g i / best i) * ∑ i ∈ s, w i * best i ≤
      (∑ i ∈ s, g i / r i) * ∑ i ∈ s, w i * r i := by
  have hcauchy : (∑ i ∈ s, w i * best i) ^ 2 ≤
      (∑ i ∈ s, w i * best i ^ 2 / r i) * ∑ i ∈ s, w i * r i := by
    refine Finset.sum_sq_le_sum_mul_sum_of_sq_le_mul s (fun i hi => ?_) (fun i hi => ?_)
      fun i hi => le_of_eq ?_
    · exact div_nonneg (mul_nonneg (hw i hi) (sq_nonneg _)) (hr i hi).le
    · exact mul_nonneg (hw i hi) (hr i hi).le
    · have hne := (hr i hi).ne'
      field_simp
  have hleast : ∑ i ∈ s, g i / best i = c * ∑ i ∈ s, w i * best i := by
    rw [Finset.mul_sum]
    refine Finset.sum_congr rfl fun i hi => ?_
    have hne := (hbest i hi).ne'
    rw [hg i hi]
    field_simp
  have hother : ∑ i ∈ s, g i / r i = c * ∑ i ∈ s, w i * best i ^ 2 / r i := by
    rw [Finset.mul_sum]
    exact Finset.sum_congr rfl fun i hi => by rw [hg i hi, mul_div_assoc]
  calc (∑ i ∈ s, g i / best i) * ∑ i ∈ s, w i * best i
      = c * (∑ i ∈ s, w i * best i) ^ 2 := by rw [hleast, sq, mul_assoc]
    _ ≤ c * ((∑ i ∈ s, w i * best i ^ 2 / r i) * ∑ i ∈ s, w i * r i) :=
        mul_le_mul_of_nonneg_left hcauchy hc
    _ = (∑ i ∈ s, g i / r i) * ∑ i ∈ s, w i * r i := by rw [hother, mul_assoc]

/-! ## Problems with one QoI -/

/-- A problem with one QoI, real data, and no high-fidelity samples that have been drawn. -/
structure RatioProblem.IsSingle (problem : RatioProblem ExactReal) (var : ℝ) (rhos cs : List ℝ) :
    Prop where
  rhoSq : problem.rhoSq = .ofRow 1 (rhos.map real)
  varHigh : problem.varHigh = [real var]
  costs : problem.costs = ⟨cs.map real⟩
  minHigh : problem.minHigh = none
  /-- There is at least one low-fidelity model. -/
  nonempty : rhos ≠ []
  var_nonneg : 0 ≤ var
  length_costs : cs.length = rhos.length + 1
  costs_pos : ∀ c ∈ cs, 0 < c
  /-- The order is nominal or a permutation. -/
  order : problem.order.Valid rhos.length

/-- The ratio at a position that the closed form has before it is clamped. -/
noncomputable def closedRatio (order : ModelOrder) (rhos cs : List ℝ) (i : ℕ) : ℝ :=
  √(cs.getD rhos.length 0 / cs.getD (order.model i) 0 *
      gain 0 (fun i => rhos.getD (order.model i) 0) i /
    (1 - rhos.getD (order.model (rhos.length - 1)) 0))

/-- Squared correlations that do not decrease along an order and stay below one, with a closed form
that needs no clamping. -/
structure ClosedFormFits (order : ModelOrder) (rhos cs : List ℝ) : Prop where
  rho_nonneg : ∀ rho ∈ rhos, 0 ≤ rho
  rho_monotone : ∀ i j, i < j → j < rhos.length →
    rhos.getD (order.model i) 0 ≤ rhos.getD (order.model j) 0
  rho_last : rhos.getD (order.model (rhos.length - 1)) 0 < 1
  one_le : ∀ i < rhos.length, 1 ≤ closedRatio order rhos cs i
  antitone : ∀ i j, i < j → j < rhos.length →
    closedRatio order rhos cs j ≤ closedRatio order rhos cs i

/-- The variance of the estimator of one QoI with the samples that a budget pays for. -/
noncomputable def budgetVariance (rhoSq : List ExactReal) (var : ExactReal)
    (costs : Costs ExactReal) (order : ModelOrder) (budget : ExactReal)
    (ratios : List ExactReal) : ExactReal :=
  var * (1 - rSquared rhoSq ratios order) / allocateBudget ratios costs budget

/-- The variance that ratios leave, times the cost of their profile. -/
noncomputable def variancePerBudget (order : ModelOrder) (rhos cs rs : List ℝ) : ℝ :=
  (∑ i ∈ Finset.range (rhos.length + 1), gain 0 (order.ladder rhos.length (rhos.getD · 0) 1) i /
    order.ladder rhos.length (rs.getD · 0) 1 i) *
  ∑ i ∈ Finset.range (rhos.length + 1), order.ladder rhos.length (weight cs rhos.length) 1 i *
    order.ladder rhos.length (rs.getD · 0) 1 i

/-- The cost of a profile, summed along the order with the high-fidelity model last. -/
theorem profileCost_eq_sum_ladder {order : ModelOrder} {cs rs : List ℝ}
    (horder : order.Valid rs.length) (hlength : rs.length ≤ cs.length) :
    profileCost (cs.getD rs.length 0) rs cs = ∑ i ∈ Finset.range (rs.length + 1),
      order.ladder rs.length (weight cs rs.length) 1 i *
        order.ladder rs.length (rs.getD · 0) 1 i := by
  rw [profileCost_eq_sum hlength, Finset.sum_range_succ, ModelOrder.ladder_self,
    ModelOrder.ladder_self, one_mul, add_comm]
  congr 1
  rw [← horder.sum_model fun model => weight cs rs.length model * rs.getD model 0]
  refine Finset.sum_congr rfl fun i hi => ?_
  rw [ModelOrder.ladder_of_lt (Finset.mem_range.mp hi),
    ModelOrder.ladder_of_lt (Finset.mem_range.mp hi)]

namespace RatioProblem.IsSingle

variable {problem : RatioProblem ExactReal} {var : ℝ} {rhos cs rs : List ℝ}
  (h : problem.IsSingle var rhos cs) (hlength : rs.length = rhos.length) (hpos : ∀ r ∈ rs, 0 < r)
include h

theorem cost_pos : 0 < cs.getD rhos.length 0 :=
  getD_pos h.length_costs h.costs_pos le_rfl

include hlength hpos

theorem variance_mul_cost :
    ∃ part : ℝ, 1 - rSquared (rhos.map real) (rs.map real) problem.order = real part ∧
      part * profileCost (cs.getD rhos.length 0) rs cs =
        variancePerBudget problem.order rhos cs rs := by
  refine ⟨_, one_sub_rSquared_real h.order hlength fun r hr => (hpos r hr).ne', ?_⟩
  have hle : rs.length ≤ cs.length := by
    rw [h.length_costs]
    omega
  rw [← hlength, profileCost_eq_sum_ladder (hlength ▸ h.order) hle, variancePerBudget, hlength]

/-- The objective is the variance times the cost, both for one high-fidelity sample. -/
theorem objective_real : problem.objective (rs.map real) =
    real (var * variancePerBudget problem.order rhos cs rs) := by
  obtain ⟨part, hpart, hproduct⟩ := h.variance_mul_cost hlength hpos
  have hfeasible : problem.isFeasible (rs.map real) = true := by
    unfold isFeasible
    rw [h.minHigh]
    cases problem.constraint <;> rfl
  have hcols : problem.numApprox = rhos.length := by
    rw [numApprox, h.rhoSq]
    exact List.length_map real
  have hfactor : problem.varianceFactor (rs.map real) = real (var * part) := by
    unfold varianceFactor
    rw [h.varHigh, List.mapIdx_cons, List.mapIdx_nil, h.rhoSq,
      QoiMatrix.row_ofRow Nat.zero_lt_one, hpart, real_mul]
    simpa using average_real (List.cons_ne_nil (var * part) [])
  have hcost := relativeCost_real h.costs (by rw [hcols]; exact h.cost_pos.ne') rs
  rw [objective, if_pos hfeasible, hfactor, hcost, hcols, real_mul, mul_assoc, hproduct]

/-- The variance that a budget leads to is proportional to the objective. -/
theorem budgetVariance_real {budget : ℝ} (hbudget : 0 < budget) :
    budgetVariance (rhos.map real) (real var) problem.costs problem.order (real budget)
      (rs.map real) = real (var * variancePerBudget problem.order rhos cs rs / budget) := by
  obtain ⟨part, hpart, hproduct⟩ := h.variance_mul_cost hlength hpos
  have hprofile : 0 < profileCost (cs.getD rhos.length 0) rs cs :=
    one_pos.trans_le (one_le_profileCost h.cost_pos h.costs_pos fun r hr => (hpos r hr).le)
  have hhigh : cs.getD rs.length 0 ≠ 0 := hlength ▸ h.cost_pos.ne'
  have hcost : profileCost (cs.getD rs.length 0) rs cs ≠ 0 := hlength ▸ hprofile.ne'
  have hallocate := allocateBudget_real hhigh hcost budget
  rw [budgetVariance, hpart, h.costs, hallocate, hlength, real_mul,
    real_div (div_pos hbudget hprofile).ne', ← hproduct]
  congr 1
  field_simp

end RatioProblem.IsSingle

/-! ## The closed form -/

namespace ClosedFormFits

variable {order : ModelOrder} {rhos cs : List ℝ} (h : ClosedFormFits order rhos cs)
include h

theorem gain_nonneg {i : ℕ} (hi : i < rhos.length) :
    0 ≤ gain 0 (fun i => rhos.getD (order.model i) 0) i := by
  cases i with
  | zero =>
    rw [gain, sub_zero, List.getD_eq_getElem?_getD]
    cases hrho : rhos[order.model 0]? with
    | none => exact le_rfl
    | some rho => exact h.rho_nonneg rho (List.mem_of_getElem? hrho)
  | succ i => exact sub_nonneg.mpr (h.rho_monotone i (i + 1) (Nat.lt_succ_self i) hi)

theorem gainRatio_eq_closedRatio {i : ℕ} (hi : i < rhos.length) :
    gainRatio order rhos cs i = closedRatio order rhos cs i := by
  rw [gainRatio, closedRatio, max_eq_right (h.gain_nonneg hi)]

/-- Before it is clamped the closed form solves the equation of the optimum. -/
theorem gain_eq (hcosts : ∀ model ≤ rhos.length, 0 < cs.getD model 0)
    (horder : order.Valid rhos.length) {i : ℕ} (hi : i < rhos.length) :
    gain 0 (fun i => rhos.getD (order.model i) 0) i =
      (1 - rhos.getD (order.model (rhos.length - 1)) 0) *
        (weight cs rhos.length (order.model i) * closedRatio order rhos cs i ^ 2) := by
  have hgap : 0 < 1 - rhos.getD (order.model (rhos.length - 1)) 0 := sub_pos.mpr h.rho_last
  have hcost := hcosts _ (horder.model_lt hi).le
  have hhigh := hcosts _ le_rfl
  rw [closedRatio, Real.sq_sqrt (div_nonneg (mul_nonneg (div_pos hhigh hcost).le
    (h.gain_nonneg hi)) hgap.le), weight]
  field_simp

end ClosedFormFits

namespace RatioProblem.IsSingle

variable {problem : RatioProblem ExactReal} {var : ℝ} {rhos cs rs : List ℝ}
  (h : problem.IsSingle var rhos cs) (hfits : ClosedFormFits problem.order rhos cs)
include h hfits

/-- Where the closed form needs no clamping these are the ratios. -/
theorem exists_sequenceRatios :
    ∃ best : List ℝ, best.length = rhos.length ∧
      sequenceRatios (rhos.map real) problem.costs problem.order = best.map real ∧
      ∀ i < rhos.length,
        best.getD (problem.order.model i) 0 = closedRatio problem.order rhos cs i := by
  let closed : Fin rhos.length → ℝ := fun i => gainRatio problem.order rhos cs i
  have hclosed : ∀ i : Fin rhos.length, closed i = closedRatio problem.order rhos cs i :=
    fun i => hfits.gainRatio_eq_closedRatio i.isLt
  -- the closed form is the least majorant of itself
  have hself : suffixMaximum closed = closed := by
    apply suffixMaximum_eq_self
    · intro i
      rw [hclosed]
      exact hfits.one_le i i.isLt
    · refine antitone_iff_forall_lt.mpr fun i j hij => ?_
      rw [hclosed, hclosed]
      exact hfits.antitone i j hij j.isLt
  let best := (List.range rhos.length).map fun model =>
    closedRatio problem.order rhos cs (problem.order.position model)
  have hbest : best.length = rhos.length := by simp [best]
  refine ⟨best, hbest, List.ext_getElem? fun model => ?_, fun i hi => ?_⟩
  · rcases Nat.lt_or_ge model rhos.length with hmodel | hmodel
    · obtain ⟨i, hi, rfl⟩ := List.mem_map.mp (h.order.mem_along.mpr hmodel)
      have hi := List.mem_range.mp hi
      rw [h.costs,
        getElem?_sequenceRatios h.order h.length_costs h.costs_pos hfits.rho_last ⟨i, hi⟩, hself,
        hclosed]
      simp [best, hmodel, h.order.position_model hi]
    · rw [List.getElem?_eq_none, List.getElem?_eq_none]
      · rwa [List.length_map, hbest]
      · rwa [length_sequenceRatios, List.length_map]
  · have hmodel := h.order.model_lt hi
    rw [List.getD_eq_getElem _ _ (hbest.symm ▸ hmodel), List.getElem_map, List.getElem_range,
      h.order.position_model hi]

/-- No positive ratios have less variance for the same budget. -/
theorem variancePerBudget_le {best : List ℝ}
    (hbest : ∀ i < rhos.length,
      best.getD (problem.order.model i) 0 = closedRatio problem.order rhos cs i)
    (hlength : rs.length = rhos.length) (hpos : ∀ r ∈ rs, 0 < r) :
    variancePerBudget problem.order rhos cs best ≤ variancePerBudget problem.order rhos cs rs := by
  have hcosts : ∀ model ≤ rhos.length, 0 < cs.getD model 0 := fun model hmodel =>
    getD_pos h.length_costs h.costs_pos hmodel
  have hgap : 0 < 1 - rhos.getD (problem.order.model (rhos.length - 1)) 0 :=
    sub_pos.mpr hfits.rho_last
  refine sum_div_mul_sum_mul_le hgap.le (fun i _ => ?_) (fun i _ => ?_) (fun i _ => ?_)
    fun i hi => ?_
  · apply h.order.ladder_of_forall (motive := (0 ≤ ·)) (fun model hmodel => ?_) zero_le_one
    exact (weight_pos h.length_costs h.costs_pos hmodel.le).le
  · unfold ModelOrder.ladder
    split
    · rename_i hi
      exact (one_pos.trans_le (hfits.one_le i hi)).trans_eq (hbest i hi).symm
    · exact one_pos
  · apply h.order.ladder_of_forall (motive := (0 < ·)) (fun model hmodel => ?_) one_pos
    rw [List.getD_eq_getElem _ _ (by omega)]
    exact hpos _ (List.getElem_mem _)
  · rcases Nat.lt_or_ge i rhos.length with hlt | hge
    · rw [gain_ladder hlt, ModelOrder.ladder_of_lt hlt, ModelOrder.ladder_of_lt hlt, hbest i hlt]
      exact hfits.gain_eq hcosts h.order hlt
    · -- the high-fidelity model gains what the last model lacks to a perfect correlation
      obtain rfl : i = rhos.length := by
        have hle := Finset.mem_range.mp hi
        omega
      obtain ⟨k, hk⟩ := Nat.exists_eq_succ_of_ne_zero (List.length_pos_iff.mpr h.nonempty).ne'
      have hgain : gain 0 (problem.order.ladder rhos.length (rhos.getD · 0) 1) rhos.length =
          1 - rhos.getD (problem.order.model (rhos.length - 1)) 0 := by
        rw [hk, gain, Nat.succ_sub_one, ModelOrder.ladder_of_lt k.lt_succ_self]
        exact congrArg (· - _) ModelOrder.ladder_self
      rw [hgain, ModelOrder.ladder_self, ModelOrder.ladder_self]
      ring

end RatioProblem.IsSingle

/-- Where the closed form needs no clamping it is the optimum: no positive ratios have a smaller
objective, and whatever the budget is, none lead to a smaller variance with the samples that it pays
for. -/
theorem sequenceRatios_optimal {problem : RatioProblem ExactReal} {var : ℝ} {rhos cs rs : List ℝ}
    (hproblem : problem.IsSingle var rhos cs) (hfits : ClosedFormFits problem.order rhos cs)
    (hlength : rs.length = rhos.length) (hpos : ∀ r ∈ rs, 0 < r) :
    let best := sequenceRatios (rhos.map real) problem.costs problem.order
    problem.objective best ≤ problem.objective (rs.map real) ∧
      ∀ budget : ℝ, 0 < budget →
        budgetVariance (rhos.map real) (real var) problem.costs problem.order (real budget) best ≤
          budgetVariance (rhos.map real) (real var) problem.costs problem.order (real budget)
            (rs.map real) := by
  obtain ⟨best, hlengthBest, hbest, hclosed⟩ := hproblem.exists_sequenceRatios hfits
  rw [hbest]
  have hposBest : ∀ r ∈ best, 0 < r := by
    intro r hr
    obtain ⟨model, hmodel, rfl⟩ := List.mem_iff_getElem.mp hr
    obtain ⟨i, hi, rfl⟩ := List.mem_map.mp
      (hproblem.order.mem_along.mpr (hlengthBest ▸ hmodel))
    have hi := List.mem_range.mp hi
    rw [← List.getD_eq_getElem best 0 hmodel, hclosed i hi]
    exact one_pos.trans_le (hfits.one_le i hi)
  have hle := mul_le_mul_of_nonneg_left
    (hproblem.variancePerBudget_le hfits hclosed hlength hpos) hproblem.var_nonneg
  constructor
  · rw [hproblem.objective_real hlengthBest hposBest, hproblem.objective_real hlength hpos]
    exact real_le_real.mpr hle
  · intro budget hbudget
    rw [hproblem.budgetVariance_real hlengthBest hposBest hbudget,
      hproblem.budgetVariance_real hlength hpos hbudget]
    exact real_le_real.mpr (div_le_div_of_nonneg_right hle hbudget.le)

/-- The problem of a single QoI, for two models in reversed order. -/
noncomputable def pairProblem (rhos cs : List ℝ) : RatioProblem ExactReal where
  rhoSq := .ofRow 1 (rhos.map real)
  varHigh := [1]
  varLow := .ofRow 1 [1, 1]
  costs := ⟨cs.map real⟩
  order := [1, 0]
  constraint := .budget 1

/-- With squared correlations of one half and a quarter, the closed form has the ratios one and two,
which are better than three and three. -/
theorem sequenceRatios_optimal_pair :
    let problem := pairProblem [1 / 2, 1 / 4] [4, 1, 8]
    problem.IsSingle 1 [1 / 2, 1 / 4] [4, 1, 8] ∧
      ClosedFormFits problem.order [1 / 2, 1 / 4] [4, 1, 8] ∧
      problem.objective (sequenceRatios ([1 / 2, 1 / 4].map real) problem.costs problem.order) ≤
        problem.objective ([3, 3].map real) := by
  intro problem
  have hsingle : problem.IsSingle 1 [1 / 2, 1 / 4] [4, 1, 8] := by
    constructor
    case nonempty => exact List.cons_ne_nil _ _
    case order => exact Or.inr (by decide)
    all_goals first | rfl | norm_num
  have hzero : closedRatio problem.order [1 / 2, 1 / 4] [4, 1, 8] 0 = 2 := by
    rw [closedRatio, Real.sqrt_eq_iff_eq_sq _ zero_le_two] <;>
      norm_num [problem, pairProblem, ModelOrder.model, gain]
  have hone : closedRatio problem.order [1 / 2, 1 / 4] [4, 1, 8] 1 = 1 := by
    rw [closedRatio, Real.sqrt_eq_one]
    norm_num [problem, pairProblem, ModelOrder.model, gain]
  have hfits : ClosedFormFits problem.order [1 / 2, 1 / 4] [4, 1, 8] := by
    constructor
    case rho_nonneg => norm_num
    case rho_monotone =>
      intro i j hij hj
      obtain ⟨rfl, rfl⟩ : i = 0 ∧ j = 1 := by
        simp only [List.length_cons, List.length_nil] at hj
        omega
      norm_num [problem, pairProblem, ModelOrder.model]
    case rho_last => norm_num [problem, pairProblem, ModelOrder.model]
    case one_le =>
      intro i hi
      simp only [List.length_cons, List.length_nil] at hi
      interval_cases i
      · rw [hzero]
        norm_num
      · rw [hone]
    case antitone =>
      intro i j hij hj
      obtain ⟨rfl, rfl⟩ : i = 0 ∧ j = 1 := by
        simp only [List.length_cons, List.length_nil] at hj
        omega
      rw [hzero, hone]
      norm_num
  have hlength : ([3, 3] : List ℝ).length = ([1 / 2, 1 / 4] : List ℝ).length := rfl
  exact ⟨hsingle, hfits, (sequenceRatios_optimal hsingle hfits hlength (by norm_num)).1⟩

end Multifidelity
