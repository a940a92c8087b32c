import Multifidelity.Allocation.Problem
import Multifidelity.Proofs.ExactReal

/-!
# The cost of a profile

Over real ratios and costs the relative cost of a problem and the samples that a budget pays for are
given by one number, the cost of a high-fidelity sample with its companions.

## Main definitions

* `Costs.Usable`: one positive finite cost per model
* `Costs.companions`: the cost of one sample of every low-fidelity model
* `profileCost`: the cost of a high-fidelity sample with its companions
* `weight`, `sampleCost`: the cost of a model, and of a sample of all models, in high-fidelity
  evaluations

## Main results

* `relativeCost_real`, `allocateBudget_real`: what the definitions compute for real ratios
-/

namespace Multifidelity

open ExactReal

/-! ## Usable costs -/

/-- The cost of one evaluation of every low-fidelity model, in high-fidelity evaluations. -/
def Costs.companions {α : Type} [Scalar α] (costs : Costs α) (numApprox : ℕ) : α :=
  total ((List.range numApprox).map fun model => costs.ofModel model / costs.ofModel numApprox)

/-- Exactly one positive finite cost per model. -/
def Costs.Usable (costs : Costs ExactReal) (numApprox : ℕ) : Prop :=
  costs.perModel.length = numApprox + 1 ∧
    ∀ cost ∈ costs.perModel, Scalar.isPositiveFinite cost = true

/-- Costs are accepted if they are usable. -/
theorem Costs.check_eq_ok_iff {numApprox : ℕ} {perModel : List ExactReal}
    {costs : Costs ExactReal} :
    Costs.check numApprox perModel = .ok costs ↔ costs = ⟨perModel⟩ ∧ costs.Usable numApprox := by
  have hinvalid : perModel.countP (fun cost => !Scalar.isPositiveFinite cost) = 0 ↔
      ∀ cost ∈ perModel, Scalar.isPositiveFinite cost = true := by
    simp [List.countP_eq_zero]
  unfold Costs.check Costs.Usable
  simp only [hinvalid]
  split
  · rename_i h
    constructor
    · intro hok
      cases hok
      exact ⟨rfl, h⟩
    · rintro ⟨rfl, -⟩
      rfl
  · rename_i h
    simp only [reduceCtorEq, false_iff]
    rintro ⟨rfl, husable⟩
    exact h husable

/-- Usable costs are positive real numbers. -/
theorem Costs.Usable.exists_real {costs : Costs ExactReal} {numApprox : ℕ}
    (h : costs.Usable numApprox) :
    ∃ cs : List ℝ, cs.length = numApprox + 1 ∧ (∀ c ∈ cs, 0 < c) ∧ costs = ⟨cs.map real⟩ := by
  obtain ⟨perModel⟩ := costs
  obtain ⟨hlen, hpos⟩ := h
  have hfinite : ∀ cost ∈ perModel, Scalar.isFinite cost = true := fun cost hcost => by
    obtain ⟨c, -, rfl⟩ := isPositiveFinite_iff.mp (hpos cost hcost)
    exact isFinite_real c
  obtain ⟨cs, rfl⟩ := exists_map_real hfinite
  refine ⟨cs, by simpa using hlen, fun c hc => ?_, rfl⟩
  obtain ⟨c', hc', heq⟩ := isPositiveFinite_iff.mp (hpos (real c) (List.mem_map_of_mem hc))
  obtain rfl : c = c' := by simpa using heq
  exact hc'

theorem Costs.ofModel_real (cs : List ℝ) (model : ℕ) :
    (⟨cs.map real⟩ : Costs ExactReal).ofModel model = real (cs.getD model 0) :=
  List.getD_map cs 0 real

/-- The cost of a batch, in high-fidelity evaluations. -/
theorem Costs.equivalents_real {cs : List ℝ} {high : ℕ} (hhigh : cs.getD high 0 ≠ 0)
    (models : List ℕ) (samples : ℕ) :
    (⟨cs.map real⟩ : Costs ExactReal).equivalents high models samples =
      real (samples * (models.map fun model => cs.getD model 0).sum / cs.getD high 0) := by
  have hmodels : models.map (⟨cs.map real⟩ : Costs ExactReal).ofModel =
      (models.map fun model => cs.getD model 0).map real := by
    rw [List.map_map]
    exact List.map_congr_left fun model _ => Costs.ofModel_real cs model
  rw [Costs.equivalents, hmodels, total_real, Costs.ofModel_real, ofCount_eq, real_mul,
    real_div hhigh]

/-! ## Real profiles -/

/-- The cost of one high-fidelity sample with its low-fidelity companions, in high-fidelity
evaluations. -/
noncomputable def profileCost (costHigh : ℝ) (ratios costs : List ℝ) : ℝ :=
  1 + (List.zipWith (fun ratio cost => cost * ratio / costHigh) ratios costs).sum

theorem one_le_profileCost {costHigh : ℝ} (hhigh : 0 < costHigh) {rs cs : List ℝ}
    (hcost : ∀ c ∈ cs, 0 < c) (hratio : ∀ r ∈ rs, 0 ≤ r) : 1 ≤ profileCost costHigh rs cs := by
  rw [profileCost, le_add_iff_nonneg_right]
  refine List.sum_nonneg fun x hx => ?_
  -- every companion costs something or nothing
  obtain ⟨i, hi, rfl⟩ := List.mem_iff_getElem.mp hx
  rw [List.length_zipWith, lt_min_iff] at hi
  rw [List.getElem_zipWith]
  have hc := hcost _ (List.getElem_mem hi.2)
  have hr := hratio _ (List.getElem_mem hi.1)
  positivity

theorem foldl_zip_real {step : ExactReal → ExactReal × ExactReal → ExactReal} {f : ℝ → ℝ → ℝ}
    (hstep : ∀ sum x y, step (real sum) (real x, real y) = real (sum + f x y)) (start : ℝ)
    (xs ys : List ℝ) :
    ((xs.map real).zip (ys.map real)).foldl step (real start) =
      real (start + (List.zipWith f xs ys).sum) := by
  induction xs generalizing start ys with
  | nil => simp
  | cons x xs ih =>
    cases ys with
    | nil => simp
    | cons y ys => simp [hstep, ih, add_assoc]

theorem relativeCost_real {problem : RatioProblem ExactReal} {cs : List ℝ}
    (hcosts : problem.costs = ⟨cs.map real⟩) (hhigh : cs.getD problem.numApprox 0 ≠ 0)
    (rs : List ℝ) :
    problem.relativeCost (rs.map real) =
      real (profileCost (cs.getD problem.numApprox 0) rs cs) := by
  rw [RatioProblem.relativeCost, hcosts, Costs.ofModel_real, one_eq, profileCost]
  exact foldl_zip_real (fun sum x y => by simp only [real_mul, real_div hhigh, real_add]) 1 rs cs

/-- A budget pays for as many high-fidelity samples as their profile fits into it. -/
theorem allocateBudget_real {rs cs : List ℝ} (hhigh : cs.getD rs.length 0 ≠ 0)
    (hcost : profileCost (cs.getD rs.length 0) rs cs ≠ 0) (budget : ℝ) :
    allocateBudget (rs.map real) ⟨cs.map real⟩ (real budget) =
      real (budget / profileCost (cs.getD rs.length 0) rs cs) := by
  -- the definition adds up costs, and the profile divides each by that of the high-fidelity model
  have hsum : cs.getD rs.length 0 + (List.zipWith (fun ratio cost => cost * ratio) rs cs).sum =
      cs.getD rs.length 0 * profileCost (cs.getD rs.length 0) rs cs := by
    have hzip : List.zipWith (fun ratio cost => cost * ratio / cs.getD rs.length 0) rs cs =
        (List.zipWith (fun ratio cost => cost * ratio) rs cs).map
          fun cost => cost * (cs.getD rs.length 0)⁻¹ := by
      simp [List.map_zipWith, div_eq_mul_inv]
    rw [profileCost, hzip, List.sum_map_mul_right, List.map_id']
    field_simp
  simp only [allocateBudget, List.length_map, Costs.ofModel_real]
  rw [foldl_zip_real (f := fun ratio cost => cost * ratio) (fun sum x y => by simp), hsum,
    real_div (mul_ne_zero hhigh hcost), real_mul]
  congr 1
  field_simp

/-! ## Sums over the models -/

/-- The cost of a model in high-fidelity evaluations. -/
noncomputable def weight (cs : List ℝ) (numApprox model : ℕ) : ℝ :=
  cs.getD model 0 / cs.getD numApprox 0

/-- The cost of one sample of every model, in high-fidelity evaluations. -/
noncomputable def sampleCost (cs : List ℝ) (numApprox : ℕ) : ℝ :=
  1 + ∑ model ∈ Finset.range numApprox, weight cs numApprox model

theorem sum_map_range (f : ℕ → ℝ) (n : ℕ) :
    ((List.range n).map f).sum = ∑ model ∈ Finset.range n, f model := by
  induction n with
  | zero => simp
  | succ n ih => rw [List.range_succ, Finset.sum_range_succ, ← ih]; simp

section Weights

variable {cs : List ℝ} {numApprox : ℕ} (hlength : cs.length = numApprox + 1)
  (hpos : ∀ c ∈ cs, 0 < c)
include hlength hpos

theorem getD_pos {model : ℕ} (hmodel : model ≤ numApprox) : 0 < cs.getD model 0 := by
  rw [List.getD_eq_getElem cs 0 (by omega)]
  exact hpos _ (List.getElem_mem _)

theorem weight_pos {model : ℕ} (hmodel : model ≤ numApprox) : 0 < weight cs numApprox model :=
  div_pos (getD_pos hlength hpos hmodel) (getD_pos hlength hpos le_rfl)

theorem one_le_sampleCost : 1 ≤ sampleCost cs numApprox :=
  le_add_of_nonneg_right <| Finset.sum_nonneg fun _ hmodel =>
    (weight_pos hlength hpos (Finset.mem_range.mp hmodel).le).le

theorem one_add_companions_real :
    1 + (⟨cs.map real⟩ : Costs ExactReal).companions numApprox =
      real (sampleCost cs numApprox) := by
  have hquotients : ((List.range numApprox).map fun model =>
      (⟨cs.map real⟩ : Costs ExactReal).ofModel model /
        (⟨cs.map real⟩ : Costs ExactReal).ofModel numApprox) =
      ((List.range numApprox).map (weight cs numApprox)).map real := by
    rw [List.map_map]
    refine List.map_congr_left fun model _ => ?_
    simp only [Costs.ofModel_real]
    exact real_div (getD_pos hlength hpos le_rfl).ne'
  rw [Costs.companions, hquotients, total_real, sum_map_range]
  rfl

/-- Samples of all models cost as many evaluations as a sample with its companions does. -/
theorem equivalents_all (samples : ℕ) :
    (⟨cs.map real⟩ : Costs ExactReal).equivalents numApprox (List.range (numApprox + 1)) samples =
      real (samples * sampleCost cs numApprox) := by
  have hhigh := (getD_pos hlength hpos le_rfl).ne'
  rw [Costs.equivalents_real hhigh, sum_map_range, Finset.sum_range_succ]
  unfold sampleCost weight
  rw [← Finset.sum_div]
  congr 1
  field_simp
  ring

end Weights

theorem profileCost_eq_sum {rs cs : List ℝ} (hlength : rs.length ≤ cs.length) (numApprox : ℕ) :
    profileCost (cs.getD numApprox 0) rs cs =
      1 + ∑ model ∈ Finset.range rs.length, weight cs numApprox model * rs.getD model 0 := by
  have hzip : List.zipWith (fun ratio cost => cost * ratio / cs.getD numApprox 0) rs cs =
      (List.range rs.length).map fun model => weight cs numApprox model * rs.getD model 0 := by
    refine List.ext_getElem (by simpa using hlength) fun i hi hi' => ?_
    rw [List.length_map, List.length_range] at hi'
    have hcs : i < cs.length := by omega
    simp [weight, hi', hcs]
    ring
  rw [profileCost, hzip, sum_map_range]

/-- Lower ratios cost less. -/
theorem profileCost_le {rs rs' cs : List ℝ} (hlength : rs.length = rs'.length)
    (hcosts : cs.length = rs'.length + 1) (hpos : ∀ c ∈ cs, 0 < c)
    (hle : ∀ model < rs'.length, rs.getD model 0 ≤ rs'.getD model 0) :
    profileCost (cs.getD rs'.length 0) rs cs ≤ profileCost (cs.getD rs'.length 0) rs' cs := by
  rw [profileCost_eq_sum (by omega), profileCost_eq_sum (by omega), hlength]
  refine add_le_add le_rfl (Finset.sum_le_sum fun model hmodel => ?_)
  have hmodel := Finset.mem_range.mp hmodel
  exact mul_le_mul_of_nonneg_left (hle model hmodel) (weight_pos hcosts hpos hmodel.le).le

end Multifidelity
