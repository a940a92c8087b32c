import Multifidelity.Allocation.Budget
import Multifidelity.Proofs.Allocation.ProfileCost
import Multifidelity.Proofs.ModelOrder

/-!
# Sample profiles within a limit

A profile has a target for the high-fidelity model and one for every low-fidelity model. If samples
are nested the low-fidelity targets do not increase along the model order, and none of them is below
the high-fidelity one. Infinite ratios leave nothing of a budget for the high-fidelity model.

## Main definitions

* `Affordable`: targets that cost at most a limit

## Main results

* `affordable_real`: the targets that real ratios lead to
* `exists_affordable`: the targets of ratios in closed form are within the budget
-/

namespace Multifidelity

open ExactReal

/-- Real targets that the ratios of a QoI lead to, and that cost at most `limit`. -/
structure Affordable (cs : List ℝ) (order : ModelOrder) (numApprox : ℕ) (limit : ℝ)
    (ratios : List ExactReal) (high : ℝ) (low : ℕ → ℝ) : Prop where
  high_nonneg : 0 ≤ high
  high_le : ∀ model < numApprox, high ≤ low model
  antitone : ∀ i j, i < j → j < numApprox → low (order.model j) ≤ low (order.model i)
  target : ∀ model < numApprox, ratios.getD model 0 * real high = real (low model) ∨
    ratios.getD model 0 * real high = nan
  cost_le : high + ∑ model ∈ Finset.range numApprox, weight cs numApprox model * low model ≤ limit

variable {cs : List ℝ} {order : ModelOrder} {numApprox : ℕ} {limit high : ℝ} {low : ℕ → ℝ}
  {ratios : List ExactReal}

namespace Affordable

theorem mono (h : Affordable cs order numApprox limit ratios high low) {limit' : ℝ}
    (hle : limit ≤ limit') : Affordable cs order numApprox limit' ratios high low :=
  { h with cost_le := h.cost_le.trans hle }

/-- High-fidelity samples with one companion of each model are within the limit. -/
theorem high_mul_le (h : Affordable cs order numApprox limit ratios high low)
    (hlength : cs.length = numApprox + 1) (hpos : ∀ c ∈ cs, 0 < c) :
    high * sampleCost cs numApprox ≤ limit := by
  refine le_trans ?_ h.cost_le
  rw [sampleCost, mul_add, mul_one, Finset.mul_sum]
  refine add_le_add le_rfl (Finset.sum_le_sum fun model hmodel => ?_)
  have hmodel := Finset.mem_range.mp hmodel
  rw [mul_comm]
  exact mul_le_mul_of_nonneg_left (h.high_le model hmodel)
    (weight_pos hlength hpos hmodel.le).le

end Affordable

/-! ## Real ratios -/

/-- Nested real ratios lead to real targets. -/
theorem affordable_real {rs : List ℝ} (hrs : rs.length = numApprox)
    (hlength : numApprox ≤ cs.length)
    (hnested : order.Nested numApprox (rs.map real)) (hhigh : 0 ≤ high)
    (hcost : high * profileCost (cs.getD numApprox 0) rs cs ≤ limit) :
    Affordable cs order numApprox limit (rs.map real) high fun model => rs.getD model 0 * high where
  high_nonneg := hhigh
  high_le model hmodel := by
    have hone : 1 ≤ rs.getD model 0 := by
      rw [List.getD_eq_getElem rs 0 (by omega)]
      exact real_le_real.mp (hnested.one_le _ (List.mem_map_of_mem (List.getElem_mem _)))
    exact le_mul_of_one_le_left hhigh hone
  antitone i j hij hj := by
    have hle := hnested.antitone i j hij hj
    rw [zero_eq, List.getD_map, List.getD_map, real_le_real] at hle
    exact mul_le_mul_of_nonneg_right hle hhigh
  target model _ := by
    rw [zero_eq, List.getD_map, real_mul]
    exact Or.inl rfl
  cost_le := by
    refine le_trans (le_of_eq ?_) hcost
    rw [profileCost_eq_sum (by omega), hrs, mul_add, mul_one, Finset.mul_sum]
    congr 1
    exact Finset.sum_congr rfl fun model _ => by ring

/-! ## Infinite ratios -/

/-- Nothing is sampled if no high-fidelity sample is affordable. -/
theorem affordable_zero (hlength : ratios.length = numApprox) (hone : ∀ ratio ∈ ratios, 1 ≤ ratio)
    (hlimit : 0 ≤ limit) : Affordable cs order numApprox limit ratios 0 fun _ => 0 where
  high_nonneg := le_rfl
  high_le _ _ := le_rfl
  antitone _ _ _ _ := le_rfl
  target model hmodel := by
    -- no samples times an infinite ratio is a NaN, which asks for no samples
    have hratio := hone _ (List.getElem_mem (hlength ▸ hmodel))
    rw [List.getD_eq_getElem ratios 0 (by omega)]
    rcases real_le_iff.mp hratio with hinf | ⟨r, -, hr⟩
    · rw [hinf]
      exact Or.inr posInf_mul_zero
    · rw [hr, real_mul, mul_zero]
      exact Or.inl rfl
  cost_le := by simpa using hlimit

theorem foldl_cost_posInf {costs : List ℝ} (hone : ∀ ratio ∈ ratios, 1 ≤ ratio)
    (hcosts : ∀ c ∈ costs, 0 < c) :
    (ratios.zip (costs.map real)).foldl (fun sum (ratio, cost) => sum + cost * ratio) posInf =
      posInf := by
  induction ratios generalizing costs with
  | nil => rfl
  | cons ratio ratios ih =>
    cases costs with
    | nil => rfl
    | cons cost costs =>
      have hrest := ih (fun r hr => hone r (List.mem_cons_of_mem ratio hr))
        fun c hc => hcosts c (List.mem_cons_of_mem cost hc)
      have hsum : posInf + real cost * ratio = posInf := by
        rcases real_le_iff.mp (hone ratio List.mem_cons_self) with rfl | ⟨r, -, rfl⟩
        · rw [real_mul_posInf (hcosts cost List.mem_cons_self)]
          rfl
        · rfl
      rw [List.map_cons, List.zip_cons_cons, List.foldl_cons]
      dsimp only
      rw [hsum, hrest]

theorem foldl_cost_of_mem {costs : List ℝ} (hone : ∀ ratio ∈ ratios, 1 ≤ ratio)
    (hmem : posInf ∈ ratios) (hcosts : ∀ c ∈ costs, 0 < c) (hlength : ratios.length ≤ costs.length)
    (start : ℝ) :
    (ratios.zip (costs.map real)).foldl (fun sum (ratio, cost) => sum + cost * ratio)
      (real start) = posInf := by
  induction ratios generalizing costs start with
  | nil => simp at hmem
  | cons ratio ratios ih =>
    cases costs with
    | nil => simp at hlength
    | cons cost costs =>
      have hrest : ∀ r ∈ ratios, 1 ≤ r := fun r hr => hone r (List.mem_cons_of_mem ratio hr)
      have hpos : ∀ c ∈ costs, 0 < c := fun c hc => hcosts c (List.mem_cons_of_mem cost hc)
      rw [List.map_cons, List.zip_cons_cons, List.foldl_cons]
      dsimp only
      rcases real_le_iff.mp (hone ratio List.mem_cons_self) with rfl | ⟨r, -, rfl⟩
      · -- the sum is infinite from here on
        rw [real_mul_posInf (hcosts cost List.mem_cons_self)]
        exact foldl_cost_posInf hrest hpos
      · have htail : posInf ∈ ratios := by simpa using hmem
        rw [real_mul, real_add]
        exact ih hrest htail hpos (by simpa using hlength) _

/-- An infinite ratio leaves nothing of a budget for the high-fidelity model. -/
theorem allocateBudget_of_mem (hone : ∀ ratio ∈ ratios, 1 ≤ ratio) (hmem : posInf ∈ ratios)
    (hpos : ∀ c ∈ cs, 0 < c) (hlength : ratios.length ≤ cs.length) (budget : ℝ) :
    allocateBudget ratios ⟨cs.map real⟩ (real budget) = real 0 := by
  simp only [allocateBudget, Costs.ofModel_real]
  rw [foldl_cost_of_mem hone hmem hpos hlength, real_div_posInf, real_mul, zero_mul]

/-! ## Ratios in closed form -/

/-- Nested ratios lead to targets within the budget. -/
theorem exists_affordable (hlength : cs.length = numApprox + 1) (hpos : ∀ c ∈ cs, 0 < c)
    (hratios : ratios.length = numApprox) (hnested : order.Nested numApprox ratios)
    {budget : ℝ} (hbudget : 0 < budget) :
    ∃ high low, allocateBudget ratios ⟨cs.map real⟩ (real budget) = real high ∧
      Affordable cs order numApprox budget ratios high low := by
  -- an infinite ratio leaves nothing for the high-fidelity model, and else all ratios are real
  by_cases hmem : posInf ∈ ratios
  · exact ⟨0, _, allocateBudget_of_mem hnested.one_le hmem hpos (by omega) budget,
      affordable_zero hratios hnested.one_le hbudget.le⟩
  · have hfinite : ∀ ratio ∈ ratios, Scalar.isFinite ratio = true := by
      intro ratio hratio
      rcases real_le_iff.mp (hnested.one_le ratio hratio) with rfl | ⟨r, -, rfl⟩
      · exact absurd hratio hmem
      · exact isFinite_real r
    obtain ⟨rs, rfl⟩ := exists_map_real hfinite
    rw [List.length_map] at hratios
    have hcost : 1 ≤ profileCost (cs.getD numApprox 0) rs cs :=
      one_le_profileCost (getD_pos hlength hpos le_rfl) hpos fun r hr =>
        zero_le_one.trans (real_le_real.mp (hnested.one_le _ (List.mem_map_of_mem hr)))
    have hcost_pos := zero_lt_one.trans_le hcost
    refine ⟨budget / profileCost (cs.getD numApprox 0) rs cs, _, ?_,
      affordable_real hratios (by omega) hnested (div_pos hbudget hcost_pos).le ?_⟩
    · rw [← hratios] at hcost_pos ⊢
      exact allocateBudget_real (getD_pos (by rw [hlength, hratios]) hpos le_rfl).ne'
        hcost_pos.ne' budget
    · rw [div_mul_cancel₀ _ hcost_pos.ne']

end Multifidelity
