import Multifidelity.Allocation.Variance
import Multifidelity.Proofs.Allocation.ProfileCost
import Multifidelity.Proofs.Allocation.Sanitize
import Multifidelity.Proofs.ModelOrder

/-!
# Variance of the multifidelity estimator

For real ratios the variance that remains is a sum over the models along the order: each adds its
gain, the squared correlation beyond that of the model before, divided by its ratio. The
high-fidelity model comes last, with a ratio and a squared correlation of one. The variance that is
removed is a sum as well, whose terms are not negative if samples are nested.

## Main definitions

* `ModelOrder.ladder`: values along an order, with the high-fidelity model on top
* `gain`: the differences of neighbouring values

## Main results

* `rSquared_real`: the variance that is removed
* `one_sub_rSquared_real`: the variance that remains, summed by parts
* `one_sub_rSquared_of_nested`: nested samples never increase the variance
* `not_one_sub_rSquared_lt_zero`: they do not leave a negative part of it, with infinite ratios too
-/

namespace Multifidelity

open ExactReal

/-! ## Values along an order -/

/-- The values of the models by position, and `top` for the high-fidelity model after them. -/
def ModelOrder.ladder {β : Type} (order : ModelOrder) (numApprox : ℕ) (value : ℕ → β) (top : β)
    (i : ℕ) : β :=
  if i < numApprox then value (order.model i) else top

namespace ModelOrder

variable {β : Type} {order : ModelOrder} {numApprox : ℕ} {value : ℕ → β} {top : β}

theorem ladder_of_lt {i : ℕ} (hi : i < numApprox) :
    order.ladder numApprox value top i = value (order.model i) :=
  if_pos hi

@[simp] theorem ladder_self : order.ladder numApprox value top numApprox = top :=
  if_neg (lt_irrefl numApprox)

/-- What holds of every model and of the top holds on all steps. -/
theorem Valid.ladder_of_forall (h : order.Valid numApprox) {motive : β → Prop}
    (hvalue : ∀ model < numApprox, motive (value model)) (htop : motive top) (i : ℕ) :
    motive (order.ladder numApprox value top i) := by
  unfold ladder
  split
  · rename_i hi
    exact hvalue _ (h.model_lt hi)
  · exact htop

theorem ladder_map_real (order : ModelOrder) (numApprox : ℕ) (xs : List ℝ) (i : ℕ) :
    order.ladder numApprox ((xs.map real).getD · 0) 1 i =
      real (order.ladder numApprox (xs.getD · 0) 1 i) := by
  unfold ladder
  split
  · exact List.getD_map xs 0 real
  · rfl

theorem gather_eq_ladder {α : Type} [Scalar α] (order : ModelOrder) (count : ℕ) (values : List α)
    (top : α) : order.gather count values =
      (List.range count).map (order.ladder count (values.getD · 0) top) := by
  unfold gather along
  rw [List.map_map]
  refine List.map_congr_left fun i hi => ?_
  rw [ladder_of_lt (List.mem_range.mp hi), Function.comp_apply]

end ModelOrder

/-- The part of each value that the one before does not have, starting from `before`. -/
def gain (before : ℝ) (value : ℕ → ℝ) : ℕ → ℝ
  | 0 => value 0 - before
  | i + 1 => value (i + 1) - value i

theorem gain_ladder {order : ModelOrder} {numApprox : ℕ} {value : ℕ → ℝ} {before top : ℝ} {i : ℕ}
    (hi : i < numApprox) :
    gain before (order.ladder numApprox value top) i =
      gain before (fun i => value (order.model i)) i := by
  cases i with
  | zero => rw [gain, gain, ModelOrder.ladder_of_lt hi]
  | succ i =>
    rw [gain, gain, ModelOrder.ladder_of_lt hi, ModelOrder.ladder_of_lt (Nat.lt_of_succ_lt hi)]

/-- Summation by parts. -/
theorem sum_mul_add_sum_gain_mul (factor value : ℕ → ℝ) (n : ℕ) :
    ∑ i ∈ Finset.range n, (factor (i + 1) - factor i) * value i +
      ∑ i ∈ Finset.range (n + 1), gain 0 value i * factor i = factor n * value n := by
  induction n with
  | zero => simp [gain, mul_comm]
  | succ n ih =>
    have hgain : gain 0 value (n + 1) = value (n + 1) - value n := rfl
    rw [Finset.sum_range_succ, Finset.sum_range_succ _ (n + 1), hgain]
    linear_combination ih

/-! ## The variance of a profile -/

/-- Each element of a list with the next one, where the list goes on by one more. -/
theorem zipWith_drop_append {β γ : Type} (f : ℕ → β) (g : β → β → γ) (n : ℕ) :
    List.zipWith g (((List.range n).map f).drop 1 ++ [f n]) ((List.range n).map f) =
      (List.range n).map fun i => g (f (i + 1)) (f i) := by
  cases n with
  | zero => simp
  | succ n =>
    have hnext : ((List.range (n + 1)).map f).drop 1 ++ [f (n + 1)] =
        (List.range (n + 1)).map fun i => f (i + 1) := by
      rw [List.range_succ_eq_map, List.map_cons, List.drop_one, List.tail_cons, List.map_map,
        ← List.range_succ_eq_map, List.range_succ, List.map_append]
      rfl
    rw [hnext, List.zipWith_map, List.zipWith_self]

/-- The variance that is removed, as a fraction of that of the Monte Carlo estimator, model by
model along the order. -/
theorem rSquared_eq {α : Type} [Scalar α] (rhos ratios : List α) (order : ModelOrder) :
    let ratio := order.ladder rhos.length (ratios.getD · 0) 1
    let rho := order.ladder rhos.length (rhos.getD · 0) 1
    rSquared rhos ratios order = total ((List.range rhos.length).map fun i =>
      (1 / ratio (i + 1) - 1 / ratio i) * rho i) := by
  intro ratio rho
  -- the list of ratios goes on with the one of the high-fidelity model
  have hgains := zipWith_drop_append ratio (fun next ratio => 1 / next - 1 / ratio) rhos.length
  rw [show ratio rhos.length = 1 from ModelOrder.ladder_self] at hgains
  unfold rSquared
  dsimp only
  rw [order.gather_eq_ladder _ ratios 1, order.gather_eq_ladder _ rhos 1, hgains,
    List.zipWith_map, List.zipWith_self]

section Real

variable {order : ModelOrder} {rhos rs : List ℝ}

theorem gather_map_real (order : ModelOrder) (count : ℕ) (xs : List ℝ) (top : ℝ) :
    order.gather count (xs.map real) =
      (List.range count).map fun i => real (order.ladder count (xs.getD · 0) top i) := by
  rw [order.gather_eq_ladder count _ 1]
  refine List.map_congr_left fun i hi => ?_
  rw [ModelOrder.ladder_of_lt (List.mem_range.mp hi),
    ModelOrder.ladder_of_lt (List.mem_range.mp hi)]
  exact List.getD_map xs 0 real

theorem rSquared_real (horder : order.Valid rhos.length) (hlength : rs.length = rhos.length)
    (hne : ∀ r ∈ rs, r ≠ 0) :
    let ratio := order.ladder rhos.length (rs.getD · 0) 1
    let rho := order.ladder rhos.length (rhos.getD · 0) 1
    rSquared (rhos.map real) (rs.map real) order =
      real (∑ i ∈ Finset.range rhos.length, (1 / ratio (i + 1) - 1 / ratio i) * rho i) := by
  intro ratio rho
  have hratio : ∀ i, ratio i ≠ 0 := by
    apply horder.ladder_of_forall (motive := (· ≠ 0)) (fun model hmodel => ?_) one_ne_zero
    rw [List.getD_eq_getElem _ _ (by omega)]
    exact hne _ (List.getElem_mem _)
  rw [rSquared_eq, List.length_map, ← sum_map_range, ← total_real, List.map_map]
  refine congrArg total (List.map_congr_left fun i _ => ?_)
  rw [ModelOrder.ladder_map_real, ModelOrder.ladder_map_real, ModelOrder.ladder_map_real, one_eq,
    real_div (hratio _), real_div (hratio _), real_sub, real_mul]
  rfl

/-- The variance that remains, as a fraction of that of the Monte Carlo estimator. Every model adds
its gain over the model before, divided by its ratio. -/
theorem one_sub_rSquared_real (horder : order.Valid rhos.length) (hlength : rs.length = rhos.length)
    (hne : ∀ r ∈ rs, r ≠ 0) :
    let ratio := order.ladder rhos.length (rs.getD · 0) 1
    let rho := order.ladder rhos.length (rhos.getD · 0) 1
    1 - rSquared (rhos.map real) (rs.map real) order =
      real (∑ i ∈ Finset.range (rhos.length + 1), gain 0 rho i / ratio i) := by
  intro ratio rho
  have hparts := sum_mul_add_sum_gain_mul (fun i => 1 / ratio i) rho rhos.length
  -- the high-fidelity model has both a ratio and a squared correlation of one
  have hratio : ratio rhos.length = 1 := ModelOrder.ladder_self
  have hrho : rho rhos.length = 1 := ModelOrder.ladder_self
  rw [hratio, hrho, one_div_one, one_mul] at hparts
  rw [rSquared_real horder hlength hne, one_eq, real_sub, sub_eq_of_eq_add' hparts.symm]
  exact congrArg real (Finset.sum_congr rfl fun i _ => mul_one_div _ _)

end Real

/-! ## Nested samples -/

section Nested

variable {order : ModelOrder} {numApprox : ℕ} {ratios : List ExactReal}
  (horder : order.Valid numApprox) (hlength : ratios.length = numApprox)
  (hnested : order.Nested numApprox ratios)
include horder hlength hnested

theorem one_le_ladder_of_nested (i : ℕ) : 1 ≤ order.ladder numApprox (ratios.getD · 0) 1 i := by
  apply horder.ladder_of_forall (motive := (1 ≤ ·)) (fun model hmodel => ?_)
    (real_le_real.mpr le_rfl)
  rw [List.getD_eq_getElem _ _ (by omega)]
  exact hnested.one_le _ (List.getElem_mem _)

/-- No ratio is below the next one, nor the last one below that of the high-fidelity model. -/
theorem ladder_succ_le_of_nested {i : ℕ} (hi : i < numApprox) :
    order.ladder numApprox (ratios.getD · 0) 1 (i + 1) ≤
      order.ladder numApprox (ratios.getD · 0) 1 i := by
  rcases Nat.lt_or_ge (i + 1) numApprox with hlt | hge
  · rw [ModelOrder.ladder_of_lt hi, ModelOrder.ladder_of_lt hlt]
    exact hnested.antitone i (i + 1) (Nat.lt_succ_self i) hlt
  · have htop : order.ladder numApprox (ratios.getD · 0) 1 (i + 1) = 1 := if_neg (by omega)
    rw [htop]
    exact one_le_ladder_of_nested horder hlength hnested i

end Nested

/-- Nested samples of models whose squared correlations are kept below a limit leave a positive part
of the variance, and never increase it. The squared correlations need not increase along the
order. -/
theorem one_sub_rSquared_of_nested {order : ModelOrder} {rhos rs : List ℝ}
    (horder : order.Valid rhos.length) (hlength : rs.length = rhos.length)
    (hnested : order.Nested rhos.length (rs.map real)) {limit : ℝ} (hlimit : limit < 1)
    (hrhos : ∀ rho ∈ rhos, 0 ≤ rho ∧ rho ≤ limit) :
    ∃ part : ℝ, 0 < part ∧ part ≤ 1 ∧
      1 - rSquared (rhos.map real) (rs.map real) order = real part := by
  let ratio := order.ladder rhos.length (rs.getD · 0) 1
  let rho := order.ladder rhos.length (rhos.getD · 0) 1
  have hlength' : (rs.map real).length = rhos.length := by rw [List.length_map, hlength]
  have hone : ∀ i, 1 ≤ ratio i := by
    intro i
    have hle := one_le_ladder_of_nested horder hlength' hnested i
    rwa [ModelOrder.ladder_map_real, one_eq, real_le_real] at hle
  -- the reciprocals of the ratios do not decrease, and they end with one
  have hstep : ∀ i < rhos.length, 0 ≤ 1 / ratio (i + 1) - 1 / ratio i := by
    intro i hi
    have hle := ladder_succ_le_of_nested horder hlength' hnested hi
    rw [ModelOrder.ladder_map_real, ModelOrder.ladder_map_real, real_le_real] at hle
    exact sub_nonneg.mpr (one_div_le_one_div_of_le (one_pos.trans_le (hone (i + 1))) hle)
  have htelescope : ∑ i ∈ Finset.range rhos.length, (1 / ratio (i + 1) - 1 / ratio i) =
      1 - 1 / ratio 0 := by
    rw [Finset.sum_range_sub fun i => 1 / ratio i,
      show ratio rhos.length = 1 from ModelOrder.ladder_self, one_div_one]
  have hrho : ∀ i < rhos.length, 0 ≤ rho i ∧ rho i ≤ limit := by
    intro i hi
    have hlt := horder.model_lt hi
    simp only [rho, ModelOrder.ladder_of_lt hi]
    rw [List.getD_eq_getElem _ _ hlt]
    exact hrhos _ (List.getElem_mem hlt)
  let removed := ∑ i ∈ Finset.range rhos.length, (1 / ratio (i + 1) - 1 / ratio i) * rho i
  have hnonneg : 0 ≤ removed := Finset.sum_nonneg fun i hi =>
    mul_nonneg (hstep i (Finset.mem_range.mp hi)) (hrho i (Finset.mem_range.mp hi)).1
  have hbelow : removed < 1 := by
    have hfirst : 0 < 1 / ratio 0 := one_div_pos.mpr (one_pos.trans_le (hone 0))
    have hle : 1 / ratio 0 ≤ 1 := (div_le_one (one_pos.trans_le (hone 0))).mpr (hone 0)
    calc removed ≤ ∑ i ∈ Finset.range rhos.length, (1 / ratio (i + 1) - 1 / ratio i) * limit :=
          Finset.sum_le_sum fun i hi => mul_le_mul_of_nonneg_left
            (hrho i (Finset.mem_range.mp hi)).2 (hstep i (Finset.mem_range.mp hi))
      _ = (1 - 1 / ratio 0) * limit := by rw [← Finset.sum_mul, htelescope]
      _ ≤ 1 - 1 / ratio 0 := mul_le_of_le_one_right (sub_nonneg.mpr hle) hlimit.le
      _ < 1 := sub_lt_self 1 hfirst
  refine ⟨1 - removed, sub_pos.mpr hbelow, sub_le_self 1 hnonneg, ?_⟩
  rw [rSquared_real horder hlength, one_eq, real_sub]
  intro r hr
  exact (one_pos.trans_le (real_le_real.mp (hnested.one_le _ (List.mem_map_of_mem hr)))).ne'

/-! ## Infinite ratios -/

/-- The reciprocal of a ratio that is one or more, which may be infinite. -/
theorem one_div_eq {ratio : ExactReal} (h : 1 ≤ ratio) :
    1 / ratio = real ratio.toReal⁻¹ ∧ 0 ≤ ratio.toReal⁻¹ := by
  rcases real_le_iff.mp h with rfl | ⟨r, hr, rfl⟩
  · rw [one_eq, real_div_posInf, toReal, inv_zero]
    exact ⟨rfl, le_rfl⟩
  · rw [one_eq, real_div (by linarith), toReal, one_div]
    exact ⟨rfl, inv_nonneg.mpr (by linarith)⟩

theorem inv_toReal_le {ratio larger : ExactReal} (h : 1 ≤ ratio) (hle : ratio ≤ larger) :
    larger.toReal⁻¹ ≤ ratio.toReal⁻¹ := by
  rcases real_le_iff.mp (ExactReal.le_trans h hle) with rfl | ⟨s, hs, rfl⟩
  · rw [toReal, inv_zero]
    exact (one_div_eq h).2
  · rcases real_le_iff.mp h with rfl | ⟨r, hr, rfl⟩
    · exact hle.elim
    · exact inv_anti₀ (zero_lt_one.trans_le hr) (real_le_real.mp hle)

/-- Nested samples of models whose squared correlations are not above one never leave a negative
part of the variance. Ratios may be infinite, and the part may be a NaN. -/
theorem not_one_sub_rSquared_lt_zero {order : ModelOrder} {rhos ratios : List ExactReal}
    (horder : order.Valid rhos.length) (hlength : ratios.length = rhos.length)
    (hnested : order.Nested rhos.length ratios) (hrhos : ∀ rho ∈ rhos, ¬ 1 < rho) :
    ¬ 1 - rSquared rhos ratios order < 0 := by
  let ratio := order.ladder rhos.length (ratios.getD · 0) 1
  let rho := order.ladder rhos.length (rhos.getD · 0) 1
  have hone : ∀ i, 1 ≤ ratio i := one_le_ladder_of_nested horder hlength hnested
  -- every model removes at most the step between the reciprocals
  have hbound : ∀ i ∈ List.range rhos.length,
      ¬ real ((ratio (i + 1)).toReal⁻¹ - (ratio i).toReal⁻¹) <
        (1 / ratio (i + 1) - 1 / ratio i) * rho i := by
    intro i hi
    have hi := List.mem_range.mp hi
    have hrho : ¬ 1 < rho i := by
      have hmodel := horder.model_lt hi
      simp only [rho, ModelOrder.ladder_of_lt hi]
      rw [List.getD_eq_getElem _ _ hmodel]
      exact hrhos _ (List.getElem_mem hmodel)
    rw [(one_div_eq (hone i)).1, (one_div_eq (hone (i + 1))).1, real_sub]
    exact not_lt_mul (sub_nonneg.mpr (inv_toReal_le (hone (i + 1))
      (ladder_succ_le_of_nested horder hlength hnested hi))) hrho
  have htotal := not_lt_total hbound
  rw [sum_map_range, Finset.sum_range_sub fun i => (ratio i).toReal⁻¹,
    show ratio rhos.length = 1 from ModelOrder.ladder_self] at htotal
  rw [rSquared_eq]
  refine not_one_sub_lt_zero fun hlt => htotal (ExactReal.lt_of_le_of_lt ?_ hlt)
  have hfirst := (one_div_eq (hone 0)).2
  rw [one_eq, real_le_real, toReal, inv_one]
  linarith

end Multifidelity
