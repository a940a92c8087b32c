import Multifidelity.Allocation.ClosedForm
import Multifidelity.Proofs.Allocation.ProfileCost
import Multifidelity.Proofs.Allocation.Sanitize
import Multifidelity.Proofs.ModelOrder
import Multifidelity.Proofs.QoiMatrix
import Multifidelity.Response

/-!
# Evaluation ratios in closed form

Whatever the squared correlations are, the closed form yields ratios with which samples are nested.
Correlations that lead to no number count as a ratio of one. A ratio is infinite where a perfect
correlation is not kept below one.

## Main definitions

* `RatioSolution.IsNested`: solutions with nested samples

## Main results

* `ModelOrder.Valid.nested_scatter`: values put in place along an order
* `ModelOrder.Nested.clamped`: nested ratios, scaled and cut off below one
* `nested_sequenceRatios`: the ratios of one QoI along an order
* `nested_analyticRatios`, `nested_reorderedRatios`: those of all QoI
* `isNested_analytic`, `isNested_reordered`: solutions in closed form
* `isFinite_of_mem_sequenceRatios`: ratios of squared correlations that are kept below one
-/

namespace Multifidelity

open ExactReal

/-! ## One QoI -/

theorem one_le_of_mem_unorderedRatios {costHigh last before : ExactReal}
    {rhoSq costs : List ExactReal} :
    ∀ ratio ∈ unorderedRatios costHigh last before rhoSq costs, 1 ≤ ratio := by
  induction rhoSq generalizing before costs with
  | nil => simp [unorderedRatios]
  | cons rho rhos ih =>
    cases costs with
    | nil => simp [unorderedRatios]
    | cons cost costs =>
      rw [unorderedRatios]
      intro ratio hratio
      rcases List.mem_cons.mp hratio with rfl | hratio
      · exact le_larger_real _ 1
      · exact ih ratio hratio

theorem one_le_of_mem_suffixMaxima {values : List ExactReal} (h : ∀ x ∈ values, 1 ≤ x) :
    ∀ x ∈ suffixMaxima values, 1 ≤ x := by
  induction values with
  | nil => simp [suffixMaxima]
  | cons value rest ih =>
    have hvalue : 1 ≤ value := h value List.mem_cons_self
    have hrest := ih fun x hx => h x (List.mem_cons_of_mem value hx)
    rw [suffixMaxima]
    split
    · simpa using hvalue
    · rename_i next later heq
      rw [heq] at hrest
      intro x hx
      rcases List.mem_cons.mp hx with rfl | hx
      · exact ExactReal.le_trans hvalue (le_larger_left (le_self_of_le hvalue))
      · exact hrest x hx

/-- The largest values at or after each position do not increase. -/
theorem pairwise_suffixMaxima {values : List ExactReal} (h : ∀ x ∈ values, 1 ≤ x) :
    (suffixMaxima values).Pairwise fun before after => after ≤ before := by
  induction values with
  | nil => simp [suffixMaxima]
  | cons value rest ih =>
    have hvalue : 1 ≤ value := h value List.mem_cons_self
    have hrest : ∀ x ∈ rest, 1 ≤ x := fun x hx => h x (List.mem_cons_of_mem value hx)
    have hone := one_le_of_mem_suffixMaxima hrest
    have hpairwise := ih hrest
    rw [suffixMaxima]
    split
    · exact List.pairwise_singleton _ _
    · rename_i next later heq
      rw [heq] at hone hpairwise
      have hnext : 1 ≤ next := hone next List.mem_cons_self
      have hfirst : next ≤ Scalar.larger value next :=
        le_larger_right (le_self_of_le hvalue) (le_self_of_le hnext)
      -- the old values are below their first one, and that is below the new one
      refine List.pairwise_cons.mpr ⟨fun x hx => ?_, hpairwise⟩
      rcases List.mem_cons.mp hx with rfl | hx
      · exact hfirst
      · exact ExactReal.le_trans ((List.pairwise_cons.mp hpairwise).1 x hx) hfirst

theorem length_sequenceRatios {α : Type} [Scalar α] (rhoSq : List α) (costs : Costs α)
    (order : ModelOrder) : (sequenceRatios rhoSq costs order).length = rhoSq.length := by
  simp [sequenceRatios]

/-- Values of one or more that do not increase are nested when they are put in place along an
order. -/
theorem ModelOrder.Valid.nested_scatter {order : ModelOrder} {values : List ExactReal}
    (horder : order.Valid values.length) (hone : ∀ x ∈ values, 1 ≤ x)
    (hpairwise : values.Pairwise fun before after => after ≤ before) :
    order.Nested values.length (order.scatter values) := by
  constructor
  · intro ratio hratio
    rcases ModelOrder.mem_or_eq_one_of_mem_scatter hratio with hmem | rfl
    · exact hone ratio hmem
    · exact real_le_real.mpr le_rfl
  · intro i j hij hj
    -- the scattered values are read along the order as they were
    rw [horder.getD_scatter hj, horder.getD_scatter (hij.trans hj)]
    exact List.pairwise_iff_getElem.mp hpairwise i j (hij.trans hj) hj hij

/-- Ratios of one are nested along any order that lists every model once. -/
theorem ModelOrder.Valid.nested_replicate {order : ModelOrder} {numApprox : ℕ}
    (h : order.Valid numApprox) :
    order.Nested numApprox (List.replicate numApprox (1 : ExactReal)) where
  one_le ratio hratio := by
    rw [List.eq_of_mem_replicate hratio]
    exact real_le_real.mpr le_rfl
  antitone i j hij hj := by
    rw [List.getD_replicate _ (h.model_lt hj), List.getD_replicate _ (h.model_lt (hij.trans hj))]
    exact real_le_real.mpr le_rfl

/-- Ratios that are scaled alike, and taken for one if they are below, stay nested. -/
theorem ModelOrder.Nested.clamped {order : ModelOrder} {rs : List ℝ}
    (h : order.Nested rs.length (rs.map real)) (horder : order.Valid rs.length) {scale : ℝ}
    (hscale : 0 ≤ scale) :
    order.Nested rs.length ((rs.map fun r => max 1 (r * scale)).map real) where
  one_le ratio hratio := by
    obtain ⟨x, hx, rfl⟩ := List.mem_map.mp hratio
    obtain ⟨r, -, rfl⟩ := List.mem_map.mp hx
    exact real_le_real.mpr (le_max_left _ _)
  antitone i j hij hj := by
    have hle := h.antitone i j hij hj
    have hlt := horder.model_lt hj
    have hlt' := horder.model_lt (hij.trans hj)
    rw [List.getD_eq_getElem _ _ (by simpa using hlt),
      List.getD_eq_getElem _ _ (by simpa using hlt')] at hle ⊢
    simp only [List.getElem_map, real_le_real] at hle ⊢
    exact max_le_max le_rfl (mul_le_mul_of_nonneg_right hle hscale)

/-- The ratios of one QoI along an order that lists every model once. -/
theorem sequenceRatios_eq_scatter {rhoSq : List ExactReal} {order : ModelOrder}
    (horder : order.Valid rhoSq.length) (costs : Costs ExactReal) :
    sequenceRatios rhoSq costs order = order.scatter (suffixMaxima
      (unorderedRatios (costs.ofModel rhoSq.length)
        ((order.gather rhoSq.length rhoSq).getLastD 0) 0 (order.gather rhoSq.length rhoSq)
        (order.gather rhoSq.length costs.perModel))) := by
  unfold sequenceRatios
  dsimp only
  rw [ModelOrder.Valid.latest_eq_self (by simpa using horder)]

/-- With the ratios of one QoI samples are nested. -/
theorem nested_sequenceRatios {rhoSq : List ExactReal} {order : ModelOrder}
    (horder : order.Valid rhoSq.length) (costs : Costs ExactReal) :
    order.Nested rhoSq.length (sequenceRatios rhoSq costs order) := by
  rw [sequenceRatios_eq_scatter horder costs]
  let unordered := unorderedRatios (costs.ofModel rhoSq.length)
    ((order.gather rhoSq.length rhoSq).getLastD 0) 0 (order.gather rhoSq.length rhoSq)
    (order.gather rhoSq.length costs.perModel)
  have hone : ∀ x ∈ unordered, 1 ≤ x := one_le_of_mem_unorderedRatios
  have hlength : (suffixMaxima unordered).length = rhoSq.length := by simp [unordered]
  have hnested : order.Nested (suffixMaxima unordered).length
      (order.scatter (suffixMaxima unordered)) :=
    ModelOrder.Valid.nested_scatter (by rwa [hlength]) (one_le_of_mem_suffixMaxima hone)
      (pairwise_suffixMaxima hone)
  rwa [hlength] at hnested

/-! ## All QoI -/

/-- Every QoI has the ratios of its own squared correlations. -/
theorem row_analyticRatios {rhoSq : QoiMatrix ExactReal} (hfull : rhoSq.Full)
    (costs : Costs ExactReal) {qoi : ℕ} (hqoi : qoi < rhoSq.rows) :
    (analyticRatios rhoSq costs).row qoi = sequenceRatios (rhoSq.row qoi) costs [] := by
  refine QoiMatrix.row_ofRows (fun ratios hratios => ?_) (by simp [QoiMatrix.toRows, hqoi])
  obtain ⟨row, hmem, rfl⟩ := List.mem_map.mp hratios
  rw [length_sequenceRatios, hfull.length_of_mem_toRows hmem]

theorem nested_analyticRatios {rhoSq : QoiMatrix ExactReal} (hfull : rhoSq.Full)
    (costs : Costs ExactReal) {qoi : ℕ} (hqoi : qoi < rhoSq.rows) :
    ((analyticRatios rhoSq costs).row qoi).length = rhoSq.cols ∧
      ModelOrder.Nested [] rhoSq.cols ((analyticRatios rhoSq costs).row qoi) := by
  have hlength := hfull.length_row hqoi
  rw [row_analyticRatios hfull costs hqoi]
  constructor
  · rw [length_sequenceRatios, hlength]
  · rw [← hlength]
    exact nested_sequenceRatios (ModelOrder.valid_nil _) costs

/-- The averages over QoI that have the same row are that row. -/
theorem columnMeans_eq_row {matrix : QoiMatrix ExactReal} (hrows : 0 < matrix.rows)
    (hlength : (matrix.row 0).length = matrix.cols)
    (hequal : ∀ qoi < matrix.rows, matrix.row qoi = matrix.row 0) :
    matrix.columnMeans = matrix.row 0 := by
  rw [← matrix.map_entry_eq_row hlength]
  refine List.map_congr_left fun model hmodel => ?_
  have hcolumn : matrix.column model = List.replicate matrix.rows (matrix.entry 0 model) := by
    refine List.eq_replicate_iff.mpr ⟨by simp [QoiMatrix.column], fun value hvalue => ?_⟩
    obtain ⟨qoi, hqoi, rfl⟩ := List.mem_map.mp hvalue
    have hmodel := List.mem_range.mp hmodel
    rw [QoiMatrix.entry_eq_getD_row _ _ hmodel, QoiMatrix.entry_eq_getD_row _ _ hmodel,
      hequal qoi (List.mem_range.mp hqoi)]
  rw [hcolumn, average_replicate_self hrows.ne']

/-- All QoI share the ratios of the averaged squared correlations. -/
theorem row_reorderedRatios (rhoSq : QoiMatrix ExactReal) (costs : Costs ExactReal) {qoi : ℕ}
    (hqoi : qoi < rhoSq.rows) : (reorderedRatios rhoSq costs).2.row qoi =
      sequenceRatios rhoSq.columnMeans costs (correlationOrder rhoSq) :=
  QoiMatrix.row_ofRow hqoi _

theorem nested_reorderedRatios (rhoSq : QoiMatrix ExactReal) (costs : Costs ExactReal) {qoi : ℕ}
    (hqoi : qoi < rhoSq.rows) :
    ((reorderedRatios rhoSq costs).2.row qoi).length = rhoSq.cols ∧
      (reorderedRatios rhoSq costs).1.Nested rhoSq.cols
        ((reorderedRatios rhoSq costs).2.row qoi) := by
  have hlength : rhoSq.columnMeans.length = rhoSq.cols := by simp [QoiMatrix.columnMeans]
  rw [row_reorderedRatios rhoSq costs hqoi]
  constructor
  · rw [length_sequenceRatios, hlength]
  · have hvalid := valid_correlationOrder rhoSq
    rw [← hlength] at hvalid ⊢
    exact nested_sequenceRatios hvalid costs

/-! ## Solutions -/

/-- One ratio per model for every QoI, with which samples are nested along an order that lists every
model once. Ratios may be infinite. -/
structure RatioSolution.IsNested (dims : Dimensions) (solution : RatioSolution ExactReal) :
    Prop where
  order : solution.order.Valid dims.numApprox
  rows : solution.ratios.rows = dims.numFunctions
  cols : solution.ratios.cols = dims.numApprox
  length : ∀ qoi < dims.numFunctions, (solution.ratios.row qoi).length = dims.numApprox
  nested : ∀ qoi < dims.numFunctions,
    solution.order.Nested dims.numApprox (solution.ratios.row qoi)

namespace RatioSolution.IsNested

variable {dims : Dimensions} {solution : RatioSolution ExactReal} (h : solution.IsNested dims)
  {qoi : ℕ} (hqoi : qoi < dims.numFunctions)
include h hqoi

theorem one_le_entry {model : ℕ} (hmodel : model < dims.numApprox) :
    1 ≤ solution.ratios.entry qoi model := by
  rw [QoiMatrix.entry_eq_getD_row _ _ (h.cols.symm ▸ hmodel),
    List.getD_eq_getElem _ _ ((h.length qoi hqoi).symm ▸ hmodel)]
  exact (h.nested qoi hqoi).one_le _ (List.getElem_mem _)

theorem entry_antitone {i j : ℕ} (hij : i < j) (hj : j < dims.numApprox) :
    solution.ratios.entry qoi (solution.order.model j) ≤
      solution.ratios.entry qoi (solution.order.model i) := by
  rw [QoiMatrix.entry_eq_getD_row _ _ (h.cols.symm ▸ h.order.model_lt hj),
    QoiMatrix.entry_eq_getD_row _ _ (h.cols.symm ▸ h.order.model_lt (hij.trans hj))]
  exact (h.nested qoi hqoi).antitone i j hij hj

end RatioSolution.IsNested

section Solutions

variable {dims : Dimensions} {rhoSq : QoiMatrix ExactReal} (hrows : rhoSq.rows = dims.numFunctions)
  (hcols : rhoSq.cols = dims.numApprox) (costs : Costs ExactReal)
include hrows hcols

theorem isNested_analytic (hfull : rhoSq.Full) :
    (RatioSolution.analytic (analyticRatios rhoSq costs)).IsNested dims where
  order := ModelOrder.valid_nil _
  rows := by
    rw [← hrows]
    simp [RatioSolution.ratios, analyticRatios, QoiMatrix.ofRows]
  cols := hcols
  length qoi hqoi := hcols ▸ (nested_analyticRatios hfull costs (hrows ▸ hqoi)).1
  nested qoi hqoi := hcols ▸ (nested_analyticRatios hfull costs (hrows ▸ hqoi)).2

theorem isNested_reordered :
    (RatioSolution.reordered (reorderedRatios rhoSq costs).1
      (reorderedRatios rhoSq costs).2).IsNested dims where
  order := hcols ▸ valid_correlationOrder rhoSq
  rows := by
    rw [← hrows]
    simp [RatioSolution.ratios, reorderedRatios, QoiMatrix.ofRow, QoiMatrix.ofRows]
  cols := by
    rw [← hcols]
    simp [RatioSolution.ratios, reorderedRatios, QoiMatrix.ofRow, QoiMatrix.ofRows,
      length_sequenceRatios, QoiMatrix.columnMeans]
  length qoi hqoi := hcols ▸ (nested_reorderedRatios rhoSq costs (hrows ▸ hqoi)).1
  nested qoi hqoi := hcols ▸ (nested_reorderedRatios rhoSq costs (hrows ▸ hqoi)).2

end Solutions

/-! ## Real ratios -/

theorem isFinite_of_mem_unorderedRatios {high last before limit : ℝ} (hhigh : 0 < high)
    (hlast : last < 1) {rhoSq costs : List ExactReal} (hrho : ∀ rho ∈ rhoSq, InRange limit rho)
    (hcosts : ∀ cost ∈ costs, Scalar.isPositiveFinite cost = true) :
    ∀ ratio ∈ unorderedRatios (real high) (real last) (real before) rhoSq costs,
      Scalar.isFinite ratio = true := by
  induction rhoSq generalizing before costs with
  | nil => simp [unorderedRatios]
  | cons rho rhos ih =>
    cases costs with
    | nil => simp [unorderedRatios]
    | cons cost costs =>
      obtain ⟨x, -, -, rfl⟩ := hrho rho List.mem_cons_self
      obtain ⟨c, hc, rfl⟩ := isPositiveFinite_iff.mp (hcosts cost List.mem_cons_self)
      have hgap : 0 < 1 - last := sub_pos.mpr hlast
      have hnonneg : 0 ≤ high / c * max (x - before) 0 / (1 - last) :=
        div_nonneg (mul_nonneg (div_pos hhigh hc).le (le_max_right _ _)) hgap.le
      intro ratio hratio
      rw [unorderedRatios] at hratio
      rcases List.mem_cons.mp hratio with rfl | hratio
      · -- neither divisor vanishes, and the square root is taken of what is not negative
        rw [zero_eq, one_eq, real_sub, real_sub, larger_real, real_div hc.ne', real_mul,
          real_div hgap.ne', sqrt_real hnonneg, larger_real]
        exact isFinite_real _
      · exact ih (fun r hr => hrho r (List.mem_cons_of_mem _ hr))
          (fun k hk => hcosts k (List.mem_cons_of_mem _ hk)) ratio hratio

theorem mem_of_mem_suffixMaxima {values : List ExactReal} :
    ∀ x ∈ suffixMaxima values, x ∈ values := by
  induction values with
  | nil => simp [suffixMaxima]
  | cons value rest ih =>
    intro x hx
    rw [suffixMaxima] at hx
    split at hx
    · simpa using Or.inl hx
    · rename_i next later heq
      rw [heq] at ih
      rcases List.mem_cons.mp hx with rfl | hx
      · -- the larger one of two values is one of them
        rcases larger_eq_or value next with hvalue | hnext
        · rw [hvalue]
          exact List.mem_cons_self
        · rw [hnext]
          exact List.mem_cons_of_mem value (ih next List.mem_cons_self)
      · exact List.mem_cons_of_mem value (ih x hx)

/-- Squared correlations below one lead to real ratios. -/
theorem isFinite_of_mem_sequenceRatios {limit : ℝ} (hlimit : 0 ≤ limit) (hone : limit < 1)
    {rhoSq : List ExactReal} (hrho : ∀ rho ∈ rhoSq, InRange limit rho) {order : ModelOrder}
    (horder : order.Valid rhoSq.length) {costs : Costs ExactReal}
    (hcosts : costs.Usable rhoSq.length) :
    ∀ ratio ∈ sequenceRatios rhoSq costs order, Scalar.isFinite ratio = true := by
  obtain ⟨hlength, hpositive⟩ := hcosts
  have halong : ∀ rho ∈ order.gather rhoSq.length rhoSq, InRange limit rho := by
    intro rho hmem
    obtain ⟨model, -, rfl⟩ := List.mem_map.mp hmem
    exact inRange_getD hlimit hrho model
  have hcostsAlong : ∀ cost ∈ order.gather rhoSq.length costs.perModel,
      Scalar.isPositiveFinite cost = true := by
    intro cost hmem
    obtain ⟨model, hmodel, rfl⟩ := List.mem_map.mp hmem
    have hlt : model < costs.perModel.length := by
      rw [hlength]
      exact (horder.mem_along.mp hmodel).trans (Nat.lt_succ_self _)
    rw [List.getD_eq_getElem _ _ hlt]
    exact hpositive _ (List.getElem_mem hlt)
  obtain ⟨high, hhigh, hhighEq⟩ :
      ∃ high : ℝ, 0 < high ∧ costs.ofModel rhoSq.length = real high := by
    have hlt : rhoSq.length < costs.perModel.length := by omega
    rw [Costs.ofModel, List.getD_eq_getElem _ _ hlt]
    exact isPositiveFinite_iff.mp (hpositive _ (List.getElem_mem hlt))
  obtain ⟨last, -, hlast, hlastEq⟩ : InRange limit
      ((order.gather rhoSq.length rhoSq).getLastD 0) := by
    rw [List.getLastD_eq_getLast?]
    cases hlast : (order.gather rhoSq.length rhoSq).getLast? with
    | none => exact inRange_zero hlimit
    | some value => exact halong value (List.mem_of_getLast? hlast)
  rw [sequenceRatios_eq_scatter horder costs, hhighEq, hlastEq]
  intro ratio hratio
  rcases ModelOrder.mem_or_eq_one_of_mem_scatter hratio with hmem | rfl
  · exact isFinite_of_mem_unorderedRatios hhigh (hlast.trans_lt hone) halong hcostsAlong ratio
      (mem_of_mem_suffixMaxima ratio hmem)
  · exact isFinite_real 1

end Multifidelity
