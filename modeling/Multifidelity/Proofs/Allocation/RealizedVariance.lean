import Multifidelity.Proofs.Allocation.Pyramid
import Multifidelity.Proofs.Allocation.Variance

/-!
# Variance with the samples that were drawn

If there are more high-fidelity samples than an allocation has asked for, the low-fidelity targets
are spread over them, and no ratio is taken to be below one. Such ratios are nested like those of
the allocation, so that the samples never increase the variance, however many there are.

## Main definitions

* `AreFractions`: fractions of the Monte Carlo variance
* `EvalRatios.IsUsable`: nested ratios with squared correlations below one

## Main results

* `exists_nested_realizedRatios`: ratios that are spread stay nested
* `EvalRatios.IsUsable.areFractions`: what remains of the variance
* `RatioInputs.Sound.isUsable`: the results of an allocation
-/

namespace Multifidelity

open ExactReal

/-- One real number per QoI that is positive and at most one. -/
def AreFractions (numFunctions : ℕ) (ratios : List ExactReal) : Prop :=
  ∃ parts : List ℝ, parts.length = numFunctions ∧ (∀ part ∈ parts, 0 < part ∧ part ≤ 1) ∧
    ratios = parts.map real

/-- Nested ratios of the size of an ensemble, with squared correlations that are kept below one. -/
structure EvalRatios.IsUsable (dims : Dimensions) (ratios : EvalRatios ExactReal) : Prop where
  rows : ratios.rhoSq.rows = dims.numFunctions
  cols : ratios.rhoSq.cols = dims.numApprox
  full : ratios.rhoSq.Full
  inRange : ∃ limit < 1, ∀ value ∈ ratios.rhoSq.entries, InRange limit value
  isPyramid : ratios.solution.IsPyramid dims

/-! ## Ratios that are spread over more samples -/

/-- Spreading the samples of a model means to scale its ratio, and to take it for one if that is too
small. A factor that is negative, or even infinite, leaves a ratio of one. -/
theorem exists_clamped {factor : ExactReal} (hposInf : factor ≠ posInf) (hnan : factor ≠ nan) :
    ∃ scale : ℝ, 0 ≤ scale ∧ ∀ r : ℝ, 1 ≤ r →
      Scalar.larger (real r * factor) 1 = real (max 1 (r * scale)) := by
  cases factor with
  | real x =>
    refine ⟨max x 0, le_max_right x 0, fun r hr => ?_⟩
    rw [real_mul, one_eq, larger_real]
    rcases le_total 0 x with hx | hx
    · rw [max_eq_left hx, max_comm]
    · have hneg : r * x ≤ 0 := mul_nonpos_of_nonneg_of_nonpos (zero_le_one.trans hr) hx
      rw [max_eq_right hx, mul_zero, max_eq_right (hneg.trans zero_le_one),
        max_eq_left zero_le_one]
  | posInf => exact absurd rfl hposInf
  | negInf =>
    refine ⟨0, le_rfl, fun r hr => ?_⟩
    have hnegative : real r * negInf = negInf := by
      show infinite (-r) = negInf
      rw [infinite, if_neg (by linarith), if_pos (by linarith)]
    rw [hnegative, mul_zero, max_eq_left zero_le_one]
    unfold Scalar.larger
    rw [if_neg (by simp), if_pos (show negInf < (1 : ExactReal) from trivial)]
    rfl
  | nan => exact absurd rfl hnan

/-- The targets are below the samples that were drawn only if they have a proper average. -/
theorem target_ne_of_overshot {target : ExactReal} {counts : List ℕ}
    (h : counts.any (fun count => decide (Scalar.round target < Scalar.ofCount count)) = true) :
    target ≠ posInf ∧ target ≠ nan := by
  obtain ⟨count, -, hlt⟩ := List.any_eq_true.mp h
  have hlt := of_decide_eq_true hlt
  constructor
  · rintro rfl
    exact not_posInf_lt _ hlt
  · rintro rfl
    exact not_nan_lt _ hlt

/-- Divided by a number of samples, a proper target stays proper. -/
theorem div_ofCount_ne {target : ExactReal} (hposInf : target ≠ posInf) (hnan : target ≠ nan)
    {count : ℕ} (hcount : 0 < count) :
    target / Scalar.ofCount count ≠ posInf ∧ target / Scalar.ofCount count ≠ nan := by
  have hpos : (0 : ℝ) < count := Nat.cast_pos.mpr hcount
  rw [ofCount_eq]
  cases target with
  | real x =>
    rw [real_div hpos.ne']
    exact ⟨nofun, nofun⟩
  | posInf => exact absurd rfl hposInf
  | negInf =>
    have hnegative : negInf / real count = negInf := if_pos hpos.le
    rw [hnegative]
    exact ⟨nofun, nofun⟩
  | nan => exact absurd rfl hnan

theorem row_realizedRatios (ratios : QoiMatrix ExactReal) (target : ExactReal) (counts : List ℕ)
    {qoi : ℕ} (hqoi : qoi < ratios.rows) (hlength : (ratios.row qoi).length = ratios.cols) :
    (realizedRatios ratios target counts).row qoi = (ratios.row qoi).map fun ratio =>
      match counts[qoi]? with
      | some count => Scalar.larger (ratio * (target / Scalar.ofCount count)) 1
      | none => ratio := by
  unfold realizedRatios
  rw [QoiMatrix.row_ofFn hqoi, ← QoiMatrix.map_entry_eq_row ratios hlength, List.map_map]
  refine List.map_congr_left fun model _ => ?_
  cases counts[qoi]? <;> rfl

/-- Nested ratios of a QoI stay nested when they are spread over positive numbers of samples. -/
theorem exists_nested_realizedRatios {order : ModelOrder} {ratios : QoiMatrix ExactReal}
    {qoi : ℕ} (hqoi : qoi < ratios.rows) {rs : List ℝ} (hrs : ratios.row qoi = rs.map real)
    (hlength : rs.length = ratios.cols) (horder : order.Valid rs.length)
    (hnested : order.Nested rs.length (rs.map real)) {target : ExactReal}
    (hposInf : target ≠ posInf) (hnan : target ≠ nan) {counts : List ℕ}
    (hcounts : ∀ count ∈ counts, 0 < count) :
    ∃ spread : List ℝ, spread.length = rs.length ∧
      (realizedRatios ratios target counts).row qoi = spread.map real ∧
      order.Nested rs.length (spread.map real) := by
  rw [row_realizedRatios ratios target counts hqoi (by rw [hrs, List.length_map, hlength]), hrs]
  cases hcount : counts[qoi]? with
  | none => exact ⟨rs, rfl, List.map_id _, hnested⟩
  | some count =>
    obtain ⟨hposInf', hnan'⟩ :=
      div_ofCount_ne hposInf hnan (hcounts count (List.mem_of_getElem? hcount))
    obtain ⟨scale, hscale, hclamped⟩ := exists_clamped hposInf' hnan'
    refine ⟨rs.map fun r => max 1 (r * scale), List.length_map _, ?_,
      hnested.clamped horder hscale⟩
    rw [List.map_map, List.map_map]
    refine List.map_congr_left fun r hr => hclamped r ?_
    exact real_le_real.mp (hnested.one_le _ (List.mem_map_of_mem hr))

/-! ## What remains of the variance -/

namespace EvalRatios.IsUsable

variable {dims : Dimensions} {ratios : EvalRatios ExactReal} (h : ratios.IsUsable dims)
include h

/-- The squared correlations of a QoI. -/
theorem exists_rhos : ∃ limit < 1, ∀ qoi < dims.numFunctions, ∃ rhos : List ℝ,
    rhos.length = dims.numApprox ∧ (∀ rho ∈ rhos, 0 ≤ rho ∧ rho ≤ limit) ∧
      ratios.rhoSq.row qoi = rhos.map real := by
  obtain ⟨limit, hlimit, hrange⟩ := h.inRange
  refine ⟨limit, hlimit, fun qoi hqoi => ?_⟩
  obtain ⟨rhos, hlength, hrhos, hrow⟩ := exists_row_of_inRange h.full hrange (h.rows ▸ hqoi)
  exact ⟨rhos, hlength.trans h.cols, hrhos, hrow⟩

/-- Any nested ratios leave a fraction of the variance. -/
theorem areFractions_varianceRatios {matrix : QoiMatrix ExactReal}
    (hmatrix : ∀ qoi < dims.numFunctions, ∃ rs : List ℝ, rs.length = dims.numApprox ∧
      matrix.row qoi = rs.map real ∧
      ratios.solution.order.Nested dims.numApprox (rs.map real)) :
    AreFractions dims.numFunctions (varianceRatios ratios.rhoSq matrix ratios.solution.order) := by
  obtain ⟨limit, hlimit, hrhos⟩ := h.exists_rhos
  have hpart : ∀ qoi < dims.numFunctions, ∃ part : ℝ, 0 < part ∧ part ≤ 1 ∧
      1 - rSquared (ratios.rhoSq.row qoi) (matrix.row qoi) ratios.solution.order = real part := by
    intro qoi hqoi
    obtain ⟨rhos, hlength, hrange, hrow⟩ := hrhos qoi hqoi
    obtain ⟨rs, hlengthRatios, hrowRatios, hnested⟩ := hmatrix qoi hqoi
    rw [hrow, hrowRatios]
    rw [← hlength] at hlengthRatios hnested
    exact one_sub_rSquared_of_nested (hlength ▸ h.isPyramid.order) hlengthRatios hnested hlimit
      hrange
  choose! part hpos hle hpart using hpart
  refine ⟨(List.range dims.numFunctions).map part, by simp, fun x hx => ?_, ?_⟩
  · obtain ⟨qoi, hqoi, rfl⟩ := List.mem_map.mp hx
    exact ⟨hpos qoi (List.mem_range.mp hqoi), hle qoi (List.mem_range.mp hqoi)⟩
  · rw [varianceRatios, h.rows, List.map_map]
    exact List.map_congr_left fun qoi hqoi => hpart qoi (List.mem_range.mp hqoi)

/-- Whatever positive numbers of samples were drawn, a fraction of the variance remains. -/
theorem areFractions {counts : List ℕ} (hcounts : ∀ count ∈ counts, 0 < count) :
    AreFractions dims.numFunctions
      (realizedVarianceRatios ratios.rhoSq ratios.solution ratios.highTargets counts) := by
  unfold realizedVarianceRatios
  dsimp only
  refine h.areFractions_varianceRatios fun qoi hqoi => ?_
  obtain ⟨rs, hlength, hrow⟩ := h.isPyramid.isReal qoi hqoi
  have hnested := h.isPyramid.nested qoi hqoi
  rw [hrow] at hnested
  split
  · rename_i hovershot
    obtain ⟨hposInf, hnan⟩ := target_ne_of_overshot hovershot
    rw [← hlength] at hnested ⊢
    exact exists_nested_realizedRatios (h.isPyramid.rows ▸ hqoi) hrow
      (hlength.trans h.isPyramid.cols.symm) (hlength ▸ h.isPyramid.order) hnested hposInf hnan
      hcounts
  · exact ⟨rs, hlength, hrow, hnested⟩

end EvalRatios.IsUsable

/-- An allocation has usable results if the optimizer keeps to the constraints of its problem. -/
theorem RatioInputs.Sound.isUsable {inputs : RatioInputs ExactReal} {dims : Dimensions}
    (h : inputs.Sound dims) {optimizer : Optimizer ExactReal} (hordered : optimizer.Ordered)
    {result : EvalRatios ExactReal} (hresult : (inputs.evalRatios optimizer).outcome = .ok result) :
    result.IsUsable dims where
  rows := (rows_rhoSq hresult).trans h.rows
  cols := (cols_rhoSq hresult).trans h.cols
  full := full_rhoSq h.full hresult
  inRange := by
    obtain ⟨limit, -, hone, hclamp⟩ := h.tolerances.exists_limit
    have hfst : result.rhoSq = _ := congrArg Prod.fst (evalRatios_eq_ok_iff.mp hresult).1
    rw [hfst]
    exact ⟨limit, hone, inRange_of_mem_sanitize hclamp _⟩
  isPyramid := h.isPyramid hordered hresult

end Multifidelity
