import Multifidelity.Proofs.ModelOrder
import Multifidelity.Proofs.Sums.Joint
import Multifidelity.Sums.Pyramid

/-!
# Sums over the pyramid of low-fidelity samples

A refinement in which no evaluation failed adds all of its responses to the counts of the models at
its positions, and none to those of the models behind them.

## Main definitions

* `PyramidSums.Sized`: a pyramid of the size of an ensemble

## Main results

* `PyramidSums.refinedCounts_ofJoint`: at the start all models have the counts of the joint samples
* `PyramidSums.refinedCounts_refine`, `PyramidSums.refinedCounts_refine_of_le`: the counts after a
  refinement
-/

namespace Multifidelity

variable {α : Type} [Scalar α]

/-- A model has one of the positions of a refinement if samples are nested. -/
theorem ModelOrder.Valid.filter_model {order : ModelOrder} {numApprox stop i : ℕ}
    (h : order.Valid numApprox) (hstop : stop ≤ numApprox) (hi : i < stop) :
    (List.range' 0 (stop - 0)).filter (order.model · == order.model i) = [i] := by
  rw [Nat.sub_zero, ← List.range_eq_range']
  -- no other position has the same model
  have hfilter : (List.range stop).filter (order.model · == order.model i) =
      (List.range stop).filter (· == i) := by
    refine List.filter_congr fun j hj => ?_
    have hj := List.mem_range.mp hj
    rw [Bool.eq_iff_iff, beq_iff_eq, beq_iff_eq]
    constructor
    · intro heq
      exact h.model_injective (by omega) (by omega) heq
    · rintro rfl
      rfl
  rw [hfilter, List.filter_beq, List.count_range]
  simp [hi]

/-- A model that comes behind has none of the first positions. -/
theorem ModelOrder.Valid.filter_model_of_le {order : ModelOrder} {numApprox stop i : ℕ}
    (h : order.Valid numApprox) (hi : i < numApprox) (hle : stop ≤ i) :
    (List.range' 0 (stop - 0)).filter (order.model · == order.model i) = [] := by
  refine List.filter_eq_nil_iff.mpr fun j hj heq => ?_
  rw [Nat.sub_zero, ← List.range_eq_range', List.mem_range] at hj
  have hji : j = i := h.model_injective (by omega) hi (beq_iff_eq.mp heq)
  omega

namespace PyramidSums

variable {dims : Dimensions} {sums : PyramidSums α} {order : ModelOrder} {start stop : ℕ}
  {batch : Batch α}

/-! ## The size of a pyramid -/

/-- A pyramid of the size of an ensemble. -/
structure Sized (dims : Dimensions) (sums : PyramidSums α) : Prop where
  dims_eq : sums.dims = dims
  length_qois : sums.qois.length = dims.numFunctions
  length_models : ∀ models ∈ sums.qois, models.length = dims.numApprox

omit [Scalar α] in
theorem sized_ofJoint {sums : JointSums α 4} (h : sums.Sized dims) : (ofJoint sums).Sized dims where
  dims_eq := h.dims_eq
  length_qois := by simpa [ofJoint] using h.length_qois
  length_models := by
    intro models hmodels
    obtain ⟨qoi, hqoi, rfl⟩ := List.mem_map.mp hmodels
    rw [List.length_map]
    exact h.length_pairs qoi hqoi

theorem Sized.addResponse (h : sums.Sized dims) (response : Response α) :
    (sums.addResponse order start stop response).Sized dims where
  dims_eq := h.dims_eq
  length_qois := by simpa [PyramidSums.addResponse] using h.length_qois
  length_models := by
    intro models hmodels
    obtain ⟨qoi, hqoi, rfl⟩ := List.mem_mapIdx.mp hmodels
    rw [List.length_mapIdx]
    exact h.length_models _ (List.getElem_mem hqoi)

theorem refine_eq_ok_iff {result : PyramidSums α} :
    sums.refine order start stop batch = .ok result ↔
      (∀ response ∈ batch, response.length = sums.dims.responseLength) ∧
        result = batch.foldl (addResponse order start stop) sums := by
  rw [← Dimensions.check_eq_ok_iff]
  rw [refine_eq]
  cases sums.dims.check batch with
  | ok => simp [bind, Except.bind, pure, Except.pure, eq_comm]
  | error failure => simp [bind, Except.bind]

theorem refine_eq_error_iff {failure : Failure α} :
    sums.refine order start stop batch = .error failure ↔
      sums.dims.check batch = .error failure := by
  rw [refine_eq]
  cases sums.dims.check batch with
  | ok => exact iff_of_false nofun nofun
  | error other => simp [bind, Except.bind]

/-- An accepted refinement keeps the size. -/
theorem Sized.refine (h : sums.Sized dims) {result : PyramidSums α}
    (hresult : sums.refine order start stop batch = .ok result) : result.Sized dims := by
  obtain ⟨-, rfl⟩ := refine_eq_ok_iff.mp hresult
  clear hresult
  induction batch generalizing sums with
  | nil => exact h
  | cons response batch ih => exact ih (h.addResponse response)

/-! ## Counts -/

omit [Scalar α] in
theorem refinedCounts_ofJoint {sums : JointSums α 4} (h : sums.Sized dims) {model : ℕ}
    (hmodel : model < dims.numApprox) : (ofJoint sums).refinedCounts model = sums.counts := by
  unfold refinedCounts countsOf ofJoint JointSums.counts
  rw [List.map_map]
  refine List.map_congr_left fun qoi hqoi => ?_
  have hlt : model < qoi.pairs.length := h.length_pairs qoi hqoi ▸ hmodel
  simp [hlt]

variable {i : ℕ}

theorem refinedCounts_addResponse (h : sums.Sized dims) (horder : order.Valid dims.numApprox)
    (hstop : stop ≤ dims.numApprox) (hi : i < stop) {response : Response α}
    (hvalue : ∀ qoi < dims.numFunctions,
      ∃ x, dims.value? response (order.model i) qoi = some x) :
    (sums.addResponse order 0 stop response).refinedCounts (order.model i) =
      (sums.refinedCounts (order.model i)).map (· + 1) := by
  have hmodel : order.model i < dims.numApprox := horder.model_lt (hi.trans_le hstop)
  unfold refinedCounts countsOf addResponse
  rw [List.map_map]
  refine List.ext_getElem (by simp) fun qoi hqoi hqoi' => ?_
  rw [List.length_map] at hqoi'
  obtain ⟨x, hx⟩ := hvalue qoi (h.length_qois ▸ hqoi')
  have hlt : order.model i < sums.qois[qoi].length :=
    h.length_models _ (List.getElem_mem hqoi') ▸ hmodel
  -- the response counts once, at the only position of the model
  have hpositions := horder.filter_model hstop hi
  simp only [List.getElem_map, List.getElem_mapIdx, List.getElem?_mapIdx, h.dims_eq,
    List.getElem?_eq_getElem hlt, Option.map_some, Option.getD_some, Function.comp_apply]
  rw [hx]
  dsimp only
  rw [hpositions]
  rfl

/-- A refinement in which no evaluation failed adds all of its responses to the models at its
positions. -/
theorem refinedCounts_refine (h : sums.Sized dims) (horder : order.Valid dims.numApprox)
    (hstop : stop ≤ dims.numApprox) (hi : i < stop) {result : PyramidSums α}
    (hresult : sums.refine order 0 stop batch = .ok result)
    (hvalue : ∀ response ∈ batch, ∀ qoi < dims.numFunctions,
      ∃ x, dims.value? response (order.model i) qoi = some x) :
    result.refinedCounts (order.model i) =
      (sums.refinedCounts (order.model i)).map (· + batch.length) := by
  obtain ⟨-, rfl⟩ := refine_eq_ok_iff.mp hresult
  clear hresult
  induction batch generalizing sums with
  | nil => simp
  | cons response batch ih =>
    have hfirst := refinedCounts_addResponse h horder hstop hi (hvalue response List.mem_cons_self)
    rw [List.foldl_cons, ih (h.addResponse response) fun later hlater =>
      hvalue later (List.mem_cons_of_mem response hlater), hfirst, List.map_map]
    refine List.map_congr_left fun count _ => ?_
    simp only [Function.comp_apply, List.length_cons]
    omega

/-- A refinement leaves the models behind its positions as they are. -/
theorem refinedCounts_refine_of_le (h : sums.Sized dims) (horder : order.Valid dims.numApprox)
    (hi : i < dims.numApprox) (hle : stop ≤ i) {result : PyramidSums α}
    (hresult : sums.refine order 0 stop batch = .ok result) :
    result.refinedCounts (order.model i) = sums.refinedCounts (order.model i) := by
  obtain ⟨-, rfl⟩ := refine_eq_ok_iff.mp hresult
  clear hresult
  have hpositions := horder.filter_model_of_le hi hle
  induction batch generalizing sums with
  | nil => rfl
  | cons response batch ih =>
    rw [List.foldl_cons, ih (h.addResponse response)]
    unfold refinedCounts countsOf addResponse
    refine List.ext_getElem (by simp) fun qoi hqoi hqoi' => ?_
    -- no position of the range has the model
    simp only [List.getElem_map, List.getElem_mapIdx, List.getElem?_mapIdx, hpositions]
    cases sums.dims.value? response (order.model i) qoi <;> simp

end PyramidSums

end Multifidelity
