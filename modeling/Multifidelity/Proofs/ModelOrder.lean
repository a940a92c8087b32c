import Mathlib.Data.List.GetD
import Mathlib.Data.List.Nodup
import Mathlib.Data.List.Perm.Basic
import Mathlib.Tactic
import Multifidelity.Allocation.ClosedForm

/-!
# Orders that list every model once

The nominal order and the permutations of the models list every model once. Along such an order
values by model are only rearranged, and nothing gets lost.

## Main definitions

* `ModelOrder.Valid`: the orders that list every model once
* `ModelOrder.Nested`: ratios with which the samples of the models are nested along an order

## Main results

* `ModelOrder.Valid.along_perm`: the positions have all models
* `ModelOrder.Valid.gather_scatter`: values by position, put in place and read again
* `valid_correlationOrder`: the order of the averaged correlations is valid
-/

namespace Multifidelity

namespace ModelOrder

/-- The nominal order, or a permutation of the models. -/
def Valid (order : ModelOrder) (numApprox : ℕ) : Prop :=
  order = [] ∨ order.Perm (List.range numApprox)

theorem valid_nil (numApprox : ℕ) : Valid [] numApprox := Or.inl rfl

variable {order : ModelOrder} {numApprox : ℕ}

theorem along_eq_self (hne : order ≠ []) (hlen : order.length = numApprox) :
    order.along numApprox = order := by
  refine List.ext_getElem (by simp [along, hlen]) fun i hi hi' => ?_
  simp [along, model, hne, hi']

/-- A permutation of the models lists them as it is. -/
theorem along_of_perm (h : order.Perm (List.range numApprox)) : order.along numApprox = order := by
  rcases eq_or_ne order [] with rfl | hne
  · rw [along_nil]
    exact h.nil_eq.symm
  · exact along_eq_self hne (by simpa using h.length_eq)

theorem mem_or_eq_one_of_mem_scatter {α : Type} [Scalar α] {values : List α} {x : α}
    (h : x ∈ order.scatter values) : x ∈ values ∨ x = 1 := by
  obtain ⟨model, -, rfl⟩ := List.mem_map.mp h
  rcases lt_or_ge (order.position model) values.length with hlt | hge
  · rw [List.getD_eq_getElem _ _ hlt]
    exact Or.inl (List.getElem_mem hlt)
  · exact Or.inr (List.getD_eq_default _ _ hge)

namespace Valid

/-- All models have a position. -/
theorem along_perm (h : order.Valid numApprox) :
    (order.along numApprox).Perm (List.range numApprox) := by
  rcases h with rfl | h
  · rw [along_nil]
  · rwa [along_of_perm h]

theorem nodup_along (h : order.Valid numApprox) : (order.along numApprox).Nodup :=
  h.along_perm.nodup_iff.mpr List.nodup_range

theorem mem_along (h : order.Valid numApprox) {model : ℕ} :
    model ∈ order.along numApprox ↔ model < numApprox := by
  rw [h.along_perm.mem_iff, List.mem_range]

theorem model_lt (h : order.Valid numApprox) {i : ℕ} (hi : i < numApprox) :
    order.model i < numApprox := by
  rw [← h.mem_along]
  exact List.mem_map_of_mem (List.mem_range.mpr hi)

theorem model_injective (h : order.Valid numApprox) {i j : ℕ} (hi : i < numApprox)
    (hj : j < numApprox) (heq : order.model i = order.model j) : i = j := by
  have hi' : i < (order.along numApprox).length := by simpa using hi
  have hj' : j < (order.along numApprox).length := by simpa using hj
  have hget : (order.along numApprox)[i] = (order.along numApprox)[j] := by
    simpa [along] using heq
  exact h.nodup_along.getElem_inj_iff.mp hget

theorem position_model (h : order.Valid numApprox) {i : ℕ} (hi : i < numApprox) :
    order.position (order.model i) = i := by
  rcases h with rfl | h
  · rfl
  · by_cases hne : order = []
    · rw [hne]
      rfl
    · have hlen : order.length = numApprox := by simpa using h.length_eq
      -- a model that is listed once is found where it is listed
      have hnodup : order.Nodup := h.nodup_iff.mpr List.nodup_range
      have hi' : i < order.length := by omega
      rw [position, model, if_neg (by simpa using hne), if_neg (by simpa using hne),
        List.getD_eq_getElem order 0 hi']
      exact hnodup.idxOf_getElem i hi'

theorem sum_model {M : Type} [AddCommMonoid M] (h : order.Valid numApprox) (f : ℕ → M) :
    ∑ i ∈ Finset.range numApprox, f (order.model i) = ∑ i ∈ Finset.range numApprox, f i :=
  Finset.sum_nbij order.model
    (fun i hi => Finset.mem_range.mpr (h.model_lt (Finset.mem_range.mp hi)))
    (fun i hi j hj => h.model_injective (by simpa using hi) (by simpa using hj))
    (fun model hmodel => by
      obtain ⟨i, hi, rfl⟩ := List.mem_map.mp (h.mem_along.mpr (by simpa using hmodel))
      exact ⟨i, by simpa using hi, rfl⟩)
    fun _ _ => rfl

section Values

variable {α : Type} [Scalar α] {values : List α}

theorem latest_eq_self (h : order.Valid values.length) : order.latest values = values :=
  latest_of_injective fun _ _ hi hj heq => h.model_injective hi hj heq

theorem getD_scatter (h : order.Valid values.length) {i : ℕ} (hi : i < values.length)
    (default : α) : (order.scatter values).getD (order.model i) default = values[i] := by
  rw [List.getD_eq_getElem?_getD, getElem?_scatter order (h.model_lt hi), h.position_model hi]
  simp [hi]

/-- Values that are put in place along an order are read along it as they were. -/
theorem gather_scatter (h : order.Valid values.length) :
    order.gather values.length (order.scatter values) = values := by
  refine List.ext_getElem (by simp) fun i hi hi' => ?_
  simp only [gather, along, List.map_map, List.getElem_map, List.getElem_range,
    Function.comp_apply]
  exact h.getD_scatter hi' 0

end Values

end Valid

/-! ## Nested samples -/

/-- Ratios of one or more that do not increase along an order. Every model is then evaluated at the
samples of the models behind it. -/
structure Nested {α : Type} [Scalar α] (order : ModelOrder) (numApprox : ℕ) (ratios : List α) :
    Prop where
  one_le : ∀ ratio ∈ ratios, 1 ≤ ratio
  antitone : ∀ i j, i < j → j < numApprox →
    ratios.getD (order.model j) 0 ≤ ratios.getD (order.model i) 0

end ModelOrder

/-! ## The order of the averaged correlations -/

section CorrelationOrder

variable {α : Type} [Scalar α]

theorem insertByKey_perm (key : ℕ → α) (model : ℕ) (sorted : List ℕ) :
    (insertByKey key model sorted).Perm (model :: sorted) := by
  induction sorted with
  | nil => exact .refl _
  | cons first rest ih =>
    rw [insertByKey]
    split
    · -- the model goes behind the first one
      exact (ih.cons first).trans (.swap model first rest)
    · exact .refl _

theorem foldl_insertByKey_perm (key : ℕ → α) (models sorted : List ℕ) :
    (models.foldl (fun sorted model => insertByKey key model sorted) sorted).Perm
      (models ++ sorted) := by
  induction models generalizing sorted with
  | nil => exact .refl _
  | cons model models ih =>
    refine (ih _).trans ?_
    exact ((insertByKey_perm key model sorted).append_left models).trans List.perm_middle

/-- The order of the averaged correlations lists every model once. -/
theorem correlationOrder_perm (rhoSq : QoiMatrix α) :
    (correlationOrder rhoSq).Perm (List.range rhoSq.cols) := by
  unfold correlationOrder
  have hlen : rhoSq.columnMeans.length = rhoSq.cols := by simp [QoiMatrix.columnMeans]
  -- the sorted list is reversed at the end, which keeps the models
  refine (List.reverse_perm _).trans ?_
  simpa [hlen] using foldl_insertByKey_perm (rhoSq.columnMeans.getD · 0) _ []

theorem valid_correlationOrder (rhoSq : QoiMatrix α) :
    ModelOrder.Valid (correlationOrder rhoSq) rhoSq.cols :=
  Or.inr (correlationOrder_perm rhoSq)

end CorrelationOrder

end Multifidelity
