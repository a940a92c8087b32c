import Multifidelity.Allocation.Problem
import Multifidelity.Proofs.ModelOrder
import Multifidelity.Proofs.QoiMatrix

/-!
# Other labels for the models

The low-fidelity models are numbered, and nothing but their order may depend on the numbers. A
relabelling gives every low-fidelity model another number. Values by model move along with it, and
values by position stay where they are. The high-fidelity model keeps its place behind the others.

## Main definitions

* `Relabelling`: a permutation of the low-fidelity models
* `Relabelling.values`, `Relabelling.order`, `Relabelling.matrix`: what is known about the models,
  under their new labels

## Main results

* `Relabelling.getElem?_values`: where the value of a model has moved
* `Relabelling.values_perm`: no value gets lost
* `Relabelling.gather_order`, `Relabelling.scatter_order`: values along a relabelled order
-/

namespace Multifidelity

/-- A permutation of the low-fidelity models. Whatever comes behind them keeps its place. -/
structure Relabelling (numApprox : ℕ) where
  /-- The new label of a model. -/
  perm : Equiv.Perm ℕ
  fixes : ∀ model, numApprox ≤ model → perm model = model

namespace Relabelling

variable {numApprox : ℕ} (p : Relabelling numApprox) {β γ δ : Type}

/-- Values by model, under the new labels. -/
def values (xs : List β) : List β :=
  (List.range xs.length).filterMap fun model => xs[p.perm.symm model]?

/-- An order of the models, under the new labels. -/
def order (order : ModelOrder) : ModelOrder :=
  order.map p.perm

/-- A matrix over QoI and models, under the new labels. -/
def matrix (matrix : QoiMatrix β) : QoiMatrix β :=
  .ofRows matrix.cols (matrix.toRows.map p.values)

/-! ## Labels -/

theorem apply_lt_iff {count model : ℕ} (h : numApprox ≤ count) :
    p.perm model < count ↔ model < count := by
  rcases lt_or_ge model numApprox with hlt | hge
  · -- a low-fidelity model does not take the place of one that stays
    have hnew : p.perm model < numApprox := by
      by_contra hnot
      have hstays := p.fixes (p.perm model) (not_lt.mp hnot)
      rw [p.perm.injective hstays] at hnot
      exact hnot hlt
    exact iff_of_true (hnew.trans_le h) (hlt.trans_le h)
  · rw [p.fixes model hge]

theorem symm_lt_iff {count model : ℕ} (h : numApprox ≤ count) :
    p.perm.symm model < count ↔ model < count := by
  rw [← p.apply_lt_iff h, Equiv.apply_symm_apply]

theorem symm_of_le {model : ℕ} (h : numApprox ≤ model) : p.perm.symm model = model := by
  rw [Equiv.symm_apply_eq, p.fixes model h]

theorem map_range_perm {count : ℕ} (h : numApprox ≤ count) :
    ((List.range count).map p.perm).Perm (List.range count) := by
  apply (List.perm_ext_iff_of_nodup (List.nodup_range.map p.perm.injective) List.nodup_range).mpr
  intro model
  rw [List.mem_map, List.mem_range]
  constructor
  · rintro ⟨before, hbefore, rfl⟩
    exact (p.apply_lt_iff h).mpr (List.mem_range.mp hbefore)
  · intro hmodel
    exact ⟨p.perm.symm model, List.mem_range.mpr ((p.symm_lt_iff h).mpr hmodel), by simp⟩

theorem map_symm_range_perm {count : ℕ} (h : numApprox ≤ count) :
    ((List.range count).map p.perm.symm).Perm (List.range count) := by
  have hmap := (p.map_range_perm h).map p.perm.symm
  rw [List.map_map, Equiv.symm_comp_self, List.map_id] at hmap
  exact hmap.symm

/-! ## Values by model -/

/-- A value is found under the new label of its model. -/
theorem getElem?_values {xs : List β} (h : numApprox ≤ xs.length) (model : ℕ) :
    (p.values xs)[model]? = xs[p.perm.symm model]? := by
  cases xs with
  | nil => simp [values]
  | cons first rest =>
    have hsome : p.values (first :: rest) = (List.range (first :: rest).length).map fun model =>
        (first :: rest).getD (p.perm.symm model) first := by
      rw [values, ← List.filterMap_eq_map]
      refine List.filterMap_congr fun model hmodel => ?_
      have hlt := (p.symm_lt_iff h).mpr (List.mem_range.mp hmodel)
      rw [List.getElem?_eq_getElem hlt, Function.comp_apply, List.getD_eq_getElem _ _ hlt]
    rw [hsome, List.getElem?_map]
    rcases lt_or_ge model (first :: rest).length with hlt | hge
    · have hlt' := (p.symm_lt_iff h).mpr hlt
      rw [List.getElem?_range hlt, Option.map_some, List.getElem?_eq_getElem hlt',
        List.getD_eq_getElem _ _ hlt']
    · have hge' : (first :: rest).length ≤ p.perm.symm model :=
        not_lt.mp ((p.symm_lt_iff h).not.mpr (not_lt.mpr hge))
      rw [List.getElem?_eq_none hge', List.getElem?_eq_none (by simpa using hge), Option.map_none]

theorem getD_values {xs : List β} (h : numApprox ≤ xs.length) (model : ℕ) (default : β) :
    (p.values xs).getD model default = xs.getD (p.perm.symm model) default := by
  rw [List.getD_eq_getElem?_getD, p.getElem?_values h, List.getD_eq_getElem?_getD]

/-- The value of a model is that of the model under its new label. -/
theorem getD_values_apply {xs : List β} (h : numApprox ≤ xs.length) (model : ℕ) (default : β) :
    (p.values xs).getD (p.perm model) default = xs.getD model default := by
  rw [p.getD_values h, Equiv.symm_apply_apply]

theorem filterMap_range_getElem? (xs : List β) :
    (List.range xs.length).filterMap (xs[·]?) = xs := by
  induction xs with
  | nil => rfl
  | cons x xs ih => simp [List.range_succ_eq_map, List.filterMap_map, ih]

/-- Values are only rearranged. -/
theorem values_perm {xs : List β} (h : numApprox ≤ xs.length) : (p.values xs).Perm xs := by
  have hmap := (p.map_symm_range_perm h).filterMap (xs[·]?)
  rw [List.filterMap_map, filterMap_range_getElem?] at hmap
  exact hmap

theorem length_values {xs : List β} (h : numApprox ≤ xs.length) :
    (p.values xs).length = xs.length :=
  (p.values_perm h).length_eq

/-- What is computed model by model moves along with the models. -/
theorem map_values (f : β → γ) (xs : List β) : (p.values xs).map f = p.values (xs.map f) := by
  simp [values, List.map_filterMap]

theorem values_map_range (f : ℕ → β) {count : ℕ} (h : numApprox ≤ count) :
    p.values ((List.range count).map f) = (List.range count).map fun model =>
      f (p.perm.symm model) := by
  apply List.ext_getElem?
  intro model
  rw [p.getElem?_values (by simpa using h), List.getElem?_map, List.getElem?_map]
  rcases lt_or_ge model count with hlt | hge
  · rw [List.getElem?_range hlt, List.getElem?_range ((p.symm_lt_iff h).mpr hlt)]
    rfl
  · rw [p.symm_of_le (h.trans hge)]
    simp [hge]

theorem zipWith_values (f : β → γ → δ) {xs : List β} {ys : List γ} (hxs : numApprox ≤ xs.length)
    (hys : numApprox ≤ ys.length) :
    List.zipWith f (p.values xs) (p.values ys) = p.values (List.zipWith f xs ys) := by
  apply List.ext_getElem?
  intro model
  rw [p.getElem?_values (by simpa using ⟨hxs, hys⟩), List.getElem?_zipWith, List.getElem?_zipWith,
    p.getElem?_values hxs, p.getElem?_values hys]

/-! ## Values along an order -/

section Order

variable {order : ModelOrder} {count : ℕ} (horder : order.Perm (List.range count))
  (hcount : numApprox ≤ count)
include horder hcount

theorem order_perm : (p.order order).Perm (List.range count) :=
  (horder.map p.perm).trans (p.map_range_perm hcount)

omit hcount in
theorem model_order {i : ℕ} (hi : i < count) :
    (p.order order).model i = p.perm (order.model i) := by
  have hlength : i < order.length := by simpa [horder.length_eq] using hi
  have hne : order ≠ [] := List.ne_nil_of_length_pos (Nat.zero_lt_of_lt hlength)
  simp [Relabelling.order, ModelOrder.model, hne, hlength]

/-- A model has the position that it had under its old label. -/
theorem position_order {model : ℕ} (hmodel : model < count) :
    (p.order order).position model = order.position (p.perm.symm model) := by
  have hvalid : order.Valid count := Or.inr horder
  have hvalid' : (p.order order).Valid count := Or.inr (p.order_perm horder hcount)
  obtain ⟨i, hi, hold⟩ :=
    List.mem_map.mp (hvalid.mem_along.mpr ((p.symm_lt_iff hcount).mpr hmodel))
  replace hi := List.mem_range.mp hi
  have hnew : (p.order order).model i = model := by
    rw [p.model_order horder hi, hold, Equiv.apply_symm_apply]
  rw [← hold, hvalid.position_model hi]
  conv_lhs => rw [← hnew, hvalid'.position_model hi]

variable {α : Type} [Scalar α]

/-- Values are read along a relabelled order as they were along the old one. -/
theorem gather_order {xs : List α} (hxs : numApprox ≤ xs.length) :
    (p.order order).gather count (p.values xs) = order.gather count xs := by
  rw [ModelOrder.gather, ModelOrder.gather, ModelOrder.along_of_perm horder,
    ModelOrder.along_of_perm (p.order_perm horder hcount), Relabelling.order, List.map_map]
  exact List.map_congr_left fun model _ => p.getD_values_apply hxs model 0

omit hcount in
/-- Values by position get to the models under their new labels. -/
theorem scatter_order {xs : List α} (hxs : xs.length = count) (hcount : numApprox ≤ count) :
    (p.order order).scatter xs = p.values (order.scatter xs) := by
  subst hxs
  apply List.ext_getElem?
  intro model
  rw [p.getElem?_values (by simpa using hcount)]
  rcases lt_or_ge model xs.length with hlt | hge
  · rw [ModelOrder.getElem?_scatter _ hlt,
      ModelOrder.getElem?_scatter _ ((p.symm_lt_iff hcount).mpr hlt),
      p.position_order horder hcount hlt]
  · rw [p.symm_of_le (hcount.trans hge), List.getElem?_eq_none (by simpa using hge),
      List.getElem?_eq_none (by simpa using hge)]

end Order

/-! ## Matrices -/

section Matrix

variable {matrix : QoiMatrix β}

@[simp] theorem rows_matrix (matrix : QoiMatrix β) : (p.matrix matrix).rows = matrix.rows := by
  simp [Relabelling.matrix, QoiMatrix.ofRows]

@[simp] theorem cols_matrix (matrix : QoiMatrix β) : (p.matrix matrix).cols = matrix.cols := rfl

section Full

variable (hfull : matrix.Full) (hcols : numApprox ≤ matrix.cols)
include hfull hcols

theorem length_of_mem_map_values {row : List β} (h : row ∈ matrix.toRows.map p.values) :
    row.length = matrix.cols := by
  obtain ⟨before, hbefore, rfl⟩ := List.mem_map.mp h
  have hlength := hfull.length_of_mem_toRows hbefore
  rw [p.length_values (by rwa [hlength]), hlength]

theorem toRows_matrix : (p.matrix matrix).toRows = matrix.toRows.map p.values :=
  QoiMatrix.toRows_ofRows fun _ hrow => p.length_of_mem_map_values hfull hcols hrow

theorem row_matrix {qoi : ℕ} (hqoi : qoi < matrix.rows) :
    (p.matrix matrix).row qoi = p.values (matrix.row qoi) := by
  refine QoiMatrix.row_ofRows (fun _ hrow => p.length_of_mem_map_values hfull hcols hrow) ?_
  rw [List.getElem?_map, QoiMatrix.toRows, List.getElem?_map, List.getElem?_range hqoi]
  rfl

theorem entry_matrix [Scalar β] {qoi model : ℕ} (hqoi : qoi < matrix.rows)
    (hmodel : model < matrix.cols) :
    (p.matrix matrix).entry qoi model = matrix.entry qoi (p.perm.symm model) := by
  rw [QoiMatrix.entry_eq_getD_row _ _ (by exact hmodel), p.row_matrix hfull hcols hqoi,
    p.getD_values (by rwa [hfull.length_row hqoi]),
    QoiMatrix.entry_eq_getD_row _ _ ((p.symm_lt_iff hcols).mpr hmodel)]

end Full

theorem matrix_ofRow (rows : ℕ) {row : List β} (h : numApprox ≤ row.length) :
    p.matrix (.ofRow rows row) = .ofRow rows (p.values row) := by
  rw [Relabelling.matrix, QoiMatrix.toRows_ofRow, List.map_replicate, QoiMatrix.ofRow,
    QoiMatrix.ofRow, p.length_values h]
  rfl

theorem matrix_ofFn (rows : ℕ) {cols : ℕ} (h : numApprox ≤ cols) (f : ℕ → ℕ → β) :
    p.matrix (.ofFn rows cols f) =
      .ofFn rows cols fun qoi model => f qoi (p.perm.symm model) := by
  have htoRows : (QoiMatrix.ofFn rows cols f).toRows =
      (List.range rows).map fun qoi => (List.range cols).map (f qoi) := by
    rw [QoiMatrix.ofFn_eq_ofRows]
    refine QoiMatrix.toRows_ofRows fun row hrow => ?_
    obtain ⟨qoi, -, rfl⟩ := List.mem_map.mp hrow
    rw [List.length_map, List.length_range]
  rw [Relabelling.matrix, htoRows, List.map_map,
    QoiMatrix.ofFn_eq_ofRows rows cols fun qoi model => f qoi (p.perm.symm model)]
  refine congrArg (QoiMatrix.ofRows cols) (List.map_congr_left fun qoi _ => ?_)
  exact p.values_map_range (f qoi) h

end Matrix

end Relabelling

end Multifidelity
