import Mathlib.Data.List.GetD
import Mathlib.Tactic
import Multifidelity.QoiMatrix

/-!
# Rows and entries of matrices

## Main definitions

* `QoiMatrix.Full`: a matrix with an entry for every QoI and model

## Main results

* `QoiMatrix.entry_eq_getD_row`: entries are found in the rows
* `QoiMatrix.Full.length_row`: every row has an entry for every model
-/

namespace Multifidelity

theorem mapIdx_map_range {β γ : Type} (f : ℕ → β) (g : ℕ → β → γ) (n : ℕ) :
    ((List.range n).map f).mapIdx g = (List.range n).map fun i => g i (f i) :=
  List.ext_getElem (by simp) fun i hi hi' => by simp

theorem zipIdx_map_range {β : Type} (f : ℕ → β) (n : ℕ) :
    ((List.range n).map f).zipIdx = (List.range n).map fun i => (f i, i) :=
  List.ext_getElem (by simp) fun i hi hi' => by simp

namespace QoiMatrix

variable {α : Type}

/-- Every QoI and model has an entry. -/
def Full (matrix : QoiMatrix α) : Prop :=
  matrix.entries.length = matrix.rows * matrix.cols

theorem full_ofRows {cols : ℕ} {rows : List (List α)} (h : ∀ row ∈ rows, row.length = cols) :
    (ofRows cols rows).Full := by
  rw [Full, ofRows, List.length_flatten]
  have hmap : rows.map List.length = List.replicate rows.length cols :=
    List.eq_replicate_iff.mpr ⟨List.length_map _, fun n hn => by
      obtain ⟨row, hrow, rfl⟩ := List.mem_map.mp hn
      exact h row hrow⟩
  rw [hmap, List.sum_replicate, smul_eq_mul]

theorem Full.length_row {matrix : QoiMatrix α} (h : matrix.Full) {qoi : ℕ}
    (hqoi : qoi < matrix.rows) : (matrix.row qoi).length = matrix.cols := by
  -- the row ends before the entries do
  have hend : (qoi + 1) * matrix.cols ≤ matrix.rows * matrix.cols :=
    Nat.mul_le_mul_right _ hqoi
  rw [row, List.length_take, List.length_drop, h]
  rw [Nat.succ_mul] at hend
  omega

theorem mem_entries_of_mem_row {matrix : QoiMatrix α} {qoi : ℕ} {value : α}
    (h : value ∈ matrix.row qoi) : value ∈ matrix.entries :=
  List.mem_of_mem_drop (List.mem_of_mem_take h)

theorem Full.length_of_mem_toRows {matrix : QoiMatrix α} (h : matrix.Full) {row : List α}
    (hrow : row ∈ matrix.toRows) : row.length = matrix.cols := by
  obtain ⟨qoi, hqoi, rfl⟩ := List.mem_map.mp hrow
  exact h.length_row (List.mem_range.mp hqoi)

theorem row_ofRow {rows qoi : ℕ} (h : qoi < rows) (row : List α) :
    (ofRow rows row).row qoi = row :=
  row_ofRows (fun _ hmem => by rw [List.eq_of_mem_replicate hmem]) (by simp [h])

theorem toRows_ofRow (rows : ℕ) (row : List α) :
    (ofRow rows row).toRows = List.replicate rows row :=
  toRows_ofRows fun _ hmem => by rw [List.eq_of_mem_replicate hmem]

theorem ofFn_eq_ofRows (rows cols : ℕ) (f : ℕ → ℕ → α) :
    ofFn rows cols f =
      ofRows cols ((List.range rows).map fun qoi => (List.range cols).map (f qoi)) := by
  simp [ofFn, ofRows, List.flatMap_def]

theorem ofFn_congr {rows cols : ℕ} {f g : ℕ → ℕ → α}
    (h : ∀ qoi < rows, ∀ model < cols, f qoi model = g qoi model) :
    ofFn rows cols f = ofFn rows cols g := by
  rw [ofFn_eq_ofRows, ofFn_eq_ofRows]
  refine congrArg _ (List.map_congr_left fun qoi hqoi => List.map_congr_left fun model hmodel => ?_)
  exact h qoi (List.mem_range.mp hqoi) model (List.mem_range.mp hmodel)

theorem row_ofFn {rows qoi : ℕ} (h : qoi < rows) (cols : ℕ) (f : ℕ → ℕ → α) :
    (ofFn rows cols f).row qoi = (List.range cols).map (f qoi) := by
  rw [ofFn_eq_ofRows]
  refine row_ofRows (fun row hrow => ?_) ?_
  · obtain ⟨-, -, rfl⟩ := List.mem_map.mp hrow
    rw [List.length_map, List.length_range]
  · rw [List.getElem?_map, List.getElem?_range h, Option.map_some]

theorem row_filled {rows qoi : ℕ} (h : qoi < rows) (cols : ℕ) (value : α) :
    (filled rows cols value).row qoi = List.replicate cols value := by
  rw [filled, row_ofFn h, List.map_const', List.length_range]

theorem entry_eq_getD_row [Scalar α] (matrix : QoiMatrix α) (qoi : ℕ) {model : ℕ}
    (h : model < matrix.cols) : matrix.entry qoi model = (matrix.row qoi).getD model 0 := by
  simp [entry, row, List.getD_eq_getElem?_getD, h]

theorem entry_ofFn [Scalar α] {rows cols qoi model : ℕ} (hqoi : qoi < rows) (hmodel : model < cols)
    (f : ℕ → ℕ → α) : (ofFn rows cols f).entry qoi model = f qoi model := by
  rw [entry_eq_getD_row _ _ hmodel, row_ofFn hqoi, List.getD_eq_getElem _ _ (by simpa using hmodel),
    List.getElem_map, List.getElem_range]

/-- The entries of a full row, by model. -/
theorem map_entry_eq_row [Scalar α] (matrix : QoiMatrix α) {qoi : ℕ}
    (h : (matrix.row qoi).length = matrix.cols) :
    (List.range matrix.cols).map (matrix.entry qoi) = matrix.row qoi := by
  refine List.ext_getElem (by simp [h]) fun model hmodel hmodel' => ?_
  rw [List.getElem_map, List.getElem_range, entry_eq_getD_row _ _ (h ▸ hmodel'),
    List.getD_eq_getElem _ _ hmodel']

end QoiMatrix

end Multifidelity
