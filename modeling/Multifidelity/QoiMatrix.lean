import Multifidelity.Scalar.Basic

/-!
# Matrices over quantities of interest and models

Correlations, variances and evaluation ratios come as one value per quantity of interest (QoI) and
low-fidelity model.

## Main definitions

* `QoiMatrix`: a dense matrix with one row per QoI and one column per low-fidelity model.
* `QoiMatrix.entry`, `QoiMatrix.row`, `QoiMatrix.column`: its parts.
* `QoiMatrix.ofFn`, `QoiMatrix.ofRows`, `QoiMatrix.ofRow`, `QoiMatrix.filled`: ways to build one.
* `QoiMatrix.columnMeans`: averages over the QoI, one per model.

## Main results

* `QoiMatrix.toRows_ofRows`: a matrix has the rows it is made of.
-/

namespace Multifidelity

/-- A dense matrix with one row per QoI and one column per low-fidelity model, stored row by row.
Entries beyond `rows * cols` belong to no QoI and no model. -/
structure QoiMatrix (α : Type) where
  /-- The number of QoI. -/
  rows : Nat
  /-- The number of low-fidelity models. -/
  cols : Nat
  /-- The rows, one after the other. -/
  entries : List α
  deriving BEq

namespace QoiMatrix

variable {α β : Type}

/-- The matrix with entry `f qoi model`. -/
def ofFn (rows cols : Nat) (f : Nat → Nat → α) : QoiMatrix α :=
  ⟨rows, cols, (List.range rows).flatMap fun qoi => (List.range cols).map (f qoi)⟩

/-- The matrix with the given rows, each with `cols` entries. -/
def ofRows (cols : Nat) (rows : List (List α)) : QoiMatrix α :=
  ⟨rows.length, cols, rows.flatten⟩

/-- The matrix with all entries equal. -/
def filled (rows cols : Nat) (value : α) : QoiMatrix α :=
  ofFn rows cols fun _ _ => value

/-- The matrix whose rows are all equal to `row`. -/
def ofRow (rows : Nat) (row : List α) : QoiMatrix α :=
  ofRows row.length (List.replicate rows row)

/-- The entries of one QoI, one per model. -/
def row (matrix : QoiMatrix α) (qoi : Nat) : List α :=
  (matrix.entries.drop (qoi * matrix.cols)).take matrix.cols

/-- The rows, one per QoI. -/
def toRows (matrix : QoiMatrix α) : List (List α) :=
  (List.range matrix.rows).map matrix.row

/-- The matrix with one entry replaced. -/
def set (matrix : QoiMatrix α) (qoi model : Nat) (value : α) : QoiMatrix α :=
  { matrix with entries := matrix.entries.set (qoi * matrix.cols + model) value }

@[simp] theorem length_toRows (matrix : QoiMatrix α) : matrix.toRows.length = matrix.rows := by
  simp [toRows]

theorem row_ofRows {cols : Nat} {rows : List (List α)} (h : ∀ row ∈ rows, row.length = cols)
    {qoi : Nat} {row : List α} (hrow : rows[qoi]? = some row) :
    (ofRows cols rows).row qoi = row := by
  induction rows generalizing qoi with
  | nil => simp at hrow
  | cons first rest ih =>
    have hfirst : first.length = cols := h first (by simp)
    cases qoi with
    | zero =>
      obtain rfl : first = row := by simpa using hrow
      simp [QoiMatrix.row, ofRows, hfirst]
    | succ n =>
      have hrest : (ofRows cols rest).row n = row :=
        ih (fun r hr => h r (by simp [hr])) (by simpa using hrow)
      rw [← hrest]
      simp only [QoiMatrix.row, ofRows, List.flatten_cons]
      rw [Nat.succ_mul, Nat.add_comm (n * cols), ← hfirst, ← List.drop_drop]
      simp

/-- A matrix has the rows it is made of. -/
theorem toRows_ofRows {cols : Nat} {rows : List (List α)} (h : ∀ row ∈ rows, row.length = cols) :
    (ofRows cols rows).toRows = rows := by
  apply List.ext_getElem? fun qoi => ?_
  cases hq : rows[qoi]? with
  | none =>
    have : rows.length ≤ qoi := List.getElem?_eq_none_iff.1 hq
    exact List.getElem?_eq_none (by simpa [ofRows] using this)
  | some row =>
    have hlt : qoi < rows.length := (List.getElem?_eq_some_iff.1 hq).1
    rw [toRows, List.getElem?_map, List.getElem?_range (by simpa [ofRows] using hlt)]
    exact congrArg some (row_ofRows h hq)

variable [Scalar α]

/-- The entry of a QoI and a model, zero outside of the matrix. -/
def entry (matrix : QoiMatrix α) (qoi model : Nat) : α :=
  matrix.entries.getD (qoi * matrix.cols + model) 0

/-- The entries of one model, one per QoI. -/
def column (matrix : QoiMatrix α) (model : Nat) : List α :=
  (List.range matrix.rows).map (matrix.entry · model)

/-- The averages over the QoI, one per model. -/
def columnMeans (matrix : QoiMatrix α) : List α :=
  (List.range matrix.cols).map fun model => average (matrix.column model)

end QoiMatrix

end Multifidelity
