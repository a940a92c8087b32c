import Multifidelity.Json.Tree
import Multifidelity.QoiMatrix

/-!
# Plain values as JSON

Counts, numbers, lists and optional values.  A number that is not finite is written as a null, which
reads as a missing value but not as a number.

## Main definitions

* `Json.ofScalar`, `Json.scalar?`: numbers.
* `Json.ofList`, `Json.list?`: lists.
* `Json.ofOption`, `Json.optional?`: optional values.

## Main results

* `Json.list?_ofList`: a list reads back if its items do.
-/

namespace Multifidelity.Json

variable {α β : Type}

/-- The count that a tree holds. -/
def count? : Json α → Option Nat
  | count value => some value
  | _ => none

/-- The truth value that a tree holds. -/
def bool? : Json α → Option Bool
  | bool value => some value
  | _ => none

/-- The list of the trees of values. -/
def ofList (encode : β → Json α) (values : List β) : Json α :=
  .list (values.map encode)

/-- The values of a list whose items all read. -/
def list? (decode : Json α → Option β) : Json α → Option (List β)
  | list items => items.mapM decode
  | _ => none

/-- A list reads back if its items do. -/
theorem list?_ofList {encode : β → Json α} {decode : Json α → Option β} {values : List β}
    (h : ∀ value ∈ values, decode (encode value) = some value) :
    list? decode (ofList encode values) = some values := by
  simp only [list?, ofList]
  induction values with
  | nil => rfl
  | cons first rest ih =>
    rw [List.map_cons, List.mapM_cons, h first (List.mem_cons_self ..),
      ih fun value hvalue => h value (List.mem_cons_of_mem _ hvalue)]
    rfl

/-- The list of counts. -/
def ofCounts (counts : List Nat) : Json α :=
  ofList .count counts

/-- The counts of a list that holds nothing else. -/
def counts? : Json α → Option (List Nat) :=
  list? count?

@[simp] theorem counts?_ofCounts (counts : List Nat) :
    counts? (ofCounts counts : Json α) = some counts :=
  list?_ofList fun _ _ => rfl

/-- The tree of a value that may be missing, null if it is. -/
def ofOption (encode : β → Json α) : Option β → Json α
  | some value => encode value
  | none => .null

/-- The value of a field that has to be there. -/
def required? (decode : Json α → Option β) (slot : Option (Json α)) : Option β :=
  slot.bind decode

/-- The value of a field that may be missing or null. -/
def optional? (decode : Json α → Option β) : Option (Json α) → Option (Option β)
  | none => some none
  | some null => some none
  | some value => (decode value).map some

/-- The value of a field that may be missing, but not null. -/
def defaulted? (default : β) (decode : Json α → Option β) : Option (Json α) → Option β
  | none => some default
  | some value => decode value

variable [Scalar α]

/-- The number itself, null if it is not finite. -/
def ofScalar (x : α) : Json α :=
  if Scalar.isFinite x then .real x else .null

/-- The number that a tree holds, whatever its kind. -/
def scalar? : Json α → Option α
  | count value => some (Scalar.ofCount value)
  | negative value => some (-Scalar.ofCount value)
  | real value => some value
  | _ => none

/-- The list of numbers. -/
def ofScalars (values : List α) : Json α :=
  ofList ofScalar values

/-- The numbers of a list that holds nothing else. -/
def scalars? : Json α → Option (List α) :=
  list? scalar?

/-- The tree of a matrix: its dimensions and its entries row by row. -/
def ofMatrix (matrix : QoiMatrix α) : Json α :=
  .record [("rows", .count matrix.rows), ("cols", .count matrix.cols),
    ("data", ofScalars matrix.entries)]

/-- The matrix that a tree describes.  The number of its entries is not checked. -/
def matrix? (json : Json α) : Option (QoiMatrix α) := do
  let [rows, cols, data] ← json.slots? ["rows", "cols", "data"] false | none
  return ⟨← required? count? rows, ← required? count? cols, ← required? scalars? data⟩

end Multifidelity.Json
