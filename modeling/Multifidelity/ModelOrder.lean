import Multifidelity.Scalar.Basic

/-!
# Orders of the low-fidelity models

An allocation treats the low-fidelity models from the least to the most correlated one.  A
`ModelOrder` lists them that way.  The empty order stands for the nominal one, in which position and
model agree.

An order is meant to list every model once.  One that repeats a model still has a meaning: a value
by model is read at each of its positions, and of several values by position it takes the first.

## Main definitions

* `ModelOrder.model`: the model at a position.
* `ModelOrder.along`: the models of all positions.
* `ModelOrder.gather`, `ModelOrder.scatter`: values by model read along the order, and back.
* `ModelOrder.latest`: values by position, those of a repeated model replaced by its last one.

## Main results

* `ModelOrder.gather_nil`, `ModelOrder.scatter_nil`: the nominal order leaves values in place.
* `ModelOrder.latest_of_injective`: without a repeated model nothing is replaced.
-/

namespace Multifidelity

/-- The low-fidelity models by position, empty for the nominal order. -/
abbrev ModelOrder := List Nat

namespace ModelOrder

/-- The model at a position. -/
def model (order : ModelOrder) (position : Nat) : Nat :=
  if order.isEmpty then position else order.getD position 0

/-- The first position of a model. -/
def position (order : ModelOrder) (model : Nat) : Nat :=
  if order.isEmpty then model else order.idxOf model

/-- The last one of the first `count` positions that has the model `model`. -/
def lastPosition (order : ModelOrder) (model : Nat) : Nat → Nat
  | 0 => 0
  | count + 1 => if order.model count = model then count else lastPosition order model count

/-- The models at the first `count` positions. -/
def along (order : ModelOrder) (count : Nat) : List Nat :=
  (List.range count).map order.model

variable {α : Type} [Scalar α]

/-- Values indexed by model, listed by the first `count` positions. -/
def gather (order : ModelOrder) (count : Nat) (values : List α) : List α :=
  (order.along count).map fun model => values.getD model 0

/-- Values listed by position, indexed by model.  A model has the value of its first position, and
one if the order leaves it out: that is the least evaluation ratio. -/
def scatter (order : ModelOrder) (values : List α) : List α :=
  (List.range values.length).map fun model => values.getD (order.position model) 1

/-- Values listed by position, each replaced by the one at the last position of the same model. -/
def latest (order : ModelOrder) (values : List α) : List α :=
  (order.along values.length).map fun model =>
    values.getD (order.lastPosition model values.length) 1

@[simp] theorem model_nil (position : Nat) : model [] position = position :=
  rfl

@[simp] theorem position_nil (model : Nat) : position [] model = model :=
  rfl

@[simp] theorem along_nil (count : Nat) : along [] count = List.range count :=
  List.map_id _

@[simp] theorem length_along (order : ModelOrder) (count : Nat) :
    (order.along count).length = count := by
  simp [along]

@[simp] theorem length_gather (order : ModelOrder) (count : Nat) (values : List α) :
    (order.gather count values).length = count := by
  simp [gather]

@[simp] theorem length_scatter (order : ModelOrder) (values : List α) :
    (order.scatter values).length = values.length := by
  simp [scatter]

@[simp] theorem length_latest (order : ModelOrder) (values : List α) :
    (order.latest values).length = values.length := by
  simp [latest]

theorem getElem?_gather (order : ModelOrder) {count i : Nat} (values : List α) (h : i < count) :
    (order.gather count values)[i]? = some (values.getD (order.model i) 0) := by
  simp [gather, along, h]

theorem getElem?_scatter (order : ModelOrder) {values : List α} {a : Nat}
    (h : a < values.length) :
    (order.scatter values)[a]? = some (values.getD (order.position a) 1) := by
  simp [scatter, h]

theorem getElem?_latest (order : ModelOrder) {values : List α} {i : Nat}
    (h : i < values.length) :
    (order.latest values)[i]? =
      some (values.getD (order.lastPosition (order.model i) values.length) 1) := by
  simp [latest, along, h]

@[simp] theorem gather_nil (values : List α) : gather [] values.length values = values := by
  apply List.ext_getElem? fun i => ?_
  by_cases h : i < values.length
  · rw [getElem?_gather [] values h, model_nil, List.getElem?_eq_getElem h]
    simp [h]
  · rw [List.getElem?_eq_none (by simpa using h), List.getElem?_eq_none (by simpa using h)]

@[simp] theorem scatter_nil (values : List α) : scatter [] values = values := by
  apply List.ext_getElem? fun a => ?_
  by_cases h : a < values.length
  · rw [getElem?_scatter [] h, position_nil, List.getElem?_eq_getElem h]
    simp [h]
  · rw [List.getElem?_eq_none (by simpa using h), List.getElem?_eq_none (by simpa using h)]

/-- The last position of a model is its only one if no model is repeated. -/
theorem lastPosition_model {order : ModelOrder} {count : Nat}
    (h : ∀ i j, i < count → j < count → order.model i = order.model j → i = j) {i : Nat}
    (hi : i < count) : order.lastPosition (order.model i) count = i := by
  induction count with
  | zero => exact absurd hi (Nat.not_lt_zero i)
  | succ count ih =>
    rw [lastPosition]
    split <;> rename_i heq
    · exact h count i (Nat.lt_succ_self count) hi heq
    · have hne : i ≠ count := fun hic => heq (hic ▸ rfl)
      exact ih (fun j k hj hk => h j k (Nat.lt_succ_of_lt hj) (Nat.lt_succ_of_lt hk)) (by omega)

/-- Nothing is replaced if no model is repeated. -/
theorem latest_of_injective {order : ModelOrder} {values : List α}
    (h : ∀ i j, i < values.length → j < values.length → order.model i = order.model j → i = j) :
    order.latest values = values := by
  apply List.ext_getElem? fun i => ?_
  by_cases hi : i < values.length
  · rw [getElem?_latest order hi, lastPosition_model h hi, List.getElem?_eq_getElem hi]
    simp [hi]
  · rw [List.getElem?_eq_none (by simpa using hi), List.getElem?_eq_none (by simpa using hi)]

@[simp] theorem latest_nil (values : List α) : latest [] values = values :=
  latest_of_injective fun _ _ _ _ heq => heq

end ModelOrder

end Multifidelity
