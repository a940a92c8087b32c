import Multifidelity.Allocation.Solution
import Multifidelity.Costs

/-!
# Evaluation ratios in closed form

Along an order in which the squared correlations increase, the ratios that minimise the estimator
variance for a given cost are known.  They are kept at one or more and made non-increasing, so that
every model is evaluated at least as often as the next, more correlated one.

## Main definitions

* `sequenceRatios`: the ratios of one QoI along a model order.
* `analyticRatios`: the ratios of every QoI in the nominal order.
* `correlationOrder`: the models sorted by averaged squared correlation.
* `reorderedRatios`: the ratios shared by all QoI along that order.
-/

namespace Multifidelity

variable {α : Type} [Scalar α]

/-- The ratios at least one that the closed form gives along an order, before they are made
non-increasing.  A gain is the squared correlation beyond the one of the model before. -/
def unorderedRatios (costHigh last before : α) : List α → List α → List α
  | rho :: rhos, cost :: costs =>
    let gain := Scalar.larger (rho - before) 0
    Scalar.larger (Scalar.sqrt (costHigh / cost * gain / (1 - last))) 1
      :: unorderedRatios costHigh last rho rhos costs
  | _, _ => []

/-- The largest value at or after each position. -/
def suffixMaxima : List α → List α
  | [] => []
  | value :: rest =>
    match suffixMaxima rest with
    | [] => [value]
    | next :: later => Scalar.larger value next :: next :: later

@[simp] theorem length_suffixMaxima (values : List α) :
    (suffixMaxima values).length = values.length := by
  induction values with
  | nil => rfl
  | cons value rest ih =>
    rw [suffixMaxima]
    split <;> rename_i h <;> simp [h] at ih <;> simp [ih]

@[simp] theorem length_unorderedRatios (costHigh last before : α) (rhoSq costs : List α) :
    (unorderedRatios costHigh last before rhoSq costs).length =
      min rhoSq.length costs.length := by
  induction rhoSq generalizing before costs with
  | nil => simp [unorderedRatios]
  | cons rho rhos ih =>
    cases costs with
    | nil => simp [unorderedRatios]
    | cons cost costs => simp [unorderedRatios, ih, Nat.add_min_add_right]

/-- The ratios of one QoI along `order`, indexed by model. -/
def sequenceRatios (rhoSq : List α) (costs : Costs α) (order : ModelOrder) : List α :=
  let numApprox := rhoSq.length
  let along := order.gather numApprox rhoSq
  order.scatter <| suffixMaxima <| order.latest <|
    unorderedRatios (costs.ofModel numApprox) (along.getLastD 0) 0 along
      (order.gather numApprox costs.perModel)

/-- The ratios of every QoI in the nominal order. -/
def analyticRatios (rhoSq : QoiMatrix α) (costs : Costs α) : QoiMatrix α :=
  .ofRows rhoSq.cols (rhoSq.toRows.map fun row => sequenceRatios row costs [])

/-- Puts a model into a list with the largest key first, in front of those with an equal key. -/
def insertByKey (key : Nat → α) (model : Nat) : List Nat → List Nat
  | [] => [model]
  | first :: rest =>
    if key model < key first then first :: insertByKey key model rest else model :: first :: rest

/-- The models from the least to the most correlated one on average.  Equal ones keep the nominal
order. -/
def correlationOrder (rhoSq : QoiMatrix α) : ModelOrder :=
  let means := rhoSq.columnMeans
  ((List.range means.length).foldl (fun sorted model => insertByKey (means.getD · 0) model sorted)
    []).reverse

/-- The order of the averaged squared correlations and the ratios that all QoI share along it. -/
def reorderedRatios (rhoSq : QoiMatrix α) (costs : Costs α) : ModelOrder × QoiMatrix α :=
  let order := correlationOrder rhoSq
  (order, .ofRow rhoSq.rows (sequenceRatios rhoSq.columnMeans costs order))

end Multifidelity
