import Multifidelity.Failure

/-!
# Responses of an ensemble

A sample evaluates some models of an ensemble at one random input.  Its response holds one value per
model and QoI.  A value that is not finite marks an evaluation that failed.

## Main definitions

* `Dimensions`: the numbers of low-fidelity models and QoI of an ensemble.
* `Response`, `Batch`: the values of one sample, and of the samples of one increment.
* `Dimensions.value?`: the value of a model at a QoI, if its evaluation succeeded.
* `Dimensions.joint?`: the values of all models at a QoI, if all evaluations succeeded.
* `power`: the powers that enter the moments.

## Main results

* `Dimensions.check_eq_ok_iff`, `Dimensions.check_eq_error_iff`: which batches are accepted.
* `Dimensions.value?_eq_some_iff`: which values count.
-/

namespace Multifidelity

/-- The size of an ensemble. -/
structure Dimensions where
  /-- The number of low-fidelity models. -/
  numApprox : Nat
  /-- The number of QoI that every model returns. -/
  numFunctions : Nat
  deriving DecidableEq

/-- The values of one sample, ordered by model, the high-fidelity model last, and then by QoI. -/
abbrev Response (α : Type) := List α

/-- The responses of one increment. -/
abbrev Batch (α : Type) := List (Response α)

/-- A sample of one QoI at which all models are finite. -/
structure JointSample (α : Type) where
  /-- One value per low-fidelity model. -/
  low : List α
  /-- The value of the high-fidelity model. -/
  high : α

namespace Dimensions

variable {α : Type} (dims : Dimensions)

/-- The number of values in a response. -/
def responseLength : Nat :=
  (dims.numApprox + 1) * dims.numFunctions

/-- Accepts a batch in which every response has the right length. -/
def check (batch : Batch α) : Except (Failure α) Unit :=
  match batch.find? fun response => response.length != dims.responseLength with
  | some response => .error (.responseLength dims.responseLength response.length)
  | none => .ok ()

theorem check_eq_ok_iff {batch : Batch α} :
    dims.check batch = .ok () ↔ ∀ response ∈ batch, response.length = dims.responseLength := by
  unfold check
  split <;> rename_i h
  · have hmem := List.mem_of_find?_eq_some h
    have hlen := List.find?_some h
    simp only [reduceCtorEq, false_iff, Classical.not_forall]
    exact ⟨_, hmem, by simpa using hlen⟩
  · simpa using h

/-- A refused batch is refused for its first response of the wrong length. -/
theorem check_eq_error_iff {batch : Batch α} {failure : Failure α} :
    dims.check batch = .error failure ↔
      ∃ response, batch.find? (fun r => r.length != dims.responseLength) = some response ∧
        failure = .responseLength dims.responseLength response.length := by
  unfold check
  split <;> rename_i h
  · simp [h, eq_comm]
  · simp [h]

variable [Scalar α]

/-- The value of a model at a QoI, none if the evaluation failed. -/
def value? (response : Response α) (model qoi : Nat) : Option α :=
  response[model * dims.numFunctions + qoi]?.filter Scalar.isFinite

theorem value?_eq_some_iff {response : Response α} {model qoi : Nat} {x : α} :
    dims.value? response model qoi = some x ↔
      response[model * dims.numFunctions + qoi]? = some x ∧ Scalar.isFinite x = true := by
  simp [value?, Option.filter_eq_some_iff]

/-- The values of all models at a QoI, none if any evaluation failed. -/
def joint? (response : Response α) (qoi : Nat) : Option (JointSample α) := do
  let low ← (List.range dims.numApprox).mapM fun model => dims.value? response model qoi
  let high ← dims.value? response dims.numApprox qoi
  return ⟨low, high⟩

end Dimensions

variable {α : Type} [Scalar α]

/-- The power of a value with exponent `order + 1`, multiplied up from the left. -/
def power (x : α) : Nat → α
  | 0 => x
  | order + 1 => power x order * x

end Multifidelity
