import Multifidelity.Response
import Multifidelity.Update

/-!
# Sums over joint samples

Means, variances, correlations and control variates are all computed from power sums.  The sums here
run over the joint samples of a QoI: the samples at which all models are finite there.  A failed
evaluation takes its sample away from its own QoI only.

## Main definitions

* `PairSums`: the sums of one order for a low-fidelity model and the high-fidelity one.
* `QoiSums`: the sums of one QoI, for the first `M` orders.
* `JointSums`: the sums of all QoI.
* `JointSums.absorb`: the call that adds a batch of responses to the sums.
* `JointSums.accumulate`: the sums with a batch of responses added.

## Main results

* `JointSums.on_absorb`: a batch is refused before any of its responses is added.
* `JointSums.getElem?_qois_foldl_addResponse`: the sums of a QoI run over its joint samples.
* `JointSums.accumulate_of_lengths`: a batch is accepted if its responses have the right length.
-/

namespace Multifidelity

/-- The sums of order `m` that involve the values `l` of one low-fidelity model. -/
structure PairSums (α : Type) where
  /-- The sum of `l ^ m`. -/
  low : α
  /-- The sum of `l ^ m * l ^ m`. -/
  lowLow : α
  /-- The sum of `l ^ m * h ^ m` with the high-fidelity values `h`. -/
  lowHigh : α

/-- The sums over the joint samples of one QoI, with orders from one to `M`. -/
structure QoiSums (α : Type) (M : Nat) where
  /-- The number of joint samples. -/
  count : Nat
  /-- The sum of the squares of the high-fidelity values. -/
  highSquared : α
  /-- The sums of the powers of the high-fidelity values, by order. -/
  high : Vector α M
  /-- The sums that involve a low-fidelity model, by model and order. -/
  pairs : List (Vector (PairSums α) M)

/-- The sums over the joint samples of every QoI of an ensemble. -/
structure JointSums (α : Type) (M : Nat) where
  /-- The size of the ensemble. -/
  dims : Dimensions
  /-- The sums by QoI. -/
  qois : List (QoiSums α M)

variable {α : Type} [Scalar α] {M : Nat}

namespace PairSums

/-- The sums over no samples. -/
def empty : PairSums α :=
  ⟨0, 0, 0⟩

/-- The sums with the powers of one more sample. -/
def add (sums : PairSums α) (low high : α) : PairSums α :=
  ⟨sums.low + low, sums.lowLow + low * low, sums.lowHigh + low * high⟩

end PairSums

namespace QoiSums

/-- The sums over no samples. -/
def empty (numApprox : Nat) : QoiSums α M where
  count := 0
  highSquared := 0
  high := .replicate M 0
  pairs := .replicate numApprox (.replicate M .empty)

/-- The sums with one more joint sample. -/
def add (sums : QoiSums α M) (sample : JointSample α) : QoiSums α M where
  count := sums.count + 1
  highSquared := sums.highSquared + sample.high * sample.high
  high := .ofFn fun order => sums.high.get order + power sample.high order
  pairs := List.zipWith
    (fun pairs low => .ofFn fun order =>
      (pairs.get order).add (power low order) (power sample.high order))
    sums.pairs sample.low

end QoiSums

namespace JointSums

/-- The sums over no samples. -/
def empty (dims : Dimensions) : JointSums α M :=
  ⟨dims, .replicate dims.numFunctions (.empty dims.numApprox)⟩

/-- The sums with one more response, which counts for the QoI at which it is a joint sample. -/
def addResponse (sums : JointSums α M) (response : Response α) : JointSums α M :=
  { sums with
    qois := sums.qois.mapIdx fun qoi qoiSums =>
      match sums.dims.joint? response qoi with
      | some sample => qoiSums.add sample
      | none => qoiSums }

/-- Adds the responses of a batch one after another.  A batch with a response of the wrong length is
refused. -/
def absorb (batch : Batch α) : Update α (JointSums α M) Unit := do
  MonadExcept.ofExcept ((← get).dims.check batch)
  batch.forM fun response => modify (·.addResponse response)

/-- The sums with a batch of responses added, or the failure for which it is refused. -/
def accumulate (sums : JointSums α M) (batch : Batch α) : Except (Failure α) (JointSums α M) :=
  (absorb batch).result sums

/-- A batch that is refused leaves the sums as they are, since its lengths are checked first. -/
theorem on_absorb (batch : Batch α) (sums : JointSums α M) :
    (absorb batch).on sums =
      match sums.dims.check batch with
      | .ok () => (.ok (), batch.foldl addResponse sums)
      | .error failure => (.error failure, sums) := by
  rw [absorb, Update.on_checked (fun sums : JointSums α M => sums.dims.check batch)]
  cases sums.dims.check batch with
  | ok => exact Update.on_forM_modify _ batch sums
  | error failure => rfl

theorem accumulate_eq (sums : JointSums α M) (batch : Batch α) :
    sums.accumulate batch = do
      sums.dims.check batch
      return batch.foldl addResponse sums := by
  rw [accumulate, Update.result, on_absorb]
  cases sums.dims.check batch <;> rfl

@[simp] theorem dims_addResponse (sums : JointSums α M) (response : Response α) :
    (sums.addResponse response).dims = sums.dims :=
  rfl

@[simp] theorem dims_foldl_addResponse (sums : JointSums α M) (batch : Batch α) :
    (batch.foldl addResponse sums).dims = sums.dims := by
  induction batch generalizing sums with
  | nil => rfl
  | cons response batch ih => rw [List.foldl_cons, ih, dims_addResponse]

theorem getElem?_qois_addResponse (sums : JointSums α M) (response : Response α) (qoi : Nat) :
    (sums.addResponse response).qois[qoi]? = sums.qois[qoi]?.map fun qoiSums =>
      (sums.dims.joint? response qoi).toList.foldl QoiSums.add qoiSums := by
  simp only [addResponse, List.getElem?_mapIdx]
  congr 1
  funext qoiSums
  cases sums.dims.joint? response qoi <;> rfl

/-- The sums of a QoI run over its joint samples, in the order of the responses. -/
theorem getElem?_qois_foldl_addResponse (sums : JointSums α M) (batch : Batch α) (qoi : Nat) :
    (batch.foldl addResponse sums).qois[qoi]? = sums.qois[qoi]?.map fun qoiSums =>
      (batch.filterMap fun response => sums.dims.joint? response qoi).foldl QoiSums.add
        qoiSums := by
  induction batch generalizing sums with
  | nil => simp
  | cons response batch ih =>
    rw [List.foldl_cons, ih, dims_addResponse, getElem?_qois_addResponse, Option.map_map]
    congr 1
    funext qoiSums
    cases h : sums.dims.joint? response qoi <;> simp [h]

theorem accumulate_of_lengths (sums : JointSums α M) {batch : Batch α}
    (h : ∀ response ∈ batch, response.length = sums.dims.responseLength) :
    sums.accumulate batch = .ok (batch.foldl addResponse sums) := by
  rw [accumulate_eq, (sums.dims.check_eq_ok_iff).2 h]
  rfl

/-- The numbers of joint samples by QoI. -/
def counts (sums : JointSums α M) : List Nat :=
  sums.qois.map QoiSums.count

end JointSums

end Multifidelity
