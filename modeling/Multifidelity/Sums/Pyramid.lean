import Multifidelity.ModelOrder
import Multifidelity.Sums.Joint

/-!
# Sums over the pyramid of low-fidelity samples

After the shared samples the low-fidelity models are refined.  Each refinement evaluates the models
at a range of positions of the model order.  Its samples refine every model of the range, and they
are shared, from one model to the next, for all of them but the last: the shared samples of a model
are the refined samples of the next model in the order.  Failed evaluations are skipped one by one.

## Main definitions

* `Tally`: a number of values and their first four power sums.
* `NestedTally`: the shared and the refined values of a model at a QoI.
* `PyramidSums`: the nested tallies of all QoI and models.
* `PyramidSums.ofJoint`: the start of a refinement, from the joint samples.
* `PyramidSums.absorb`: the call that adds a batch of low-fidelity responses to the sums.
* `PyramidSums.refine`: the sums with a batch of low-fidelity responses added.

## Main results

* `PyramidSums.on_absorb`: a batch is refused before any of its responses is added.
-/

namespace Multifidelity

/-- The number of values and the sums of their powers with exponents from one to four. -/
structure Tally (α : Type) where
  /-- The number of values. -/
  count : Nat
  /-- The power sums by order. -/
  powers : Vector α 4

/-- The values of a low-fidelity model at a QoI. -/
structure NestedTally (α : Type) where
  /-- The values at samples shared with a more correlated model. -/
  shared : Tally α
  /-- All values. -/
  refined : Tally α

/-- The refinement of all low-fidelity models. -/
structure PyramidSums (α : Type) where
  /-- The size of the ensemble. -/
  dims : Dimensions
  /-- The tallies by QoI and model. -/
  qois : List (List (NestedTally α))

variable {α : Type} [Scalar α]

/-- The tally with one more value. -/
def Tally.add (tally : Tally α) (value : α) : Tally α :=
  ⟨tally.count + 1, .ofFn fun order => tally.powers.get order + power value order⟩

/-- The tallies with one more value. -/
def NestedTally.add (tally : NestedTally α) (isShared : Bool) (value : α) : NestedTally α where
  shared := if isShared then tally.shared.add value else tally.shared
  refined := tally.refined.add value

namespace PyramidSums

/-- The pyramid before any refinement: all values are those of the joint samples. -/
def ofJoint (sums : JointSums α 4) : PyramidSums α where
  dims := sums.dims
  qois := sums.qois.map fun qoi => qoi.pairs.map fun pairs =>
    let tally := ⟨qoi.count, pairs.map PairSums.low⟩
    ⟨tally, tally⟩

/-- The sums with one more response, evaluated at the positions from `start` to before `stop`. -/
def addResponse (order : ModelOrder) (start stop : Nat) (sums : PyramidSums α)
    (response : Response α) : PyramidSums α :=
  { sums with
    qois := sums.qois.mapIdx fun qoi models => models.mapIdx fun model tally =>
      match sums.dims.value? response model qoi with
      | some value =>
        let positions := (List.range' start (stop - start)).filter (order.model · == model)
        positions.foldl (fun tally position => tally.add (decide (position + 1 < stop)) value) tally
      | none => tally }

/-- Adds the responses of a batch, evaluated at the positions from `start` to before `stop`, one
after another.  A batch with a response of the wrong length is refused. -/
def absorb (order : ModelOrder) (start stop : Nat) (batch : Batch α) :
    Update α (PyramidSums α) Unit := do
  MonadExcept.ofExcept ((← get).dims.check batch)
  batch.forM fun response => modify (·.addResponse order start stop response)

/-- The sums with a batch of responses added, or the failure for which it is refused. -/
def refine (sums : PyramidSums α) (order : ModelOrder) (start stop : Nat) (batch : Batch α) :
    Except (Failure α) (PyramidSums α) :=
  (absorb order start stop batch).result sums

/-- A batch that is refused leaves the sums as they are, since its lengths are checked first. -/
theorem on_absorb (order : ModelOrder) (start stop : Nat) (batch : Batch α)
    (sums : PyramidSums α) :
    (absorb order start stop batch).on sums =
      match sums.dims.check batch with
      | .ok () => (.ok (), batch.foldl (addResponse order start stop) sums)
      | .error failure => (.error failure, sums) := by
  rw [absorb, Update.on_checked (fun sums : PyramidSums α => sums.dims.check batch)]
  cases sums.dims.check batch with
  | ok => exact Update.on_forM_modify _ batch sums
  | error failure => rfl

theorem refine_eq (sums : PyramidSums α) (order : ModelOrder) (start stop : Nat)
    (batch : Batch α) :
    sums.refine order start stop batch = do
      sums.dims.check batch
      return batch.foldl (addResponse order start stop) sums := by
  rw [refine, Update.result, on_absorb]
  cases sums.dims.check batch <;> rfl

/-- A number of values per QoI for one model. -/
def countsOf (part : NestedTally α → Tally α) (sums : PyramidSums α) (model : Nat) : List Nat :=
  sums.qois.map fun models => (models[model]?.map fun tally => (part tally).count).getD 0

/-- The numbers of values of one model, by QoI. -/
def refinedCounts (sums : PyramidSums α) (model : Nat) : List Nat :=
  sums.countsOf NestedTally.refined model

/-- The numbers of values of one model at samples shared with a more correlated one, by QoI. -/
def sharedCounts (sums : PyramidSums α) (model : Nat) : List Nat :=
  sums.countsOf NestedTally.shared model

end PyramidSums

end Multifidelity
