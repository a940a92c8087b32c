import Mathlib
import Multifidelity.Proofs.Lockstep
import Multifidelity.Proofs.Sums.Joint

/-!
# Sums of first order

A pilot that only serves to estimate correlations keeps the sums of first order. Other sums have
them among those of all orders, whatever has been added to them, and the correlations depend on no
others.

## Main definitions

* `QoiSums.first`, `JointSums.first`: sums without those of higher order

## Main results

* `JointSums.first_foldl_addResponse`: the sums of first order of responses
* `JointSums.accumulate_first`: a batch has the same effect on the sums of first order
* `JointSums.counts_first`, `JointSums.correlations_first`: what depends on them only
-/

namespace Multifidelity

variable {α : Type} {m : ℕ}

/-! ## Sums of one QoI -/

namespace QoiSums

/-- The sums of one QoI without those of higher order. -/
def first (sums : QoiSums α (m + 1)) : QoiSums α 1 where
  count := sums.count
  highSquared := sums.highSquared
  high := #v[sums.highSum]
  pairs := sums.firstPairs.map fun pairs => #v[pairs]

variable (sums : QoiSums α (m + 1))

@[simp] theorem count_first : sums.first.count = sums.count := rfl

@[simp] theorem highSquared_first : sums.first.highSquared = sums.highSquared := rfl

@[simp] theorem highSum_first : sums.first.highSum = sums.highSum := rfl

@[simp] theorem firstPairs_first : sums.first.firstPairs = sums.firstPairs := by
  rw [firstPairs, first, List.map_map]
  exact List.map_id _

variable [Scalar α]

theorem first_empty (numApprox : ℕ) :
    (empty numApprox : QoiSums α (m + 1)).first = empty numApprox := by
  simp [first, empty, highSum, firstPairs, Vector.get]

theorem highSum_add (sample : JointSample α) :
    (sums.add sample).highSum = sums.highSum + sample.high := by
  rw [highSum, add, Vector.get_ofFn]
  rfl

theorem firstPairs_add (sample : JointSample α) :
    (sums.add sample).firstPairs =
      List.zipWith (fun pairs low => pairs.add low sample.high) sums.firstPairs sample.low := by
  rw [firstPairs, add, List.map_zipWith, firstPairs, List.zipWith_map_left]
  simp only [Vector.get_ofFn]
  rfl

/-- A joint sample has the same effect on the sums of first order. -/
theorem first_add (sample : JointSample α) :
    (sums.add sample).first = sums.first.add sample := by
  -- of a vector over all orders only the first entry is left
  have hsingle : ∀ {β : Type} (f : Fin 1 → β), #v[f 0] = .ofFn f := by
    intro β f
    ext order horder
    obtain rfl := Nat.lt_one_iff.mp horder
    simp
  unfold first
  rw [highSum_add, firstPairs_add]
  unfold add
  congr 1
  rw [List.map_zipWith, List.zipWith_map_left]
  refine congrArg (List.zipWith · _ _) (funext fun pairs => funext fun low => ?_)
  exact hsingle fun order =>
    ((#v[pairs]).get order).add (power low order) (power sample.high order)

end QoiSums

/-! ## Sums of all QoI -/

namespace JointSums

/-- The sums without those of higher order. -/
def first (sums : JointSums α (m + 1)) : JointSums α 1 :=
  ⟨sums.dims, sums.qois.map QoiSums.first⟩

variable (sums : JointSums α (m + 1))

@[simp] theorem dims_first : sums.first.dims = sums.dims := rfl

@[simp] theorem counts_first : sums.first.counts = sums.counts := by
  rw [counts, first, List.map_map]
  rfl

variable [Scalar α]

@[simp] theorem first_empty (dims : Dimensions) :
    (empty dims : JointSums α (m + 1)).first = empty dims := by
  rw [first, empty, List.map_replicate, QoiSums.first_empty]
  rfl

theorem first_addResponse (response : Response α) :
    (sums.addResponse response).first = sums.first.addResponse response := by
  unfold addResponse first
  congr 1
  refine List.ext_getElem (by simp) fun qoi hqoi hqoi' => ?_
  simp only [List.getElem_map, List.getElem_mapIdx]
  cases sums.dims.joint? response qoi with
  | none => rfl
  | some sample => exact QoiSums.first_add _ sample

/-- The sums of first order do not depend on those of higher order, whatever is added. -/
theorem first_foldl_addResponse (batch : Batch α) :
    (batch.foldl addResponse sums).first = batch.foldl addResponse sums.first := by
  induction batch generalizing sums with
  | nil => rfl
  | cons response batch ih => rw [List.foldl_cons, List.foldl_cons, ih, first_addResponse]

/-- A batch is accepted or refused alike, and it has the same effect on the sums of first order. -/
theorem accumulate_first (batch : Batch α) :
    Alike (fun x y => x = y.first) (sums.first.accumulate batch) (sums.accumulate batch) := by
  rw [accumulate_eq, accumulate_eq]
  refine .bind_self _ fun _ => ?_
  exact .ok (sums.first_foldl_addResponse batch).symm

/-- The correlations depend on the sums of first order only. -/
@[simp] theorem correlations_first : sums.first.correlations = sums.correlations := by
  unfold correlations
  rw [counts_first, first, List.map_map, List.map_map, List.map_map]
  simp only [Function.comp_def, QoiSums.varLow, QoiSums.varHigh, QoiSums.rhoSq, QoiSums.cov,
    QoiSums.firstPairs_first, QoiSums.highSum_first, QoiSums.count_first,
    QoiSums.highSquared_first]
  rfl

end JointSums

end Multifidelity
