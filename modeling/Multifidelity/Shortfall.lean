import Multifidelity.Scalar.Basic

/-!
# Sample increments

How many samples to add so that the counts of all QoI move to their targets.  Counts differ between
QoI where evaluations fail; one increment serves all of them.

## Main definitions

* `shortfall`: what a count lacks to its target, never negative.
* `increment`: the average shortfall rounded up.
-/

namespace Multifidelity

variable {α : Type} [Scalar α]

/-- What `count` lacks to `target`, zero if it lacks nothing or the target is a NaN. -/
def shortfall (count : Nat) (target : α) : α :=
  let missing := target - Scalar.ofCount count
  if 0 < missing then missing else 0

/-- The number of samples that moves `counts` to `targets` on average: the mean shortfall rounded
up.  A positive number is at least `least`, and at most the largest count if that is larger. -/
def increment (counts : List Nat) (targets : List α) (least : Nat) : Nat :=
  let mean : α := average (List.zipWith shortfall counts targets)
  if 0 < mean then max ((Scalar.toCount? (Scalar.ceil mean)).getD maxCount) least else 0

end Multifidelity
