import Multifidelity.Allocation.Optimizer

/-!
# Compass search

A search without derivatives.  The ratios are parametrised by their logarithmic increments along the
model order: the ratio at a position is the exponential of the sum of the increments from there on.
Increments that are not negative give ratios that are at least one and do not increase.  A sweep
tries a step up and a step down in every coordinate and keeps what improves the objective.  After a
sweep without improvement the step is halved.

## Main definitions

* `CompassSearch`: the parameters of the search.
* `CompassSearch.toRatios`, `CompassSearch.toIncrements`: the parametrisation.
* `CompassSearch.descend`: the sweeps until the step or the number of evaluations is exhausted.
* `CompassSearch.optimize`: the search as an optimizer.
-/

namespace Multifidelity

/-- The parameters of a compass search. -/
structure CompassSearch (α : Type) where
  /-- The step of the first sweep. -/
  initialStep : α
  /-- The search ends when the step falls below this value. -/
  minStep : α
  /-- The largest increment. -/
  maxLogRatio : α
  /-- No sweep starts after this number of evaluations of the objective. -/
  maxEvaluations : Nat

/-- Increments with the value of the objective there. -/
structure SearchPoint (α : Type) where
  /-- The logarithmic increments by position. -/
  increments : List α
  /-- The objective at the increments. -/
  value : α
  /-- The number of evaluations of the objective so far. -/
  evaluations : Nat

namespace CompassSearch

variable {α : Type} [Scalar α]

/-- The usual parameters: successive ratios differ by a factor of at most a million. -/
def default : CompassSearch α :=
  ⟨1, 1e-8, Scalar.log 1e6, 10000⟩

/-- The sums of a list from each position on, added up from the right. -/
def suffixSums : List α → List α
  | [] => []
  | value :: rest =>
    let later := suffixSums rest
    (later.headD 0 + value) :: later

/-- The ratios of increments. -/
def toRatios (order : ModelOrder) (increments : List α) : List α :=
  order.scatter ((suffixSums increments).map Scalar.exp)

/-- The increments of ratios listed by position, with the logarithm of the first ratio. -/
def incrementsAlong (maxLogRatio : α) : List α → List α × α
  | [] => ([], 0)
  | ratio :: rest =>
    let (later, upper) := incrementsAlong maxLogRatio rest
    let logRatio := Scalar.larger (Scalar.log (Scalar.larger ratio 1)) upper
    (Scalar.smaller (logRatio - upper) maxLogRatio :: later, logRatio)

@[simp] theorem length_suffixSums (values : List α) :
    (suffixSums values).length = values.length := by
  induction values with
  | nil => rfl
  | cons value rest ih => simp [suffixSums, ih]

@[simp] theorem length_toRatios (order : ModelOrder) (increments : List α) :
    (toRatios order increments).length = increments.length := by
  simp [toRatios]

@[simp] theorem length_incrementsAlong (maxLogRatio : α) (ratios : List α) :
    (incrementsAlong maxLogRatio ratios).1.length = ratios.length := by
  induction ratios with
  | nil => rfl
  | cons ratio rest ih => simp [incrementsAlong, ih]

variable (search : CompassSearch α)

/-- The increments of ratios, which are moved into the range of the search. -/
def toIncrements (order : ModelOrder) (ratios : List α) : List α :=
  (incrementsAlong search.maxLogRatio (order.gather ratios.length ratios)).1

/-- A coordinate after a step, kept between zero and the largest increment. -/
def stepped (value step : α) : α :=
  Scalar.smaller (Scalar.larger (value + step) 0) search.maxLogRatio

variable (objective : List α → α)

/-- Tries a step in one coordinate.  The step is taken if it improves the objective, and says so. -/
def tryStep (coordinate : Nat) (step : α) (point : SearchPoint α) : SearchPoint α × Bool :=
  let current := point.increments.getD coordinate 0
  let value := search.stepped current step
  if value == current then
    (point, false)
  else
    let increments := point.increments.set coordinate value
    let trial := objective increments
    if trial < point.value then
      (⟨increments, trial, point.evaluations + 1⟩, true)
    else
      ({ point with evaluations := point.evaluations + 1 }, false)

/-- Tries a step up in one coordinate and, if that is no improvement, a step down. -/
def tryCoordinate (step : α) (point : SearchPoint α) (coordinate : Nat) : SearchPoint α × Bool :=
  match search.tryStep objective coordinate (1 * step) point with
  | (next, true) => (next, true)
  | (next, false) => search.tryStep objective coordinate (-1 * step) next

/-- Tries all coordinates in turn, and says whether any step was taken. -/
def sweep (step : α) (point : SearchPoint α) : SearchPoint α × Bool :=
  (List.range point.increments.length).foldl
    (fun (current, improved) coordinate =>
      let (next, taken) := search.tryCoordinate objective step current coordinate
      (next, improved || taken))
    (point, false)

/-- Sweeps with shrinking steps, at most as many as the first argument says.  The result is the last
point and the last step. -/
def descend : Nat → α → SearchPoint α → SearchPoint α × α
  | 0, step, point => (point, step)
  | fuel + 1, step, point =>
    if search.minStep ≤ step ∧ point.evaluations < search.maxEvaluations then
      match search.sweep objective step point with
      | (next, true) => descend fuel step next
      | (next, false) => descend fuel (step / (1 + 1)) next
    else
      (point, step)

/-- The number of sweeps that suffices: every sweep evaluates the objective or halves the step. -/
def maxSweeps : Nat :=
  search.maxEvaluations + Scalar.halvings search.initialStep search.minStep

/-- Searches for ratios with a small objective. -/
def optimize : Optimizer α := fun problem initial => do
  let objective := fun increments => problem.objective (toRatios problem.order increments)
  let increments := search.toIncrements problem.order initial
  let value := objective increments
  if !Scalar.isFinite value then
    Recorder.fail (.optimizer (.startNotFinite initial))
  let (point, _) := search.descend objective search.maxSweeps search.initialStep
    ⟨increments, value, 1⟩
  Recorder.record [.searchFinished point.evaluations point.value]
  return toRatios problem.order point.increments

end CompassSearch

end Multifidelity
