import Multifidelity.Allocation.Solution
import Multifidelity.Failure

/-!
# Usable correlations

Estimated squared correlations may be negative, undefined or not below one.  Before anything is
computed from them they are moved into the range in which all formulas hold.

## Main definitions

* `Tolerances.clamp`: a squared correlation moved into range.
* `sanitize`: a matrix of them, with a warning for everything lost.
* `isOrdered`: whether the models are ordered by correlation.
* `selectForm`: the form of the solution that suits the correlations.
-/

namespace Multifidelity

variable {α : Type} [Scalar α]

namespace Tolerances

variable (tolerances : Tolerances α)

/-- The largest usable squared correlation. -/
def limit : α :=
  1 - tolerances.ceiling

/-- Whether a squared correlation counts as zero. -/
def isNegligible (value : α) : Bool :=
  Scalar.isNaN value || decide (value ≤ tolerances.floor)

/-- Whether a squared correlation is too large to be used. -/
def isPerfect (value : α) : Bool :=
  !tolerances.isNegligible value && decide (tolerances.limit < value)

/-- A squared correlation moved into range. -/
def clamp (value : α) : α :=
  if tolerances.isNegligible value then 0
  else if tolerances.isPerfect value then tolerances.limit
  else value

/-- The warnings about the squared correlations of one QoI. -/
def rowWarnings (qoi : Nat) (row : List α) : List Warning :=
  let perfect := row.zipIdx.filterMap fun (value, model) =>
    if tolerances.isPerfect value then some (.perfectCorrelation qoi model) else none
  let degenerate := if row.all fun value => tolerances.clamp value == 0 then
    [.degenerateCorrelation qoi] else []
  perfect ++ degenerate

end Tolerances

/-- The squared correlations moved into range, and the warnings about them QoI by QoI. -/
def sanitize (rhoSq : QoiMatrix α) (tolerances : Tolerances α) : QoiMatrix α × List Warning :=
  (.ofRows rhoSq.cols (rhoSq.toRows.map (·.map tolerances.clamp)),
    (rhoSq.toRows.mapIdx tolerances.rowWarnings).flatten)

/-- Whether no squared correlation is smaller than the one of the model before by more than
`tolerance`. -/
def isOrdered (rhoSq : QoiMatrix α) (tolerance : α) : Bool :=
  rhoSq.toRows.all fun row =>
    (row.zip (row.drop 1)).all fun (before, after) => decide (before - tolerance ≤ after)

/-- The form of the solution for usable squared correlations. -/
def selectForm (rhoSq : QoiMatrix α) (ordering : α) (preferReordered : Bool) : SolutionForm :=
  if isOrdered rhoSq ordering then .analytic
  else if preferReordered then .reordered
  else .numerical

end Multifidelity
