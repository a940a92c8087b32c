import Multifidelity.Allocation.Solution
import Multifidelity.Costs

/-!
# High-fidelity targets

Evaluation ratios fix the shape of a sample profile.  A budget or a tolerance fixes its size.

## Main definitions

* `allocateBudget`: the high-fidelity samples that exhaust a budget with given ratios.
* `budgetTargets`, `toleranceTargets`: the high-fidelity targets by QoI.
* `scaleToBudget`: the ratios that exhaust a budget with given high-fidelity samples.
-/

namespace Multifidelity

variable {α : Type} [Scalar α]

/-- The number of high-fidelity samples that, with their low-fidelity companions, cost `budget`
high-fidelity evaluations.  There is one ratio per low-fidelity model. -/
def allocateBudget (ratios : List α) (costs : Costs α) (budget : α) : α :=
  let costHigh := costs.ofModel ratios.length
  let perSample := (ratios.zip costs.perModel).foldl (fun sum (ratio, cost) => sum + cost * ratio)
    costHigh
  budget / perSample * costHigh

/-- The high-fidelity targets that exhaust a budget, by QoI. -/
def budgetTargets (ratios : QoiMatrix α) (costs : Costs α) (budget : α) : List α :=
  ratios.toRows.map fun row => allocateBudget row costs budget

/-- The high-fidelity targets that reduce the estimator variance of the pilot to `tolerance` times
its value, by QoI.  A QoI without variance needs no samples. -/
def toleranceTargets (varianceRatios varHigh pilotVariance : List α) (tolerance : α) : List α :=
  (varianceRatios.zip (varHigh.zip pilotVariance)).map fun (ratio, var, pilot) =>
    if 0 < pilot then ratio * var / (pilot * tolerance) else 0

namespace BudgetScaling

/-- An evaluation ratio while the profile is scaled to a budget. -/
structure Slot (α : Type) where
  /-- The evaluation ratio. -/
  ratio : α
  /-- The cost of the model. -/
  cost : α
  /-- Whether the ratio has been fixed at one. -/
  isFixed : Bool

/-- The slot with a free ratio multiplied by `factor`, or fixed at one if that is not larger. -/
def Slot.scale (factor : α) (slot : Slot α) : Slot α :=
  if slot.isFixed then slot
  else if slot.ratio * factor ≤ 1 then { slot with ratio := 1, isFixed := true }
  else { slot with ratio := slot.ratio * factor }

/-- The slot with a free ratio divided by `factor` again. -/
def Slot.unscale (factor : α) (slot : Slot α) : Slot α :=
  if slot.isFixed then slot else { slot with ratio := slot.ratio / factor }

/-- The cost of the fixed slots per high-fidelity sample. -/
def fixedCost (costHigh : α) (slots : List (Slot α)) : α :=
  total ((slots.filter Slot.isFixed).map fun slot => slot.cost / costHigh)

/-- The cost of the free slots per high-fidelity sample. -/
def freeCost (costHigh : α) (slots : List (Slot α)) : α :=
  total ((slots.filter fun slot => !slot.isFixed).map fun slot =>
    slot.cost * slot.ratio / costHigh)

/-- The factor by which the free slots have to be scaled to use up `share`, the budget per
high-fidelity sample. -/
def factor (costHigh share : α) (slots : List (Slot α)) : α :=
  (share - 1 - fixedCost costHigh slots) / freeCost costHigh slots

/-- One round scales the free slots to what the fixed ones leave of the budget.  If that fixes
further slots there is less left for the others, which get their old ratios back for another
round. -/
def round (costHigh share : α) (slots : List (Slot α)) : List (Slot α) × Bool :=
  if 0 < freeCost costHigh slots then
    let factor := factor costHigh share slots
    let scaled := slots.map (Slot.scale factor)
    if scaled.countP Slot.isFixed = slots.countP Slot.isFixed then (scaled, false)
    else (scaled.map (Slot.unscale factor), true)
  else
    (slots, false)

/-- Rounds until no further slot is fixed, at most as many as the first argument says. -/
def rounds (costHigh share : α) : Nat → List (Slot α) → List (Slot α)
  | 0, slots => slots
  | fuel + 1, slots =>
    match round costHigh share slots with
    | (next, true) => rounds costHigh share fuel next
    | (next, false) => next

end BudgetScaling

/-- The ratios scaled so that `high` high-fidelity samples with their low-fidelity companions cost
`budget`.  No ratio drops below one: a ratio that would is fixed at one, and the others are scaled
to the budget left.  Every round but the last fixes a ratio. -/
def scaleToBudget (ratios : List α) (costs : Costs α) (high budget : α) : List α :=
  let costHigh := costs.ofModel ratios.length
  let slots := List.zipWith (fun ratio cost => ⟨ratio, cost, false⟩) ratios costs.perModel
  (BudgetScaling.rounds costHigh (budget / high) (ratios.length + 1) slots).map
    BudgetScaling.Slot.ratio

end Multifidelity
