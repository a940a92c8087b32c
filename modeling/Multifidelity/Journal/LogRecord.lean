import Multifidelity.Allocation.Solution
import Multifidelity.Failure

/-!
# Log records

What a run reports about its progress.  The wording is in `Multifidelity.Message`.

## Main definitions

* `Level`: the importance of a record.
* `LogRecord`: what is reported.
* `LogRecord.level`: its importance.
-/

namespace Multifidelity

/-- The importance of a log record, the most important level first. -/
inductive Level where
  /-- Something did not work. -/
  | error
  /-- A result is less trustworthy. -/
  | warn
  /-- A decision of the run. -/
  | info
  /-- A detail. -/
  | debug

/-- The rank of a level, zero for the most important one. -/
def Level.rank : Level → Nat
  | error => 0
  | warn => 1
  | info => 2
  | debug => 3

/-- What is reported about the progress of a run. -/
inductive LogRecord (α : Type) where
  /-- The checkpoints could not be stored. -/
  | notStored (path reason : String)
  /-- A condition that makes the results less trustworthy. -/
  | warning (warning : Warning)
  /-- The models are ordered. -/
  | analyticForm
  /-- The models are not ordered, and the closed form is used along another order. -/
  | reorderedForm (order : ModelOrder)
  /-- The models are not ordered, and the ratios are searched for. -/
  | numericalForm
  /-- The budget leaves nothing to be optimized. -/
  | budgetExhausted (budget spent : α)
  /-- Ratios have been found by search. -/
  | numericalSolution (ratios : List α) (highTarget estimatorVariance : α)
  /-- The profile has been scaled to the target. -/
  | scaledProfile (target : Target α) (averageTarget : α)
  /-- The profile has been projected. -/
  | projectedProfile (highCounts : List Nat) (lowCounts : List (List Nat))
  /-- The run has ended. -/
  | finished (iterations : Nat) (spent : α)
  /-- Shared samples are drawn. -/
  | sharedIncrement (iteration samples : Nat)
  /-- The start of a search in closed form. -/
  | initialGuess (ratios : List α)
  /-- The start of a search has been scaled to the samples already drawn. -/
  | scaledGuess (ratios : List α)
  /-- A search has ended. -/
  | searchFinished (evaluations : Nat) (objective : α)
  /-- The ratios found do not leave room for the samples already drawn. -/
  | overshoot (ratios : List α) (high : α)
  /-- The ratios of a QoI. -/
  | qoiRatios (qoi : Nat) (rhoSq ratios : List α)
  /-- The variance reduction of a QoI. -/
  | qoiVariance (qoi : Nat) (ratio : α)
  /-- The samples that a low-fidelity model lacks. -/
  | refinement (model : Nat) (averageTarget : α) (counts : List Nat) (samples : Nat)
  /-- The refinements that have drawn samples. -/
  | refinementsDrawn (drawn total : Nat)
  /-- The weight of a control variate. -/
  | controlVariate (order qoi model : Nat) (weight : α)

/-- The importance of a record. -/
def LogRecord.level {α : Type} : LogRecord α → Level
  | notStored .. => .error
  | warning _ => .warn
  | analyticForm | reorderedForm _ | numericalForm | budgetExhausted .. | numericalSolution ..
  | scaledProfile .. | projectedProfile .. | finished .. => .info
  | sharedIncrement .. | initialGuess _ | scaledGuess _ | searchFinished .. | overshoot ..
  | qoiRatios .. | qoiVariance .. | refinement .. | refinementsDrawn .. | controlVariate .. =>
    .debug

end Multifidelity
