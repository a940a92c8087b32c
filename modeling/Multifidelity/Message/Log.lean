import Multifidelity.Journal.LogRecord
import Multifidelity.Message.Failure

/-!
# Texts of log records

## Main definitions

* `LogRecord.message`: the text of a record.
* `LogRecord.line`: the text with its level in front.
-/

namespace Multifidelity

open Message (number numbers counts)

/-- The name of a level. -/
def Level.name : Level → String
  | error => "ERROR"
  | warn => "WARN"
  | info => "INFO"
  | debug => "DEBUG"

/-- A target with its kind. -/
def Target.message : Target Float → String
  | budget value => "Budget(" ++ number value ++ ")"
  | tolerance value => "Tolerance(" ++ number value ++ ")"

/-- The text of a record. -/
def LogRecord.message : LogRecord Float → String
  | notStored path reason => s!"could not write checkpoints to {path}: {reason}"
  | warning condition => condition.message
  | analyticForm => "models are ordered by correlation for all QoI, using analytic solution"
  | reorderedForm order =>
    "models are not ordered by correlation, using analytic solution along " ++ counts order
  | numericalForm => "models are not ordered by correlation, using the numerical solution"
  | budgetExhausted budget spent =>
    s!"budget {number budget} exhausted by {number spent} equivalent HF evaluations, "
      ++ "skipping optimization"
  | numericalSolution ratios highTarget estimatorVariance =>
    s!"numerical solution: eval ratios = {numbers ratios}, HF target = {number highTarget}, "
      ++ s!"estimator variance = {number estimatorVariance}"
  | scaledProfile target averageTarget =>
    s!"scaled profile for {target.message}: average HF target = {number averageTarget}"
  | projectedProfile highCounts lowCounts =>
    s!"projected sample profile: N_H = {counts highCounts}, "
      ++ s!"N_L = {Message.list (lowCounts.map counts)}"
  | finished iterations spent =>
    s!"finished after {iterations} iterations with {number spent} equivalent HF evaluations"
  | sharedIncrement iteration samples =>
    s!"iteration {iteration}: shared increment of {samples} samples"
  | initialGuess ratios =>
    "initial guess from the reordered analytic solution: " ++ numbers ratios
  | scaledGuess ratios => "initial guess scaled to the pilot: " ++ numbers ratios
  | searchFinished evaluations objective =>
    s!"compass search finished after {evaluations} objective evaluations with "
      ++ s!"objective {number objective}"
  | overshoot ratios high =>
    s!"optimized ratios {numbers ratios} overshoot the budget with {number high} HF samples, "
      ++ "scaling"
  | qoiRatios qoi rhoSq ratios =>
    s!"QoI {qoi}: rho2_LH = {numbers rhoSq}, eval ratios = {numbers ratios}"
  | qoiVariance qoi ratio => s!"QoI {qoi}: variance reduction factor = {number ratio}"
  | refinement model averageTarget current samples =>
    s!"approx {model}: average LF target = {number averageTarget}, "
      ++ s!"current counts = {counts current}, increment = {samples}"
  | refinementsDrawn drawn total =>
    s!"{drawn} of {total} nested approximation increments drew samples"
  | controlVariate order qoi model weight =>
    s!"moment {order} QoI {qoi} approx {model}: control variate beta = {number weight}"

/-- The text of a record with its level in front. -/
def LogRecord.line (record : LogRecord Float) : String :=
  record.level.name ++ " " ++ record.message

end Multifidelity
