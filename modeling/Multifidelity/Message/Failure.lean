import Multifidelity.Failure
import Multifidelity.Message.Basic

/-!
# Texts of failures and warnings

## Main definitions

* `Failure.message`: what is shown when a run fails.
* `Warning.message`: what is shown with a report.
-/

namespace Multifidelity

/-- What is wrong with the settings. -/
def SettingsFault.message : SettingsFault Float → String
  | noPilotSamples => "`pilot_samples` must be positive"
  | invalidBudget budget =>
    "`max_function_evals` must be positive and finite, got " ++ Message.number budget
  | invalidTolerance tolerance =>
    "`convergence_tol` must be positive and finite, got " ++ Message.number tolerance
  | emptyEnsemble numApprox numFunctions =>
    s!"ensemble needs at least one low-fidelity model and one QoI, got {numApprox} and "
      ++ toString numFunctions
  | missingPilotVariance => "a tolerance target needs the pilot estimator variance"

/-- Why the search failed. -/
def OptimizerFault.message : OptimizerFault Float → String
  | startNotFinite initial =>
    "objective is not finite at the initial guess " ++ Message.numbers initial
  | invalidRatios ratios => "optimizer returned invalid ratios " ++ Message.numbers ratios
  | reported reason => reason

/-- Why there is no report. -/
def Failure.message : Failure Float → String
  | budgetRequired => "budget (`max_function_evals`) required for offline pilot mode"
  | conflictingTargets =>
    "both `max_function_evals` and `convergence_tol` are set, exactly one is allowed"
  | missingTarget => "one of `max_function_evals` or `convergence_tol` must be set"
  | invalidSettings fault => "invalid configuration: " ++ fault.message
  | invalidCosts expected found invalid =>
    s!"expected {expected} positive finite model costs, found {found} ({invalid} invalid)"
  | insufficientSamples qoi count =>
    s!"QoI {qoi} has {count} shared samples, at least 2 are needed to estimate variances"
  | responseLength expected found => s!"response has {found} values, expected {expected}"
  | optimizer fault => "evaluation ratio optimization failed: " ++ fault.message

/-- What makes the results less trustworthy. -/
def Warning.message : Warning → String
  | degenerateCorrelation qoi =>
    s!"QoI {qoi}: no low-fidelity model is correlated, using high-fidelity samples only"
  | perfectCorrelation qoi model =>
    s!"QoI {qoi} approx {model}: squared correlation clamped below one"
  | maxIterations iterations remaining =>
    s!"iteration limit reached after {iterations} iterations with {remaining} shared "
      ++ "samples outstanding"

end Multifidelity
