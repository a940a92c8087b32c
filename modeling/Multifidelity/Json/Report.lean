import Multifidelity.Json.Settings
import Multifidelity.Report

/-!
# Checkpoints and reports as JSON

## Main definitions

* `Json.ofSolution`, `Json.solution?`: evaluation ratios.
* `Json.ofCheckpoint`, `Json.checkpoint?`: checkpoints.
* `Json.ofReport`, `Json.report?`: reports.
* `Json.ofSummary`, `Json.summary?`: summaries.
-/

namespace Multifidelity.Json

variable {α : Type}

/-- The tree of a warning: its name selects the data that it carries. -/
def ofWarning : Warning → Json α
  | .degenerateCorrelation qoi => .choice "DegenerateCorrelation" (.record [("qoi", .count qoi)])
  | .perfectCorrelation qoi model =>
    .choice "PerfectCorrelation" (.record [("qoi", .count qoi), ("approx", .count model)])
  | .maxIterations iterations remaining =>
    .choice "MaxIterations"
      (.record [("iterations", .count iterations), ("remaining_samples", .count remaining)])

/-- The warning that a tree describes. -/
def warning? (json : Json α) : Option Warning := do
  match ← json.variant? with
  | ("DegenerateCorrelation", data) =>
    let [qoi] ← data.slots? ["qoi"] false | none
    return .degenerateCorrelation (← required? count? qoi)
  | ("PerfectCorrelation", data) =>
    let [qoi, model] ← data.slots? ["qoi", "approx"] false | none
    return .perfectCorrelation (← required? count? qoi) (← required? count? model)
  | ("MaxIterations", data) =>
    let [iterations, remaining] ← data.slots? ["iterations", "remaining_samples"] false | none
    return .maxIterations (← required? count? iterations) (← required? count? remaining)
  | _ => none

variable [Scalar α]

/-- The tree of second moments. -/
def ofCorrelations (correlations : Correlations α) : Json α :=
  .record [("var_l", ofMatrix correlations.varLow), ("var_h", ofScalars correlations.varHigh),
    ("rho2_lh", ofMatrix correlations.rhoSq)]

/-- The second moments that a tree describes. -/
def correlations? (json : Json α) : Option (Correlations α) := do
  let [varLow, varHigh, rhoSq] ← json.slots? ["var_l", "var_h", "rho2_lh"] false | none
  return ⟨← required? matrix? varLow, ← required? scalars? varHigh, ← required? matrix? rhoSq⟩

/-- The tree of evaluation ratios: the form selects the data that it carries. -/
def ofSolution : RatioSolution α → Json α
  | .analytic ratios => .choice "Analytic" (.record [("eval_ratios", ofMatrix ratios)])
  | .reordered order ratios =>
    .choice "ReorderedAnalytic"
      (.record [("sequence", ofCounts order), ("eval_ratios", ofMatrix ratios)])
  | .numerical order ratios highTarget estimatorVariance =>
    .choice "Numerical"
      (.record [("sequence", ofCounts order), ("eval_ratios", ofMatrix ratios),
        ("avg_hf_target", ofScalar highTarget), ("avg_est_var", ofScalar estimatorVariance)])

/-- The evaluation ratios that a tree describes. -/
def solution? (json : Json α) : Option (RatioSolution α) := do
  match ← json.variant? with
  | ("Analytic", data) =>
    let [ratios] ← data.slots? ["eval_ratios"] false | none
    return .analytic (← required? matrix? ratios)
  | ("ReorderedAnalytic", data) =>
    let [order, ratios] ← data.slots? ["sequence", "eval_ratios"] false | none
    return .reordered (← required? counts? order) (← required? matrix? ratios)
  | ("Numerical", data) =>
    let [order, ratios, highTarget, estimatorVariance] ←
      data.slots? ["sequence", "eval_ratios", "avg_hf_target", "avg_est_var"] false | none
    return .numerical (← required? counts? order) (← required? matrix? ratios)
      (← required? scalar? highTarget) (← required? scalar? estimatorVariance)
  | _ => none

/-- The names of the fields of a checkpoint. -/
def checkpointNames : List String :=
  ["iteration", "samples", "n_h", "equivalent_hf_evals", "var_h", "rho2", "solution", "hf_targets",
    "est_var_ratios", "next_samples"]

/-- The tree of a checkpoint. -/
def ofCheckpoint (checkpoint : Checkpoint α) : Json α :=
  .record (checkpointNames.zip [.count checkpoint.iteration, .count checkpoint.samples,
    ofCounts checkpoint.highCounts, ofScalar checkpoint.spent, ofScalars checkpoint.varHigh,
    ofMatrix checkpoint.rhoSq, ofSolution checkpoint.solution, ofScalars checkpoint.highTargets,
    ofScalars checkpoint.varianceRatios, .count checkpoint.nextSamples])

/-- The checkpoint that a tree describes. -/
def checkpoint? (json : Json α) : Option (Checkpoint α) := do
  let [iteration, samples, highCounts, spent, varHigh, rhoSq, solution, highTargets,
    varianceRatios, nextSamples] ← json.slots? checkpointNames false | none
  return {
    iteration := ← required? count? iteration
    samples := ← required? count? samples
    highCounts := ← required? counts? highCounts
    spent := ← required? scalar? spent
    varHigh := ← required? scalars? varHigh
    rhoSq := ← required? matrix? rhoSq
    solution := ← required? solution? solution
    highTargets := ← required? scalars? highTargets
    varianceRatios := ← required? scalars? varianceRatios
    nextSamples := ← required? count? nextSamples }

/-- The list of the moments of a QoI. -/
def ofMoments (moments : Vector α 4) : Json α :=
  ofScalars moments.toList

/-- The moments of a QoI, if a tree lists exactly four numbers. -/
def moments? (json : Json α) : Option (Vector α 4) := do
  let [first, second, third, fourth] ← json.scalars? | none
  return #v[first, second, third, fourth]

/-- The names of the fields of a report. -/
def reportNames : List String :=
  ["pilot_mode", "solution", "iterations", "equivalent_hf_evals", "est_var_iter0", "num_h_iter0",
    "num_h", "n_shared", "var_h", "rho2", "hf_targets", "est_var_ratios", "n_l", "raw_moments",
    "warnings"]

/-- The tree of a report. -/
def ofReport (report : Report α) : Json α :=
  .record (reportNames.zip [ofPilotMode report.pilotMode, ofSolution report.solution,
    .count report.iterations, ofScalar report.spent, ofOption ofScalars report.pilotVariance,
    ofOption ofCounts report.pilotCounts, ofCounts report.highCounts,
    ofCounts report.sharedCounts, ofScalars report.varHigh, ofMatrix report.rhoSq,
    ofScalars report.highTargets, ofScalars report.varianceRatios,
    ofList ofCounts report.lowCounts, ofOption (ofList ofMoments) report.rawMoments,
    ofList ofWarning report.warnings])

/-- The report that a tree describes. -/
def report? (json : Json α) : Option (Report α) := do
  let [pilotMode, solution, iterations, spent, pilotVariance, pilotCounts, highCounts,
    sharedCounts, varHigh, rhoSq, highTargets, varianceRatios, lowCounts, rawMoments, warnings] ←
    json.slots? reportNames false | none
  return {
    pilotMode := ← required? pilotMode? pilotMode
    solution := ← required? solution? solution
    iterations := ← required? count? iterations
    spent := ← required? scalar? spent
    pilotVariance := ← optional? scalars? pilotVariance
    pilotCounts := ← optional? counts? pilotCounts
    highCounts := ← required? counts? highCounts
    sharedCounts := ← required? counts? sharedCounts
    varHigh := ← required? scalars? varHigh
    rhoSq := ← required? matrix? rhoSq
    highTargets := ← required? scalars? highTargets
    varianceRatios := ← required? scalars? varianceRatios
    lowCounts := ← required? (list? counts?) lowCounts
    rawMoments := ← optional? (list? moments?) rawMoments
    warnings := ← required? (list? warning?) warnings }

/-- The list of a count and a number. -/
def ofInitial (initial : Nat × α) : Json α :=
  .list [.count initial.1, ofScalar initial.2]

/-- The count and the number of a list of both. -/
def initial? : Json α → Option (Nat × α)
  | list [samples, variance] => do return (← samples.count?, ← variance.scalar?)
  | _ => none

/-- The names of the fields of a summary. -/
def summaryNames : List String :=
  ["projected", "initial", "hf_samples", "mc_est_var", "mfmc_est_var", "ratio"]

/-- The tree of a summary. -/
def ofSummary (summary : Summary α) : Json α :=
  .record (summaryNames.zip [.bool summary.projected, ofOption ofInitial summary.initial,
    .count summary.highSamples, ofScalar summary.monteCarlo, ofScalar summary.multifidelity,
    ofScalar summary.ratio])

/-- The summary that a tree describes. -/
def summary? (json : Json α) : Option (Summary α) := do
  let [projected, initial, highSamples, monteCarlo, multifidelity, ratio] ←
    json.slots? summaryNames false | none
  return {
    projected := ← required? bool? projected
    initial := ← optional? initial? initial
    highSamples := ← required? count? highSamples
    monteCarlo := ← required? scalar? monteCarlo
    multifidelity := ← required? scalar? multifidelity
    ratio := ← required? scalar? ratio }

end Multifidelity.Json
