import Multifidelity.Json.Decode
import Multifidelity.Settings

/-!
# Settings as JSON

## Main definitions

* `Json.ofSettings`, `Json.settings?`: settings; a missing field has its default.
* `Json.ofTarget`, `Json.target?`: targets.
-/

namespace Multifidelity.Json

variable {α : Type}

/-- The name of a pilot mode. -/
def ofPilotMode : PilotMode → Json α
  | .online => .string "Online"
  | .offline => .string "Offline"
  | .projection => .string "Projection"

/-- The pilot mode that a tree names. -/
def pilotMode? (json : Json α) : Option PilotMode :=
  match json.label? with
  | some "Online" => some .online
  | some "Offline" => some .offline
  | some "Projection" => some .projection
  | _ => none

variable [Scalar α]

/-- The tree of a target: its kind selects its value. -/
def ofTarget : Target α → Json α
  | .budget value => .choice "Budget" (ofScalar value)
  | .tolerance value => .choice "Tolerance" (ofScalar value)

/-- The target that a tree describes. -/
def target? (json : Json α) : Option (Target α) :=
  match json.variant? with
  | some ("Budget", value) => value.scalar?.map .budget
  | some ("Tolerance", value) => value.scalar?.map .tolerance
  | _ => none

/-- The tree of thresholds. -/
def ofTolerances (tolerances : Tolerances α) : Json α :=
  .record [("ordering", ofScalar tolerances.ordering),
    ("rho2_floor", ofScalar tolerances.floor),
    ("rho2_ceiling", ofScalar tolerances.ceiling)]

/-- The thresholds that a tree describes. -/
def tolerances? (json : Json α) : Option (Tolerances α) := do
  let [ordering, floor, ceiling] ←
    json.slots? ["ordering", "rho2_floor", "rho2_ceiling"] false | none
  return ⟨← required? scalar? ordering, ← required? scalar? floor, ← required? scalar? ceiling⟩

/-- The names of the settings. -/
def settingsNames : List String :=
  ["pilot_samples", "max_iterations", "max_function_evals", "convergence_tol", "pilot_mode",
    "prefer_reordered_analytic", "tolerances"]

/-- The tree of settings. -/
def ofSettings (settings : Settings α) : Json α :=
  .record (settingsNames.zip [.count settings.pilotSamples, .count settings.maxIterations,
    ofOption ofScalar settings.budget, ofOption ofScalar settings.tolerance,
    ofPilotMode settings.pilotMode, .bool settings.preferReordered,
    ofTolerances settings.tolerances])

/-- The settings that a tree describes.  A field that is not there has its default. -/
def settings? (json : Json α) : Option (Settings α) := do
  let default : Settings α := .default
  let [pilotSamples, maxIterations, budget, tolerance, pilotMode, preferReordered, tolerances] ←
    json.slots? settingsNames true | none
  return {
    pilotSamples := ← defaulted? default.pilotSamples count? pilotSamples
    maxIterations := ← defaulted? default.maxIterations count? maxIterations
    budget := ← optional? scalar? budget
    tolerance := ← optional? scalar? tolerance
    pilotMode := ← defaulted? default.pilotMode pilotMode? pilotMode
    preferReordered := ← defaulted? default.preferReordered bool? preferReordered
    tolerances := ← defaulted? default.tolerances tolerances? tolerances }

end Multifidelity.Json
