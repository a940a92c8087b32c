import Multifidelity.Allocation.Compass
import Multifidelity.Run.Offline
import Multifidelity.Run.Online
import Multifidelity.Run.Projection

/-!
# Runs

## Main definitions

* `sampleWith`: a run with an optimizer of one's own.
* `sample`: a run with the usual compass search.
-/

namespace Multifidelity

variable {σ α : Type} [Scalar α]

/-- Samples an ensemble as the pilot mode says. -/
def Plan.execute (plan : Plan σ α) (state : σ) : Recorded α (Report α) :=
  match plan.settings.pilotMode with
  | .online => plan.online state
  | .offline => plan.offline state
  | .projection => plan.projection state

/-- Samples an ensemble that is in a given state.  Models that are not ordered by correlation are
allocated by `optimizer`. -/
def sampleWith (optimizer : Optimizer α) (ensemble : Ensemble σ α) (settings : Settings α)
    (state : σ) : Recorded α (Report α) := do
  let plan ← Recorder.ofExcept (Plan.check ensemble settings optimizer)
  plan.execute state

/-- Samples an ensemble that is in a given state. -/
def sample (ensemble : Ensemble σ α) (settings : Settings α) (state : σ) :
    Recorded α (Report α) :=
  sampleWith CompassSearch.default.optimize ensemble settings state

end Multifidelity
