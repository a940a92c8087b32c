import Multifidelity.Failure

/-!
# Updates of a state

An update changes a state step by step, and a failure may end it on the way.  The state is handed
back beside the outcome, as the steps before the failure have left it.

## Main definitions

* `Update`: changes of a state that may fail.
* `Update.on`: the outcome of an update, and the state after it.
* `Update.result`: the state after an update, or the failure that has ended it.

## Main results

* `Update.on_checked`: changes that are made once the state has passed a check.
* `Update.on_forM_modify`: changes that are made one after another.
-/

namespace Multifidelity

/-- Changes of a state of type `σ`, which a failure may end. -/
abbrev Update (α σ β : Type) := ExceptT (Failure α) (StateM σ) β

namespace Update

variable {α σ β : Type}

/-- The outcome of an update on a state, and the state after it, whether it has failed or not. -/
def on (update : Update α σ β) (state : σ) : Except (Failure α) β × σ :=
  Id.run (update.run.run state)

/-- The state after an update, or the failure that has ended it. -/
def result (update : Update α σ Unit) (state : σ) : Except (Failure α) σ :=
  match update.on state with
  | (.ok (), next) => .ok next
  | (.error failure, _) => .error failure

/-- Changes that are made once the state has passed a check. -/
theorem on_checked (check : σ → Except (Failure α) Unit) (changes : Update α σ Unit) (state : σ) :
    (do MonadExcept.ofExcept (check (← get)); changes : Update α σ Unit).on state =
      match check state with
      | .ok () => changes.on state
      | .error failure => (.error failure, state) := by
  change Update.on (MonadExcept.ofExcept (check state) >>= fun _ => changes) state = _
  cases check state <;> rfl

/-- Changes that are made for one element of a list after another. -/
theorem on_forM_modify (change : β → σ → σ) (elements : List β) (state : σ) :
    (elements.forM fun element => modify (change element) : Update α σ Unit).on state =
      (.ok (), elements.foldl (fun state element => change element state) state) := by
  induction elements generalizing state with
  | nil => rfl
  | cons element elements ih => exact ih (change element state)

end Update

end Multifidelity
