import Multifidelity.Journal.Event
import Multifidelity.Json.Report
import Multifidelity.Message.Log
import Multifidelity.Message.Summary

/-!
# Listeners

A run hands its checkpoints to a listener after every shared increment.  The listener may show them
or store them; it has no influence on the run.

## Main definitions

* `Reaction`: what a listener does.
* `Listener.silent`, `Listener.console`, `Listener.file`: the listeners there are.
* `reactions`: everything that becomes visible while a run goes on.
-/

namespace Multifidelity

/-- Something that becomes visible while a run goes on. -/
inductive Reaction where
  /-- A text on the console. -/
  | printed (text : String)
  /-- A file with new contents. -/
  | stored (contents : Json Float)
  /-- A log record. -/
  | logged (entry : LogRecord Float)

/-- What is done with the checkpoints so far. -/
abbrev Listener := List (Checkpoint Float) → List Reaction

namespace Listener

/-- Does nothing. -/
def silent : Listener :=
  fun _ => []

/-- Shows the last checkpoint. -/
def console : Listener :=
  fun checkpoints => checkpoints.getLast?.toList.map fun checkpoint => .printed checkpoint.message

/-- Stores all checkpoints in the file at `path`, which the system may refuse for a reason. -/
def file (path : String) (refusal : Option String) : Listener :=
  fun checkpoints =>
    match refusal with
    | some reason => [.logged (.notStored path reason)]
    | none => [.stored (Json.ofList Json.ofCheckpoint checkpoints)]

end Listener

/-- What an event makes visible. -/
def Event.reactions (listener : Listener) : Event Float → List Reaction
  | logged entry => [.logged entry]
  | notified checkpoints => listener checkpoints
  | increment .. | consulted .. => []

/-- What a journal makes visible, in order. -/
def reactions (listener : Listener) (journal : List (Event Float)) : List Reaction :=
  journal.flatMap (Event.reactions listener)

end Multifidelity
