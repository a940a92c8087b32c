import Multifidelity.Allocation.Optimizer
import Multifidelity.Ensemble
import Multifidelity.Report

/-!
# The journal of a run

## Main definitions

* `Event`: what a run does to the world.
* `Recorded`: computations that may be parts of a run.
* `log`, `logAll`, `notify`, `consult`: what a run does besides drawing samples.
-/

namespace Multifidelity

/-- What a run does to the world. -/
inductive Event (α : Type) where
  /-- It requests an increment and is given a batch of responses. -/
  | increment (call : Call) (batch : Batch α)
  /-- It hands a problem and initial ratios to the optimizer. -/
  | consulted (problem : RatioProblem α) (initial : List α)
  /-- It hands all checkpoints so far to the listener. -/
  | notified (checkpoints : List (Checkpoint α))
  /-- It reports about its progress. -/
  | logged (entry : LogRecord α)

/-- Parts of a run: they keep a journal, and they may fail. -/
abbrev Recorded (α β : Type) := Recorder (Event α) (Failure α) β

variable {α : Type}

/-- Reports about the progress. -/
def logAll (entries : List (LogRecord α)) : Recorded α Unit :=
  .record (entries.map .logged)

/-- Reports about the progress. -/
def log (entry : LogRecord α) : Recorded α Unit :=
  logAll [entry]

/-- Adds a checkpoint and hands all of them to the listener. -/
def notify (checkpoints : List (Checkpoint α)) (checkpoint : Checkpoint α) :
    Recorded α (List (Checkpoint α)) := do
  Recorder.record [.notified (checkpoints ++ [checkpoint])]
  return checkpoints ++ [checkpoint]

/-- Hands a problem to an optimizer. -/
def consult (optimizer : Optimizer α) (problem : RatioProblem α) (initial : List α) :
    Recorded α (List α) := do
  Recorder.record [.consulted problem initial]
  (optimizer problem initial).mapJournal .logged

end Multifidelity
