import Mathlib.Data.List.Basic
import Multifidelity.Proofs.Recorder

/-!
# Transcripts

What the ensemble and the listener see of a journal: the increments and the notifications. The
consultations and the log stay out of it.

## Main definitions

* `transcript`: the visible events of a journal
* `increments`: the calls of a journal with the batches that answer them
* `responsesTo`, `sharedResponses`: the responses to calls of a kind
* `notifications`: what the listener is told
* `told`: what the listener has been told last
* `Throughout`: what holds at each event of a journal, given the events before

## Main results

* `transcript_bind_of_ok`, `transcript_bind_of_error`: the transcript of a sequence
* `increments_transcript`, `notifications_transcript`: a transcript has all of them
* `throughout_append`: a journal that goes on
-/

namespace Multifidelity

variable {α : Type}

/-! ## Visible events -/

/-- Whether an event reaches the ensemble or the listener. -/
def Event.isVisible : Event α → Bool
  | .increment .. | .notified _ => true
  | .consulted .. | .logged _ => false

theorem Event.IsInternal.isVisible {event : Event α} (h : event.IsInternal) :
    event.isVisible = false := by
  cases event with
  | increment => exact h.elim
  | notified => exact h.elim
  | consulted => rfl
  | logged => rfl

/-- The events that reach the ensemble or the listener. -/
def transcript (journal : List (Event α)) : List (Event α) :=
  journal.filter Event.isVisible

@[simp] theorem transcript_nil : transcript ([] : List (Event α)) = [] := rfl

@[simp] theorem transcript_append (first second : List (Event α)) :
    transcript (first ++ second) = transcript first ++ transcript second :=
  List.filter_append ..

@[simp] theorem transcript_increment (call : Call) (batch : Batch α) (journal : List (Event α)) :
    transcript (.increment call batch :: journal) = .increment call batch :: transcript journal :=
  rfl

@[simp] theorem transcript_notified (checkpoints : List (Checkpoint α))
    (journal : List (Event α)) :
    transcript (.notified checkpoints :: journal) = .notified checkpoints :: transcript journal :=
  rfl

@[simp] theorem transcript_logged (entry : LogRecord α) (journal : List (Event α)) :
    transcript (.logged entry :: journal) = transcript journal := rfl

/-- Nothing of an internal journal is seen. -/
theorem transcript_of_internal {journal : List (Event α)}
    (h : ∀ event ∈ journal, event.IsInternal) : transcript journal = [] :=
  List.filter_eq_nil_iff.mpr fun event hevent => by simp [(h event hevent).isVisible]

section Bind

variable {β γ : Type} {first : Recorded α β} {next : β → Recorded α γ}

theorem transcript_bind_of_ok {result : β} (h : first.outcome = .ok result)
    (next : β → Recorded α γ) : transcript (first >>= next).journal =
      transcript first.journal ++ transcript (next result).journal := by
  rw [Recorder.bind_of_ok h, transcript_append]

theorem transcript_bind_of_error {failure : Failure α} (h : first.outcome = .error failure)
    (next : β → Recorded α γ) :
    transcript (first >>= next).journal = transcript first.journal := by
  rw [Recorder.bind_of_error h]

/-- Nothing is seen of an internal continuation. -/
theorem transcript_bind_of_internal (h : ∀ result, (next result).Only Event.IsInternal) :
    transcript (first >>= next).journal = transcript first.journal := by
  cases hfirst : first.outcome with
  | ok result =>
    rw [transcript_bind_of_ok hfirst, transcript_of_internal (h result), List.append_nil]
  | error failure => exact transcript_bind_of_error hfirst next

end Bind

/-! ## Increments -/

/-- The call of an increment with the batch that answers it. -/
def Event.increment? : Event α → Option (Call × Batch α)
  | .increment call batch => some (call, batch)
  | .consulted .. | .notified _ | .logged _ => none

/-- The calls of a journal with the batches that answer them. -/
def increments (journal : List (Event α)) : List (Call × Batch α) :=
  journal.filterMap Event.increment?

@[simp] theorem increments_nil : increments ([] : List (Event α)) = [] := rfl

@[simp] theorem increments_append (first second : List (Event α)) :
    increments (first ++ second) = increments first ++ increments second :=
  List.filterMap_append

@[simp] theorem increments_increment (call : Call) (batch : Batch α) (journal : List (Event α)) :
    increments (.increment call batch :: journal) = (call, batch) :: increments journal := rfl

@[simp] theorem increments_notified (checkpoints : List (Checkpoint α))
    (journal : List (Event α)) : increments (.notified checkpoints :: journal) =
      increments journal := rfl

theorem increments_transcript (journal : List (Event α)) :
    increments (transcript journal) = increments journal := by
  rw [increments, transcript, List.filterMap_filter]
  refine congrArg (List.filterMap · journal) (funext fun event => ?_)
  cases event <;> rfl

/-! ## Responses -/

/-- Whether a call is for samples on all models. -/
def Call.isShared : Call → Bool
  | .shared .. => true
  | .approx .. => false

/-- Whether a call is for samples on some low-fidelity models, among them a given one. -/
def Call.lists (model : ℕ) : Call → Bool
  | .shared .. => false
  | .approx _ models _ => decide (model ∈ models)

/-- Whether a call is for samples on some low-fidelity models, among them a given one that is not
the last. -/
def Call.listsBeforeLast (model : ℕ) : Call → Bool
  | .shared .. => false
  | .approx _ models _ => decide (model ∈ models ∧ models.getLast? ≠ some model)

/-- The responses to all calls of a kind, in order. -/
def responsesTo (kind : Call → Bool) (drawn : List (Call × Batch α)) : List (Response α) :=
  (drawn.filter fun entry => kind entry.1).flatMap Prod.snd

/-- The responses on all models, in order. -/
def sharedResponses (drawn : List (Call × Batch α)) : List (Response α) :=
  responsesTo Call.isShared drawn

section Responses

variable {kind : Call → Bool}

@[simp] theorem responsesTo_nil : responsesTo kind ([] : List (Call × Batch α)) = [] := rfl

@[simp] theorem responsesTo_append (first second : List (Call × Batch α)) :
    responsesTo kind (first ++ second) = responsesTo kind first ++ responsesTo kind second := by
  simp [responsesTo]

theorem responsesTo_cons (call : Call) (batch : Batch α) (drawn : List (Call × Batch α)) :
    responsesTo kind ((call, batch) :: drawn) =
      (if kind call then batch else []) ++ responsesTo kind drawn := by
  unfold responsesTo
  rw [List.filter_cons]
  split <;> rfl

theorem sharedResponses_append (first second : List (Call × Batch α)) :
    sharedResponses (first ++ second) = sharedResponses first ++ sharedResponses second :=
  responsesTo_append first second

theorem sharedResponses_concat (drawn : List (Call × Batch α)) (iteration samples : ℕ)
    (batch : Batch α) :
    sharedResponses (drawn ++ [(.shared iteration samples, batch)]) =
      sharedResponses drawn ++ batch := by
  simp [sharedResponses, responsesTo_cons, Call.isShared]

end Responses

/-! ## Notifications -/

/-- The checkpoints of a notification. -/
def Event.notification? : Event α → Option (List (Checkpoint α))
  | .notified checkpoints => some checkpoints
  | .increment .. | .consulted .. | .logged _ => none

/-- What the listener is told. -/
def notifications (journal : List (Event α)) : List (List (Checkpoint α)) :=
  journal.filterMap Event.notification?

@[simp] theorem notifications_nil : notifications ([] : List (Event α)) = [] := rfl

@[simp] theorem notifications_append (first second : List (Event α)) :
    notifications (first ++ second) = notifications first ++ notifications second :=
  List.filterMap_append

@[simp] theorem notifications_increment (call : Call) (batch : Batch α)
    (journal : List (Event α)) :
    notifications (.increment call batch :: journal) = notifications journal := rfl

@[simp] theorem notifications_notified (checkpoints : List (Checkpoint α))
    (journal : List (Event α)) :
    notifications (.notified checkpoints :: journal) = checkpoints :: notifications journal := rfl

theorem notifications_transcript (journal : List (Event α)) :
    notifications (transcript journal) = notifications journal := by
  rw [notifications, transcript, List.filterMap_filter]
  refine congrArg (List.filterMap · journal) (funext fun event => ?_)
  cases event <;> rfl

/-- The checkpoints that the listener has been told last. -/
def told (journal : List (Event α)) : List (Checkpoint α) :=
  (notifications journal).getLast?.getD []

@[simp] theorem told_nil : told ([] : List (Event α)) = [] := rfl

theorem told_of_notifications_eq_nil {first second : List (Event α)}
    (h : notifications second = []) : told (first ++ second) = told first := by
  rw [told, notifications_append, h, List.append_nil, told]

@[simp] theorem told_append_notified (first : List (Event α))
    (checkpoints : List (Checkpoint α)) :
    told (first ++ [.notified checkpoints]) = checkpoints := by
  simp [told]

theorem told_transcript (journal : List (Event α)) :
    told (transcript journal) = told journal := by
  rw [told, notifications_transcript, told]

/-! ## What precedes an event -/

section Throughout

variable {ε : Type}

/-- `P` holds at each event of a journal with the events before it, the first of which are
`past`. -/
def Throughout (P : List ε → ε → Prop) (past : List ε) : List ε → Prop
  | [] => True
  | event :: after => P past event ∧ Throughout P (past ++ [event]) after

variable {P : List ε → ε → Prop} {past : List ε}

theorem throughout_append {first second : List ε} :
    Throughout P past (first ++ second) ↔
      Throughout P past first ∧ Throughout P (past ++ first) second := by
  induction first generalizing past with
  | nil => simp [Throughout]
  | cons event after ih =>
    rw [List.cons_append, Throughout, Throughout, ih, and_assoc, List.append_assoc,
      List.singleton_append]

theorem Throughout.of_append_cons {before after : List ε} {event : ε}
    (h : Throughout P [] (before ++ event :: after)) : P before event :=
  (throughout_append.mp h).2.1

end Throughout

/-- What holds throughout a transcript holds at the visible events of the journal. -/
theorem Throughout.of_transcript {P : List (Event α) → Event α → Prop}
    {before after : List (Event α)} {event : Event α} (hvisible : event.isVisible = true)
    (h : Throughout P [] (transcript (before ++ event :: after))) :
    P (transcript before) event := by
  rw [transcript_append, transcript, transcript, List.filter_cons_of_pos hvisible] at h
  exact h.of_append_cons

end Multifidelity
