import Multifidelity.Journal.Event

/-!
# Computations that keep a journal, taken apart

A sequence of computations succeeds if each of them does. Its journal is that of the first one,
followed by those of the others if it succeeds.

## Main definitions

* `Recorder.Only`: the journal has only events of a kind
* `AtEach`: what holds at each event of a journal, given the events that follow
* `Event.IsInternal`, `Event.IsRefinement`, `Event.IsShared`: kinds of events

## Main results

* `Recorder.outcome_bind_eq_ok`, `Recorder.outcome_bind_eq_error`: a sequence that succeeds, and one
  that fails, taken apart
* `Recorder.outcome_bind`, `Recorder.journal_bind`: the outcome and the journal of a sequence
* `Recorder.Only.bind`: a sequence of computations with events of a kind
* `atEach_append`: a journal that goes on
-/

namespace Multifidelity

namespace Recorder

variable {ε φ β γ : Type}

@[simp] theorem outcome_fail (failure : φ) :
    (fail failure : Recorder ε φ β).outcome = .error failure := rfl

@[simp] theorem journal_fail (failure : φ) : (fail failure : Recorder ε φ β).journal = [] := rfl

@[simp] theorem outcome_ofExcept (outcome : Except φ β) :
    (ofExcept outcome : Recorder ε φ β).outcome = outcome := rfl

@[simp] theorem journal_ofExcept (outcome : Except φ β) :
    (ofExcept outcome : Recorder ε φ β).journal = [] := rfl

/-- The outcome of a sequence is that of the outcomes in sequence. -/
theorem outcome_bind (first : Recorder ε φ β) (next : β → Recorder ε φ γ) :
    (first >>= next).outcome = first.outcome >>= fun result => (next result).outcome := by
  cases h : first.outcome with
  | ok result => rw [bind_of_ok h]; rfl
  | error failure => rw [bind_of_error h]; rfl

/-- The journal of a sequence goes on after a success. -/
theorem journal_bind (first : Recorder ε φ β) (next : β → Recorder ε φ γ) :
    (first >>= next).journal = first.journal ++
      match first.outcome with
      | .ok result => (next result).journal
      | .error _ => [] := by
  cases h : first.outcome with
  | ok result => rw [bind_of_ok h]
  | error failure => rw [bind_of_error h]; simp

/-- A sequence succeeds if both computations do. -/
theorem outcome_bind_eq_ok {first : Recorder ε φ β} {next : β → Recorder ε φ γ} {result : γ} :
    (first >>= next).outcome = .ok result ↔
      ∃ mid, first.outcome = .ok mid ∧ (next mid).outcome = .ok result := by
  rw [outcome_bind]
  cases first.outcome with
  | ok mid => simp [bind, Except.bind]
  | error failure => simp [bind, Except.bind]

/-- A sequence fails if its first computation fails, or if its second one does. -/
theorem outcome_bind_eq_error {first : Recorder ε φ β} {next : β → Recorder ε φ γ} {failure : φ} :
    (first >>= next).outcome = .error failure ↔
      first.outcome = .error failure ∨
        ∃ mid, first.outcome = .ok mid ∧ (next mid).outcome = .error failure := by
  rw [outcome_bind]
  cases first.outcome with
  | ok mid => simp [bind, Except.bind]
  | error failure => simp [bind, Except.bind]

theorem mem_journal_bind {first : Recorder ε φ β} {next : β → Recorder ε φ γ} {result : β}
    (h : first.outcome = .ok result) {event : ε} :
    event ∈ (first >>= next).journal ↔ event ∈ first.journal ∨ event ∈ (next result).journal := by
  rw [bind_of_ok h, List.mem_append]

/-- A traversal succeeds if every computation of it does. -/
theorem exists_mapM {δ : Type} {f : δ → Recorder ε φ β} {xs : List δ}
    (h : ∀ x ∈ xs, ∃ y, (f x).outcome = .ok y) : ∃ ys, (xs.mapM f).outcome = .ok ys := by
  induction xs with
  | nil => exact ⟨[], rfl⟩
  | cons x xs ih =>
    obtain ⟨y, hy⟩ := h x List.mem_cons_self
    obtain ⟨ys, hys⟩ := ih fun z hz => h z (List.mem_cons_of_mem x hz)
    refine ⟨y :: ys, ?_⟩
    rw [List.mapM_cons]
    exact outcome_bind_eq_ok.mpr ⟨y, hy, outcome_bind_eq_ok.mpr ⟨ys, hys, rfl⟩⟩

/-- A traversal that succeeds has the results of its parts. -/
theorem mapM_eq_ok {f : β → Recorder ε φ γ} {g : β → γ} {P : β → Prop}
    (hf : ∀ x y, (f x).outcome = .ok y → P x ∧ y = g x) {xs : List β} {ys : List γ}
    (h : (xs.mapM f).outcome = .ok ys) : (∀ x ∈ xs, P x) ∧ ys = xs.map g := by
  induction xs generalizing ys with
  | nil =>
    cases h
    exact ⟨nofun, rfl⟩
  | cons x xs ih =>
    rw [List.mapM_cons] at h
    obtain ⟨y, hy, h⟩ := outcome_bind_eq_ok.mp h
    obtain ⟨rest, hrest, h⟩ := outcome_bind_eq_ok.mp h
    cases h
    obtain ⟨hall, rfl⟩ := ih hrest
    obtain ⟨hx, rfl⟩ := hf x y hy
    exact ⟨List.forall_mem_cons.mpr ⟨hx, hall⟩, rfl⟩

/-- A traversal fails at the first part that does. -/
theorem exists_of_mapM_eq_error {f : β → Recorder ε φ γ} {xs : List β} {failure : φ}
    (h : (xs.mapM f).outcome = .error failure) :
    ∃ before x after, xs = before ++ x :: after ∧ (∀ y ∈ before, ∃ z, (f y).outcome = .ok z) ∧
      (f x).outcome = .error failure := by
  induction xs with
  | nil => cases h
  | cons x xs ih =>
    rw [List.mapM_cons] at h
    rcases outcome_bind_eq_error.mp h with hx | ⟨y, hy, h⟩
    · exact ⟨[], x, xs, rfl, nofun, hx⟩
    · rcases outcome_bind_eq_error.mp h with hxs | ⟨ys, -, h⟩
      · obtain ⟨before, z, after, rfl, hbefore, hz⟩ := ih hxs
        exact ⟨x :: before, z, after, rfl, List.forall_mem_cons.mpr ⟨⟨y, hy⟩, hbefore⟩, hz⟩
      · cases h

/-! ## Events of a kind -/

/-- The journal has only events that satisfy `P`. -/
def Only (P : ε → Prop) (computation : Recorder ε φ β) : Prop :=
  ∀ event ∈ computation.journal, P event

namespace Only

variable {P Q : ε → Prop}

theorem mono {computation : Recorder ε φ β} (h : computation.Only P) (himp : ∀ e, P e → Q e) :
    computation.Only Q :=
  fun event hevent => himp event (h event hevent)

theorem of_journal_eq_nil {computation : Recorder ε φ β} (h : computation.journal = []) :
    computation.Only P := by
  intro event hevent
  rw [h] at hevent
  exact absurd hevent List.not_mem_nil

theorem pure (result : β) : (Pure.pure result : Recorder ε φ β).Only P :=
  of_journal_eq_nil rfl

theorem fail (failure : φ) : (Recorder.fail failure : Recorder ε φ β).Only P :=
  of_journal_eq_nil rfl

theorem ofExcept (outcome : Except φ β) : (Recorder.ofExcept outcome : Recorder ε φ β).Only P :=
  of_journal_eq_nil rfl

/-- A sequence has only events of a kind if both computations have. -/
theorem bind {first : Recorder ε φ β} {next : β → Recorder ε φ γ} (hfirst : first.Only P)
    (hnext : ∀ result, first.outcome = .ok result → (next result).Only P) :
    (first >>= next).Only P := by
  intro event hevent
  rw [journal_bind, List.mem_append] at hevent
  rcases hevent with hevent | hevent
  · exact hfirst event hevent
  · cases h : first.outcome with
    | ok result =>
      rw [h] at hevent
      exact hnext result h event hevent
    | error failure =>
      rw [h] at hevent
      exact absurd hevent List.not_mem_nil

theorem mapM {δ : Type} {f : δ → Recorder ε φ β} {xs : List δ} (h : ∀ x, (f x).Only P) :
    (xs.mapM f).Only P := by
  induction xs with
  | nil => exact .pure _
  | cons x xs ih =>
    rw [List.mapM_cons]
    exact .bind (h x) fun _ _ => .bind ih fun _ _ => .pure _

end Only

end Recorder

/-! ## What follows an event -/

section AtEach

variable {ε : Type}

/-- `P` holds at each event of a journal with the events that follow it. -/
def AtEach (P : ε → List ε → Prop) : List ε → Prop
  | [] => True
  | event :: after => P event after ∧ AtEach P after

variable {P : ε → List ε → Prop}

theorem atEach_append {first second : List ε} :
    AtEach P (first ++ second) ↔
      AtEach (fun event after => P event (after ++ second)) first ∧ AtEach P second := by
  induction first with
  | nil => simp [AtEach]
  | cons event after ih => rw [List.cons_append, AtEach, AtEach, ih, and_assoc]

theorem atEach_of_forall {journal : List ε} (h : ∀ event ∈ journal, ∀ after, P event after) :
    AtEach P journal := by
  induction journal with
  | nil => trivial
  | cons event after ih =>
    exact ⟨h event List.mem_cons_self after, ih fun e he => h e (List.mem_cons_of_mem _ he)⟩

theorem AtEach.of_append_cons {before after : List ε} {event : ε}
    (h : AtEach P (before ++ event :: after)) : P event after :=
  (atEach_append.mp h).2.1

end AtEach

variable {α : Type}

/-! ## Kinds of events -/

/-- An event that neither draws samples nor reaches the listener. -/
def Event.IsInternal : Event α → Prop
  | .consulted .. | .logged _ => True
  | .increment .. | .notified _ => False

/-- An internal event, or an increment on low-fidelity models. -/
def Event.IsRefinement : Event α → Prop
  | .increment (.approx ..) _ | .consulted .. | .logged _ => True
  | .increment (.shared ..) _ | .notified _ => False

/-- An increment on all models. -/
def Event.IsShared : Event α → Prop
  | .increment (.shared ..) _ => True
  | .increment (.approx ..) _ | .consulted .. | .notified _ | .logged _ => False

theorem Event.IsInternal.isRefinement {event : Event α} (h : event.IsInternal) :
    event.IsRefinement := by
  cases event with
  | increment => exact h.elim
  | notified => exact h.elim
  | consulted => trivial
  | logged => trivial

theorem Event.IsRefinement.not_isShared {event : Event α} (h : event.IsRefinement) :
    ¬ event.IsShared := by
  cases event with
  | increment call =>
    cases call with
    | shared => exact h.elim
    | approx => exact id
  | notified => exact id
  | consulted => exact id
  | logged => exact id

/-! ## The basic computations of a run -/

theorem only_logAll {P : Event α → Prop} (h : ∀ entry, P (.logged entry))
    (entries : List (LogRecord α)) : (logAll entries).Only P := by
  intro event hevent
  obtain ⟨entry, -, rfl⟩ := List.mem_map.mp hevent
  exact h entry

theorem only_log {P : Event α → Prop} (h : ∀ entry, P (.logged entry)) (entry : LogRecord α) :
    (log entry).Only P :=
  only_logAll h [entry]

theorem only_consult {P : Event α → Prop} (hlogged : ∀ entry, P (.logged entry))
    {optimizer : Optimizer α} {problem : RatioProblem α} {initial : List α}
    (hconsulted : P (.consulted problem initial)) :
    (consult optimizer problem initial).Only P := by
  intro event hevent
  change event ∈ .consulted problem initial ::
    (optimizer problem initial).journal.map .logged at hevent
  rcases List.mem_cons.mp hevent with rfl | hevent
  · exact hconsulted
  · obtain ⟨entry, -, rfl⟩ := List.mem_map.mp hevent
    exact hlogged entry

@[simp] theorem outcome_logAll (entries : List (LogRecord α)) :
    (logAll entries).outcome = .ok () := rfl

@[simp] theorem journal_logAll (entries : List (LogRecord α)) :
    (logAll entries).journal = entries.map .logged := rfl

@[simp] theorem outcome_log (entry : LogRecord α) : (log entry).outcome = .ok () := rfl

@[simp] theorem journal_log (entry : LogRecord α) : (log entry).journal = [.logged entry] := rfl

@[simp] theorem outcome_notify (checkpoints : List (Checkpoint α)) (checkpoint : Checkpoint α) :
    (notify checkpoints checkpoint).outcome = .ok (checkpoints ++ [checkpoint]) := rfl

@[simp] theorem journal_notify (checkpoints : List (Checkpoint α)) (checkpoint : Checkpoint α) :
    (notify checkpoints checkpoint).journal = [.notified (checkpoints ++ [checkpoint])] := rfl

@[simp] theorem outcome_consult (optimizer : Optimizer α) (problem : RatioProblem α)
    (initial : List α) :
    (consult optimizer problem initial).outcome = (optimizer problem initial).outcome := rfl

@[simp] theorem journal_consult (optimizer : Optimizer α) (problem : RatioProblem α)
    (initial : List α) :
    (consult optimizer problem initial).journal =
      .consulted problem initial :: (optimizer problem initial).journal.map .logged := rfl

end Multifidelity
