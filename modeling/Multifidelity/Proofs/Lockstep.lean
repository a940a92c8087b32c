import Multifidelity.Proofs.Transcript

/-!
# Computations in lockstep

Two computations are in lockstep if they make the same moves: they request the same increments and
tell the listener the same, in the same order. They either fail alike or end with related results.
What they are answered, what they consult and what they log may differ.

## Main definitions

* `Alike`: outcomes that are the same failure or related results
* `Move`, `moves`: what a journal requests and tells, without the answers
* `Recorder.Lockstep`: computations that make the same moves and end alike

## Main results

* `Recorder.Lockstep.bind`: a sequence of computations in lockstep
* `Recorder.Lockstep.mapM`: traversals in lockstep
* `calls_eq_of_moves`, `notifications_eq_of_moves`: what equal moves say
-/

namespace Multifidelity

/-! ## Outcomes -/

/-- The same failure, or results that are related. -/
inductive Alike {φ β γ : Type} (R : β → γ → Prop) : Except φ β → Except φ γ → Prop
  | ok {first : β} {second : γ} (h : R first second) : Alike R (.ok first) (.ok second)
  | error (failure : φ) : Alike R (.error failure) (.error failure)

namespace Alike

variable {φ β γ β' γ' : Type} {R S : β → γ → Prop} {first : Except φ β} {second : Except φ γ}

theorem mono (h : Alike R first second) (himp : ∀ x y, R x y → S x y) : Alike S first second := by
  cases h with
  | ok h => exact .ok (himp _ _ h)
  | error failure => exact .error failure

theorem refl (outcome : Except φ β) : Alike Eq outcome outcome := by
  cases outcome with
  | ok result => exact .ok rfl
  | error failure => exact .error failure

theorem of_eq {first second : Except φ β} (h : first = second) : Alike Eq first second :=
  h ▸ refl first

/-- Outcomes with equal results are equal. -/
theorem eq {first second : Except φ β} (h : Alike Eq first second) : first = second := by
  cases h with
  | ok h => rw [h]
  | error failure => rfl

theorem exists_ok (h : Alike R first second) {result : β} (hfirst : first = .ok result) :
    ∃ result', second = .ok result' ∧ R result result' := by
  cases h with
  | ok h =>
    cases hfirst
    exact ⟨_, rfl, h⟩
  | error failure => cases hfirst

theorem eq_error (h : Alike R first second) {failure : φ} (hfirst : first = .error failure) :
    second = .error failure := by
  cases h with
  | ok h => cases hfirst
  | error failure =>
    cases hfirst
    rfl

theorem bind {T : β' → γ' → Prop} {next : β → Except φ β'} {next' : γ → Except φ γ'}
    (h : Alike R first second) (hnext : ∀ x y, R x y → Alike T (next x) (next' y)) :
    Alike T (first >>= next) (second >>= next') := by
  cases h with
  | ok h => exact hnext _ _ h
  | error failure => exact .error failure

/-- What follows the same outcome is compared for each result. -/
theorem bind_self {T : β' → γ' → Prop} (outcome : Except φ β) {next : β → Except φ β'}
    {next' : β → Except φ γ'} (hnext : ∀ x, Alike T (next x) (next' x)) :
    Alike T (outcome >>= next) (outcome >>= next') := by
  refine (refl outcome).bind ?_
  rintro x _ rfl
  exact hnext x

end Alike

/-! ## Moves -/

/-- What a run does that its surroundings see. -/
inductive Move (α : Type) where
  /-- It requests an increment. -/
  | request (call : Call)
  /-- It hands checkpoints to the listener. -/
  | told (checkpoints : List (Checkpoint α))

variable {α : Type}

/-- The move that an event is, without the answer to a request. -/
def Event.move? : Event α → Option (Move α)
  | .increment call _ => some (.request call)
  | .notified checkpoints => some (.told checkpoints)
  | .consulted .. | .logged _ => none

/-- The moves of a journal, in order. -/
def moves (journal : List (Event α)) : List (Move α) :=
  journal.filterMap Event.move?

@[simp] theorem moves_append (first second : List (Event α)) :
    moves (first ++ second) = moves first ++ moves second :=
  List.filterMap_append

/-- Internal events are no moves. -/
theorem moves_of_internal {journal : List (Event α)} (h : ∀ event ∈ journal, event.IsInternal) :
    moves journal = [] := by
  refine List.filterMap_eq_nil_iff.mpr fun event hevent => ?_
  have hinternal := h event hevent
  cases event with
  | increment => exact hinternal.elim
  | notified => exact hinternal.elim
  | consulted => rfl
  | logged => rfl

/-- The call of a request. -/
def Move.call? : Move α → Option Call
  | request call => some call
  | told _ => none

/-- What a move tells the listener. -/
def Move.notification? : Move α → Option (List (Checkpoint α))
  | request _ => none
  | told checkpoints => some checkpoints

/-- Journals with the same moves have the same calls. -/
theorem calls_eq_of_moves {first second : List (Event α)} (h : moves first = moves second) :
    (increments first).map Prod.fst = (increments second).map Prod.fst := by
  have hcalls : ∀ journal : List (Event α),
      (increments journal).map Prod.fst = (moves journal).filterMap Move.call? := by
    intro journal
    rw [increments, moves, List.map_filterMap, List.filterMap_filterMap]
    refine congrArg (List.filterMap · journal) (funext fun event => ?_)
    cases event <;> rfl
  rw [hcalls, hcalls, h]

/-- Journals with the same moves tell the listener the same. -/
theorem notifications_eq_of_moves {first second : List (Event α)} (h : moves first = moves second) :
    notifications first = notifications second := by
  have htold : ∀ journal : List (Event α),
      notifications journal = (moves journal).filterMap Move.notification? := by
    intro journal
    rw [notifications, moves, List.filterMap_filterMap]
    refine congrArg (List.filterMap · journal) (funext fun event => ?_)
    cases event <;> rfl
  rw [htold, htold, h]

/-! ## Lockstep -/

namespace Recorder

variable {β γ β' γ' : Type} {R : β → γ → Prop} {S : β' → γ' → Prop}

/-- A sequence ends alike if its parts do. -/
theorem alike_bind {first : Recorded α β} {second : Recorded α γ} {next : β → Recorded α β'}
    {next' : γ → Recorded α γ'} (h : Alike R first.outcome second.outcome)
    (hnext : ∀ x y, R x y → Alike S (next x).outcome (next' y).outcome) :
    Alike S (first >>= next).outcome (second >>= next').outcome := by
  rw [outcome_bind, outcome_bind]
  exact h.bind hnext

/-- The computations make the same moves, and they end alike. -/
structure Lockstep (R : β → γ → Prop) (first : Recorded α β) (second : Recorded α γ) : Prop where
  moves : moves first.journal = moves second.journal
  outcome : Alike R first.outcome second.outcome

namespace Lockstep

theorem pure {first : β} {second : γ} (h : R first second) :
    Lockstep R (Pure.pure first : Recorded α β) (Pure.pure second) where
  moves := rfl
  outcome := .ok h

theorem ofExcept {first : Except (Failure α) β} {second : Except (Failure α) γ}
    (h : Alike R first second) :
    Lockstep R (Recorder.ofExcept first : Recorded α β) (Recorder.ofExcept second) where
  moves := rfl
  outcome := h

/-- Computations without moves are in lockstep if they end alike. -/
theorem of_internal {first : Recorded α β} {second : Recorded α γ}
    (hfirst : first.Only Event.IsInternal) (hsecond : second.Only Event.IsInternal)
    (h : Alike R first.outcome second.outcome) : Lockstep R first second where
  moves := by rw [moves_of_internal hfirst, moves_of_internal hsecond]
  outcome := h

/-- What is logged need not agree. -/
theorem logAll (first second : List (LogRecord α)) :
    Lockstep Eq (logAll first) (logAll second) :=
  of_internal (only_logAll (fun _ => trivial) first) (only_logAll (fun _ => trivial) second)
    (.ok rfl)

theorem log (first second : LogRecord α) : Lockstep Eq (log first) (log second) :=
  logAll [first] [second]

theorem refl (computation : Recorded α β) : Lockstep Eq computation computation where
  moves := rfl
  outcome := .refl _

theorem mono {S : β → γ → Prop} {first : Recorded α β} {second : Recorded α γ}
    (h : Lockstep R first second) (himp : ∀ x y, R x y → S x y) : Lockstep S first second where
  moves := h.moves
  outcome := h.outcome.mono himp

/-- A sequence stays in lockstep if its parts do. -/
theorem bind {first : Recorded α β} {second : Recorded α γ} {next : β → Recorded α β'}
    {next' : γ → Recorded α γ'} (h : Lockstep R first second)
    (hnext : ∀ x y, R x y → Lockstep S (next x) (next' y)) :
    Lockstep S (first >>= next) (second >>= next') := by
  constructor
  · rw [journal_bind, journal_bind, moves_append, moves_append, h.moves]
    congr 1
    have houtcome := h.outcome
    generalize first.outcome = x, second.outcome = y at houtcome ⊢
    -- after a failure there are no further moves
    cases houtcome with
    | ok h => exact (hnext _ _ h).moves
    | error failure => rfl
  · exact alike_bind h.outcome fun x y hxy => (hnext x y hxy).outcome

/-- Sequences that begin alike stay in lockstep if their continuations do. -/
theorem bind_self (computation : Recorded α β) {next : β → Recorded α β'}
    {next' : β → Recorded α γ'} (hnext : ∀ x, Lockstep S (next x) (next' x)) :
    Lockstep S (computation >>= next) (computation >>= next') := by
  refine (refl computation).bind ?_
  rintro x _ rfl
  exact hnext x

/-- A traversal stays in lockstep if it does so at each element. -/
theorem mapM {δ ε : Type} {T : δ → ε → Prop} {f : δ → Recorded α β} {g : ε → Recorded α γ}
    {xs : List δ} {ys : List ε} (h : List.Forall₂ T xs ys)
    (hstep : ∀ x y, T x y → Lockstep R (f x) (g y)) :
    Lockstep (List.Forall₂ R) (xs.mapM f) (ys.mapM g) := by
  induction h with
  | nil => exact .pure .nil
  | cons hxy _ ih =>
    rw [List.mapM_cons, List.mapM_cons]
    refine .bind (hstep _ _ hxy) fun result result' hresult => ?_
    exact .bind ih fun rest rest' hrest => .pure (.cons hresult hrest)

end Lockstep

end Recorder

end Multifidelity
