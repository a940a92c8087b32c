/-!
# Computations that keep a journal

A run talks to an ensemble, an optimizer and a listener.  What it does to them is recorded in the
order in which it happens, and stays recorded if the run fails later.

## Main definitions

* `Recorder`: a journal together with a result or a failure.
* `Recorder.record`, `Recorder.fail`, `Recorder.ofExcept`: the basic computations.

## Main results

* `Recorder.bind_of_ok`, `Recorder.bind_of_error`: what a sequence of two computations does.
* Recorders form a lawful monad.
-/

namespace Multifidelity

/-- A journal of events and the result, or the failure, of the computation that caused them. -/
@[ext] structure Recorder (ε φ β : Type) where
  /-- The events in the order in which they happened. -/
  journal : List ε
  /-- How the computation ended. -/
  outcome : Except φ β

namespace Recorder

variable {ε φ β γ : Type}

/-- Continues with the result; a failure ends the computation but keeps the journal. -/
def andThen (first : Recorder ε φ β) (next : β → Recorder ε φ γ) : Recorder ε φ γ :=
  match first.outcome with
  | .ok result =>
    let second := next result
    ⟨first.journal ++ second.journal, second.outcome⟩
  | .error failure => ⟨first.journal, .error failure⟩

instance : Monad (Recorder ε φ) where
  pure result := ⟨[], .ok result⟩
  bind := andThen

/-- Records events. -/
def record (events : List ε) : Recorder ε φ Unit :=
  ⟨events, .ok ()⟩

/-- Ends in a failure. -/
def fail (failure : φ) : Recorder ε φ β :=
  ⟨[], .error failure⟩

/-- The computation with its events seen in another way. -/
def mapJournal {ε' : Type} (f : ε → ε') (computation : Recorder ε φ β) : Recorder ε' φ β :=
  ⟨computation.journal.map f, computation.outcome⟩

/-- A computation that causes no events. -/
def ofExcept (outcome : Except φ β) : Recorder ε φ β :=
  ⟨[], outcome⟩

@[simp] theorem journal_pure (result : β) : (pure result : Recorder ε φ β).journal = [] :=
  rfl

@[simp] theorem outcome_pure (result : β) :
    (pure result : Recorder ε φ β).outcome = .ok result :=
  rfl

@[simp] theorem journal_record (events : List ε) :
    (record events : Recorder ε φ Unit).journal = events :=
  rfl

@[simp] theorem outcome_record (events : List ε) :
    (record events : Recorder ε φ Unit).outcome = .ok () :=
  rfl

/-- After a success the second computation follows, and its events come last. -/
theorem bind_of_ok {first : Recorder ε φ β} {result : β} (h : first.outcome = .ok result)
    (next : β → Recorder ε φ γ) :
    first >>= next = ⟨first.journal ++ (next result).journal, (next result).outcome⟩ := by
  change andThen first next = _
  rw [andThen, h]

/-- After a failure nothing follows. -/
theorem bind_of_error {first : Recorder ε φ β} {failure : φ} (h : first.outcome = .error failure)
    (next : β → Recorder ε φ γ) : first >>= next = ⟨first.journal, .error failure⟩ := by
  change andThen first next = _
  rw [andThen, h]

theorem id_map (x : Recorder ε φ β) : id <$> x = x := by
  change x >>= (fun result => pure (id result)) = x
  cases h : x.outcome with
  | ok result => exact (bind_of_ok h _).trans (Recorder.ext (by simp) h.symm)
  | error failure => exact (bind_of_error h _).trans (Recorder.ext rfl h.symm)

theorem bind_assoc {δ : Type} (x : Recorder ε φ β) (f : β → Recorder ε φ γ)
    (g : γ → Recorder ε φ δ) : x >>= f >>= g = x >>= fun result => f result >>= g := by
  cases hx : x.outcome with
  | error failure => rw [bind_of_error hx, bind_of_error hx, bind_of_error rfl]
  | ok result =>
    rw [bind_of_ok hx, bind_of_ok hx]
    cases hf : (f result).outcome with
    | error failure => rw [bind_of_error hf, bind_of_error rfl]
    | ok next => rw [bind_of_ok hf, bind_of_ok rfl, List.append_assoc]

instance : LawfulMonad (Recorder ε φ) :=
  .mk' _ id_map (fun result next => bind_of_ok (outcome_pure result) next) bind_assoc

end Recorder

end Multifidelity
