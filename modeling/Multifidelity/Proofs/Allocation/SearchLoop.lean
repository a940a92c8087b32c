import Mathlib.Logic.Relation
import Mathlib.Tactic
import Multifidelity.Allocation.Compass

/-!
# The loop of a compass search

A trial leaves a point where it is, or it moves one coordinate to a lower objective. A sweep moves,
and has then evaluated the objective, or it has tried every coordinate in both directions in vain.
The loop goes on with the same step after a sweep that moves, and with half of it after any other.

## Main definitions

* `CompassSearch.moved`: increments after a step in one coordinate
* `CompassSearch.Refused`: the steps that a trial does not take
* `CompassSearch.Keeps`: what no step to a lower objective destroys
* `CompassSearch.Continues`, `CompassSearch.advance`, `CompassSearch.Turn`: the turns of the loop
* `CompassSearch.start`, `CompassSearch.last`: where a search begins and ends

## Main results

* `CompassSearch.tryStep_cases`, `CompassSearch.sweep_cases`, `CompassSearch.advance_cases`: all
  that a trial, a sweep and a turn of the loop can do
* `CompassSearch.Keeps.descend`: what no step destroys still holds at the end
* `CompassSearch.reflTransGen_descend`: a search consists of turns of the loop
* `CompassSearch.optimize_of_isFinite`, `CompassSearch.optimize_eq_ok_iff`: its result
-/

namespace Multifidelity

variable {α : Type} [Scalar α]

/-- The objective at the ratios of increments. -/
def RatioProblem.objectiveAt (problem : RatioProblem α) (increments : List α) : α :=
  problem.objective (CompassSearch.toRatios problem.order increments)

namespace CompassSearch

variable (search : CompassSearch α) (objective : List α → α)

/-! ## Trials and sweeps -/

/-- Increments after a step in one coordinate, which is kept in the range of the search. -/
def moved (coordinate : ℕ) (step : α) (increments : List α) : List α :=
  increments.set coordinate (search.stepped (increments.getD coordinate 0) step)

/-- A step that leads nowhere else, or not to a lower objective. -/
def Refused (coordinate : ℕ) (step : α) (point : SearchPoint α) : Prop :=
  (search.stepped (point.increments.getD coordinate 0) step ==
      point.increments.getD coordinate 0) = true ∨
    ¬ objective (search.moved coordinate step point.increments) < point.value

section Trial

variable {search objective} {coordinate : ℕ} {step : α} {point : SearchPoint α}

/-- A step that leads nowhere else costs no evaluation. -/
theorem tryStep_of_same (h : (search.stepped (point.increments.getD coordinate 0) step ==
      point.increments.getD coordinate 0) = true) :
    search.tryStep objective coordinate step point = (point, false) :=
  if_pos h

theorem tryStep_of_other (h : ¬ (search.stepped (point.increments.getD coordinate 0) step ==
      point.increments.getD coordinate 0) = true) :
    search.tryStep objective coordinate step point =
      if objective (search.moved coordinate step point.increments) < point.value then
        (⟨search.moved coordinate step point.increments,
          objective (search.moved coordinate step point.increments), point.evaluations + 1⟩, true)
      else
        ({ point with evaluations := point.evaluations + 1 }, false) :=
  if_neg h

variable (search objective) (coordinate step point)

/-- A trial refuses the step, with or without an evaluation, or it takes it to a lower objective. -/
theorem tryStep_cases :
    (search.Refused objective coordinate step point ∧ ∃ count ≤ 1,
      search.tryStep objective coordinate step point =
        ({ point with evaluations := point.evaluations + count }, false)) ∨
    (objective (search.moved coordinate step point.increments) < point.value ∧
      search.tryStep objective coordinate step point =
        (⟨search.moved coordinate step point.increments,
          objective (search.moved coordinate step point.increments), point.evaluations + 1⟩,
          true)) := by
  by_cases hsame : (search.stepped (point.increments.getD coordinate 0) step ==
      point.increments.getD coordinate 0) = true
  · exact Or.inl ⟨Or.inl hsame, 0, zero_le_one, tryStep_of_same hsame⟩
  · rw [tryStep_of_other hsame]
    split <;> rename_i hlower
    · exact Or.inr ⟨hlower, rfl⟩
    · exact Or.inl ⟨Or.inr hlower, 1, le_rfl, rfl⟩

theorem tryCoordinate_eq :
    search.tryCoordinate objective step point coordinate =
      if (search.tryStep objective coordinate (1 * step) point).2 then
        search.tryStep objective coordinate (1 * step) point
      else
        search.tryStep objective coordinate (-1 * step)
          (search.tryStep objective coordinate (1 * step) point).1 := by
  unfold tryCoordinate
  rcases search.tryStep objective coordinate (1 * step) point with ⟨next, _ | _⟩ <;> rfl

/-- A coordinate is left as it is if the steps in both directions are refused. If one is taken, that
has cost an evaluation or two. -/
theorem tryCoordinate_cases :
    ((∀ sign ∈ [1, -1], search.Refused objective coordinate (sign * step) point) ∧ ∃ count ≤ 2,
      search.tryCoordinate objective step point coordinate =
        ({ point with evaluations := point.evaluations + count }, false)) ∨
    ∃ next, search.tryCoordinate objective step point coordinate = (next, true) ∧
      point.evaluations < next.evaluations ∧ next.evaluations ≤ point.evaluations + 2 := by
  rw [tryCoordinate_eq]
  rcases search.tryStep_cases objective coordinate (1 * step) point with
    ⟨hup, up, hupLe, heq⟩ | ⟨-, heq⟩
  · rw [heq, if_neg Bool.false_ne_true]
    -- the step down starts from the same point, with one more evaluation at most
    rcases search.tryStep_cases objective coordinate (-1 * step)
      { point with evaluations := point.evaluations + up } with
      ⟨hdown, down, hdownLe, heq⟩ | ⟨-, heq⟩
    · refine Or.inl ⟨fun sign hsign => ?_, up + down, by omega, ?_⟩
      · rcases List.mem_pair.mp hsign with rfl | rfl
        · exact hup
        · exact hdown
      · simp only [heq, Nat.add_assoc]
    · exact Or.inr ⟨_, heq, by dsimp only; omega, by dsimp only; omega⟩
  · rw [heq, if_pos rfl]
    exact Or.inr ⟨_, rfl, by dsimp only; omega, by dsimp only; omega⟩

end Trial

/-- A coordinate of a sweep, which remembers whether any step has been taken. -/
def visit (step : α) (state : SearchPoint α × Bool) (coordinate : ℕ) : SearchPoint α × Bool :=
  ((search.tryCoordinate objective step state.1 coordinate).1,
    state.2 || (search.tryCoordinate objective step state.1 coordinate).2)

theorem sweep_eq_foldl (step : α) (point : SearchPoint α) :
    search.sweep objective step point =
      (List.range point.increments.length).foldl (search.visit objective step) (point, false) :=
  rfl

theorem foldl_visit_cases (step : α) (coordinates : List ℕ) (point : SearchPoint α)
    (improved : Bool) :
    (improved = false ∧
      (∀ coordinate ∈ coordinates, ∀ sign ∈ [1, -1],
        search.Refused objective coordinate (sign * step) point) ∧
      ∃ count ≤ 2 * coordinates.length,
        coordinates.foldl (search.visit objective step) (point, improved) =
          ({ point with evaluations := point.evaluations + count }, false)) ∨
    ∃ next, coordinates.foldl (search.visit objective step) (point, improved) = (next, true) ∧
      (improved = true ∨ point.evaluations < next.evaluations) ∧
      point.evaluations ≤ next.evaluations ∧
      next.evaluations ≤ point.evaluations + 2 * coordinates.length := by
  induction coordinates generalizing point improved with
  | nil =>
    cases improved
    · exact Or.inl ⟨rfl, nofun, 0, le_rfl, rfl⟩
    · exact Or.inr ⟨point, rfl, Or.inl rfl, le_rfl, le_rfl⟩
  | cons coordinate rest ih =>
    rw [List.foldl_cons, List.length_cons]
    -- all coordinates are tried at the same point until a step is taken
    rcases search.tryCoordinate_cases objective coordinate step point with
      ⟨hrefused, count, hcount, heq⟩ | ⟨next, heq, hlt, hle⟩
    · have hvisit : search.visit objective step (point, improved) coordinate =
          ({ point with evaluations := point.evaluations + count }, improved) := by
        rw [visit, heq, Bool.or_false]
      rw [hvisit]
      rcases ih { point with evaluations := point.evaluations + count } improved with
        ⟨himproved, hrest, more, hmore, heq⟩ | ⟨last, heq, hor, hlt, hle⟩
      · refine Or.inl ⟨himproved, List.forall_mem_cons.mpr ⟨hrefused, hrest⟩, count + more,
          by omega, ?_⟩
        rw [heq, Nat.add_assoc]
      · dsimp only at hor hlt hle
        exact Or.inr ⟨last, heq, hor.imp_right (by omega), by omega, by omega⟩
    · have hvisit : search.visit objective step (point, improved) coordinate = (next, true) := by
        rw [visit, heq, Bool.or_true]
      rw [hvisit]
      rcases ih next true with ⟨hfalse, -⟩ | ⟨last, heq, -, hge, hle'⟩
      · cases hfalse
      · exact Or.inr ⟨last, heq, Or.inr (by omega), by omega, by omega⟩

/-- A sweep moves, and has then evaluated the objective, or all its steps have been refused. It
evaluates the objective at most twice for each coordinate. -/
theorem sweep_cases (step : α) (point : SearchPoint α) :
    ((∀ coordinate < point.increments.length, ∀ sign ∈ [1, -1],
        search.Refused objective coordinate (sign * step) point) ∧
      ∃ count ≤ 2 * point.increments.length, search.sweep objective step point =
        ({ point with evaluations := point.evaluations + count }, false)) ∨
    ∃ next, search.sweep objective step point = (next, true) ∧
      point.evaluations < next.evaluations ∧
      next.evaluations ≤ point.evaluations + 2 * point.increments.length := by
  rw [sweep_eq_foldl]
  have hcases := search.foldl_visit_cases objective step (List.range point.increments.length) point
    false
  rw [List.length_range] at hcases
  rcases hcases with ⟨-, hrefused, hrest⟩ | ⟨next, heq, hlt, -, hle⟩
  · exact Or.inl ⟨fun coordinate hcoordinate =>
      hrefused coordinate (List.mem_range.mpr hcoordinate), hrest⟩
  · exact Or.inr ⟨next, heq, hlt.resolve_left Bool.false_ne_true, hle⟩

/-! ## What a search keeps -/

/-- What no step to a lower objective destroys. -/
def Keeps (property : List α → α → Prop) : Prop :=
  ∀ coordinate step increments value, property increments value →
    objective (search.moved coordinate step increments) < value →
    property (search.moved coordinate step increments)
      (objective (search.moved coordinate step increments))

namespace Keeps

variable {search objective} {property : List α → α → Prop} (h : search.Keeps objective property)
include h

theorem tryStep (coordinate : ℕ) (step : α) {point : SearchPoint α}
    (hpoint : property point.increments point.value) :
    property (search.tryStep objective coordinate step point).1.increments
      (search.tryStep objective coordinate step point).1.value := by
  rcases search.tryStep_cases objective coordinate step point with ⟨-, _, -, heq⟩ | ⟨hlower, heq⟩
  · rw [heq]
    exact hpoint
  · rw [heq]
    exact h coordinate step _ _ hpoint hlower

theorem tryCoordinate (step : α) {point : SearchPoint α}
    (hpoint : property point.increments point.value) (coordinate : ℕ) :
    property (search.tryCoordinate objective step point coordinate).1.increments
      (search.tryCoordinate objective step point coordinate).1.value := by
  have hup := h.tryStep coordinate (1 * step) hpoint
  rw [tryCoordinate_eq]
  split
  · exact hup
  · exact h.tryStep coordinate (-1 * step) hup

theorem sweep (step : α) {point : SearchPoint α}
    (hpoint : property point.increments point.value) :
    property (search.sweep objective step point).1.increments
      (search.sweep objective step point).1.value := by
  rw [sweep_eq_foldl]
  refine List.foldlRecOn (motive := fun state : SearchPoint α × Bool =>
    property state.1.increments state.1.value) _ _ hpoint ?_
  intro state hstate coordinate _
  exact h.tryCoordinate step hstate coordinate

/-- What no step destroys still holds at the end of a search. -/
theorem descend (fuel : ℕ) (step : α) {point : SearchPoint α}
    (hpoint : property point.increments point.value) :
    property (search.descend objective fuel step point).1.increments
      (search.descend objective fuel step point).1.value := by
  induction fuel generalizing step point with
  | zero => exact hpoint
  | succ fuel ih =>
    -- the step may be halved, but only the point matters here
    have hnext := h.sweep step hpoint
    unfold CompassSearch.descend
    split
    · split <;> rename_i heq <;> rw [heq] at hnext <;> exact ih _ hnext
    · exact hpoint

end Keeps

/-- The value is the objective at the increments. -/
theorem keeps_value : search.Keeps objective fun increments value => value = objective increments :=
  fun _ _ _ _ _ _ => rfl

/-- The number of coordinates stays the same. -/
theorem keeps_length (count : ℕ) :
    search.Keeps objective fun increments _ => increments.length = count := by
  intro coordinate step increments _ hlength _
  rw [moved, List.length_set, hlength]

/-- A search keeps one increment for every model. -/
@[simp] theorem length_descend (fuel : ℕ) (step : α) (point : SearchPoint α) :
    (search.descend objective fuel step point).1.increments.length = point.increments.length :=
  (search.keeps_length objective point.increments.length).descend fuel step rfl

/-! ## The turns of the loop -/

/-- The loop goes on as long as the step is large enough and evaluations are left. -/
def Continues (state : SearchPoint α × α) : Prop :=
  search.minStep ≤ state.2 ∧ state.1.evaluations < search.maxEvaluations

/-- The point and the step after a sweep. The step is halved unless the sweep has moved. -/
def advance (state : SearchPoint α × α) : SearchPoint α × α :=
  ((search.sweep objective state.2 state.1).1,
    if (search.sweep objective state.2 state.1).2 then state.2 else state.2 / (1 + 1))

/-- One turn of the loop. -/
def Turn (before after : SearchPoint α × α) : Prop :=
  search.Continues before ∧ after = search.advance objective before

/-- A turn of the loop halves the step after refusing all its steps, or it has evaluated the
objective and keeps the step. -/
theorem advance_cases (state : SearchPoint α × α) :
    ((∀ coordinate < state.1.increments.length, ∀ sign ∈ [1, -1],
        search.Refused objective coordinate (sign * state.2) state.1) ∧
      ∃ count ≤ 2 * state.1.increments.length, search.advance objective state =
        ({ state.1 with evaluations := state.1.evaluations + count }, state.2 / (1 + 1))) ∨
    ∃ next, search.advance objective state = (next, state.2) ∧
      state.1.evaluations < next.evaluations ∧
      next.evaluations ≤ state.1.evaluations + 2 * state.1.increments.length := by
  unfold advance
  rcases search.sweep_cases objective state.2 state.1 with
    ⟨hrefused, count, hcount, heq⟩ | ⟨next, heq, hlt, hle⟩
  · exact Or.inl ⟨hrefused, count, hcount, by rw [heq]; rfl⟩
  · exact Or.inr ⟨next, by rw [heq]; rfl, hlt, hle⟩

theorem descend_of_not_continues {step : α} {point : SearchPoint α}
    (h : ¬ search.Continues (point, step)) (fuel : ℕ) :
    search.descend objective fuel step point = (point, step) := by
  cases fuel with
  | zero => rfl
  | succ fuel => exact if_neg h

theorem descend_succ {step : α} {point : SearchPoint α} (h : search.Continues (point, step))
    (fuel : ℕ) : search.descend objective (fuel + 1) step point =
      search.descend objective fuel (search.advance objective (point, step)).2
        (search.advance objective (point, step)).1 := by
  refine (if_pos h).trans ?_
  unfold advance
  rcases hsweep : search.sweep objective step point with ⟨next, _ | _⟩ <;> rfl

/-- A search consists of turns of the loop. -/
theorem reflTransGen_descend (fuel : ℕ) (step : α) (point : SearchPoint α) :
    Relation.ReflTransGen (search.Turn objective) (point, step)
      (search.descend objective fuel step point) := by
  induction fuel generalizing step point with
  | zero => exact .refl
  | succ fuel ih =>
    by_cases h : search.Continues (point, step)
    · rw [search.descend_succ objective h]
      exact .head ⟨h, rfl⟩ (ih _ _)
    · rw [search.descend_of_not_continues objective h]

/-! ## The whole search -/

variable (problem : RatioProblem α) (initial : List α)

/-- The point that a search starts from. -/
def start : SearchPoint α where
  increments := search.toIncrements problem.order initial
  value := problem.objectiveAt (search.toIncrements problem.order initial)
  evaluations := 1

/-- The point and the step that a search ends with. -/
def last : SearchPoint α × α :=
  search.descend problem.objectiveAt search.maxSweeps search.initialStep
    (search.start problem initial)

variable {search problem initial}

/-- What no step destroys holds at the end of a search if it holds at the start. -/
theorem Keeps.last {property : List α → α → Prop} (h : search.Keeps problem.objectiveAt property)
    (hstart : property (search.start problem initial).increments
      (search.start problem initial).value) :
    property (search.last problem initial).1.increments (search.last problem initial).1.value :=
  h.descend _ _ hstart

@[simp] theorem length_start :
    (search.start problem initial).increments.length = initial.length := by
  simp [start, toIncrements]

@[simp] theorem length_last :
    (search.last problem initial).1.increments.length = initial.length := by
  simp [CompassSearch.last]

theorem value_last : (search.last problem initial).1.value =
    problem.objectiveAt (search.last problem initial).1.increments :=
  (search.keeps_value _).last rfl

theorem optimize_of_isFinite (h : Scalar.isFinite (search.start problem initial).value = true) :
    search.optimize problem initial =
      ⟨[.searchFinished (search.last problem initial).1.evaluations
          (search.last problem initial).1.value],
        .ok (toRatios problem.order (search.last problem initial).1.increments)⟩ := by
  refine (if_neg ?_).trans rfl
  rw [Bool.not_eq_true, Bool.not_eq_false']
  exact h

theorem optimize_of_not_isFinite
    (h : Scalar.isFinite (search.start problem initial).value = false) :
    search.optimize problem initial = ⟨[], .error (.optimizer (.startNotFinite initial))⟩ := by
  refine (if_pos ?_).trans rfl
  rw [Bool.not_eq_true']
  exact h

/-- A search returns the ratios of its last increments, provided that it starts at a number. -/
theorem optimize_eq_ok_iff {found : List α} :
    (search.optimize problem initial).outcome = .ok found ↔
      Scalar.isFinite (search.start problem initial).value = true ∧
        found = toRatios problem.order (search.last problem initial).1.increments := by
  cases h : Scalar.isFinite (search.start problem initial).value with
  | false =>
    rw [optimize_of_not_isFinite h]
    exact iff_of_false nofun (nomatch ·.1)
  | true =>
    rw [optimize_of_isFinite h]
    exact ⟨fun heq => ⟨rfl, (Except.ok.inj heq).symm⟩, fun ⟨_, heq⟩ => congrArg _ heq.symm⟩

end CompassSearch

end Multifidelity
