import Multifidelity.Proofs.Allocation.Parametrization

/-!
# The effort of a search

A search evaluates the objective no more often than it counts: what it does is the same for all
objectives with the same values at so many points. Every turn of its loop raises that number or
halves the step. A positive least step is thus undercut in the end, unless the evaluations are used
up before. The limit is only looked at between two sweeps, and a sweep evaluates the objective at
most twice for each coordinate.

## Main definitions

* `CompassSearch.Evaluates`: computations that count the points at which they need the objective
* `CompassSearch.coarse`: a search with steps of one size
* `crossedProblem`: a problem for two models in reversed order

## Main results

* `CompassSearch.Evaluates.bind`: counting through a sequence of two computations
* `CompassSearch.evaluates_descend`: a search counts correctly
* `CompassSearch.evaluations_descend_le`: how far a search overruns its limit
* `CompassSearch.not_continues_last`: the loop has come to its end when the search returns
* `CompassSearch.optimize_terminates`: all of this for a search with real steps
-/

namespace Multifidelity

open ExactReal

namespace CompassSearch

section Counting

variable {α β γ : Type} {objective : List α → α}

/-! ## Counting the evaluations -/

/-- A computation that takes a count of evaluations on by the number of points at which it needs the
objective. Objectives with the same values there lead to the same result. -/
def Evaluates (compute : (List α → α) → SearchPoint α × β) (objective : List α → α) (count : ℕ) :
    Prop :=
  ∃ queries : List (List α), (compute objective).1.evaluations = count + queries.length ∧
    ∀ other : List α → α, (∀ increments ∈ queries, other increments = objective increments) →
      compute other = compute objective

theorem evaluates_const (state : SearchPoint α × β) :
    Evaluates (fun _ => state) objective state.1.evaluations :=
  ⟨[], rfl, fun _ _ => rfl⟩

/-- A second computation starts from the result of the first one, and the counts add up. -/
theorem Evaluates.bind {count : ℕ} {compute : (List α → α) → SearchPoint α × β}
    (h : Evaluates compute objective count)
    (next : SearchPoint α × β → (List α → α) → SearchPoint α × γ)
    (hnext : Evaluates (next (compute objective)) objective (compute objective).1.evaluations) :
    Evaluates (fun other => next (compute other) other) objective count := by
  obtain ⟨first, hfirst, hsame⟩ := h
  obtain ⟨second, hsecond, hsame'⟩ := hnext
  refine ⟨first ++ second, ?_, fun other hother => ?_⟩
  · rw [List.length_append, ← Nat.add_assoc, ← hfirst]
    exact hsecond
  · have hfirst := hsame other fun x hx => hother x (List.mem_append_left _ hx)
    have hsecond := hsame' other fun x hx => hother x (List.mem_append_right _ hx)
    dsimp only
    rw [hfirst, hsecond]

variable [Scalar α] (search : CompassSearch α) (objective)

theorem evaluates_tryStep (coordinate : ℕ) (step : α) (point : SearchPoint α) :
    Evaluates (fun other => search.tryStep other coordinate step point) objective
      point.evaluations := by
  by_cases hsame : (search.stepped (point.increments.getD coordinate 0) step ==
      point.increments.getD coordinate 0) = true
  · simp only [tryStep_of_same hsame]
    exact evaluates_const (point, false)
  · simp only [tryStep_of_other hsame]
    -- the only point that is needed is the one that the step leads to
    refine ⟨[search.moved coordinate step point.increments], ?_, fun other hother => ?_⟩
    · dsimp only
      split <;> rfl
    · dsimp only
      rw [hother _ List.mem_cons_self]

theorem evaluates_tryCoordinate (step : α) (point : SearchPoint α) (coordinate : ℕ) :
    Evaluates (fun other => search.tryCoordinate other step point coordinate) objective
      point.evaluations := by
  let next : SearchPoint α × Bool → (List α → α) → SearchPoint α × Bool := fun state other =>
    if state.2 then state else search.tryStep other coordinate (-1 * step) state.1
  have hnext : ∀ state, Evaluates (next state) objective state.1.evaluations := by
    rintro ⟨point, _ | _⟩
    · exact search.evaluates_tryStep objective coordinate (-1 * step) point
    · exact evaluates_const (point, true)
  simp only [tryCoordinate_eq]
  exact (search.evaluates_tryStep objective coordinate (1 * step) point).bind next (hnext _)

theorem evaluates_visit (step : α) (state : SearchPoint α × Bool) (coordinate : ℕ) :
    Evaluates (fun other => search.visit other step state coordinate) objective
      state.1.evaluations :=
  (search.evaluates_tryCoordinate objective step state.1 coordinate).bind
    (fun next _ => (next.1, state.2 || next.2)) (evaluates_const _)

theorem evaluates_sweep (step : α) (point : SearchPoint α) :
    Evaluates (fun other => search.sweep other step point) objective point.evaluations := by
  have hfold : ∀ (coordinates : List ℕ) (state : SearchPoint α × Bool),
      Evaluates (fun other => coordinates.foldl (search.visit other step) state) objective
        state.1.evaluations := by
    intro coordinates
    induction coordinates with
    | nil => exact evaluates_const
    | cons coordinate rest ih =>
      intro state
      exact (search.evaluates_visit objective step state coordinate).bind
        (fun next other => rest.foldl (search.visit other step) next) (ih _)
  exact hfold (List.range point.increments.length) (point, false)

theorem evaluates_advance (state : SearchPoint α × α) :
    Evaluates (fun other => search.advance other state) objective state.1.evaluations :=
  (search.evaluates_sweep objective state.2 state.1).bind
    (fun next _ => (next.1, if next.2 then state.2 else state.2 / (1 + 1))) (evaluates_const _)

/-- A search counts the points at which it needs the objective. -/
theorem evaluates_descend (fuel : ℕ) (step : α) (point : SearchPoint α) :
    Evaluates (fun other => search.descend other fuel step point) objective
      point.evaluations := by
  induction fuel generalizing step point with
  | zero => exact evaluates_const (point, step)
  | succ fuel ih =>
    by_cases h : search.Continues (point, step)
    · have hturn : (fun other => search.descend other (fuel + 1) step point) = fun other =>
          search.descend other fuel (search.advance other (point, step)).2
            (search.advance other (point, step)).1 :=
        funext fun other => search.descend_succ other h fuel
      rw [hturn]
      exact (search.evaluates_advance objective (point, step)).bind
        (fun next other => search.descend other fuel next.2 next.1) (ih _ _)
    · have hend : (fun other => search.descend other (fuel + 1) step point) =
          fun _ => (point, step) :=
        funext fun other => search.descend_of_not_continues other h (fuel + 1)
      rw [hend]
      exact evaluates_const (point, step)

/-! ## The limit on the evaluations -/

theorem length_advance (state : SearchPoint α × α) :
    (search.advance objective state).1.increments.length = state.1.increments.length :=
  (search.keeps_length objective state.1.increments.length).sweep state.2 rfl

/-- The last sweep starts below the limit, and takes two evaluations for each coordinate at most. -/
theorem evaluations_descend_le (fuel : ℕ) (step : α) (point : SearchPoint α) :
    (search.descend objective fuel step point).1.evaluations ≤
      max point.evaluations (search.maxEvaluations + 2 * point.increments.length - 1) := by
  induction fuel generalizing step point with
  | zero => exact le_max_left _ _
  | succ fuel ih =>
    by_cases h : search.Continues (point, step)
    · have hlast := ih (search.advance objective (point, step)).2
        (search.advance objective (point, step)).1
      rw [length_advance] at hlast
      rw [search.descend_succ objective h]
      have hnext : (search.advance objective (point, step)).1.evaluations ≤
          point.evaluations + 2 * point.increments.length := by
        rcases search.advance_cases objective (point, step) with
          ⟨-, count, hcount, heq⟩ | ⟨next, heq, -, hle⟩
        · rw [heq]
          exact Nat.add_le_add_left hcount _
        · rw [heq]
          exact hle
      -- a sweep starts below the limit, and so does the last one
      have hbelow : point.evaluations < search.maxEvaluations := h.2
      dsimp only at hlast
      omega
    · rw [search.descend_of_not_continues objective h]
      exact le_max_left _ _

end Counting

/-! ## The end of the loop -/

theorem half_real (step : ℝ) : real step / (1 + 1) = real (step / 2) := by
  rw [one_eq, real_add, real_div (by norm_num), one_add_one_eq_two]

variable {search : CompassSearch ExactReal} {least : ℝ} (hleast : search.minStep = real least)
include hleast

/-- As many sweeps suffice as there are evaluations left and halvings to the least step. -/
theorem not_continues_descend (objective : List ExactReal → ExactReal) (halvings : ℕ) {fuel : ℕ}
    {step : ℝ} {point : SearchPoint ExactReal} (hstep : step < least * 2 ^ halvings)
    (hfuel : search.maxEvaluations - point.evaluations + halvings ≤ fuel) :
    ¬ search.Continues (search.descend objective fuel (real step) point) := by
  induction fuel generalizing halvings step point with
  | zero =>
    rintro ⟨-, hbelow⟩
    change point.evaluations < search.maxEvaluations at hbelow
    omega
  | succ fuel ih =>
    by_cases h : search.Continues (point, real step)
    · rw [search.descend_succ objective h]
      obtain ⟨hle, hbelow⟩ := h
      dsimp only at hle hbelow
      rw [hleast, real_le_real] at hle
      rcases search.advance_cases objective (point, real step) with
        ⟨-, count, -, heq⟩ | ⟨next, heq, hlt, -⟩
      · -- the step is not below the least one, so that a halving is left
        rw [heq, half_real]
        cases halvings with
        | zero => linarith
        | succ halvings =>
          refine ih halvings ?_ (by dsimp only; omega)
          rw [pow_succ] at hstep
          linarith
      · -- the step stays, and one evaluation less is left
        rw [heq]
        dsimp only at hlt
        exact ih halvings hstep (by dsimp only; omega)
    · rw [search.descend_of_not_continues objective h]
      exact h

/-- The loop has come to its end when the search returns. -/
theorem not_continues_last {first : ℝ} (hfirst : search.initialStep = real first)
    (hpos : 0 < least) (problem : RatioProblem ExactReal) (initial : List ExactReal) :
    ¬ search.Continues (search.last problem initial) := by
  have hhalvings : search.maxSweeps = search.maxEvaluations + (⌊first / least⌋₊ + 1) := by
    rw [maxSweeps, hfirst, hleast]
    rfl
  rw [last, hhalvings, hfirst]
  refine not_continues_descend hleast _ (⌊first / least⌋₊ + 1) ?_ (by omega)
  rw [mul_comm, ← div_lt_iff₀ hpos]
  calc first / least < (⌊first / least⌋₊ + 1 : ℕ) := by
        exact_mod_cast Nat.lt_floor_add_one (first / least)
    _ ≤ 2 ^ (⌊first / least⌋₊ + 1) := by exact_mod_cast Nat.lt_two_pow_self.le

omit hleast in
/-- A search needs the objective at no more ratios than it counts, and says how many they are. -/
theorem exists_queries (search : CompassSearch ExactReal) (problem : RatioProblem ExactReal)
    (initial : List ExactReal) :
    ∃ queries : List (List ExactReal),
      queries.length ≤ max 1 (search.maxEvaluations + 2 * initial.length - 1) ∧
      (∀ other : RatioProblem ExactReal, other.order = problem.order →
        (∀ ratios ∈ queries, other.objective ratios = problem.objective ratios) →
        search.optimize other initial = search.optimize problem initial) ∧
      ∀ found, (search.optimize problem initial).outcome = .ok found →
        (search.optimize problem initial).journal =
          [.searchFinished queries.length (problem.objective found)] := by
  -- the first ratios are always needed
  have hstart : ∀ other : RatioProblem ExactReal, other.order = problem.order →
      other.objective (toRatios problem.order (search.start problem initial).increments) =
        (search.start problem initial).value →
      search.start other initial = search.start problem initial := by
    intro other horder hvalue
    simp only [start, RatioProblem.objectiveAt, horder] at hvalue ⊢
    rw [hvalue]
  cases hfinite : Scalar.isFinite (search.start problem initial).value with
  | false =>
    refine ⟨[toRatios problem.order (search.start problem initial).increments], le_max_left _ _,
      fun other horder hother => ?_, fun found hfound => ?_⟩
    · have hsame := hstart other horder (hother _ List.mem_cons_self)
      rw [optimize_of_not_isFinite hfinite, optimize_of_not_isFinite (by rw [hsame, hfinite])]
    · rw [optimize_of_not_isFinite hfinite] at hfound
      cases hfound
  | true =>
    obtain ⟨queries, hcount, hqueries⟩ := search.evaluates_descend problem.objectiveAt
      search.maxSweeps search.initialStep (search.start problem initial)
    have hle := search.evaluations_descend_le problem.objectiveAt search.maxSweeps
      search.initialStep (search.start problem initial)
    rw [hcount, length_start] at hle
    refine ⟨toRatios problem.order (search.start problem initial).increments ::
      queries.map (toRatios problem.order), ?_, fun other horder hother => ?_,
      fun found hfound => ?_⟩
    · rw [List.length_cons, List.length_map, Nat.add_comm]
      exact hle
    · have hsame := hstart other horder (hother _ List.mem_cons_self)
      have hlast : search.last other initial = search.last problem initial := by
        rw [last, hsame]
        refine hqueries other.objectiveAt fun increments hincrements => ?_
        rw [RatioProblem.objectiveAt, horder]
        exact hother _ (List.mem_cons_of_mem _ (List.mem_map_of_mem hincrements))
      rw [optimize_of_isFinite hfinite, optimize_of_isFinite (by rw [hsame, hfinite]), hlast,
        horder]
    · obtain ⟨-, rfl⟩ := optimize_eq_ok_iff.mp hfound
      have hevaluations : (search.last problem initial).1.evaluations = 1 + queries.length := hcount
      rw [optimize_of_isFinite hfinite, hevaluations, value_last, List.length_cons, List.length_map,
        Nat.add_comm]
      rfl

/-- A search with a real first step and a positive least step comes to its end, in turns of its loop
that raise the number of evaluations or halve the step. It needs the objective at no more ratios
than its limit allows, up to two for each initial ratio that the last sweep may add, and it reports
their number. -/
theorem optimize_terminates {first : ℝ} (hfirst : search.initialStep = real first)
    (hpos : 0 < least) (problem : RatioProblem ExactReal) (initial : List ExactReal) :
    (∃ last, Relation.ReflTransGen (search.Turn problem.objectiveAt)
        (search.start problem initial, search.initialStep) last ∧ ¬ search.Continues last ∧
      ∀ found, (search.optimize problem initial).outcome = .ok found →
        found = toRatios problem.order last.1.increments) ∧
    (∀ before after, search.Turn problem.objectiveAt before after →
      before.1.evaluations < after.1.evaluations ∨ after.2 = before.2 / (1 + 1)) ∧
    ∃ queries : List (List ExactReal),
      queries.length ≤ max 1 (search.maxEvaluations + 2 * initial.length - 1) ∧
      (∀ other : RatioProblem ExactReal, other.order = problem.order →
        (∀ ratios ∈ queries, other.objective ratios = problem.objective ratios) →
        search.optimize other initial = search.optimize problem initial) ∧
      ∀ found, (search.optimize problem initial).outcome = .ok found →
        (search.optimize problem initial).journal =
          [.searchFinished queries.length (problem.objective found)] := by
  refine ⟨⟨search.last problem initial, search.reflTransGen_descend _ _ _ _,
    not_continues_last hleast hfirst hpos problem initial, fun found hfound =>
      (optimize_eq_ok_iff.mp hfound).2⟩, ?_, exists_queries search problem initial⟩
  rintro before after ⟨-, rfl⟩
  rcases search.advance_cases problem.objectiveAt before with
    ⟨-, count, -, heq⟩ | ⟨next, heq, hlt, -⟩
  · rw [heq]
    exact Or.inr rfl
  · rw [heq]
    exact Or.inl hlt

omit hleast

/-! ## A search along two models -/

/-- A search that takes steps of one size only, up to increments of that size. -/
noncomputable def coarse (size : ℝ) : CompassSearch ExactReal :=
  ⟨real size, real size, real size, 10⟩

theorem stepped_coarse_up (size : ℝ) {x : ℝ} (hx : 0 ≤ x) :
    (coarse size).stepped (real x) (1 * real size) = real size := by
  have hlarge : size ≤ max (x + size) 0 := le_max_of_le_left (le_add_of_nonneg_left hx)
  rw [stepped, one_eq, real_mul, one_mul, real_add, zero_eq, larger_real]
  exact (smaller_real _ _).trans (congrArg real (min_eq_right hlarge))

theorem stepped_coarse_down {size : ℝ} (hsize : 0 < size) {x : ℝ} (hx : x ≤ size) :
    (coarse size).stepped (real x) (-1 * real size) = real 0 := by
  have hsmall : max (x + -size) 0 = 0 := max_eq_right (by linarith)
  rw [stepped, one_eq, real_neg, real_mul, neg_one_mul, real_add, zero_eq, larger_real, hsmall]
  exact (smaller_real _ _).trans (congrArg real (min_eq_left hsize.le))

section Coarse

variable {size : ℝ} (hsize : 0 < size) {objective : List ExactReal → ExactReal}
  {increments : List ExactReal} {coordinate : ℕ} (value : ExactReal) (count : ℕ)
include hsize

/-- From the lower end of the range only the step up is tried. -/
theorem tryCoordinate_coarse_of_low (h : increments.getD coordinate 0 = real 0) :
    (coarse size).tryCoordinate objective (real size) ⟨increments, value, count⟩ coordinate =
      if objective (increments.set coordinate (real size)) < value then
        (⟨increments.set coordinate (real size),
          objective (increments.set coordinate (real size)), count + 1⟩, true)
      else (⟨increments, value, count + 1⟩, false) := by
  have hup := stepped_coarse_up size le_rfl
  have hdown := stepped_coarse_down hsize hsize.le
  have hmoved : (coarse size).moved coordinate (1 * real size) increments =
      increments.set coordinate (real size) := by
    rw [moved, h, hup]
  rw [tryCoordinate_eq, tryStep_of_other, hmoved]
  · by_cases hlower : objective (increments.set coordinate (real size)) < value
    · simp only [if_pos hlower, if_true]
    · simp only [if_neg hlower, if_neg Bool.false_ne_true]
      exact tryStep_of_same (by simp only [h, hdown, beq_real])
  · simp only [h, hup, beq_real, hsize.ne', not_false_eq_true]

/-- From the upper end of the range only the step down is tried. -/
theorem tryCoordinate_coarse_of_high (h : increments.getD coordinate 0 = real size) :
    (coarse size).tryCoordinate objective (real size) ⟨increments, value, count⟩ coordinate =
      if objective (increments.set coordinate (real 0)) < value then
        (⟨increments.set coordinate (real 0),
          objective (increments.set coordinate (real 0)), count + 1⟩, true)
      else (⟨increments, value, count + 1⟩, false) := by
  have hup := stepped_coarse_up size hsize.le
  have hdown := stepped_coarse_down hsize le_rfl
  have hmoved : (coarse size).moved coordinate (-1 * real size) increments =
      increments.set coordinate (real 0) := by
    rw [moved, h, hdown]
  rw [tryCoordinate_eq, tryStep_of_same, if_neg Bool.false_ne_true, tryStep_of_other, hmoved]
  · simp only [h, hdown, beq_real, hsize.ne, not_false_eq_true]
  · simp only [h, hup, beq_real]

end Coarse

theorem advance_pair {α : Type} [Scalar α] (search : CompassSearch α) (objective : List α → α)
    (x y value step : α) (count : ℕ) :
    search.advance objective (⟨[x, y], value, count⟩, step) =
      let first := search.tryCoordinate objective step ⟨[x, y], value, count⟩ 0
      let second := search.tryCoordinate objective step first.1 1
      (second.1, if first.2 || second.2 then step else step / (1 + 1)) :=
  rfl

/-- The first ratio belongs to the model at the last position. -/
theorem toRatios_crossed (x y : ℝ) :
    toRatios [1, 0] [real x, real y] = [real (Real.exp y), real (Real.exp (x + y))] := by
  have hsums : suffixSums ([x, y].map real) = [real (x + y), real y] := by
    rw [suffixSums_real]
    simp [List.range_succ]
  exact congrArg (fun sums => ModelOrder.scatter [1, 0] (sums.map Scalar.exp)) hsums

end CompassSearch

/-- One QoI and two models, of which the first is the more correlated one and costs as much as the
high-fidelity model, and the second costs a quarter of that. A budget has to cover the one sample
already drawn. -/
noncomputable def crossedProblem : RatioProblem ExactReal where
  rhoSq := ⟨1, 2, [real 0.75, real 0.5]⟩
  varHigh := [1]
  varLow := ⟨1, 2, [1, 1]⟩
  costs := ⟨[real 1, real 0.25, real 1]⟩
  order := [1, 0]
  constraint := .budget (real 4.5)
  minHigh := some 1

theorem valid_crossed : crossedProblem.order.Valid 2 := Or.inr (.swap 0 1 [])

theorem relativeCost_crossed (first second : ℝ) :
    crossedProblem.relativeCost [real first, real second] = real (1 + first + second / 4) := by
  have hcosts : crossedProblem.costs = ⟨[1, 0.25, 1].map real⟩ := rfl
  have hcost : crossedProblem.relativeCost ([first, second].map real) = _ :=
    relativeCost_real hcosts one_ne_zero [first, second]
  refine hcost.trans (congrArg real ?_)
  norm_num [profileCost, crossedProblem, RatioProblem.numApprox]
  ring

theorem varianceFactor_crossed {first second : ℝ} (hfirst : first ≠ 0) (hsecond : second ≠ 0) :
    crossedProblem.varianceFactor [real first, real second] =
      real (1 / 2 / second + 1 / 4 / first + 1 / 4) := by
  have hpart : (1 : ExactReal) - rSquared ([0.75, 0.5].map real) ([first, second].map real) [1, 0] =
      _ := one_sub_rSquared_real valid_crossed rfl (by simp [hfirst, hsecond])
  have haverage : ∀ x : ExactReal, average [x] = x := average_replicate_self one_ne_zero
  -- along the order the gains are a half, a quarter and a quarter
  change average [1 * (1 - rSquared ([0.75, 0.5].map real) ([first, second].map real) [1, 0])] = _
  rw [haverage, hpart, one_eq, real_mul]
  norm_num [Finset.sum_range_succ, gain, ModelOrder.ladder, ModelOrder.model]

theorem objective_crossed {first second : ℝ} (hfirst : first ≠ 0) (hsecond : second ≠ 0)
    (hfit : first + second / 4 ≤ 7 / 2) :
    crossedProblem.objective [real first, real second] =
      real ((1 / 2 / second + 1 / 4 / first + 1 / 4) * (1 + first + second / 4)) := by
  have hfeasible : crossedProblem.isFeasible [real first, real second] = true := by
    have hslack : (real 4.5 : ExactReal) * (1 + 1e-10) = real (4.5 * (1 + 1e-10)) := by simp
    refine decide_eq_true ?_
    rw [relativeCost_crossed, hslack, one_eq, real_mul, real_le_real]
    norm_num
    linarith
  rw [RatioProblem.objective, if_pos hfeasible, varianceFactor_crossed hfirst hsecond,
    relativeCost_crossed, real_mul]

theorem objectiveAt_crossed (x y : ℝ) :
    crossedProblem.objectiveAt [real x, real y] =
      crossedProblem.objective [real (Real.exp y), real (Real.exp (x + y))] :=
  congrArg crossedProblem.objective (CompassSearch.toRatios_crossed x y)

/-- The objective where no ratio, only that of the second model, both ratios and both increments are
raised. -/
theorem objectiveAt_crossed_corners :
    crossedProblem.objectiveAt [real 0, real 0] = real (9 / 4) ∧
      crossedProblem.objectiveAt [real (Real.log 2), real 0] = real (15 / 8) ∧
      crossedProblem.objectiveAt [real 0, real (Real.log 2)] = real (35 / 16) ∧
      crossedProblem.objectiveAt [real (Real.log 2), real (Real.log 2)] = real 2 := by
  have htwo : Real.exp (Real.log 2) = 2 := Real.exp_log two_pos
  simp only [objectiveAt_crossed, Real.exp_add, htwo, Real.exp_zero, mul_one, one_mul]
  refine ⟨?_, ?_, ?_, ?_⟩ <;> rw [objective_crossed] <;> norm_num

namespace CompassSearch

theorem log_two_pos : 0 < Real.log 2 := Real.log_pos one_lt_two

theorem start_crossed : (coarse (Real.log 2)).start crossedProblem [real 2, real 2] =
    ⟨[real 0, real (Real.log 2)], real (35 / 16), 1⟩ := by
  have hmax : (coarse (Real.log 2)).maxLogRatio = real (Real.log 2) := rfl
  have hincrements : (coarse (Real.log 2)).toIncrements crossedProblem.order [real 2, real 2] =
      [real 0, real (Real.log 2)] := by
    -- equal ratios have their increment at the last position
    have hlisted : ModelOrder.listed crossedProblem.order [2, 2] = [2, 2] := rfl
    have hreal : (coarse (Real.log 2)).toIncrements crossedProblem.order ([2, 2].map real) = _ :=
      toIncrements_real hmax crossedProblem.order [2, 2]
    simpa [hlisted, logIncrements, log_two_pos.le] using hreal
  rw [start, hincrements, objectiveAt_crossed_corners.2.2.1]

/-- The first sweep takes a step up in the first coordinate and one down in the second. -/
theorem advance_crossed_first : (coarse (Real.log 2)).advance crossedProblem.objectiveAt
      (⟨[real 0, real (Real.log 2)], real (35 / 16), 1⟩, real (Real.log 2)) =
    (⟨[real (Real.log 2), real 0], real (15 / 8), 3⟩, real (Real.log 2)) := by
  obtain ⟨-, hlast, -, hnext⟩ := objectiveAt_crossed_corners
  have hup : (real 2 : ExactReal) < real (35 / 16) := real_lt_real.mpr (by norm_num)
  have hdown : (real (15 / 8) : ExactReal) < real 2 := real_lt_real.mpr (by norm_num)
  rw [advance_pair, tryCoordinate_coarse_of_low log_two_pos _ _ rfl, List.set_cons_zero, hnext,
    if_pos hup]
  dsimp only
  rw [tryCoordinate_coarse_of_high log_two_pos _ _ rfl, List.set_cons_succ, List.set_cons_zero,
    hlast, if_pos hdown]
  rfl

/-- The second sweep finds no better corner. -/
theorem advance_crossed_second : (coarse (Real.log 2)).advance crossedProblem.objectiveAt
      (⟨[real (Real.log 2), real 0], real (15 / 8), 3⟩, real (Real.log 2)) =
    (⟨[real (Real.log 2), real 0], real (15 / 8), 5⟩, real (Real.log 2 / 2)) := by
  obtain ⟨hdown, -, -, hup⟩ := objectiveAt_crossed_corners
  have hnotDown : ¬ (real (9 / 4) : ExactReal) < real (15 / 8) := by
    rw [real_lt_real]
    norm_num
  have hnotUp : ¬ (real 2 : ExactReal) < real (15 / 8) := by
    rw [real_lt_real]
    norm_num
  rw [advance_pair, tryCoordinate_coarse_of_high log_two_pos _ _ rfl, List.set_cons_zero, hdown,
    if_neg hnotDown]
  dsimp only
  rw [tryCoordinate_coarse_of_low log_two_pos _ _ rfl, List.set_cons_succ, List.set_cons_zero,
    hup, if_neg hnotUp, ← half_real]
  rfl

theorem last_crossed : (coarse (Real.log 2)).last crossedProblem [real 2, real 2] =
    (⟨[real (Real.log 2), real 0], real (15 / 8), 5⟩, real (Real.log 2 / 2)) := by
  have hcontinues : ∀ point : SearchPoint ExactReal, point.evaluations < 10 →
      (coarse (Real.log 2)).Continues (point, real (Real.log 2)) :=
    fun _ hbelow => ⟨real_le_real.mpr le_rfl, hbelow⟩
  have hend : ∀ point : SearchPoint ExactReal,
      ¬ (coarse (Real.log 2)).Continues (point, real (Real.log 2 / 2)) :=
    fun _ h => (half_lt_self log_two_pos).not_ge (real_le_real.mp h.1)
  obtain ⟨fuel, hfuel⟩ : ∃ fuel, (coarse (Real.log 2)).maxSweeps = fuel + 2 :=
    ⟨_, Nat.add_right_comm 8 2 _⟩
  have hstep : (coarse (Real.log 2)).initialStep = real (Real.log 2) := rfl
  -- the second sweep halves the step, which ends the loop
  rw [last, start_crossed, hfuel, hstep, descend_succ _ _ (hcontinues _ (by decide)),
    advance_crossed_first, descend_succ _ _ (hcontinues _ (by decide)), advance_crossed_second,
    descend_of_not_continues _ _ (hend _)]

/-- From ratios of two the search finds that only the second model needs more samples. -/
theorem optimize_crossed : (coarse (Real.log 2)).optimize crossedProblem [real 2, real 2] =
    ⟨[.searchFinished 5 (real (15 / 8))], .ok [real 1, real 2]⟩ := by
  have hratios : toRatios crossedProblem.order [real (Real.log 2), real 0] = [real 1, real 2] := by
    have htwo : Real.exp (Real.log 2) = 2 := Real.exp_log two_pos
    have hreal : toRatios crossedProblem.order [real (Real.log 2), real 0] = _ :=
      toRatios_crossed (Real.log 2) 0
    rwa [add_zero, Real.exp_zero, htwo] at hreal
  rw [optimize_of_isFinite (by rw [start_crossed, isFinite_real]), last_crossed, hratios]

/-- The search needs the objective at five ratios. -/
theorem optimize_terminates_coarse :
    ∃ queries : List (List ExactReal), queries.length = 5 ∧
      ∀ other : RatioProblem ExactReal, other.order = [1, 0] →
        (∀ ratios ∈ queries, other.objective ratios = crossedProblem.objective ratios) →
        (coarse (Real.log 2)).optimize other [real 2, real 2] =
          ⟨[.searchFinished 5 (real (15 / 8))], .ok [real 1, real 2]⟩ := by
  have hleast : (coarse (Real.log 2)).minStep = real (Real.log 2) := rfl
  obtain ⟨-, -, queries, -, hsame, hjournal⟩ :=
    optimize_terminates hleast rfl log_two_pos crossedProblem [real 2, real 2]
  have hcount := hjournal [real 1, real 2] (congrArg Recorder.outcome optimize_crossed)
  rw [optimize_crossed] at hcount hsame
  injection List.singleton_inj.mp hcount with hfive
  exact ⟨queries, hfive.symm, hsame⟩

end CompassSearch

end Multifidelity
