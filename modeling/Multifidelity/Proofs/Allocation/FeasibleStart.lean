import Multifidelity.Proofs.Allocation.SearchOrder
import Multifidelity.Proofs.Allocation.SearchStart

/-!
# A search starts inside its constraints

The ratios that a search hands to the optimizer are nested along the order of its problem, and they
are feasible: what does not fit the budget has been scaled to it, which raises no ratio above the
one in front of it and leaves none below one. A compass search therefore finds a real objective at
its start, and it cannot fail.

## Main definitions

* `RatioProblem.IsAdmissible`: ratios that satisfy all constraints of a problem

## Main results

* `RatioInputs.Startable.isAdmissible`: what a search poses is admissible
* `numericalSolution_starts_admissible`: the start under a budget that is not exhausted
-/

namespace Multifidelity

open ExactReal

/-- One ratio for every model, nested along the order of the problem, with which its budget has room
for the samples already drawn. -/
structure RatioProblem.IsAdmissible (problem : RatioProblem ExactReal) (ratios : List ExactReal) :
    Prop where
  length : ratios.length = problem.numApprox
  nested : problem.order.Nested problem.numApprox ratios
  feasible : problem.isFeasible ratios = true

namespace RatioInputs

variable {inputs : RatioInputs ExactReal} {rhoSq : QoiMatrix ExactReal}

/-- Where a search can start, it hands the optimizer ratios that satisfy all constraints. -/
theorem Startable.isAdmissible (h : inputs.Startable rhoSq) {problem : RatioProblem ExactReal}
    {initial : List ExactReal} (hposes : inputs.Poses rhoSq problem initial) :
    problem.IsAdmissible initial := by
  obtain ⟨posed, fit, hposed, hlength, -, hnested, hfeasible⟩ := h.exists_poses
  obtain ⟨rfl, rfl⟩ := hposes.unique hposed
  obtain ⟨rfl, horder, -, -⟩ := problem_eq_ok hposes.1
  refine ⟨by rwa [List.length_map], ?_, hfeasible fit rfl fun _ _ => le_rfl⟩
  rw [horder]
  exact hnested

end RatioInputs

open RatioInputs

/-- Under a budget that is not exhausted, the optimizer is consulted about one problem from one
start, which satisfies all constraints of the problem: the ratios are one or more, do not increase
along the order of the problem, and are feasible. This holds for squared correlations below one and
positive costs, whether the search starts from the closed form or from the pyramid that the search
before has left. Hence a compass search with a largest increment that is not negative always leads
to a solution. -/
theorem numericalSolution_starts_admissible {inputs : RatioInputs ExactReal}
    {rhoSq : QoiMatrix ExactReal} {budget : ℝ} (htarget : inputs.target = .budget (real budget))
    (hcosts : inputs.costs.Usable rhoSq.cols) (hhigh : 0 < inputs.averageHigh)
    (hroom : inputs.isExhausted rhoSq.cols (real budget) = false) (hrows : 0 < rhoSq.rows)
    (hfull : rhoSq.Full) (hrange : ∀ value ∈ rhoSq.entries, 0 ≤ value ∧ value < 1)
    (hprevious : ∀ solution, inputs.previous = some solution → solution.form = .numerical →
      solution.IsPyramid ⟨rhoSq.cols, rhoSq.rows⟩) :
    (∃ initial, (inputs.budgetProblem rhoSq (real budget)).IsAdmissible initial ∧
      ∀ optimizer problem start,
        .consulted problem start ∈ (inputs.numericalSolution rhoSq optimizer).journal ↔
          problem = inputs.budgetProblem rhoSq (real budget) ∧ start = initial) ∧
    ∀ vars : List ℝ, inputs.correlations.varHigh = vars.map real → vars.length = rhoSq.rows →
      ∀ search : CompassSearch ExactReal, ∀ limit : ℝ, 0 ≤ limit →
        search.maxLogRatio = real limit →
          ∃ solution, (inputs.numericalSolution rhoSq search.optimize).outcome = .ok solution := by
  have hstart : inputs.Startable rhoSq := {
    costs := hcosts
    rows_pos := hrows
    full := hfull
    inRange := exists_limit_of_lt_one hrange
    previous := hprevious
    room := by
      intro other hother
      cases htarget.symm.trans hother
      obtain ⟨cs, high, hfits⟩ := exists_hasRoom htarget hcosts hhigh hroom
      exact ⟨cs, high, budget, rfl, hfits⟩
    pilotVariance := by
      intro tolerance htolerance
      cases htarget.symm.trans htolerance }
  refine ⟨?_, fun vars hvars hcount search limit hlimit hmax => ?_⟩
  · obtain ⟨problem, fit, hposes, -⟩ := hstart.exists_poses
    -- what is posed does not depend on the optimizer, and under a budget it is known
    have hproblem := hposes.1.symm.trans (problem_outcome inputs rhoSq htarget)
    obtain rfl := Except.ok.inj hproblem
    refine ⟨fit.map real, hstart.isAdmissible hposes, fun optimizer problem start => ?_⟩
    rw [numericalSolution_eq_searchedSolution htarget hroom, consulted_iff]
    refine ⟨fun hother => hother.unique hposes, ?_⟩
    rintro ⟨rfl, rfl⟩
    exact hposes
  · rw [numericalSolution_eq_searchedSolution htarget hroom]
    exact hstart.exists_searchedSolution hvars hcount hlimit hmax

/-- The second of two searches starts from the ratios of the first one, which are two for both
models, along an order that the correlations have left behind. -/
theorem numericalSolution_starts_admissible_of_firstPreferred :
    (∃ initial,
      ((firstPreferred 10 4 2 2).budgetProblem secondCorrelated (real 10)).IsAdmissible initial ∧
      ∀ optimizer problem start,
        .consulted problem start ∈
            ((firstPreferred 10 4 2 2).numericalSolution secondCorrelated optimizer).journal ↔
          problem = (firstPreferred 10 4 2 2).budgetProblem secondCorrelated (real 10) ∧
            start = initial) ∧
      ∃ solution, ((firstPreferred 10 4 2 2).numericalSolution secondCorrelated
        (CompassSearch.default : CompassSearch ExactReal).optimize).outcome = .ok solution := by
  have husable : (firstPreferred 10 4 2 2).costs.Usable secondCorrelated.cols := by
    refine ⟨rfl, ?_⟩
    simp [firstPreferred, Scalar.isPositiveFinite]
  have haverage : (firstPreferred 10 4 2 2).averageHigh = real 2 := averageHigh_twoSamples
  have hrange : ∀ value ∈ secondCorrelated.entries, 0 ≤ value ∧ value < 1 := by
    simp only [secondCorrelated, List.forall_mem_cons, zero_eq, one_eq, real_le_real, real_lt_real]
    norm_num
  have hpyramid : ∀ solution, (firstPreferred 10 4 2 2).previous = some solution →
      solution.form = .numerical →
        solution.IsPyramid ⟨secondCorrelated.cols, secondCorrelated.rows⟩ := by
    rintro solution hsolution -
    cases hsolution
    -- the one row is nested along any order, as its ratios are the same
    refine RatioSolution.isPyramid_of_row rfl rfl (.inr (.swap 0 1 [])) [2, 2] rfl
      (fun qoi hqoi => QoiMatrix.row_ofRow hqoi _) ⟨by simp, fun i j hij hj => ?_⟩
    have hlt : j < 2 := hj
    obtain ⟨rfl, rfl⟩ : i = 0 ∧ j = 1 := by omega
    exact real_le_real.mpr le_rfl
  obtain ⟨hconsulted, hsucceeds⟩ := numericalSolution_starts_admissible rfl husable
    (by simp [haverage]) isExhausted_firstPreferred one_pos rfl hrange hpyramid
  obtain ⟨limit, hlimit, hmax⟩ := CompassSearch.bounded_default.maxLogRatio
  exact ⟨hconsulted, hsucceeds [1] rfl rfl _ limit hlimit hmax⟩

end Multifidelity
