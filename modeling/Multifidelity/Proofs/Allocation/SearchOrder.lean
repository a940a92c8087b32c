import Multifidelity.Proofs.Allocation.BudgetSafety
import Multifidelity.Proofs.Allocation.EvalRatios

/-!
# The model order of a search

The closed form sorts the models by their averaged squared correlations, and so does a search that
starts from it or finds the budget exhausted. A search that starts from the last one keeps the order
of that one, whatever the correlations have become.

## Main definitions

* `ModelOrder.IsAscending`: orders from the least to the most correlated model

## Main results

* `isAscending_correlationOrder`: the order of the averaged correlations
* `numericalSolution_isAscending_iff`: whether the order of a numerical solution is up to date
-/

namespace Multifidelity

open ExactReal

/-! ## Sorted models -/

/-- All models, from the least to the most correlated one on average. -/
structure ModelOrder.IsAscending {α : Type} [Scalar α] (order : ModelOrder) (rhoSq : QoiMatrix α) :
    Prop where
  perm : order.Perm (List.range rhoSq.cols)
  sorted : order.Pairwise fun before after =>
    rhoSq.columnMeans.getD before 0 ≤ rhoSq.columnMeans.getD after 0

section Sorting

variable {key : ℕ → ExactReal}

/-- A model is put behind those with a larger key. -/
theorem pairwise_insertByKey (hkey : ∀ model, key model ≤ key model) (model : ℕ)
    {sorted : List ℕ} (h : sorted.Pairwise fun before after => key after ≤ key before) :
    (insertByKey key model sorted).Pairwise fun before after => key after ≤ key before := by
  induction sorted with
  | nil => exact List.pairwise_singleton _ _
  | cons first rest ih =>
    obtain ⟨hfirst, hrest⟩ := List.pairwise_cons.mp h
    rw [insertByKey]
    split
    · rename_i hlt
      refine List.pairwise_cons.mpr ⟨fun other hother => ?_, ih hrest⟩
      rcases List.mem_cons.mp ((insertByKey_perm key model rest).mem_iff.mp hother) with rfl | hmem
      · exact ExactReal.le_of_lt hlt
      · exact hfirst other hmem
    · rename_i hnot
      have hle : key first ≤ key model := ExactReal.le_of_not_lt (hkey model) (hkey first) hnot
      refine List.pairwise_cons.mpr ⟨fun other hother => ?_, h⟩
      rcases List.mem_cons.mp hother with rfl | hmem
      · exact hle
      · exact ExactReal.le_trans (hfirst other hmem) hle

theorem pairwise_foldl_insertByKey (hkey : ∀ model, key model ≤ key model) (models : List ℕ)
    {sorted : List ℕ} (h : sorted.Pairwise fun before after => key after ≤ key before) :
    (models.foldl (fun sorted model => insertByKey key model sorted) sorted).Pairwise
      fun before after => key after ≤ key before := by
  induction models generalizing sorted with
  | nil => exact h
  | cons model models ih => exact ih (pairwise_insertByKey hkey model h)

/-- The order of the averaged correlations is ascending if no average is a NaN. -/
theorem isAscending_correlationOrder {rhoSq : QoiMatrix ExactReal}
    (hmeans : ∀ mean ∈ rhoSq.columnMeans, Scalar.isNaN mean = false) :
    (correlationOrder rhoSq).IsAscending rhoSq := by
  refine ⟨correlationOrder_perm rhoSq, ?_⟩
  have hkey : ∀ model, rhoSq.columnMeans.getD model 0 ≤ rhoSq.columnMeans.getD model 0 := by
    intro model
    rcases lt_or_ge model rhoSq.columnMeans.length with hlt | hge
    · rw [List.getD_eq_getElem _ _ hlt]
      exact le_self_of_not_isNaN (hmeans _ (List.getElem_mem hlt))
    · rw [List.getD_eq_default _ _ hge]
      exact real_le_real.mpr le_rfl
  unfold correlationOrder
  exact List.pairwise_reverse.mpr (pairwise_foldl_insertByKey hkey _ List.Pairwise.nil)

end Sorting

/-! ## The order of a solution -/

namespace RatioInputs

variable {inputs : RatioInputs ExactReal} {rhoSq : QoiMatrix ExactReal}

/-- A search starts from a sorted order unless the last one has left another. -/
theorem isAscending_startingOrder_iff
    (hmeans : ∀ mean ∈ rhoSq.columnMeans, Scalar.isNaN mean = false) :
    (inputs.startingOrder rhoSq).IsAscending rhoSq ↔
      ∀ order ratios highTarget variance,
        inputs.previous = some (.numerical order ratios highTarget variance) →
          order.IsAscending rhoSq := by
  have hcurrent := isAscending_correlationOrder hmeans
  unfold startingOrder
  split
  · rename_i order ratios highTarget variance hprevious
    constructor
    · intro h other _ _ _ heq
      cases hprevious.symm.trans heq
      exact h
    · intro h
      exact h _ _ _ _ hprevious
  · rename_i hprevious
    exact iff_of_true hcurrent fun order _ _ _ heq => (hprevious order _ _ _ heq).elim

/-- A search hands the optimizer problems along its starting order. -/
theorem order_of_consulted {optimizer : Optimizer ExactReal} {problem : RatioProblem ExactReal}
    {initial : List ExactReal}
    (h : .consulted problem initial ∈ (inputs.searchedSolution rhoSq optimizer).journal) :
    problem.order = inputs.startingOrder rhoSq :=
  (problem_eq_ok (consulted_iff.mp h).1).2.1

end RatioInputs

open RatioInputs

/-- The order of a numerical solution is the one that the optimizer is given. It lists the models
from the least to the most correlated one, unless the solution comes from a search that starts from
the last one and the order of that one no longer does. -/
theorem numericalSolution_isAscending_iff {inputs : RatioInputs ExactReal}
    {rhoSq : QoiMatrix ExactReal} {optimizer : Optimizer ExactReal}
    {solution : RatioSolution ExactReal}
    (hmeans : ∀ mean ∈ rhoSq.columnMeans, Scalar.isNaN mean = false)
    (h : (inputs.numericalSolution rhoSq optimizer).outcome = .ok solution) :
    solution.form = .numerical ∧
      (∀ problem initial,
        .consulted problem initial ∈ (inputs.numericalSolution rhoSq optimizer).journal →
          problem.order = solution.order) ∧
      (solution.order.IsAscending rhoSq ↔
        (∃ budget, inputs.target = .budget budget ∧
          inputs.isExhausted rhoSq.cols budget = true) ∨
        ∀ order ratios highTarget variance,
          inputs.previous = some (.numerical order ratios highTarget variance) →
            order.IsAscending rhoSq) := by
  by_cases hexhausted : ∃ budget, inputs.target = .budget budget ∧
      inputs.isExhausted rhoSq.cols budget = true
  · obtain ⟨budget, htarget, hnone⟩ := hexhausted
    rw [numericalSolution_of_isExhausted htarget hnone] at h
    cases h
    have hjournal : (inputs.numericalSolution rhoSq optimizer).journal =
        [.logged (.budgetExhausted budget inputs.spent)] := by
      rw [numericalSolution, htarget]
      simp only [hnone, if_true]
      rfl
    refine ⟨rfl, fun problem initial hmem => ?_, ?_⟩
    · rw [hjournal] at hmem
      simp at hmem
    · exact iff_of_true (isAscending_correlationOrder hmeans) (Or.inl ⟨budget, htarget, hnone⟩)
  · rw [numericalSolution_of_room hexhausted] at h ⊢
    obtain ⟨_, _, _, _, _, -, -, -, -, rfl⟩ := searchedSolution_eq_ok h
    refine ⟨rfl, fun problem initial hmem => order_of_consulted hmem, ?_⟩
    rw [or_iff_right hexhausted]
    exact isAscending_startingOrder_iff hmeans

/-! ## An order that is out of date -/

/-- The squared correlations of two models, of which the second one is more correlated. -/
noncomputable def secondCorrelated : QoiMatrix ExactReal :=
  ⟨1, 2, [real 0.4, real 0.8]⟩

theorem columnMeans_secondCorrelated : secondCorrelated.columnMeans = [real 0.4, real 0.8] := by
  have haverage : ∀ x : ℝ, average [real x] = real x := fun x => by
    simpa using average_real (List.cons_ne_nil x [])
  simp [QoiMatrix.columnMeans, QoiMatrix.column, QoiMatrix.entry, secondCorrelated, haverage,
    List.range_succ]

/-- Two joint samples of two models, of which the last search found the first one more correlated.
It ended with the same ratio for both of them. -/
noncomputable def firstPreferred (budget spent ratio highTarget : ℝ) : RatioInputs ExactReal where
  correlations := ⟨⟨1, 2, [1, 1]⟩, [1], secondCorrelated⟩
  costs := ⟨[1, 1, 1]⟩
  target := .budget (real budget)
  highCounts := [2]
  spent := real spent
  pilotVariance := none
  previous := some (.numerical [1, 0] (.ofRow 1 [real ratio, real ratio]) (real highTarget) 1)
  preferReordered := false
  tolerances := .default

theorem isExhausted_firstPreferred :
    (firstPreferred 10 4 2 2).isExhausted secondCorrelated.cols (real 10) = false := by
  have hallocated : allocateBudget (List.replicate 2 1) (firstPreferred 10 4 2 2).costs
      (real 10) = real (10 / 3) := by
    have h : allocateBudget ([1, 1].map real) ⟨[1, 1, 1].map real⟩ (real 10) = _ :=
      allocateBudget_real (by simp) (by norm_num [profileCost]) 10
    norm_num [profileCost] at h
    simpa [firstPreferred, List.replicate] using h
  have haverage : (firstPreferred 10 4 2 2).averageHigh = real 2 := averageHigh_twoSamples
  have hcols : secondCorrelated.cols = 2 := rfl
  rw [isExhausted, hcols, hallocated, haverage]
  norm_num [firstPreferred]

/-- The search keeps the order of the last one, although the correlations have changed. -/
theorem numericalSolution_of_firstPreferred :
    ∃ solution,
      ((firstPreferred 10 4 2 2).numericalSolution secondCorrelated fun _ _ =>
        pure [real 2, real 2]).outcome = .ok solution ∧
      solution.order = [1, 0] ∧ ¬ solution.order.IsAscending secondCorrelated := by
  have htarget : (firstPreferred 10 4 2 2).target = .budget (real 10) := rfl
  have hmeans : ∀ mean ∈ secondCorrelated.columnMeans, Scalar.isNaN mean = false := by
    simp [columnMeans_secondCorrelated]
  obtain ⟨initial, -, houtcome⟩ := searchedSolution_outcome (firstPreferred 10 4 2 2)
    secondCorrelated (fun _ _ => pure [real 2, real 2]) htarget
  rw [← numericalSolution_eq_searchedSolution htarget isExhausted_firstPreferred,
    Recorder.outcome_pure] at houtcome
  change _ = if _ then _ else _ at houtcome
  rw [if_pos ⟨rfl, by simp⟩] at houtcome
  refine ⟨_, houtcome, rfl, fun hascending => ?_⟩
  rcases (numericalSolution_isAscending_iff hmeans houtcome).2.2.mp hascending with
    ⟨budget, hbudget, hexhausted⟩ | hprevious
  · cases hbudget
    rw [isExhausted_firstPreferred] at hexhausted
    cases hexhausted
  · -- along the old order the averages decrease
    have hsorted := (hprevious _ _ _ _ rfl).sorted
    rw [columnMeans_secondCorrelated] at hsorted
    norm_num at hsorted

end Multifidelity
