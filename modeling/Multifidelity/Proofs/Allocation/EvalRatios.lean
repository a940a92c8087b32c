import Multifidelity.Allocation.Ratios
import Multifidelity.Proofs.Allocation.NumericalSolution
import Multifidelity.Proofs.Allocation.Sanitize
import Multifidelity.Proofs.ModelOrder
import Multifidelity.Proofs.QoiMatrix

/-!
# The allocation of an iteration

An iteration makes its squared correlations usable, computes ratios in the form that suits them, and
scales them to its target. Along the way it consults the optimizer and reports, but it neither draws
samples nor tells the listener.

## Main results

* `RatioInputs.consulted_iff`: the optimizer is handed what a search poses
* `RatioInputs.searchedSolution_eq_ok`: where the solution of a search comes from
* `RatioInputs.exists_searchedSolution_of_found`: a search succeeds if its optimizer finds ratios
* `RatioInputs.valid_order_of_evalRatios`: the order of a solution lists every model once
* `RatioInputs.length_highTargets_of_evalRatios`: the number of targets
* `RatioInputs.scaled_of_evalRatios`: the solution and the targets under a budget
* `RatioInputs.highTargets_of_isExhausted`: a search that finds the budget exhausted
* `RatioInputs.only_evalRatios`: an allocation is internal
-/

namespace Multifidelity

namespace RatioInputs

variable {α : Type} [Scalar α] {inputs : RatioInputs α} {rhoSq : QoiMatrix α}
  {optimizer : Optimizer α} {budget : α}

/-! ## The events of an allocation -/

section Events

omit [Scalar α] in
theorem only_requirePilotVariance {P : Event α → Prop} : inputs.requirePilotVariance.Only P := by
  unfold requirePilotVariance
  split
  · exact .pure _
  · exact .fail _

theorem only_problem {P : Event α → Prop} (order : ModelOrder) :
    (inputs.problem rhoSq order).Only P := by
  unfold problem
  dsimp only
  split
  · exact .bind (.pure _) fun _ _ => .pure _
  · exact .bind only_requirePilotVariance fun _ _ => .bind (.pure _) fun _ _ => .pure _

section Search

variable {P : Event α → Prop} (hlogged : ∀ entry, P (.logged entry))
include hlogged

theorem only_startingPoint : (inputs.startingPoint rhoSq).Only P := by
  unfold startingPoint
  split
  · exact .pure _
  · exact .bind (only_log hlogged _) fun _ _ => .pure _

theorem only_fitGuess (guess : List α) : (inputs.fitGuess guess).Only P := by
  unfold fitGuess
  split
  · split
    · exact .bind (only_log hlogged _) fun _ _ => .pure _
    · exact .pure _
  · exact .pure _

theorem only_fitResult (problem : RatioProblem α) (ratios : List α) :
    (inputs.fitResult problem ratios).Only P := by
  unfold fitResult
  split
  · split
    · exact .pure _
    · exact .bind (only_log hlogged _) fun _ _ => .pure _
  · exact .pure _

/-- A search reports, and it hands the optimizer what it poses. -/
theorem only_searchedSolution (hconsulted : ∀ problem initial,
      inputs.Poses rhoSq problem initial → P (.consulted problem initial)) :
    (inputs.searchedSolution rhoSq optimizer).Only P := by
  obtain ⟨guess, hguess⟩ := startingPoint_outcome inputs rhoSq
  unfold searchedSolution
  refine .bind (only_startingPoint hlogged) fun start hstart => ?_
  obtain rfl : (inputs.startingOrder rhoSq, guess) = start := by
    rw [hguess] at hstart
    exact Except.ok.inj hstart
  refine .bind (only_fitGuess hlogged _) fun initial hinitial => ?_
  refine .bind (only_problem _) fun problem hproblem => ?_
  refine .bind (only_consult hlogged ?_) fun found _ => ?_
  · exact hconsulted problem initial ⟨hproblem, guess, hguess, hinitial⟩
  dsimp only
  split
  · exact .bind (.fail _) fun _ _ => .bind (only_fitResult hlogged problem found) fun _ _ =>
      .bind (only_log hlogged _) fun _ _ => .pure _
  · exact .bind (only_fitResult hlogged problem found) fun _ _ =>
      .bind (only_log hlogged _) fun _ _ => .pure _

theorem only_numericalSolution (hconsulted : ∀ problem initial, P (.consulted problem initial)) :
    (inputs.numericalSolution rhoSq optimizer).Only P := by
  have hsearch : (inputs.searchedSolution rhoSq optimizer).Only P :=
    only_searchedSolution hlogged fun problem initial _ => hconsulted problem initial
  unfold numericalSolution
  split
  · split
    · exact .bind (only_log hlogged _) fun _ _ => .pure _
    · exact hsearch
  · exact hsearch

end Search

/-- A search hands the optimizer what it poses, and nothing else. -/
theorem consulted_iff {problem : RatioProblem α} {initial : List α} :
    .consulted problem initial ∈ (inputs.searchedSolution rhoSq optimizer).journal ↔
      inputs.Poses rhoSq problem initial := by
  refine ⟨fun h => ?_, fun h => h.mem_journal optimizer⟩
  -- the property of events that only asks something of those that consult the optimizer
  have honly : (inputs.searchedSolution rhoSq optimizer).Only fun event =>
      ∀ problem initial, event = .consulted problem initial →
        inputs.Poses rhoSq problem initial := by
    refine only_searchedSolution (fun entry problem initial heq => ?_)
      fun problem initial hposes other start heq => ?_
    · cases heq
    · cases heq
      exact hposes
  exact honly _ h problem initial rfl

theorem only_solution : (inputs.solution rhoSq optimizer).Only Event.IsInternal := by
  unfold solution
  split
  · exact .bind (only_log (fun _ => trivial) _) fun _ _ => .pure _
  · exact .bind (only_log (fun _ => trivial) _) fun _ _ => .pure _
  · exact .bind (only_log (fun _ => trivial) _) fun _ _ =>
      only_numericalSolution (fun _ => trivial) fun _ _ => trivial

theorem only_highTargets (solution : RatioSolution α) :
    (inputs.highTargets rhoSq solution).Only Event.IsInternal := by
  unfold highTargets
  split
  · exact .pure _
  · exact .pure _
  · exact .bind only_requirePilotVariance fun _ _ => .pure _

/-- An allocation neither draws samples nor tells the listener. -/
theorem only_evalRatios : (inputs.evalRatios optimizer).Only Event.IsInternal := by
  unfold evalRatios
  refine .bind (only_logAll (fun _ => trivial) _) fun _ _ => ?_
  refine .bind only_solution fun solution _ => ?_
  refine .bind (only_highTargets solution) fun _ _ => ?_
  refine .bind (only_log (fun _ => trivial) _) fun _ _ => ?_
  exact .bind (only_logAll (fun _ => trivial) _) fun _ _ => .pure _

end Events

/-! ## The outcome of an allocation -/

variable {result : EvalRatios α}

/-- An allocation computes a solution for its usable squared correlations, and the targets of that
solution. -/
theorem evalRatios_eq_ok_iff :
    (inputs.evalRatios optimizer).outcome = .ok result ↔
      (result.rhoSq, result.warnings) = sanitize inputs.correlations.rhoSq inputs.tolerances ∧
        (inputs.solution result.rhoSq optimizer).outcome = .ok result.solution ∧
        (inputs.highTargets result.rhoSq result.solution).outcome = .ok result.highTargets := by
  unfold evalRatios
  constructor
  · intro h
    obtain ⟨-, -, h⟩ := Recorder.outcome_bind_eq_ok.mp h
    obtain ⟨solution, hsolution, h⟩ := Recorder.outcome_bind_eq_ok.mp h
    obtain ⟨highTargets, htargets, h⟩ := Recorder.outcome_bind_eq_ok.mp h
    obtain ⟨-, -, h⟩ := Recorder.outcome_bind_eq_ok.mp h
    obtain ⟨-, -, h⟩ := Recorder.outcome_bind_eq_ok.mp h
    cases h
    exact ⟨rfl, hsolution, htargets⟩
  · rintro ⟨hrho, hsolution, htargets⟩
    rw [← hrho]
    dsimp only
    refine Recorder.outcome_bind_eq_ok.mpr ⟨(), rfl, ?_⟩
    refine Recorder.outcome_bind_eq_ok.mpr ⟨_, hsolution, ?_⟩
    exact Recorder.outcome_bind_eq_ok.mpr ⟨_, htargets, rfl⟩

theorem rhoSq_eq (h : (inputs.evalRatios optimizer).outcome = .ok result) :
    result.rhoSq = (sanitize inputs.correlations.rhoSq inputs.tolerances).1 :=
  congrArg Prod.fst (evalRatios_eq_ok_iff.mp h).1

theorem rows_rhoSq (h : (inputs.evalRatios optimizer).outcome = .ok result) :
    result.rhoSq.rows = inputs.correlations.rhoSq.rows := by
  rw [rhoSq_eq h, rows_sanitize]

theorem cols_rhoSq (h : (inputs.evalRatios optimizer).outcome = .ok result) :
    result.rhoSq.cols = inputs.correlations.rhoSq.cols := by
  rw [rhoSq_eq h, cols_sanitize]

theorem full_rhoSq (hfull : inputs.correlations.rhoSq.Full)
    (h : (inputs.evalRatios optimizer).outcome = .ok result) : result.rhoSq.Full := by
  rw [rhoSq_eq h]
  exact full_sanitize _ hfull

/-- A solution has one of the three forms. -/
theorem solution_eq_ok {chosen : RatioSolution α}
    (h : (inputs.solution rhoSq optimizer).outcome = .ok chosen) :
    chosen = .analytic (analyticRatios rhoSq inputs.costs) ∨
      chosen = .reordered (reorderedRatios rhoSq inputs.costs).1
        (reorderedRatios rhoSq inputs.costs).2 ∨
      (inputs.numericalSolution rhoSq optimizer).outcome = .ok chosen := by
  unfold solution at h
  split at h
  · left
    obtain ⟨-, -, h⟩ := Recorder.outcome_bind_eq_ok.mp h
    cases h
    rfl
  · right; left
    obtain ⟨-, -, h⟩ := Recorder.outcome_bind_eq_ok.mp h
    cases h
    rfl
  · right; right
    obtain ⟨-, -, h⟩ := Recorder.outcome_bind_eq_ok.mp h
    exact h

/-- Models that are not ordered are allocated in closed form if that is preferred. -/
theorem solution_of_preferReordered
    (hordered : isOrdered rhoSq inputs.tolerances.ordering = false)
    (hprefer : inputs.preferReordered = true) :
    (inputs.solution rhoSq optimizer).outcome =
      .ok (.reordered (reorderedRatios rhoSq inputs.costs).1
        (reorderedRatios rhoSq inputs.costs).2) := by
  rw [solution, selectForm, hordered, hprefer]
  rfl

/-- Models that are not ordered are searched unless their closed form is preferred. -/
theorem solution_of_search (hordered : isOrdered rhoSq inputs.tolerances.ordering = false)
    (hprefer : inputs.preferReordered = false) :
    (inputs.solution rhoSq optimizer).outcome =
      (inputs.numericalSolution rhoSq optimizer).outcome := by
  rw [solution, selectForm, hordered, hprefer]
  change (log .numericalForm >>= fun _ => inputs.numericalSolution rhoSq optimizer).outcome = _
  rw [Recorder.outcome_bind]
  rfl

theorem numericalSolution_of_isExhausted (htarget : inputs.target = .budget budget)
    (hexhausted : inputs.isExhausted rhoSq.cols budget = true) :
    (inputs.numericalSolution rhoSq optimizer).outcome =
      .ok (inputs.exhaustedSolution rhoSq) := by
  rw [numericalSolution, htarget]
  simp only [hexhausted, if_true]
  rfl

omit [Scalar α] in
theorem requirePilotVariance_eq_ok {variance : List α} :
    inputs.requirePilotVariance.outcome = .ok variance ↔ inputs.pilotVariance = some variance := by
  unfold requirePilotVariance
  cases inputs.pilotVariance with
  | none => simp
  | some other => simp

/-- The target of a problem. Under a budget it is at least the average count. -/
theorem highTarget_of_problem {order : ModelOrder} {problem : RatioProblem α}
    (h : (inputs.problem rhoSq order).outcome = .ok problem) (ratios : List α) :
    problem.varHigh = inputs.correlations.varHigh ∧
      ((∃ limit, problem.highTarget ratios =
          Scalar.larger (limit / problem.relativeCost ratios) inputs.averageHigh) ∨
        ∃ tolerance variance, inputs.target = .tolerance tolerance ∧
          inputs.pilotVariance = some variance ∧
          problem.highTarget ratios =
            problem.varianceFactor ratios / (tolerance * average variance)) := by
  unfold RatioInputs.problem at h
  dsimp only at h
  split at h
  · obtain ⟨_, hconstraint, h⟩ := Recorder.outcome_bind_eq_ok.mp h
    cases hconstraint
    cases h
    exact ⟨rfl, Or.inl ⟨_, rfl⟩⟩
  · rename_i htarget
    obtain ⟨variance, hvariance, h⟩ := Recorder.outcome_bind_eq_ok.mp h
    obtain ⟨_, hconstraint, h⟩ := Recorder.outcome_bind_eq_ok.mp h
    cases hconstraint
    cases h
    exact ⟨rfl, Or.inr ⟨_, variance, htarget, requirePilotVariance_eq_ok.mp hvariance, rfl⟩⟩

/-- A search keeps to its starting order. Its ratios are those that the optimizer has found for the
problem along that order, made to fit. -/
theorem searchedSolution_eq_ok {chosen : RatioSolution α}
    (h : (inputs.searchedSolution rhoSq optimizer).outcome = .ok chosen) :
    ∃ problem initial found ratios variance,
      (inputs.problem rhoSq (inputs.startingOrder rhoSq)).outcome = .ok problem ∧
      (optimizer problem initial).outcome = .ok found ∧
      (found.length = rhoSq.cols ∧ ∀ ratio ∈ found, Scalar.isFinite ratio = true) ∧
      (inputs.fitResult problem found).outcome = .ok ratios ∧
      chosen = .numerical (inputs.startingOrder rhoSq) (.ofRow rhoSq.rows ratios)
        (problem.highTarget ratios) variance := by
  obtain ⟨guess, hguess⟩ := startingPoint_outcome inputs rhoSq
  obtain ⟨initial, hinitial⟩ := fitGuess_outcome inputs guess
  rw [searchedSolution, Recorder.bind_of_ok hguess] at h
  dsimp only at h
  rw [Recorder.bind_of_ok hinitial] at h
  dsimp only at h
  obtain ⟨problem, hproblem, h⟩ := Recorder.outcome_bind_eq_ok.mp h
  obtain ⟨found, hfound, h⟩ := Recorder.outcome_bind_eq_ok.mp h
  split at h
  · obtain ⟨_, hfail, -⟩ := Recorder.outcome_bind_eq_ok.mp h
    cases hfail
  · rename_i hvalid
    obtain ⟨ratios, hratios, h⟩ := Recorder.outcome_bind_eq_ok.mp h
    obtain ⟨-, -, h⟩ := Recorder.outcome_bind_eq_ok.mp h
    cases h
    refine ⟨problem, initial, found, ratios, _, hproblem, hfound, ?_, hratios, rfl⟩
    simpa using hvalid

/-- A search leads to a solution if the optimizer returns one finite ratio for every model. -/
theorem exists_searchedSolution_of_found {initial found : List α} {problem : RatioProblem α}
    (hposes : inputs.Poses rhoSq problem initial)
    (hfound : (optimizer problem initial).outcome = .ok found)
    (hlength : found.length = rhoSq.cols)
    (hfinite : ∀ ratio ∈ found, Scalar.isFinite ratio = true) :
    ∃ chosen, (inputs.searchedSolution rhoSq optimizer).outcome = .ok chosen := by
  obtain ⟨ratios, hratios⟩ := exists_fitResult inputs problem found
  have hchosen := hposes.outcome optimizer
  rw [hfound] at hchosen
  replace hchosen := hchosen.trans (if_pos ⟨hlength, hfinite⟩)
  rw [hratios] at hchosen
  exact ⟨_, hchosen⟩

/-- A numerical solution keeps to the samples already drawn, which a budget may ask for, or it is
searched. -/
theorem numericalSolution_cases {chosen : RatioSolution α}
    (h : (inputs.numericalSolution rhoSq optimizer).outcome = .ok chosen) :
    chosen = inputs.exhaustedSolution rhoSq ∨
      (∀ budget, inputs.target = .budget budget →
          inputs.isExhausted rhoSq.cols budget = false) ∧
        (inputs.searchedSolution rhoSq optimizer).outcome = .ok chosen := by
  cases htarget : inputs.target with
  | tolerance tolerance =>
    rw [numericalSolution, htarget] at h
    refine Or.inr ⟨fun budget hbudget => ?_, h⟩
    cases hbudget
  | budget budget =>
    cases hexhausted : inputs.isExhausted rhoSq.cols budget with
    | true =>
      rw [numericalSolution_of_isExhausted htarget hexhausted] at h
      exact Or.inl (Except.ok.inj h).symm
    | false =>
      rw [numericalSolution_eq_searchedSolution htarget hexhausted] at h
      refine Or.inr ⟨fun other hother => ?_, h⟩
      cases hother
      exact hexhausted

/-- A search under a budget keeps to the samples already drawn if the budget is exhausted. -/
theorem numericalSolution_eq_ok (htarget : inputs.target = .budget budget)
    {chosen : RatioSolution α}
    (h : (inputs.numericalSolution rhoSq optimizer).outcome = .ok chosen) :
    inputs.isExhausted rhoSq.cols budget = true ∧ chosen = inputs.exhaustedSolution rhoSq ∨
      inputs.isExhausted rhoSq.cols budget = false ∧
        ∃ initial found,
          (optimizer (inputs.budgetProblem rhoSq budget) initial).outcome = .ok found ∧
          (found.length = rhoSq.cols ∧ ∀ ratio ∈ found, Scalar.isFinite ratio = true) ∧
          chosen = inputs.solutionOf rhoSq budget (inputs.fitted rhoSq budget found) := by
  cases hexhausted : inputs.isExhausted rhoSq.cols budget with
  | true =>
    rw [numericalSolution_of_isExhausted htarget hexhausted] at h
    cases h
    exact Or.inl ⟨rfl, rfl⟩
  | false =>
    right
    obtain ⟨initial, -, houtcome⟩ := searchedSolution_outcome inputs rhoSq optimizer htarget
    rw [numericalSolution_eq_searchedSolution htarget hexhausted, houtcome] at h
    cases hfound : (optimizer (inputs.budgetProblem rhoSq budget) initial).outcome with
    | error failure =>
      rw [hfound] at h
      cases h
    | ok found =>
      rw [hfound] at h
      change (if _ then _ else _) = _ at h
      split at h
      · rename_i hvalid
        cases h
        exact ⟨rfl, initial, found, hfound, hvalid, rfl⟩
      · cases h

theorem form_of_numericalSolution {chosen : RatioSolution α}
    (h : (inputs.numericalSolution rhoSq optimizer).outcome = .ok chosen) :
    ∃ order ratios highTarget variance, chosen = .numerical order ratios highTarget variance := by
  rcases numericalSolution_cases h with heq | ⟨-, hsearched⟩
  · exact ⟨_, _, _, _, heq⟩
  · obtain ⟨_, _, _, _, _, -, -, -, -, heq⟩ := searchedSolution_eq_ok hsearched
    exact ⟨_, _, _, _, heq⟩

/-- What is not found by a search is in closed form. -/
theorem closedForm_of_evalRatios (h : (inputs.evalRatios optimizer).outcome = .ok result)
    (hform : result.solution.form ≠ .numerical) :
    result.solution = .analytic (analyticRatios result.rhoSq inputs.costs) ∨
      result.solution = .reordered (reorderedRatios result.rhoSq inputs.costs).1
        (reorderedRatios result.rhoSq inputs.costs).2 := by
  rcases solution_eq_ok (evalRatios_eq_ok_iff.mp h).2.1 with heq | heq | hsearch
  · exact Or.inl heq
  · exact Or.inr heq
  · obtain ⟨_, _, _, _, heq⟩ := form_of_numericalSolution hsearch
    rw [heq] at hform
    exact absurd rfl hform

/-- What is not in closed form is found by a search. -/
theorem numericalSolution_of_evalRatios (h : (inputs.evalRatios optimizer).outcome = .ok result)
    (hform : result.solution.form = .numerical) :
    (inputs.numericalSolution result.rhoSq optimizer).outcome = .ok result.solution := by
  rcases solution_eq_ok (evalRatios_eq_ok_iff.mp h).2.1 with heq | heq | hsearch
  · rw [heq] at hform
    cases hform
  · rw [heq] at hform
    cases hform
  · exact hsearch

/-! ## The order of a solution -/

theorem valid_startingOrder (hprevious : ∀ solution, inputs.previous = some solution →
    solution.order.Valid rhoSq.cols) : (inputs.startingOrder rhoSq).Valid rhoSq.cols := by
  unfold startingOrder
  split
  · rename_i heq
    exact hprevious _ heq
  · exact valid_correlationOrder rhoSq

/-- The order of a solution lists every model once if that of the solution before does. -/
theorem valid_order_of_evalRatios
    (hprevious : ∀ solution, inputs.previous = some solution →
      solution.order.Valid inputs.correlations.rhoSq.cols)
    (h : (inputs.evalRatios optimizer).outcome = .ok result) :
    result.solution.order.Valid inputs.correlations.rhoSq.cols := by
  rw [← cols_rhoSq h] at hprevious ⊢
  rcases solution_eq_ok (evalRatios_eq_ok_iff.mp h).2.1 with heq | heq | hsearch
  · rw [heq]
    exact ModelOrder.valid_nil _
  · rw [heq]
    exact valid_correlationOrder _
  · rcases numericalSolution_cases hsearch with heq | ⟨-, hsearched⟩
    · rw [heq]
      exact valid_correlationOrder _
    · obtain ⟨_, _, _, _, _, -, -, -, -, heq⟩ := searchedSolution_eq_ok hsearched
      rw [heq]
      exact valid_startingOrder hprevious

/-! ## Targets -/

/-- There is one target per QoI. -/
theorem length_highTargets_of_evalRatios
    (hvar : inputs.correlations.varHigh.length = inputs.correlations.rhoSq.rows)
    (hpilot : ∀ variance, inputs.pilotVariance = some variance →
      variance.length = inputs.correlations.rhoSq.rows)
    (h : (inputs.evalRatios optimizer).outcome = .ok result) :
    result.highTargets.length = inputs.correlations.rhoSq.rows := by
  rw [← rows_rhoSq h] at hvar hpilot ⊢
  obtain ⟨-, hsolution, htargets⟩ := evalRatios_eq_ok_iff.mp h
  -- ratios have a row per QoI in any form
  have hrows : result.solution.ratios.rows = result.rhoSq.rows := by
    rcases solution_eq_ok hsolution with heq | heq | hsearch
    · rw [heq]
      simp [RatioSolution.ratios, analyticRatios, QoiMatrix.ofRows]
    · rw [heq]
      simp [RatioSolution.ratios, reorderedRatios, QoiMatrix.ofRow, QoiMatrix.ofRows]
    · rcases numericalSolution_cases hsearch with heq | ⟨-, hsearched⟩
      · rw [heq]
        rfl
      · obtain ⟨_, _, _, _, _, -, -, -, -, heq⟩ := searchedSolution_eq_ok hsearched
        rw [heq]
        simp [RatioSolution.ratios, QoiMatrix.ofRow, QoiMatrix.ofRows]
  unfold highTargets at htargets
  split at htargets
  · rw [← Except.ok.inj htargets]
    exact List.length_replicate
  · rw [← Except.ok.inj htargets, budgetTargets, List.length_map, QoiMatrix.length_toRows, hrows]
  · obtain ⟨variance, hvariance, htargets⟩ := Recorder.outcome_bind_eq_ok.mp htargets
    rw [← Except.ok.inj htargets]
    have hlength := hpilot variance (requirePilotVariance_eq_ok.mp hvariance)
    simp [toleranceTargets, varianceRatios, hvar, hlength]

/-- The solution and the targets under a budget. Ratios in closed form are scaled to the budget, a
search has found its target itself. -/
theorem scaled_of_evalRatios (htarget : inputs.target = .budget budget)
    (h : (inputs.evalRatios optimizer).outcome = .ok result) :
    result.solution.form ≠ .numerical ∧
        result.highTargets = budgetTargets result.solution.ratios inputs.costs budget ∨
      (inputs.numericalSolution result.rhoSq optimizer).outcome = .ok result.solution ∧
        ∃ order ratios highTarget variance,
          result.solution = .numerical order ratios highTarget variance ∧
          result.highTargets = List.replicate result.rhoSq.rows highTarget := by
  obtain ⟨-, hsolution, htargets⟩ := evalRatios_eq_ok_iff.mp h
  -- the closed forms are scaled to the budget here, and a search has done so itself
  rcases solution_eq_ok hsolution with hform | hform | hform
  · left
    rw [hform] at htargets ⊢
    simp only [highTargets, htarget] at htargets
    exact ⟨nofun, (Except.ok.inj htargets).symm⟩
  · left
    rw [hform] at htargets ⊢
    simp only [highTargets, htarget] at htargets
    exact ⟨nofun, (Except.ok.inj htargets).symm⟩
  · right
    refine ⟨hform, ?_⟩
    obtain ⟨order, ratios, highTarget, variance, heq⟩ := form_of_numericalSolution hform
    refine ⟨order, ratios, highTarget, variance, heq, ?_⟩
    rw [heq, highTargets] at htargets
    exact (Except.ok.inj htargets).symm

/-- A search that finds the budget exhausted has the average count as its target. -/
theorem highTargets_of_isExhausted (htarget : inputs.target = .budget budget)
    (h : (inputs.evalRatios optimizer).outcome = .ok result)
    (hform : result.solution.form = .numerical)
    (hexhausted : inputs.isExhausted result.rhoSq.cols budget = true) :
    result.highTargets = List.replicate result.rhoSq.rows inputs.averageHigh := by
  rcases scaled_of_evalRatios htarget h with ⟨hne, -⟩ | ⟨hsearch, hscaled⟩
  · exact absurd hform hne
  · obtain ⟨order, ratios, highTarget, variance, heq, htargets⟩ := hscaled
    rw [numericalSolution_of_isExhausted htarget hexhausted, heq] at hsearch
    cases hsearch
    exact htargets

/-- An allocation of models that are not ordered succeeds if the budget is exhausted. -/
theorem exists_evalRatios_of_isExhausted (htarget : inputs.target = .budget budget)
    (hrho : rhoSq = (sanitize inputs.correlations.rhoSq inputs.tolerances).1)
    (hform : selectForm rhoSq inputs.tolerances.ordering inputs.preferReordered = .numerical)
    (hexhausted : inputs.isExhausted rhoSq.cols budget = true) (optimizer : Optimizer α) :
    ∃ result, (inputs.evalRatios optimizer).outcome = .ok result ∧
      result.solution = inputs.exhaustedSolution rhoSq := by
  refine ⟨⟨inputs.exhaustedSolution rhoSq, List.replicate rhoSq.rows inputs.averageHigh, rhoSq,
    (sanitize inputs.correlations.rhoSq inputs.tolerances).2⟩, ?_, rfl⟩
  refine evalRatios_eq_ok_iff.mpr ⟨by rw [hrho], ?_, rfl⟩
  unfold solution
  rw [hform]
  exact Recorder.outcome_bind_eq_ok.mpr
    ⟨(), rfl, numericalSolution_of_isExhausted htarget hexhausted⟩

end RatioInputs

end Multifidelity
