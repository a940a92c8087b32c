import Multifidelity.Allocation.Ratios
import Multifidelity.Proofs.Allocation.WaterFilling
import Multifidelity.Proofs.Recorder

/-!
# The numerical solution

## Main definitions

* `RatioInputs.startingOrder`: the model order of a search
* `RatioInputs.budgetProblem`, `RatioInputs.toleranceProblem`: the problems that a budget and a
  tolerance pose along it
* `RatioInputs.Poses`: what a search hands to the optimizer
* `RatioInputs.fitted`: the ratios of the solution, from those that were found

## Main results

* `RatioInputs.Poses.outcome`: the solution in terms of what the optimizer returns
* `RatioInputs.searchedSolution_outcome`: the solution under a budget
* `RatioInputs.searchedSolution_outcome_of_tolerance`: the solution under a tolerance
* `RatioInputs.HasRoom.exists_scaled`: real ratios that are scaled to the budget
* `RatioInputs.fitted_real`: fitted ratios keep the high-fidelity samples within the budget
-/

namespace Multifidelity

namespace RatioInputs

section Search

variable {α : Type} [Scalar α] (inputs : RatioInputs α) (rhoSq : QoiMatrix α) {budget : α}

/-- The model order of a search: that of the last search, or else the order of the averaged
correlations. -/
def startingOrder : ModelOrder :=
  match inputs.previous with
  | some (.numerical order ..) => order
  | _ => correlationOrder rhoSq

/-- The problem that a budget poses along the starting order. -/
def budgetProblem (budget : α) : RatioProblem α where
  rhoSq := rhoSq
  varHigh := inputs.correlations.varHigh
  varLow := inputs.correlations.varLow
  costs := inputs.costs
  order := inputs.startingOrder rhoSq
  constraint := .budget budget
  minHigh := some inputs.averageHigh

/-- The problem that a bound on the estimator variance poses along the starting order. -/
def toleranceProblem (variance : α) : RatioProblem α where
  rhoSq := rhoSq
  varHigh := inputs.correlations.varHigh
  varLow := inputs.correlations.varLow
  costs := inputs.costs
  order := inputs.startingOrder rhoSq
  constraint := .estimatorVariance variance

/-- The ratios of the solution: those found, scaled to the budget if they are not feasible. -/
def fitted (budget : α) (found : List α) : List α :=
  if (inputs.budgetProblem rhoSq budget).isFeasible found then found
  else scaleToBudget found inputs.costs inputs.averageHigh budget

/-- The solution with the given ratios. -/
def solutionOf (budget : α) (ratios : List α) : RatioSolution α :=
  let highTarget := (inputs.budgetProblem rhoSq budget).highTarget ratios
  .numerical (inputs.startingOrder rhoSq) (.ofRow rhoSq.rows ratios) highTarget
    ((inputs.budgetProblem rhoSq budget).varianceFactor ratios / highTarget)

/-- The problem and the initial ratios that a search hands to the optimizer: the problem along the
starting order, and the ratios from which the search starts once they have been made to fit. -/
def Poses (problem : RatioProblem α) (initial : List α) : Prop :=
  (inputs.problem rhoSq (inputs.startingOrder rhoSq)).outcome = .ok problem ∧
    ∃ guess, (inputs.startingPoint rhoSq).outcome = .ok (inputs.startingOrder rhoSq, guess) ∧
      (inputs.fitGuess guess).outcome = .ok initial

theorem startingPoint_outcome :
    ∃ guess, (inputs.startingPoint rhoSq).outcome = .ok (inputs.startingOrder rhoSq, guess) := by
  unfold startingPoint startingOrder
  cases inputs.previous with
  | none => exact ⟨_, rfl⟩
  | some solution =>
    cases solution with
    | analytic ratios => exact ⟨_, rfl⟩
    | reordered order ratios => exact ⟨_, rfl⟩
    | numerical order ratios highTarget variance => exact ⟨_, rfl⟩

theorem fitGuess_outcome (guess : List α) :
    ∃ initial, (inputs.fitGuess guess).outcome = .ok initial := by
  unfold fitGuess
  split
  · split
    · exact ⟨_, rfl⟩
    · exact ⟨_, rfl⟩
  · exact ⟨_, rfl⟩

theorem problem_outcome (htarget : inputs.target = .budget budget) :
    (inputs.problem rhoSq (inputs.startingOrder rhoSq)).outcome =
      .ok (inputs.budgetProblem rhoSq budget) := by
  rw [problem, htarget]
  rfl

theorem problem_outcome_of_tolerance {tolerance : α} {pilotVariance : List α}
    (htarget : inputs.target = .tolerance tolerance)
    (hpilot : inputs.pilotVariance = some pilotVariance) :
    (inputs.problem rhoSq (inputs.startingOrder rhoSq)).outcome =
      .ok (inputs.toleranceProblem rhoSq (tolerance * average pilotVariance)) := by
  rw [problem, htarget, requirePilotVariance, hpilot]
  rfl

theorem problem_eq_ok {inputs : RatioInputs α} {rhoSq : QoiMatrix α} {order : ModelOrder}
    {problem : RatioProblem α} (h : (inputs.problem rhoSq order).outcome = .ok problem) :
    problem.rhoSq = rhoSq ∧ problem.order = order ∧
      problem.varHigh = inputs.correlations.varHigh ∧ problem.costs = inputs.costs := by
  unfold RatioInputs.problem at h
  dsimp only at h
  split at h
  · obtain ⟨_, -, h⟩ := Recorder.outcome_bind_eq_ok.mp h
    cases h
    exact ⟨rfl, rfl, rfl, rfl⟩
  · obtain ⟨_, -, h⟩ := Recorder.outcome_bind_eq_ok.mp h
    obtain ⟨_, -, h⟩ := Recorder.outcome_bind_eq_ok.mp h
    cases h
    exact ⟨rfl, rfl, rfl, rfl⟩

theorem exists_fitResult (problem : RatioProblem α) (found : List α) :
    ∃ ratios, (inputs.fitResult problem found).outcome = .ok ratios := by
  unfold fitResult
  split
  · split
    · exact ⟨_, rfl⟩
    · exact ⟨_, rfl⟩
  · exact ⟨_, rfl⟩

theorem fitResult_outcome (htarget : inputs.target = .budget budget) (found : List α) :
    (inputs.fitResult (inputs.budgetProblem rhoSq budget) found).outcome =
      .ok (inputs.fitted rhoSq budget found) := by
  rw [fitResult, fitted, htarget]
  simp only
  split
  · rfl
  · rfl

theorem Poses.mem_journal {inputs : RatioInputs α} {rhoSq : QoiMatrix α}
    {problem : RatioProblem α} {initial : List α} (h : inputs.Poses rhoSq problem initial)
    (optimizer : Optimizer α) :
    .consulted problem initial ∈ (inputs.searchedSolution rhoSq optimizer).journal := by
  obtain ⟨hproblem, guess, hguess, hinitial⟩ := h
  rw [searchedSolution, Recorder.mem_journal_bind hguess]
  right
  rw [Recorder.mem_journal_bind hinitial]
  right
  rw [Recorder.mem_journal_bind hproblem]
  right
  rw [Recorder.journal_bind]
  simp

/-- A search poses one problem only, with one start. -/
theorem Poses.unique {inputs : RatioInputs α} {rhoSq : QoiMatrix α}
    {problem other : RatioProblem α} {initial start : List α}
    (h : inputs.Poses rhoSq problem initial) (hother : inputs.Poses rhoSq other start) :
    problem = other ∧ initial = start := by
  obtain ⟨hproblem, guess, hguess, hinitial⟩ := h
  obtain ⟨hproblem', guess', hguess', hinitial'⟩ := hother
  cases hguess.symm.trans hguess'
  exact ⟨Except.ok.inj (hproblem.symm.trans hproblem'),
    Except.ok.inj (hinitial.symm.trans hinitial')⟩

/-- A search makes the ratios that the optimizer returns fit. It fails if the optimizer fails or
does not return one finite ratio per model. -/
theorem Poses.outcome {inputs : RatioInputs α} {rhoSq : QoiMatrix α} {problem : RatioProblem α}
    {initial : List α} (h : inputs.Poses rhoSq problem initial) (optimizer : Optimizer α) :
    (inputs.searchedSolution rhoSq optimizer).outcome =
      (optimizer problem initial).outcome >>= fun found =>
        if found.length = rhoSq.cols ∧ ∀ ratio ∈ found, Scalar.isFinite ratio = true then
          (inputs.fitResult problem found).outcome.map fun ratios =>
            .numerical (inputs.startingOrder rhoSq) (.ofRow rhoSq.rows ratios)
              (problem.highTarget ratios)
              (problem.varianceFactor ratios / problem.highTarget ratios)
        else .error (.optimizer (.invalidRatios found)) := by
  obtain ⟨hproblem, guess, hguess, hinitial⟩ := h
  rw [searchedSolution, Recorder.bind_of_ok hguess]
  simp only
  rw [Recorder.bind_of_ok hinitial]
  simp only
  rw [Recorder.bind_of_ok hproblem]
  simp only
  rw [Recorder.outcome_bind, outcome_consult]
  congr 1
  funext found
  -- the check of the result, as the negation of its validity
  have hcheck : (found.length != rhoSq.cols || found.any (!Scalar.isFinite ·)) = true ↔
      ¬ (found.length = rhoSq.cols ∧ ∀ ratio ∈ found, Scalar.isFinite ratio = true) := by
    simp [Decidable.or_iff_not_imp_left]
  by_cases hvalid : found.length = rhoSq.cols ∧ ∀ ratio ∈ found, Scalar.isFinite ratio = true
  · obtain ⟨ratios, hratios⟩ := exists_fitResult inputs problem found
    rw [if_pos hvalid, if_neg (by rw [hcheck]; exact not_not.mpr hvalid), hratios,
      Recorder.bind_of_ok hratios]
    rfl
  · rw [if_neg hvalid, if_pos (hcheck.mpr hvalid)]
    rfl

/-- A search under a budget hands its problem to the optimizer, and it makes the ratios it returns
fit. It fails if the optimizer fails or does not return one finite ratio per model. -/
theorem searchedSolution_outcome (optimizer : Optimizer α)
    (htarget : inputs.target = .budget budget) :
    ∃ initial,
      .consulted (inputs.budgetProblem rhoSq budget) initial ∈
        (inputs.searchedSolution rhoSq optimizer).journal ∧
      (inputs.searchedSolution rhoSq optimizer).outcome =
        (optimizer (inputs.budgetProblem rhoSq budget) initial).outcome >>= fun found =>
          if found.length = rhoSq.cols ∧ ∀ ratio ∈ found, Scalar.isFinite ratio = true then
            .ok (inputs.solutionOf rhoSq budget (inputs.fitted rhoSq budget found))
          else .error (.optimizer (.invalidRatios found)) := by
  obtain ⟨guess, hguess⟩ := startingPoint_outcome inputs rhoSq
  obtain ⟨initial, hinitial⟩ := fitGuess_outcome inputs guess
  have hposes : inputs.Poses rhoSq (inputs.budgetProblem rhoSq budget) initial :=
    ⟨problem_outcome inputs rhoSq htarget, guess, hguess, hinitial⟩
  refine ⟨initial, hposes.mem_journal optimizer, ?_⟩
  rw [hposes.outcome]
  simp only [fitResult_outcome inputs rhoSq htarget]
  rfl

/-- A search under a tolerance keeps the ratios that the optimizer returns. It fails if the
optimizer fails or does not return one finite ratio per model. -/
theorem searchedSolution_outcome_of_tolerance (optimizer : Optimizer α) {tolerance : α}
    {pilotVariance : List α} (htarget : inputs.target = .tolerance tolerance)
    (hpilot : inputs.pilotVariance = some pilotVariance) :
    let problem := inputs.toleranceProblem rhoSq (tolerance * average pilotVariance)
    ∃ initial, inputs.Poses rhoSq problem initial ∧
      (inputs.searchedSolution rhoSq optimizer).outcome =
        (optimizer problem initial).outcome >>= fun found =>
          if found.length = rhoSq.cols ∧ ∀ ratio ∈ found, Scalar.isFinite ratio = true then
            .ok (.numerical (inputs.startingOrder rhoSq) (.ofRow rhoSq.rows found)
              (problem.highTarget found)
              (problem.varianceFactor found / problem.highTarget found))
          else .error (.optimizer (.invalidRatios found)) := by
  intro problem
  obtain ⟨guess, hguess⟩ := startingPoint_outcome inputs rhoSq
  obtain ⟨initial, hinitial⟩ := fitGuess_outcome inputs guess
  have hposes : inputs.Poses rhoSq problem initial :=
    ⟨problem_outcome_of_tolerance inputs rhoSq htarget hpilot, guess, hguess, hinitial⟩
  -- only a budget makes the ratios of an optimizer fit
  have hfit : ∀ found, (inputs.fitResult problem found).outcome = .ok found := by
    intro found
    rw [fitResult, htarget]
    rfl
  refine ⟨initial, hposes, ?_⟩
  rw [hposes.outcome]
  simp only [hfit]
  rfl

/-- A budget that is not exhausted leaves the solution to a search, and so does a tolerance. -/
theorem numericalSolution_of_room {inputs : RatioInputs α} {rhoSq : QoiMatrix α}
    (hroom : ¬ ∃ budget, inputs.target = .budget budget ∧
      inputs.isExhausted rhoSq.cols budget = true) (optimizer : Optimizer α) :
    inputs.numericalSolution rhoSq optimizer = inputs.searchedSolution rhoSq optimizer := by
  unfold numericalSolution
  split
  · rename_i budget htarget
    exact if_neg fun hexhausted => hroom ⟨budget, htarget, hexhausted⟩
  · rfl

theorem numericalSolution_eq_searchedSolution {inputs : RatioInputs α} {rhoSq : QoiMatrix α}
    (htarget : inputs.target = .budget budget)
    (hroom : inputs.isExhausted rhoSq.cols budget = false) (optimizer : Optimizer α) :
    inputs.numericalSolution rhoSq optimizer = inputs.searchedSolution rhoSq optimizer := by
  refine numericalSolution_of_room ?_ optimizer
  rintro ⟨other, hother, hexhausted⟩
  cases htarget.symm.trans hother
  rw [hroom] at hexhausted
  cases hexhausted

end Search

/-! ## Room in the budget -/

section Room

open ExactReal

/-- A budget that has room for more than the high-fidelity samples already drawn: positive real
costs, of which the samples with unit companions do not use up the budget. -/
structure HasRoom (inputs : RatioInputs ExactReal) (rhoSq : QoiMatrix ExactReal) (cs : List ℝ)
    (high budget : ℝ) : Prop where
  target : inputs.target = .budget (real budget)
  costs : inputs.costs = ⟨cs.map real⟩
  length : cs.length = rhoSq.cols + 1
  cost_pos : ∀ c ∈ cs, 0 < c
  averageHigh : inputs.averageHigh = real high
  high_pos : 0 < high
  budget_pos : 0 < budget
  room : high * profileCost (cs.getD rhoSq.cols 0) (List.replicate rhoSq.cols 1) cs < budget

variable {inputs : RatioInputs ExactReal} {rhoSq : QoiMatrix ExactReal} {cs : List ℝ}
  {high budget : ℝ}

/-- A budget that is not exhausted by real counts and costs has room. -/
theorem hasRoom_of_isExhausted_eq_false (htarget : inputs.target = .budget (real budget))
    (hcosts : inputs.costs = ⟨cs.map real⟩) (hlength : cs.length = rhoSq.cols + 1)
    (hpos : ∀ c ∈ cs, 0 < c) (haverage : inputs.averageHigh = real high) (hhigh : 0 < high)
    (hroom : inputs.isExhausted rhoSq.cols (real budget) = false) :
    inputs.HasRoom rhoSq cs high budget := by
  have hcostHigh := getD_pos hlength hpos le_rfl
  have hunit : 1 ≤ profileCost (cs.getD rhoSq.cols 0) (List.replicate rhoSq.cols 1) cs :=
    one_le_profileCost hcostHigh hpos fun r hr => by
      rw [List.eq_of_mem_replicate hr]
      exact zero_le_one
  have hreplicate : List.replicate rhoSq.cols (1 : ExactReal) =
      (List.replicate rhoSq.cols (1 : ℝ)).map real := by
    simp
  have hpositive := zero_lt_one.trans_le hunit
  simp only [isExhausted, Bool.or_eq_false_iff, decide_eq_false_iff_not] at hroom
  -- unit ratios leave room for more than the samples already drawn
  have hallocated := hroom.2
  rw [hreplicate, hcosts, allocateBudget_real (by simpa using hcostHigh.ne')
    (by simpa using hpositive.ne'), haverage, real_le_real,
    not_le, List.length_replicate, lt_div_iff₀ hpositive] at hallocated
  -- what costs less than the budget is positive, and so is the budget
  exact ⟨htarget, hcosts, hlength, hpos, haverage, hhigh,
    (mul_pos hhigh hpositive).trans hallocated, hallocated⟩

/-- A real budget that is not exhausted by usable costs has room. -/
theorem exists_hasRoom (htarget : inputs.target = .budget (real budget))
    (hcosts : inputs.costs.Usable rhoSq.cols) (hhigh : 0 < inputs.averageHigh)
    (hroom : inputs.isExhausted rhoSq.cols (real budget) = false) :
    ∃ cs high, inputs.HasRoom rhoSq cs high budget := by
  obtain ⟨cs, hlen, hpos, hcs⟩ := hcosts.exists_real
  -- the average of no counts is a NaN, which is above nothing
  have hcounts : inputs.highCounts ≠ [] := by
    intro hnil
    simp [averageHigh, hnil, averageCount, average_nil] at hhigh
  have haverage := averageCount_of_ne_nil hcounts
  rw [averageHigh, haverage] at hhigh
  exact ⟨cs, _, hasRoom_of_isExhausted_eq_false htarget hcs hlen hpos haverage hhigh hroom⟩

/-- A budget that is not exhausted has room. -/
theorem hasRoom_of_not_isExhausted {budget : ExactReal} (htarget : inputs.target = .budget budget)
    (hbudget : Scalar.isPositiveFinite budget = true) (hcosts : inputs.costs.Usable rhoSq.cols)
    (hhigh : 0 < inputs.averageHigh) (hroom : inputs.isExhausted rhoSq.cols budget = false) :
    ∃ cs high b, budget = real b ∧ inputs.HasRoom rhoSq cs high b := by
  obtain ⟨b, -, rfl⟩ := isPositiveFinite_iff.mp hbudget
  obtain ⟨cs, high, hfits⟩ := exists_hasRoom htarget hcosts hhigh hroom
  exact ⟨cs, high, b, rfl, hfits⟩

namespace HasRoom

variable (h : inputs.HasRoom rhoSq cs high budget)
include h

theorem relativeCost_real (rs : List ℝ) :
    (inputs.budgetProblem rhoSq (real budget)).relativeCost (rs.map real) =
      real (profileCost (cs.getD rhoSq.cols 0) rs cs) :=
  Multifidelity.relativeCost_real h.costs (getD_pos h.length h.cost_pos le_rfl).ne' rs

theorem isFeasible_real (rs : List ℝ) :
    (inputs.budgetProblem rhoSq (real budget)).isFeasible (rs.map real) = true ↔
      high * profileCost (cs.getD rhoSq.cols 0) rs cs ≤ budget * (1 + 1e-10) := by
  have hcost := h.relativeCost_real rs
  simp only [RatioProblem.isFeasible, budgetProblem, h.averageHigh] at hcost ⊢
  rw [hcost]
  simp

theorem highTarget_real {rs : List ℝ} (hcost : profileCost (cs.getD rhoSq.cols 0) rs cs ≠ 0) :
    (inputs.budgetProblem rhoSq (real budget)).highTarget (rs.map real) =
      real (max (budget / profileCost (cs.getD rhoSq.cols 0) rs cs) high) := by
  have hrelative := h.relativeCost_real rs
  simp only [RatioProblem.highTarget, budgetProblem, h.averageHigh] at hrelative ⊢
  rw [hrelative, real_div hcost, larger_real]

/-- Ratios that cost more than the budget are scaled to it: multiplied by one factor and raised to
one. -/
theorem exists_scaled {rs : List ℝ} (hlen : rs.length = rhoSq.cols)
    (hover : budget < high * profileCost (cs.getD rhoSq.cols 0) rs cs) :
    ∃ factor > 0, scaleToBudget (rs.map real) inputs.costs inputs.averageHigh (real budget) =
        (rs.map fun r => max 1 (r * factor)).map real ∧
      profileCost (cs.getD rhoSq.cols 0) (rs.map fun r => max 1 (r * factor)) cs =
        budget / high := by
  have hroom := h.room
  -- such ratios cost more than unit ratios, and those cost at least the sample itself
  have hunit : 1 ≤ profileCost (cs.getD rhoSq.cols 0) (List.replicate rhoSq.cols 1) cs :=
    one_le_profileCost (getD_pos h.length h.cost_pos le_rfl) h.cost_pos fun r hr => by
      rw [List.eq_of_mem_replicate hr]
      exact zero_le_one
  have hfree : profileCost (cs.getD rhoSq.cols 0) (List.replicate rhoSq.cols 1) cs <
      profileCost (cs.getD rhoSq.cols 0) rs cs := by
    refine lt_of_mul_lt_mul_left ?_ h.high_pos.le
    linarith
  rw [h.costs, h.averageHigh, ← hlen]
  refine scaleToBudget_eq (by rw [h.length, hlen]) h.cost_pos h.high_pos ?_ ?_
  · rw [hlen]
    linarith
  · rwa [hlen, lt_div_iff₀' h.high_pos]

/-- Fitted ratios keep the high-fidelity samples within the budget. They are those found, or else
those found multiplied by one factor and raised to one, which use up the budget. -/
theorem fitted_real {rs : List ℝ} (hlen : rs.length = rhoSq.cols) :
    ((inputs.budgetProblem rhoSq (real budget)).isFeasible (rs.map real) = true ∧
        inputs.fitted rhoSq (real budget) (rs.map real) = rs.map real) ∨
      ((inputs.budgetProblem rhoSq (real budget)).isFeasible (rs.map real) = false ∧
        ∃ factor > 0, inputs.fitted rhoSq (real budget) (rs.map real) =
            (rs.map fun r => max 1 (r * factor)).map real ∧
          profileCost (cs.getD rhoSq.cols 0) (rs.map fun r => max 1 (r * factor)) cs =
            budget / high) := by
  have hfeasible := h.isFeasible_real rs
  rw [fitted]
  cases hcase : (inputs.budgetProblem rhoSq (real budget)).isFeasible (rs.map real) with
  | true => exact Or.inl ⟨rfl, if_pos rfl⟩
  | false =>
    refine Or.inr ⟨rfl, ?_⟩
    rw [hcase] at hfeasible
    have hover : budget * (1 + 1e-10) < high * profileCost (cs.getD rhoSq.cols 0) rs cs := by
      simpa using hfeasible
    have hbudget := h.budget_pos
    rw [if_neg (by simp)]
    exact h.exists_scaled hlen (by linarith)

end HasRoom

end Room

end RatioInputs

end Multifidelity
