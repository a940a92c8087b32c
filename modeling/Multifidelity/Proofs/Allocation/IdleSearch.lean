import Multifidelity.Proofs.Allocation.Majorant
import Multifidelity.Proofs.Allocation.Saturation
import Multifidelity.Proofs.Allocation.Units

/-!
# A search that changes nothing

A search starts from the closed form that all QoI share. An optimizer that hands back what it is
given leads to that closed form again, and the search then finds the same high-fidelity targets in
its own way: from the relative cost of the ratios where the closed form divides a budget, and from
an average over the QoI where the closed form takes every QoI by itself. Under a budget it must have
room for the samples already drawn, and under a tolerance there must be a single QoI.

## Main definitions

* `Optimizer.Idle`: optimizers that return what they are given
* `RatioInputs.Settled`: targets that the shared closed form already meets

## Main results

* `RatioInputs.exists_sharedRatios`: the ratios that all QoI share
* `RatioInputs.searchedSolution_of_idle`: what an idle optimizer leads to
* `evalRatios_of_idle`: an idle search gives what the closed form gives
-/

namespace Multifidelity

open ExactReal

/-- An optimizer that returns the ratios it is given. -/
def Optimizer.Idle (optimizer : Optimizer ExactReal) : Prop :=
  ∀ problem initial, (optimizer problem initial).outcome = .ok initial

namespace RatioInputs

/-- Targets that the shared closed form meets along with the samples already drawn: a budget with
room for it, or the tolerance of a single QoI. -/
inductive Settled (inputs : RatioInputs ExactReal) (rhoSq : QoiMatrix ExactReal) : Prop where
  /-- A budget that has not been spent. It pays for more than the samples already drawn with one
  companion of each model, and for as many with the companions of the closed form. -/
  | budget (b : ℝ) (target : inputs.target = .budget (real b)) (unspent : inputs.spent < real b)
      (room : inputs.averageHigh < allocateBudget (.replicate rhoSq.cols 1) inputs.costs (real b))
      (fits : inputs.averageHigh ≤
        allocateBudget ((reorderedRatios rhoSq inputs.costs).2.row 0) inputs.costs (real b))
  /-- A tolerance for a single QoI with a positive pilot variance. -/
  | tolerance (tolerance var pilot : ExactReal) (target : inputs.target = .tolerance tolerance)
      (single : rhoSq.rows = 1) (varHigh : inputs.correlations.varHigh = [var])
      (pilotVariance : inputs.pilotVariance = some [pilot]) (positive : 0 < pilot)

variable {inputs : RatioInputs ExactReal} {rhoSq : QoiMatrix ExactReal}

/-! ## The shared closed form -/

section Shared

variable (hcosts : inputs.costs.Usable rhoSq.cols) (hrows : 0 < rhoSq.rows) {limit : ℝ}
  (hlimit : 0 ≤ limit) (hone : limit < 1) (hrange : ∀ value ∈ rhoSq.entries, InRange limit value)
include hcosts hrows hlimit hone hrange

/-- All QoI share one row of real ratios of at least one, which is also their average. -/
theorem exists_sharedRatios :
    ∃ rs : List ℝ, rs.length = rhoSq.cols ∧ (∀ r ∈ rs, 1 ≤ r) ∧
      (reorderedRatios rhoSq inputs.costs).2 = .ofRow rhoSq.rows (rs.map real) ∧
      (reorderedRatios rhoSq inputs.costs).2.columnMeans = rs.map real := by
  have hpyramid : (RatioSolution.reordered (reorderedRatios rhoSq inputs.costs).1
      (reorderedRatios rhoSq inputs.costs).2).IsPyramid ⟨rhoSq.cols, rhoSq.rows⟩ :=
    isPyramid_reordered rfl rfl hcosts hlimit hone hrange hrows
  obtain ⟨rs, hlength, hrow⟩ := hpyramid.isReal 0 hrows
  replace hrow : (reorderedRatios rhoSq inputs.costs).2.row 0 = rs.map real := hrow
  have hsame : (reorderedRatios rhoSq inputs.costs).2.rows = rhoSq.rows := hpyramid.rows
  refine ⟨rs, hlength, fun r hr => ?_, ?_, ?_⟩
  · have hmem : real r ∈ (reorderedRatios rhoSq inputs.costs).2.row 0 := by
      rw [hrow]
      exact List.mem_map_of_mem hr
    exact real_le_real.mp ((hpyramid.nested 0 hrows).one_le _ hmem)
  · rw [← hrow, row_reorderedRatios rhoSq inputs.costs hrows]
    rfl
  · rw [← hrow]
    apply columnMeans_eq_row
    · rwa [hsame]
    · rw [hrow, List.length_map, hlength]
      exact hpyramid.cols.symm
    · intro qoi hqoi
      exact hpyramid.shared nofun qoi (hsame ▸ hqoi) 0 hrows

end Shared

/-- All QoI with the same ratios have the same targets. -/
theorem budgetTargets_ofRow (rows : ℕ) (row : List ExactReal) (costs : Costs ExactReal)
    (budget : ExactReal) :
    budgetTargets (.ofRow rows row) costs budget =
      List.replicate rows (allocateBudget row costs budget) := by
  rw [budgetTargets, QoiMatrix.toRows_ofRow, List.map_replicate]

/-! ## An idle optimizer -/

section Idle

variable {optimizer : Optimizer ExactReal} (hidle : optimizer.Idle) {rs : List ℝ}
  (hlength : rs.length = rhoSq.cols)
include hidle hlength

/-- A search whose optimizer is idle ends with the ratios that it has posed, as long as they need
not be made to fit. -/
theorem searchedSolution_of_idle {problem : RatioProblem ExactReal}
    (hposes : inputs.Poses rhoSq problem (rs.map real))
    (hfit : (inputs.fitResult problem (rs.map real)).outcome = .ok (rs.map real)) :
    (inputs.searchedSolution rhoSq optimizer).outcome =
      .ok (.numerical (inputs.startingOrder rhoSq) (.ofRow rhoSq.rows (rs.map real))
        (problem.highTarget (rs.map real))
        (problem.varianceFactor (rs.map real) / problem.highTarget (rs.map real))) := by
  have houtcome := hposes.outcome optimizer
  rw [hidle] at houtcome
  change _ = (if _ then _ else _) at houtcome
  rwa [if_pos ⟨by simpa using hlength, by simp⟩, hfit] at houtcome

variable (hmeans : (reorderedRatios rhoSq inputs.costs).2.columnMeans = rs.map real)
  (hprevious : inputs.previous = none)

omit hidle hlength in
include hmeans hprevious in
/-- Without a solution before, a search poses its closed form. -/
theorem poses_of_none {problem : RatioProblem ExactReal}
    (hproblem : (inputs.problem rhoSq (inputs.startingOrder rhoSq)).outcome = .ok problem)
    (hfit : (inputs.fitGuess (rs.map real)).outcome = .ok (rs.map real)) :
    inputs.Poses rhoSq problem (rs.map real) := by
  refine ⟨hproblem, rs.map real, ?_, hfit⟩
  rw [← hmeans, startingPoint, startingOrder, hprevious]
  rfl

include hmeans hprevious

/-- A budget with room is divided as the closed form divides it. -/
theorem numericalSolution_of_idle_budget (hcosts : inputs.costs.Usable rhoSq.cols)
    (haverage : 0 < inputs.averageHigh) (hone : ∀ r ∈ rs, 1 ≤ r) {b : ℝ}
    (htarget : inputs.target = .budget (real b)) (hunspent : inputs.spent < real b)
    (hroom : inputs.averageHigh < allocateBudget (.replicate rhoSq.cols 1) inputs.costs (real b))
    (hfits : inputs.averageHigh ≤ allocateBudget (rs.map real) inputs.costs (real b)) :
    ∃ variance, (inputs.numericalSolution rhoSq optimizer).outcome =
      .ok (.numerical (inputs.startingOrder rhoSq) (.ofRow rhoSq.rows (rs.map real))
        (allocateBudget (rs.map real) inputs.costs (real b)) variance) := by
  have hexhausted : inputs.isExhausted rhoSq.cols (real b) = false := by
    rw [isExhausted, Bool.or_eq_false_iff]
    constructor
    · exact decide_eq_false fun hle => not_lt_of_le hle hunspent
    · exact decide_eq_false fun hle => not_lt_of_le hle hroom
  obtain ⟨cs, high, hfit⟩ := exists_hasRoom htarget hcosts haverage hexhausted
  have hhigh := getD_pos hfit.length hfit.cost_pos le_rfl
  have hcost : 0 < profileCost (cs.getD rhoSq.cols 0) rs cs :=
    zero_lt_one.trans_le (one_le_profileCost hhigh hfit.cost_pos fun r hr =>
      zero_le_one.trans (hone r hr))
  -- both divide the budget by the cost of a sample with its companions
  have hallocated : allocateBudget (rs.map real) inputs.costs (real b) =
      real (b / profileCost (cs.getD rhoSq.cols 0) rs cs) := by
    rw [hfit.costs, allocateBudget_real (by rw [hlength]; exact hhigh.ne')
      (by rw [hlength]; exact hcost.ne'), hlength]
  have hle : high ≤ b / profileCost (cs.getD rhoSq.cols 0) rs cs := by
    rwa [hallocated, hfit.averageHigh, real_le_real] at hfits
  have hposes : inputs.Poses rhoSq (inputs.budgetProblem rhoSq (real b)) (rs.map real) := by
    apply poses_of_none hmeans hprevious (problem_outcome inputs rhoSq htarget)
    rw [fitGuess, htarget]
    dsimp only
    rw [if_neg (not_lt_of_le hfits)]
    rfl
  have hfeasible : (inputs.budgetProblem rhoSq (real b)).isFeasible (rs.map real) = true := by
    rw [hfit.isFeasible_real]
    have hmul := (le_div_iff₀ hcost).mp hle
    have hbudget := hfit.budget_pos
    linarith
  have hsearched := searchedSolution_of_idle hidle hlength hposes (by
    rw [fitResult_outcome inputs rhoSq htarget, fitted, if_pos hfeasible])
  rw [hfit.highTarget_real hcost.ne', max_eq_left hle, ← hallocated] at hsearched
  rw [numericalSolution_eq_searchedSolution htarget hexhausted]
  exact ⟨_, hsearched⟩

/-- The tolerance of a single QoI asks for what the closed form asks for. -/
theorem numericalSolution_of_idle_tolerance {tolerance var pilot : ExactReal}
    (htarget : inputs.target = .tolerance tolerance)
    (hvar : inputs.correlations.varHigh = [var]) (hpilot : inputs.pilotVariance = some [pilot]) :
    ∃ variance, (inputs.numericalSolution rhoSq optimizer).outcome =
      .ok (.numerical (inputs.startingOrder rhoSq) (.ofRow rhoSq.rows (rs.map real))
        ((1 - rSquared (rhoSq.row 0) (rs.map real) (inputs.startingOrder rhoSq)) * var /
          (pilot * tolerance)) variance) := by
  have hposes := poses_of_none hmeans hprevious
    (problem_outcome_of_tolerance inputs rhoSq htarget hpilot) (by rw [fitGuess, htarget]; rfl)
  have hsearched := searchedSolution_of_idle hidle hlength hposes (by rw [fitResult, htarget]; rfl)
  -- the average over a single QoI is its own value
  have hsingle : ∀ x : ExactReal, average [x] = x := average_replicate_self one_ne_zero
  have hhigh : (inputs.toleranceProblem rhoSq (tolerance * average [pilot])).highTarget
      (rs.map real) =
      (1 - rSquared (rhoSq.row 0) (rs.map real) (inputs.startingOrder rhoSq)) * var /
        (pilot * tolerance) := by
    rw [RatioProblem.highTarget, hsingle, ExactReal.mul_comm pilot, ExactReal.mul_comm _ var]
    simp only [RatioProblem.varianceFactor, toleranceProblem, hvar, List.mapIdx_cons,
      List.mapIdx_nil, hsingle]
  rw [hhigh] at hsearched
  rw [numericalSolution, htarget]
  exact ⟨_, hsearched⟩

end Idle

/-- The search and the closed form have the same targets. -/
theorem Settled.exists_highTarget (hsettled : inputs.Settled rhoSq)
    (hcosts : inputs.costs.Usable rhoSq.cols) (haverage : 0 < inputs.averageHigh)
    (hprevious : inputs.previous = none) (hrows : 0 < rhoSq.rows) {limit : ℝ} (hlimit : 0 ≤ limit)
    (hone : limit < 1) (hrange : ∀ value ∈ rhoSq.entries, InRange limit value)
    {optimizer : Optimizer ExactReal} (hidle : optimizer.Idle) :
    let (order, ratios) := reorderedRatios rhoSq inputs.costs
    ∃ high variance, (inputs.numericalSolution rhoSq optimizer).outcome =
        .ok (.numerical order ratios high variance) ∧
      (inputs.highTargets rhoSq (.reordered order ratios)).outcome =
        .ok (List.replicate rhoSq.rows high) := by
  obtain ⟨rs, hlength, hge, hshared, hmeans⟩ :=
    exists_sharedRatios hcosts hrows hlimit hone hrange
  have horder : inputs.startingOrder rhoSq = (reorderedRatios rhoSq inputs.costs).1 := by
    rw [startingOrder, hprevious]
    rfl
  have hrow : (QoiMatrix.ofRow rhoSq.rows (rs.map real)).row 0 = rs.map real :=
    QoiMatrix.row_ofRow hrows _
  dsimp only
  cases hsettled with
  | budget b htarget hunspent hroom hfits =>
    rw [hshared, hrow] at hfits
    obtain ⟨variance, hsearch⟩ := numericalSolution_of_idle_budget hidle hlength hmeans hprevious
      hcosts haverage hge htarget hunspent hroom hfits
    rw [hshared, ← horder]
    refine ⟨_, variance, hsearch, ?_⟩
    simp only [highTargets, htarget, ← budgetTargets_ofRow]
    rfl
  | tolerance tolerance var pilot htarget hsingle hvar hpilot hpositive =>
    obtain ⟨variance, hsearch⟩ := numericalSolution_of_idle_tolerance hidle hlength hmeans
      hprevious htarget hvar hpilot
    rw [hshared, ← horder]
    refine ⟨_, variance, hsearch, ?_⟩
    have hratios : varianceRatios rhoSq (.ofRow rhoSq.rows (rs.map real))
        (inputs.startingOrder rhoSq) =
        [1 - rSquared (rhoSq.row 0) (rs.map real) (inputs.startingOrder rhoSq)] := by
      rw [varianceRatios, hsingle, List.range_one, List.map_singleton, ← hsingle, hrow]
    simp only [highTargets, htarget, requirePilotVariance, hpilot]
    change Except.ok (toleranceTargets (varianceRatios rhoSq (.ofRow rhoSq.rows (rs.map real))
      (inputs.startingOrder rhoSq)) _ _ _) = _
    rw [hratios, hvar, hsingle, List.replicate_one]
    simp only [toleranceTargets, List.zip_cons_cons, List.zip_nil_left, List.map_cons,
      List.map_nil, if_pos hpositive]

end RatioInputs

/-- Models that are not ordered get the same order, ratios and targets from a search whose optimizer
is idle as from the closed form that all QoI share, whichever is preferred. -/
theorem evalRatios_of_idle {inputs : RatioInputs ExactReal} (h : inputs.Allocatable)
    (hprevious : inputs.previous = none) (haverage : 0 < inputs.averageHigh)
    (hordered : isOrdered (sanitize inputs.correlations.rhoSq inputs.tolerances).1
      inputs.tolerances.ordering = false)
    (hsettled : inputs.Settled (sanitize inputs.correlations.rhoSq inputs.tolerances).1)
    {optimizer : Optimizer ExactReal} (hidle : optimizer.Idle) :
    ∃ closed searched,
      ({ inputs with preferReordered := true }.evalRatios optimizer).outcome = .ok closed ∧
      ({ inputs with preferReordered := false }.evalRatios optimizer).outcome = .ok searched ∧
      closed.solution.form = .reordered ∧ searched.solution.form = .numerical ∧
      searched.solution.order = closed.solution.order ∧
      searched.solution.ratios = closed.solution.ratios ∧
      searched.highTargets = closed.highTargets := by
  obtain ⟨limit, hlimit, hone, hclamp⟩ := h.tolerances.exists_limit
  have hrows := rows_pos_of_isOrdered_eq_false hordered
  obtain ⟨high, variance, hsearch, htargets⟩ := hsettled.exists_highTarget h.costs haverage
    hprevious hrows hlimit hone (inRange_of_mem_sanitize hclamp _) hidle
  let rhoSq := (sanitize inputs.correlations.rhoSq inputs.tolerances).1
  let warnings := (sanitize inputs.correlations.rhoSq inputs.tolerances).2
  let shared := reorderedRatios rhoSq inputs.costs
  have hclosed : ({ inputs with preferReordered := true }.solution rhoSq optimizer).outcome =
      .ok (.reordered shared.1 shared.2) :=
    RatioInputs.solution_of_preferReordered hordered rfl
  have hsearched : ({ inputs with preferReordered := false }.solution rhoSq optimizer).outcome =
      .ok (.numerical shared.1 shared.2 high variance) := by
    refine Eq.trans (RatioInputs.solution_of_search ?_ rfl) hsearch
    exact hordered
  let targets := List.replicate rhoSq.rows high
  refine ⟨⟨.reordered shared.1 shared.2, targets, rhoSq, warnings⟩,
    ⟨.numerical shared.1 shared.2 high variance, targets, rhoSq, warnings⟩,
    RatioInputs.evalRatios_eq_ok_iff.mpr ⟨rfl, hclosed, htargets⟩,
    RatioInputs.evalRatios_eq_ok_iff.mpr ⟨rfl, hsearched, rfl⟩, rfl, rfl, rfl, rfl, rfl⟩

/-! ## One correlated model -/

/-- The closed form draws at most a hundred thousand samples of the correlated model for each
high-fidelity sample. -/
theorem le_of_mem_row_onlyFirst (target : Target ExactReal) :
    let inputs := onlyFirst target
    ∀ ratio ∈ (reorderedRatios (sanitize inputs.correlations.rhoSq inputs.tolerances).1
        inputs.costs).2.row 0, ratio ≤ real 100000 := by
  intro inputs
  let rhoSq := (sanitize inputs.correlations.rhoSq inputs.tolerances).1
  have hrows : rhoSq.rows = 1 := rows_sanitize _ _
  have hrow : rhoSq.row 0 = [1 - 1e-10, 0].map real := by
    have htoRows : rhoSq.toRows = _ := toRows_perfect_then_none 1
    rw [QoiMatrix.toRows, hrows] at htoRows
    exact List.singleton_inj.mp htoRows
  have hmeans : rhoSq.columnMeans = [1 - 1e-10, 0].map real := by
    rw [← hrow]
    refine columnMeans_eq_row (by omega) (by rw [hrow]; rfl) fun qoi hqoi => ?_
    obtain rfl : qoi = 0 := by omega
    rfl
  have horder : correlationOrder rhoSq = [1, 0] := by
    unfold correlationOrder
    rw [hmeans]
    norm_num [List.range_succ, insertByKey]
  rw [row_reorderedRatios rhoSq inputs.costs (by omega), hmeans, horder]
  have hcosts : inputs.costs = ⟨[1, 1, 1].map real⟩ := rfl
  rw [hcosts]
  -- the gain of the correlated model is divided by what its clamped correlation lacks to one
  refine sequenceRatios_le (Or.inr (.swap 0 1 [])) rfl (by simp) (by norm_num [ModelOrder.model])
    (by norm_num) fun i hi => ?_
  have hi : i < 2 := hi
  rw [gainRatio, Real.sqrt_le_iff]
  interval_cases i <;> norm_num [ModelOrder.model, gain]

theorem averageHigh_onlyFirst (target : Target ExactReal) :
    (onlyFirst target).averageHigh = real 2 :=
  averageCount_replicate one_ne_zero 2

theorem settled_onlyFirst_tolerance :
    let inputs := onlyFirst (.tolerance (real 0.5))
    inputs.Settled (sanitize inputs.correlations.rhoSq inputs.tolerances).1 :=
  .tolerance (real 0.5) 1 (real 0.5) rfl rfl rfl rfl (real_lt_real.mpr (by norm_num))

theorem allocateBudget_onlyFirst (target : Target ExactReal) {r q : ℝ} (hr : 1 ≤ r) (hq : 1 ≤ q)
    (budget : ℝ) :
    allocateBudget [real r, real q] (onlyFirst target).costs (real budget) =
      real (budget / (1 + r + q)) := by
  have hcost : profileCost 1 [r, q] [1, 1, 1] = 1 + r + q := by
    simp [profileCost, add_assoc]
  have hpos : profileCost 1 [r, q] [1, 1, 1] ≠ 0 := by
    rw [hcost]
    linarith
  have hallocated : allocateBudget ([r, q].map real) ⟨[1, 1, 1].map real⟩ (real budget) = _ :=
    allocateBudget_real (by simp) (by exact hpos) budget
  rw [← hcost]
  exact hallocated

/-- A budget of a million pays for more than the two samples already drawn. -/
theorem settled_onlyFirst_budget :
    let inputs := onlyFirst (.budget (real 1000000))
    inputs.Settled (sanitize inputs.correlations.rhoSq inputs.tolerances).1 := by
  intro inputs
  let rhoSq := (sanitize inputs.correlations.rhoSq inputs.tolerances).1
  have hallocatable : inputs.Allocatable := allocatable_onlyFirst _
  have hcosts : inputs.costs.Usable rhoSq.cols := hallocatable.costs
  have hrows : 0 < rhoSq.rows := rows_pos_of_isOrdered_eq_false (isOrdered_onlyFirst inputs.target)
  obtain ⟨limit, hlimit, hone, hclamp⟩ := hallocatable.tolerances.exists_limit
  have hrange : ∀ value ∈ rhoSq.entries, InRange limit value := inRange_of_mem_sanitize hclamp _
  obtain ⟨rs, hlength, hge, hshared, -⟩ :=
    RatioInputs.exists_sharedRatios hcosts hrows hlimit hone hrange
  -- the shared ratios are between one and their bound
  obtain ⟨r, q, rfl⟩ : ∃ r q, rs = [r, q] := List.length_eq_two.mp hlength
  have hrow : (reorderedRatios rhoSq inputs.costs).2.row 0 = [real r, real q] := by
    rw [hshared, QoiMatrix.row_ofRow hrows]
    rfl
  have hle : ∀ ratio ∈ (reorderedRatios rhoSq inputs.costs).2.row 0, ratio ≤ real 100000 :=
    le_of_mem_row_onlyFirst _
  rw [hrow] at hle
  have hr := hge r (by simp)
  have hq := hge q (by simp)
  have hrLe := real_le_real.mp (hle (real r) (by simp))
  have hqLe := real_le_real.mp (hle (real q) (by simp))
  refine .budget 1000000 rfl ?_ ?_ ?_
  · have hspent : inputs.spent = real 6 := rfl
    rw [hspent, real_lt_real]
    norm_num
  · have hallocated : allocateBudget (.replicate rhoSq.cols 1) inputs.costs (real 1000000) = _ :=
      allocateBudget_onlyFirst inputs.target le_rfl le_rfl 1000000
    rw [averageHigh_onlyFirst, hallocated, real_lt_real]
    norm_num
  · rw [averageHigh_onlyFirst, hrow, allocateBudget_onlyFirst _ hr hq, real_le_real,
      le_div_iff₀ (by linarith)]
    linarith

/-- Two models that are not ordered have the same targets either way, with a tolerance as with a
budget. -/
theorem evalRatios_of_idle_onlyFirst :
    let agrees : Target ExactReal → Prop := fun target =>
      let inputs := onlyFirst target
      ∃ closed searched,
        ({ inputs with preferReordered := true }.evalRatios fun _ initial => pure initial).outcome =
          .ok closed ∧
        ({ inputs with preferReordered := false }.evalRatios fun _ initial =>
          pure initial).outcome = .ok searched ∧
        closed.solution.form = .reordered ∧ searched.solution.form = .numerical ∧
        searched.highTargets = closed.highTargets
    agrees (.tolerance (real 0.5)) ∧ agrees (.budget (real 1000000)) := by
  intro agrees
  have hagrees : ∀ target, (onlyFirst target).Settled
      (sanitize (onlyFirst target).correlations.rhoSq (onlyFirst target).tolerances).1 →
      agrees target := by
    intro target hsettled
    have haverage : 0 < (onlyFirst target).averageHigh := by
      rw [averageHigh_onlyFirst]
      exact real_lt_real.mpr two_pos
    have hidle : Optimizer.Idle fun _ initial => pure initial := fun _ _ => rfl
    obtain ⟨closed, searched, hclosed, hsearched, hreordered, hnumerical, -, -, htargets⟩ :=
      evalRatios_of_idle (allocatable_onlyFirst target) rfl haverage (isOrdered_onlyFirst target)
        hsettled hidle
    exact ⟨closed, searched, hclosed, hsearched, hreordered, hnumerical, htargets⟩
  exact ⟨hagrees _ settled_onlyFirst_tolerance, hagrees _ settled_onlyFirst_budget⟩

end Multifidelity
