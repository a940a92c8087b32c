import Multifidelity.Proofs.Allocation.Parametrization
import Multifidelity.Proofs.Allocation.Pyramid

/-!
# The start of a search

A search starts from the ratios of the search before, or else from those in closed form. Both are
nested, and they are made to leave room for the samples already drawn. Their increments are cut off
at the largest one of the search, so that its first ratios are not above them. Hence the objective
is a real number at the start, and a compass search always ends with ratios.

## Main definitions

* `RatioInputs.Startable`: inputs from which a search can start
* `RatioInputs.Searchable`: inputs whose allocation can be searched

## Main results

* `CompassSearch.exists_toRatios_le`: the first ratios of a search are not above those it is given
* `RatioProblem.exists_varianceFactor`: the variance of nested ratios is a real number
* `CompassSearch.exists_optimize`: a search that starts at a real number ends with ratios
* `RatioInputs.Startable.exists_poses`: a search poses ratios that are nested and feasible
* `RatioInputs.Startable.exists_searchedSolution`: a compass search leads to a solution
* `RatioInputs.Searchable.exists_evalRatios`: an allocation by compass search succeeds
-/

namespace Multifidelity

open ExactReal

/-! ## The first ratios -/

namespace CompassSearch

/-- The ratios of increments are finite. -/
theorem Rising.isFinite_toRatios {increments : List ExactReal} (h : Rising increments)
    (order : ModelOrder) : ∀ ratio ∈ toRatios order increments, Scalar.isFinite ratio = true := by
  intro ratio hratio
  rcases ModelOrder.mem_or_eq_one_of_mem_scatter hratio with hmem | rfl
  · obtain ⟨sum, hsum, rfl⟩ := List.mem_map.mp hmem
    obtain ⟨x, -, rfl⟩ := h.suffixSums sum hsum
    rw [exp_real, isFinite_real]
  · exact isFinite_real 1

section Limit

variable {search : CompassSearch ExactReal} {limit : ℝ} (hlimit : 0 ≤ limit)
  (hmax : search.maxLogRatio = real limit)
include hlimit hmax

/-- The first ratios of a search are nested and not above those it is given. -/
theorem exists_toRatios_le {order : ModelOrder} {rs : List ℝ} (horder : order.Valid rs.length)
    (hnested : order.Nested rs.length (rs.map real)) :
    ∃ start : List ℝ,
      toRatios order (search.toIncrements order (rs.map real)) = start.map real ∧
      start.length = rs.length ∧ order.Nested rs.length (start.map real) ∧
      ∀ model < rs.length, start.getD model 0 ≤ rs.getD model 0 := by
  have hrising := rising_toIncrements hlimit hmax order (rs.map real)
  have hlength : (search.toIncrements order (rs.map real)).length = rs.length := by
    simp [toIncrements]
  obtain ⟨start, hstart⟩ := exists_map_real (hrising.isFinite_toRatios order)
  have hstartLength : start.length = rs.length := by
    rw [← List.length_map real, ← hstart, length_toRatios, hlength]
  have hstartNested := hrising.nested_toRatios (by rwa [hlength])
  rw [hlength, hstart] at hstartNested
  refine ⟨start, hstart, hstartLength, hstartNested, fun model hmodel => ?_⟩
  -- every model has a position, and what its increments add up to is not above its logarithm
  obtain ⟨i, hi, rfl⟩ := List.mem_map.mp (horder.mem_along.mpr hmodel)
  have hi := List.mem_range.mp hi
  have hget : real (start.getD (order.model i) 0) =
      real (Real.exp (logIncrements limit ((order.listed rs).drop i)).sum) := by
    rw [← List.getD_map start 0 real, ← hstart]
    exact getD_toRatios_toIncrements hmax horder hi
  rw [ExactReal.real.inj hget, ← hnested.peak_eq horder hi]
  calc Real.exp (logIncrements limit ((order.listed rs).drop i)).sum
      ≤ Real.exp (Real.log (order.peak rs i)) :=
        Real.exp_le_exp.mpr (sum_logIncrements_le limit _)
    _ = order.peak rs i := Real.exp_log (highest_pos _)

/-! ## The last ratios -/

/-- A search that starts where the objective is a real number ends with one finite ratio for every
model. -/
theorem exists_optimize {problem : RatioProblem ExactReal} {initial : List ExactReal} {value : ℝ}
    (hvalue : problem.objective
      (toRatios problem.order (search.toIncrements problem.order initial)) = real value) :
    ∃ found, (search.optimize problem initial).outcome = .ok found ∧
      found.length = initial.length ∧ ∀ ratio ∈ found, Scalar.isFinite ratio = true := by
  have hfinite : Scalar.isFinite (search.start problem initial).value = true := by
    rw [start, RatioProblem.objectiveAt, hvalue, isFinite_real]
  exact ⟨_, optimize_eq_ok_iff.mpr ⟨hfinite, rfl⟩, by rw [length_toRatios, length_last],
    (rising_last hlimit hmax problem initial).isFinite_toRatios _⟩

end Limit

end CompassSearch

/-! ## The objective -/

/-- The variance that nested ratios lead to is a real number. -/
theorem RatioProblem.exists_varianceFactor {problem : RatioProblem ExactReal} {limit : ℝ}
    (hlimit : limit < 1) (hfull : problem.rhoSq.Full)
    (hrange : ∀ value ∈ problem.rhoSq.entries, InRange limit value) {vars rs : List ℝ}
    (hvar : problem.varHigh = vars.map real) (hne : vars ≠ [])
    (hrows : vars.length = problem.rhoSq.rows) (horder : problem.order.Valid problem.numApprox)
    (hlength : rs.length = problem.numApprox)
    (hnested : problem.order.Nested problem.numApprox (rs.map real)) :
    ∃ factor : ℝ, problem.varianceFactor (rs.map real) = real factor := by
  unfold varianceFactor
  rw [hvar]
  have hreal : ∀ value ∈ (vars.map real).mapIdx fun qoi var =>
      var * (1 - rSquared (problem.rhoSq.row qoi) (rs.map real) problem.order),
      Scalar.isFinite value = true := by
    intro value hvalue
    obtain ⟨qoi, hqoi, rfl⟩ := List.mem_mapIdx.mp hvalue
    have hlt : qoi < problem.rhoSq.rows := by simpa [← hrows] using hqoi
    obtain ⟨rhos, hrhosLength, hrhos, hrow⟩ := exists_row_of_inRange hfull hrange hlt
    rw [numApprox, ← hrhosLength] at horder hlength hnested
    obtain ⟨part, -, -, hpart⟩ := one_sub_rSquared_of_nested horder hlength hnested hlimit hrhos
    rw [hrow, hpart, List.getElem_map, real_mul, isFinite_real]
  obtain ⟨parts, hparts⟩ := exists_map_real hreal
  rw [hparts]
  refine ⟨_, average_real ?_⟩
  rintro rfl
  simp at hparts
  exact hne hparts

/-- The objective is a real number at nested ratios that are feasible. -/
theorem RatioProblem.exists_objective {problem : RatioProblem ExactReal} {cs rs : List ℝ}
    (hcosts : problem.costs = ⟨cs.map real⟩) (hhigh : cs.getD problem.numApprox 0 ≠ 0)
    (hfeasible : problem.isFeasible (rs.map real) = true)
    (hfactor : ∃ factor : ℝ, problem.varianceFactor (rs.map real) = real factor) :
    ∃ value : ℝ, problem.objective (rs.map real) = real value := by
  obtain ⟨factor, hfactor⟩ := hfactor
  refine ⟨factor * profileCost (cs.getD problem.numApprox 0) rs cs, ?_⟩
  rw [objective, if_pos hfeasible, hfactor, relativeCost_real hcosts hhigh, real_mul]

/-! ## Inputs of a search -/

/-- The shared ratios of a pyramid are their averages over the QoI. -/
theorem RatioSolution.IsPyramid.exists_columnMeans {dims : Dimensions}
    {solution : RatioSolution ExactReal} (h : solution.IsPyramid dims)
    (hpos : 0 < dims.numFunctions) (hform : solution.form ≠ .analytic) :
    ∃ rs : List ℝ, rs.length = dims.numApprox ∧ solution.ratios.columnMeans = rs.map real ∧
      solution.order.Nested dims.numApprox (rs.map real) := by
  obtain ⟨rs, hlength, hrow⟩ := h.isReal 0 hpos
  refine ⟨rs, hlength, ?_, hrow ▸ h.nested 0 hpos⟩
  rw [← hrow]
  apply columnMeans_eq_row
  · rwa [h.rows]
  · rw [hrow, List.length_map, hlength, h.cols]
  · intro qoi hqoi
    exact h.shared hform qoi (h.rows ▸ hqoi) 0 hpos

namespace RatioInputs

variable {inputs : RatioInputs ExactReal} {rhoSq : QoiMatrix ExactReal}

/-- Ratios that cost more than the budget are scaled to it before the search. -/
theorem HasRoom.exists_fitGuess {cs : List ℝ} {high budget : ℝ}
    (h : inputs.HasRoom rhoSq cs high budget) {order : ModelOrder} (horder : order.Valid rhoSq.cols)
    {rs : List ℝ} (hlength : rs.length = rhoSq.cols)
    (hnested : order.Nested rhoSq.cols (rs.map real)) :
    ∃ fit : List ℝ, (inputs.fitGuess (rs.map real)).outcome = .ok (fit.map real) ∧
      fit.length = rhoSq.cols ∧ order.Nested rhoSq.cols (fit.map real) ∧
      high * profileCost (cs.getD rhoSq.cols 0) fit cs ≤ budget := by
  have hhigh := getD_pos h.length h.cost_pos le_rfl
  have hcost : 0 < profileCost (cs.getD rhoSq.cols 0) rs cs :=
    zero_lt_one.trans_le (one_le_profileCost hhigh h.cost_pos fun r hr =>
      zero_le_one.trans (real_le_real.mp (hnested.one_le _ (List.mem_map_of_mem hr))))
  have hallocated : allocateBudget (rs.map real) inputs.costs (real budget) =
      real (budget / profileCost (cs.getD rhoSq.cols 0) rs cs) := by
    rw [← hlength] at hhigh hcost
    rw [h.costs, allocateBudget_real hhigh.ne' hcost.ne', hlength]
  unfold fitGuess
  rw [h.target]
  dsimp only
  rw [hallocated, h.averageHigh]
  split
  · rename_i hover
    rw [real_lt_real] at hover
    obtain ⟨factor, hfactor, hscaled, hexact⟩ :=
      h.exists_scaled hlength ((div_lt_iff₀ hcost).mp hover)
    rw [h.averageHigh] at hscaled
    rw [← hlength] at horder hnested
    refine ⟨_, Recorder.outcome_bind_eq_ok.mpr ⟨(), rfl, congrArg Except.ok hscaled⟩,
      by simpa using hlength, hlength ▸ hnested.clamped horder hfactor.le, ?_⟩
    rw [hexact, mul_div_cancel₀ _ h.high_pos.ne']
  · rename_i hfits
    rw [real_lt_real] at hfits
    exact ⟨rs, rfl, hlength, hnested, (le_div_iff₀ hcost).mp (not_lt.mp hfits)⟩

/-- Inputs from which a search can start for squared correlations below one, under a tolerance or a
budget with room. If the solution before is a numerical one, it is a pyramid. -/
structure Startable (inputs : RatioInputs ExactReal) (rhoSq : QoiMatrix ExactReal) : Prop where
  costs : inputs.costs.Usable rhoSq.cols
  rows_pos : 0 < rhoSq.rows
  full : rhoSq.Full
  inRange : ∃ limit, 0 ≤ limit ∧ limit < 1 ∧ ∀ value ∈ rhoSq.entries, InRange limit value
  previous : ∀ solution, inputs.previous = some solution → solution.form = .numerical →
    solution.IsPyramid ⟨rhoSq.cols, rhoSq.rows⟩
  room : ∀ budget, inputs.target = .budget budget →
    ∃ cs high b, budget = real b ∧ inputs.HasRoom rhoSq cs high b
  pilotVariance : ∀ tolerance, inputs.target = .tolerance tolerance →
    ∃ variance, inputs.pilotVariance = some variance

namespace Startable

variable (h : inputs.Startable rhoSq)
include h

/-- A search starts from nested ratios. -/
theorem exists_startingPoint :
    ∃ rs : List ℝ, rs.length = rhoSq.cols ∧
      (inputs.startingPoint rhoSq).outcome = .ok (inputs.startingOrder rhoSq, rs.map real) ∧
      (inputs.startingOrder rhoSq).Valid rhoSq.cols ∧
      (inputs.startingOrder rhoSq).Nested rhoSq.cols (rs.map real) := by
  -- the ratios are those of a solution, the last one or the one in closed form
  obtain ⟨solution, hpyramid, hform, horder, hstart⟩ : ∃ solution : RatioSolution ExactReal,
      solution.IsPyramid ⟨rhoSq.cols, rhoSq.rows⟩ ∧ solution.form ≠ .analytic ∧
      solution.order = inputs.startingOrder rhoSq ∧
      (inputs.startingPoint rhoSq).outcome =
        .ok (inputs.startingOrder rhoSq, solution.ratios.columnMeans) := by
    obtain ⟨limit, hlimit, hone, hrange⟩ := h.inRange
    have hclosed : (RatioSolution.reordered (reorderedRatios rhoSq inputs.costs).1
        (reorderedRatios rhoSq inputs.costs).2).IsPyramid ⟨rhoSq.cols, rhoSq.rows⟩ :=
      isPyramid_reordered rfl rfl h.costs hlimit hone hrange h.rows_pos
    unfold startingPoint startingOrder
    cases hprevious : inputs.previous with
    | none => exact ⟨_, hclosed, nofun, rfl, rfl⟩
    | some solution =>
      cases solution with
      | analytic ratios => exact ⟨_, hclosed, nofun, rfl, rfl⟩
      | reordered order ratios => exact ⟨_, hclosed, nofun, rfl, rfl⟩
      | numerical order ratios highTarget variance =>
        exact ⟨_, h.previous _ hprevious rfl, nofun, rfl, rfl⟩
  obtain ⟨rs, hlength, hmeans, hnested⟩ := hpyramid.exists_columnMeans h.rows_pos hform
  rw [hmeans] at hstart
  rw [horder] at hnested
  exact ⟨rs, hlength, hstart, horder ▸ hpyramid.order, hnested⟩

/-- A search poses ratios that are nested. Ratios that are not above them are feasible. -/
theorem exists_poses :
    ∃ problem, ∃ fit : List ℝ, inputs.Poses rhoSq problem (fit.map real) ∧
      fit.length = rhoSq.cols ∧ (inputs.startingOrder rhoSq).Valid rhoSq.cols ∧
      (inputs.startingOrder rhoSq).Nested rhoSq.cols (fit.map real) ∧
      ∀ start : List ℝ, start.length = fit.length →
        (∀ model < fit.length, start.getD model 0 ≤ fit.getD model 0) →
          problem.isFeasible (start.map real) = true := by
  obtain ⟨rs, hlength, hstarting, horder, hnested⟩ := h.exists_startingPoint
  cases htarget : inputs.target with
  | budget budget =>
    obtain ⟨cs, high, b, rfl, hfits⟩ := h.room _ htarget
    obtain ⟨fit, hguess, hfitLength, hfitNested, hcost⟩ :=
      hfits.exists_fitGuess horder hlength hnested
    refine ⟨_, fit, ⟨problem_outcome inputs rhoSq htarget, _, hstarting, hguess⟩, hfitLength,
      horder, hfitNested, fun start hstart hle => (hfits.isFeasible_real start).mpr ?_⟩
    -- lower ratios cost less
    have hlower := profileCost_le hstart (by rw [hfits.length, hfitLength]) hfits.cost_pos hle
    rw [hfitLength] at hlower
    have hbudget := hfits.budget_pos
    calc high * profileCost (cs.getD rhoSq.cols 0) start cs
        ≤ high * profileCost (cs.getD rhoSq.cols 0) fit cs :=
          mul_le_mul_of_nonneg_left hlower hfits.high_pos.le
      _ ≤ b := hcost
      _ ≤ b * (1 + 1e-10) := by linarith
  | tolerance tolerance =>
    obtain ⟨variance, hvariance⟩ := h.pilotVariance tolerance htarget
    refine ⟨{
      rhoSq := rhoSq
      varHigh := inputs.correlations.varHigh
      varLow := inputs.correlations.varLow
      costs := inputs.costs
      order := inputs.startingOrder rhoSq
      constraint := .estimatorVariance (tolerance * average variance) }, rs,
      ⟨?_, _, hstarting, ?_⟩, hlength, horder, hnested, fun _ _ _ => rfl⟩
    · simp [problem, htarget, requirePilotVariance, hvariance]
    · simp [fitGuess, htarget]

/-- A compass search ends with a solution if the variances of the high-fidelity model are real. -/
theorem exists_searchedSolution {vars : List ℝ}
    (hvars : inputs.correlations.varHigh = vars.map real) (hcount : vars.length = rhoSq.rows)
    {search : CompassSearch ExactReal} {limit : ℝ} (hlimit : 0 ≤ limit)
    (hmax : search.maxLogRatio = real limit) :
    ∃ chosen, (inputs.searchedSolution rhoSq search.optimize).outcome = .ok chosen := by
  obtain ⟨problem, fit, hposes, hlength, horder, hnested, hfeasible⟩ := h.exists_poses
  obtain ⟨rfl, hsame, hvarHigh, hcosts⟩ := problem_eq_ok hposes.1
  obtain ⟨cs, hcsLength, hpos, hcs⟩ := h.costs.exists_real
  obtain ⟨bound, -, hbound, hrange⟩ := h.inRange
  -- the first ratios of the search are feasible, and the objective is a real number there
  rw [← hsame, ← hlength] at horder hnested
  obtain ⟨start, hstart, hstartLength, hstartNested, hle⟩ :=
    CompassSearch.exists_toRatios_le hlimit hmax horder hnested
  rw [hlength] at horder hstartNested
  have hfactor : ∃ factor : ℝ, problem.varianceFactor (start.map real) = real factor := by
    refine RatioProblem.exists_varianceFactor hbound h.full hrange (hvarHigh.trans hvars) ?_
      hcount horder (hstartLength.trans hlength) hstartNested
    rw [← List.length_pos_iff, hcount]
    exact h.rows_pos
  obtain ⟨value, hvalue⟩ := RatioProblem.exists_objective (hcosts.trans hcs)
    (getD_pos hcsLength hpos le_rfl).ne' (hfeasible start hstartLength hle) hfactor
  rw [← hstart] at hvalue
  obtain ⟨found, hfound, hfoundLength, hfinite⟩ :=
    CompassSearch.exists_optimize hlimit hmax hvalue
  refine exists_searchedSolution_of_found hposes hfound ?_ hfinite
  rw [hfoundLength, List.length_map, hlength]

end Startable

/-! ## Inputs of an allocation -/

/-- Sound inputs with real variances of the high-fidelity model, of which the solution before is a
pyramid. The variances of the pilot are known if there is a tolerance. -/
structure Searchable (inputs : RatioInputs ExactReal) (dims : Dimensions) : Prop
    extends inputs.Sound dims where
  isPyramid : ∀ solution, inputs.previous = some solution → solution.IsPyramid dims
  varHigh : ∃ vars : List ℝ, vars.length = dims.numFunctions ∧
    inputs.correlations.varHigh = vars.map real
  pilotVariance : ∀ tolerance, inputs.target = .tolerance tolerance →
    ∃ variance, inputs.pilotVariance = some variance

variable {dims : Dimensions}

namespace Searchable

variable (h : inputs.Searchable dims)
include h

section Start

variable (hrows : rhoSq.rows = dims.numFunctions) (hcols : rhoSq.cols = dims.numApprox)
  {limit : ℝ} (hlimit : 0 ≤ limit) (hone : limit < 1)
  (hrange : ∀ value ∈ rhoSq.entries, InRange limit value) (hfull : rhoSq.Full)
include hrows hcols hlimit hone hrange hfull

/-- A search can start if the budget has room. -/
theorem startable (hroom : ∀ budget, inputs.target = .budget budget →
    inputs.isExhausted rhoSq.cols budget = false) : inputs.Startable rhoSq where
  costs := hcols ▸ h.costs
  rows_pos := hrows ▸ h.numFunctions_pos
  full := hfull
  inRange := ⟨limit, hlimit, hone, hrange⟩
  previous solution hsolution _ := by
    rw [hcols, hrows]
    exact h.isPyramid solution hsolution
  room budget htarget := hasRoom_of_not_isExhausted htarget (h.target _ htarget)
    (hcols ▸ h.costs) h.averageHigh (hroom _ htarget)
  pilotVariance := h.pilotVariance

/-- Whatever form suits the squared correlations, there is a solution. -/
theorem exists_solution {search : CompassSearch ExactReal} (hsearch : search.Bounded) :
    ∃ chosen, (inputs.solution rhoSq search.optimize).outcome = .ok chosen := by
  have hnumerical : ∃ chosen,
      (inputs.numericalSolution rhoSq search.optimize).outcome = .ok chosen := by
    by_cases hexhausted : ∃ budget, inputs.target = .budget budget ∧
        inputs.isExhausted rhoSq.cols budget = true
    · obtain ⟨budget, htarget, hnone⟩ := hexhausted
      exact ⟨_, numericalSolution_of_isExhausted htarget hnone⟩
    · rw [numericalSolution_of_room hexhausted]
      obtain ⟨vars, hcount, hvars⟩ := h.varHigh
      obtain ⟨bound, hbound, hmax⟩ := hsearch.maxLogRatio
      have hstart := h.startable hrows hcols hlimit hone hrange hfull fun budget htarget =>
        Bool.eq_false_of_not_eq_true fun hnone => hexhausted ⟨budget, htarget, hnone⟩
      exact hstart.exists_searchedSolution hvars (hcount.trans hrows.symm) hbound hmax
  unfold solution
  split
  · exact ⟨_, rfl⟩
  · exact ⟨_, rfl⟩
  · obtain ⟨chosen, hchosen⟩ := hnumerical
    exact ⟨chosen, Recorder.outcome_bind_eq_ok.mpr ⟨(), rfl, hchosen⟩⟩

end Start

theorem exists_highTargets (rhoSq : QoiMatrix ExactReal) (solution : RatioSolution ExactReal) :
    ∃ targets, (inputs.highTargets rhoSq solution).outcome = .ok targets := by
  unfold highTargets
  split
  · exact ⟨_, rfl⟩
  · exact ⟨_, rfl⟩
  · rename_i tolerance _ htarget
    obtain ⟨variance, hvariance⟩ := h.pilotVariance tolerance htarget
    exact ⟨_, Recorder.outcome_bind_eq_ok.mpr
      ⟨variance, requirePilotVariance_eq_ok.mpr hvariance, rfl⟩⟩

/-- An allocation by compass search always has a result. -/
theorem exists_evalRatios {search : CompassSearch ExactReal} (hsearch : search.Bounded) :
    ∃ result, (inputs.evalRatios search.optimize).outcome = .ok result := by
  obtain ⟨limit, hlimit, hone, hclamp⟩ := h.tolerances.exists_limit
  obtain ⟨solution, hsolution⟩ := h.exists_solution ((rows_sanitize _ _).trans h.rows)
    ((cols_sanitize _ _).trans h.cols) hlimit hone (inRange_of_mem_sanitize hclamp _)
    (full_sanitize _ h.full) hsearch
  obtain ⟨targets, htargets⟩ := h.exists_highTargets _ solution
  exact ⟨⟨solution, targets, _, _⟩, evalRatios_eq_ok_iff.mpr ⟨rfl, hsolution, htargets⟩⟩

end Searchable

end RatioInputs

end Multifidelity
