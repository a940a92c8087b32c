import Multifidelity.Proofs.Allocation.SearchStart

/-!
# Targets that use up what they are given

The high-fidelity targets are computed in three ways: by QoI from a budget, by QoI from a tolerance,
and along with the ratios of a search. All of them meet what they are scaled to exactly. A budget is
neither missed nor exceeded by the profile of any QoI in closed form, and a tolerance is exactly the
variance that is left, for every QoI in closed form and on average after a search.

## Main definitions

* `EvalRatios.remaining`: the fraction of the variance that the control variates leave
* `EvalRatios.costPerSample`: the cost of a high-fidelity sample with its companions
* `RatioInputs.Allocatable`: inputs whose ratios are real numbers
* `EvalRatios.Saturates`: targets that meet their constraint exactly

## Main results

* `RatioInputs.Allocatable.exists_remaining`: the control variates leave a part of the variance
* `highTargets_saturate`: the targets of an allocation meet their constraint exactly
-/

namespace Multifidelity

open ExactReal

/-! ## Positive real numbers -/

namespace ExactReal

theorem isPositiveFinite_real {x : ℝ} : Scalar.isPositiveFinite (real x) = true ↔ 0 < x := by
  rw [isPositiveFinite_iff]
  constructor
  · rintro ⟨y, hy, heq⟩
    cases heq
    exact hy
  · intro h
    exact ⟨x, h, rfl⟩

theorem exists_map_of_isPositiveFinite {values : List ExactReal}
    (h : ∀ value ∈ values, Scalar.isPositiveFinite value = true) :
    ∃ xs : List ℝ, values = xs.map real ∧ ∀ x ∈ xs, 0 < x := by
  obtain ⟨xs, rfl⟩ := exists_map_real fun value hvalue => by
    obtain ⟨x, -, rfl⟩ := isPositiveFinite_iff.mp (h value hvalue)
    exact isFinite_real x
  refine ⟨xs, rfl, fun x hx => ?_⟩
  exact isPositiveFinite_real.mp (h (real x) (List.mem_map_of_mem hx))

/-- The average of positive real numbers is a positive real number. -/
theorem exists_average_of_isPositiveFinite {values : List ExactReal} (hne : values ≠ [])
    (h : ∀ value ∈ values, Scalar.isPositiveFinite value = true) :
    ∃ mean, 0 < mean ∧ average values = real mean := by
  obtain ⟨xs, rfl, hpos⟩ := exists_map_of_isPositiveFinite h
  have hne : xs ≠ [] := by simpa using hne
  have hlength : (0 : ℝ) < xs.length := Nat.cast_pos.mpr (List.length_pos_iff.mpr hne)
  exact ⟨_, div_pos (List.sum_pos xs hpos hne) hlength, average_real hne⟩

/-- An average of quotients by a number is the quotient of the average. -/
theorem average_map_div {values : List ExactReal} {divisor : ℝ} (hdivisor : divisor ≠ 0)
    (h : ∀ value ∈ values, Scalar.isFinite value = true) :
    average (values.map (· / real divisor)) = average values / real divisor := by
  obtain ⟨xs, rfl⟩ := exists_map_real h
  have hquotients : (xs.map real).map (· / real divisor) = (xs.map (· / divisor)).map real := by
    rw [List.map_map, List.map_map]
    refine List.map_congr_left fun x _ => ?_
    exact real_div hdivisor
  rw [hquotients]
  rcases eq_or_ne xs [] with rfl | hne
  · rw [List.map_nil, List.map_nil, average_nil]
    rfl
  · have hsum : (xs.map (· / divisor)).sum = xs.sum / divisor := by
      simp only [div_eq_mul_inv, List.sum_map_mul_right, List.map_id']
    rw [average_real hne, average_real (by simpa using hne), hsum, List.length_map,
      real_div hdivisor, div_right_comm]

end ExactReal

/-! ## What the targets are for -/

namespace EvalRatios

variable {α : Type} [Scalar α] (result : EvalRatios α)

/-- The fraction of the variance of a QoI that the control variates leave. -/
def remaining (qoi : ℕ) : α :=
  1 - rSquared (result.rhoSq.row qoi) (result.solution.ratios.row qoi) result.solution.order

/-- The cost of a high-fidelity sample of a QoI with its companions, in high-fidelity
evaluations. -/
def costPerSample (costs : Costs α) (qoi : ℕ) : α :=
  1 + total ((List.range result.rhoSq.cols).map fun model =>
    costs.ofModel model * result.solution.ratios.entry qoi model /
      costs.ofModel result.rhoSq.cols)

end EvalRatios

/-- Targets that meet what they are scaled to. Those in closed form do so for every QoI, and those
of a search on average over the QoI. -/
structure EvalRatios.Saturates (inputs : RatioInputs ExactReal) (result : EvalRatios ExactReal) :
    Prop where
  /-- The high-fidelity samples of a QoI in closed form cost the budget with their companions. -/
  budget : result.solution.form ≠ .numerical →
    ∀ b : ℝ, inputs.target = .budget (real b) → ∀ qoi < result.rhoSq.rows,
      ∃ high, result.highTargets[qoi]? = some high ∧
        high * result.costPerSample inputs.costs qoi = real b
  /-- The estimator variance of a QoI in closed form is the tolerance times that of the pilot. -/
  tolerance : result.solution.form ≠ .numerical →
    ∀ tolerance pilotVariance, inputs.target = .tolerance tolerance →
      Scalar.isPositiveFinite tolerance = true → inputs.pilotVariance = some pilotVariance →
      ∀ qoi < result.rhoSq.rows, ∀ var pilot,
        inputs.correlations.varHigh[qoi]? = some var → pilotVariance[qoi]? = some pilot →
        Scalar.isPositiveFinite var = true → Scalar.isPositiveFinite pilot = true →
        ∃ high, result.highTargets[qoi]? = some high ∧
          var * result.remaining qoi / high = tolerance * pilot
  /-- All targets of a search are equal, and its estimator variance is the average over the QoI and
  the tolerance times that of the pilot. -/
  search : ∀ order ratios highTarget estimatorVariance,
    result.solution = .numerical order ratios highTarget estimatorVariance →
    ∀ tolerance pilotVariance, inputs.target = .tolerance tolerance →
      Scalar.isPositiveFinite tolerance = true → inputs.pilotVariance = some pilotVariance →
      inputs.correlations.varHigh.length = result.rhoSq.rows →
      pilotVariance.length = result.rhoSq.rows →
      (∀ var ∈ inputs.correlations.varHigh, Scalar.isPositiveFinite var = true) →
      (∀ pilot ∈ pilotVariance, Scalar.isPositiveFinite pilot = true) →
      result.highTargets = List.replicate result.rhoSq.rows highTarget ∧
        estimatorVariance = average (inputs.correlations.varHigh.mapIdx fun qoi var =>
          var * result.remaining qoi / highTarget) ∧
        estimatorVariance = tolerance * average pilotVariance

namespace RatioInputs

/-! ## Where targets come from -/

section Origin

variable {α : Type} [Scalar α] {inputs : RatioInputs α} {rhoSq : QoiMatrix α}
  {optimizer : Optimizer α} {result : EvalRatios α}

/-- Ratios in closed form are scaled to a tolerance by QoI. -/
theorem highTargets_of_tolerance (h : (inputs.evalRatios optimizer).outcome = .ok result)
    (hform : result.solution.form ≠ .numerical) {tolerance : α} {pilotVariance : List α}
    (htarget : inputs.target = .tolerance tolerance)
    (hpilot : inputs.pilotVariance = some pilotVariance) :
    result.highTargets =
      toleranceTargets (varianceRatios result.rhoSq result.solution.ratios result.solution.order)
        inputs.correlations.varHigh pilotVariance tolerance := by
  have htargets := (evalRatios_eq_ok_iff.mp h).2.2
  rcases closedForm_of_evalRatios h hform with heq | heq
  · rw [heq] at htargets ⊢
    simp only [highTargets, htarget, requirePilotVariance, hpilot] at htargets
    exact (Except.ok.inj htargets).symm
  · rw [heq] at htargets ⊢
    simp only [highTargets, htarget, requirePilotVariance, hpilot] at htargets
    exact (Except.ok.inj htargets).symm

/-- Only models that are not ordered are searched. -/
theorem isOrdered_of_form {chosen : RatioSolution α}
    (h : (inputs.solution rhoSq optimizer).outcome = .ok chosen)
    (hform : chosen.form = .numerical) :
    isOrdered rhoSq inputs.tolerances.ordering = false := by
  by_contra hordered
  rw [Bool.not_eq_false] at hordered
  rw [solution, selectForm, if_pos hordered] at h
  obtain ⟨-, -, h⟩ := Recorder.outcome_bind_eq_ok.mp h
  rw [← Except.ok.inj h] at hform
  cases hform

/-- There are QoI wherever there is a search. -/
theorem rows_pos_of_form (h : (inputs.evalRatios optimizer).outcome = .ok result)
    (hform : result.solution.form = .numerical) : 0 < result.rhoSq.rows :=
  rows_pos_of_isOrdered_eq_false (isOrdered_of_form (evalRatios_eq_ok_iff.mp h).2.1 hform)

section Search

variable (h : (inputs.evalRatios optimizer).outcome = .ok result)
  (hform : result.solution.form = .numerical) {tolerance : α} {pilotVariance : List α}
  (htarget : inputs.target = .tolerance tolerance)
  (hpilots : inputs.pilotVariance = some pilotVariance)
include h hform htarget hpilots

/-- A search under a tolerance has its target from the problem that it poses. -/
theorem searched_of_tolerance :
    let problem := inputs.toleranceProblem result.rhoSq (tolerance * average pilotVariance)
    ∃ initial found, (optimizer problem initial).outcome = .ok found ∧
      (found.length = result.rhoSq.cols ∧ ∀ ratio ∈ found, Scalar.isFinite ratio = true) ∧
      result.solution = .numerical (inputs.startingOrder result.rhoSq)
        (.ofRow result.rhoSq.rows found) (problem.highTarget found)
        (problem.varianceFactor found / problem.highTarget found) := by
  intro problem
  obtain ⟨initial, -, houtcome⟩ :=
    searchedSolution_outcome_of_tolerance inputs result.rhoSq optimizer htarget hpilots
  have hsearch := numericalSolution_of_evalRatios h hform
  rw [numericalSolution, htarget] at hsearch
  dsimp only at hsearch
  rw [houtcome] at hsearch
  cases hfound : (optimizer problem initial).outcome with
  | error failure =>
    rw [hfound] at hsearch
    cases hsearch
  | ok found =>
    rw [hfound] at hsearch
    change (if _ then _ else _) = _ at hsearch
    split at hsearch
    · rename_i hvalid
      exact ⟨initial, found, hfound, hvalid, (Except.ok.inj hsearch).symm⟩
    · cases hsearch

/-- The target of a search under a tolerance is what the variance that is left asks for. -/
theorem scaled_of_tolerance (hvar : inputs.correlations.varHigh.length = result.rhoSq.rows) :
    let factor := average (inputs.correlations.varHigh.mapIdx fun qoi var =>
      var * result.remaining qoi)
    let highTarget := factor / (tolerance * average pilotVariance)
    ∃ order ratios, result.solution = .numerical order ratios highTarget (factor / highTarget) := by
  obtain ⟨initial, found, -, -, heq⟩ := searched_of_tolerance h hform htarget hpilots
  have hfactor : (inputs.toleranceProblem result.rhoSq
      (tolerance * average pilotVariance)).varianceFactor found =
      average (inputs.correlations.varHigh.mapIdx fun qoi var => var * result.remaining qoi) := by
    refine congrArg average (List.mapIdx_eq_mapIdx_iff.mpr fun qoi hqoi => ?_)
    replace hqoi : qoi < result.rhoSq.rows := hvar ▸ hqoi
    simp only [EvalRatios.remaining, heq, RatioSolution.ratios, RatioSolution.order,
      QoiMatrix.row_ofRow hqoi]
    rfl
  have hhigh : (inputs.toleranceProblem result.rhoSq
      (tolerance * average pilotVariance)).highTarget found =
      average (inputs.correlations.varHigh.mapIdx fun qoi var => var * result.remaining qoi) /
        (tolerance * average pilotVariance) :=
    congrArg (· / (tolerance * average pilotVariance)) hfactor
  rw [hfactor, hhigh] at heq
  exact ⟨_, _, heq⟩

end Search

end Origin

/-! ## Ratios and variances that are real numbers -/

/-- Inputs with usable costs, proper thresholds, a squared correlation for every QoI and model, and
a solution before whose order lists every model once. -/
structure Allocatable (inputs : RatioInputs ExactReal) : Prop where
  costs : inputs.costs.Usable inputs.correlations.rhoSq.cols
  tolerances : inputs.tolerances.Proper
  full : inputs.correlations.rhoSq.Full
  previous : ∀ solution, inputs.previous = some solution →
    solution.order.Valid inputs.correlations.rhoSq.cols

namespace Allocatable

variable {inputs : RatioInputs ExactReal} (h : inputs.Allocatable)
  {optimizer : Optimizer ExactReal} {result : EvalRatios ExactReal}
  (hresult : (inputs.evalRatios optimizer).outcome = .ok result)
include h hresult

theorem usable : inputs.costs.Usable result.rhoSq.cols := by
  rw [cols_rhoSq hresult]
  exact h.costs

/-- The squared correlations of an allocation are kept below one. -/
theorem exists_range : ∃ limit, 0 ≤ limit ∧ limit < 1 ∧
    ∀ value ∈ result.rhoSq.entries, InRange limit value := by
  obtain ⟨limit, hlimit, hone, hclamp⟩ := h.tolerances.exists_limit
  refine ⟨limit, hlimit, hone, ?_⟩
  rw [rhoSq_eq hresult]
  exact inRange_of_mem_sanitize hclamp _

/-- A solution in closed form is a pyramid. -/
theorem isPyramid (hform : result.solution.form ≠ .numerical) (hrows : 0 < result.rhoSq.rows) :
    result.solution.IsPyramid ⟨result.rhoSq.cols, result.rhoSq.rows⟩ := by
  obtain ⟨limit, hlimit, hone, hrange⟩ := h.exists_range hresult
  rcases closedForm_of_evalRatios hresult hform with heq | heq
  · rw [heq]
    exact isPyramid_analytic rfl rfl (h.usable hresult) hlimit hone hrange
      (full_rhoSq h.full hresult)
  · rw [heq]
    exact isPyramid_reordered rfl rfl (h.usable hresult) hlimit hone hrange hrows

/-- Nested ratios leave a positive part of the variance of every QoI. -/
theorem exists_remaining {qoi : ℕ} (hqoi : qoi < result.rhoSq.rows) {rs : List ℝ}
    (hlength : rs.length = result.rhoSq.cols)
    (hrow : result.solution.ratios.row qoi = rs.map real)
    (hnested : result.solution.order.Nested result.rhoSq.cols (rs.map real)) :
    ∃ part, 0 < part ∧ result.remaining qoi = real part := by
  obtain ⟨limit, -, hone, hrange⟩ := h.exists_range hresult
  obtain ⟨rhos, hrhosLength, hrhos, hrhosRow⟩ :=
    exists_row_of_inRange (full_rhoSq h.full hresult) hrange hqoi
  have horder := valid_order_of_evalRatios h.previous hresult
  rw [← cols_rhoSq hresult, ← hrhosLength] at horder
  rw [← hrhosLength] at hlength hnested
  obtain ⟨part, hpos, -, hpart⟩ := one_sub_rSquared_of_nested horder hlength hnested hone hrhos
  refine ⟨part, hpos, ?_⟩
  rw [EvalRatios.remaining, hrow, hrhosRow]
  exact hpart

omit h hresult in
/-- Real ratios give the cost of a profile. -/
theorem costPerSample_real {cs rs : List ℝ} {qoi : ℕ} (hcosts : cs.length = result.rhoSq.cols + 1)
    (hpos : ∀ c ∈ cs, 0 < c) (hcols : result.solution.ratios.cols = result.rhoSq.cols)
    (hlength : rs.length = result.rhoSq.cols)
    (hrow : result.solution.ratios.row qoi = rs.map real) :
    result.costPerSample ⟨cs.map real⟩ qoi =
      real (profileCost (cs.getD result.rhoSq.cols 0) rs cs) := by
  have hhigh := (getD_pos hcosts hpos le_rfl).ne'
  have hterms : ((List.range result.rhoSq.cols).map fun model =>
      (⟨cs.map real⟩ : Costs ExactReal).ofModel model * result.solution.ratios.entry qoi model /
        (⟨cs.map real⟩ : Costs ExactReal).ofModel result.rhoSq.cols) =
      ((List.range result.rhoSq.cols).map fun model =>
        weight cs result.rhoSq.cols model * rs.getD model 0).map real := by
    rw [List.map_map]
    refine List.map_congr_left fun model hmodel => ?_
    have hentry : result.solution.ratios.entry qoi model = real (rs.getD model 0) := by
      rw [QoiMatrix.entry_eq_getD_row _ _ (hcols ▸ List.mem_range.mp hmodel), hrow]
      exact List.getD_map rs 0 real
    rw [hentry, Costs.ofModel_real, Costs.ofModel_real, real_mul, real_div hhigh]
    exact congrArg real (mul_div_right_comm _ _ _)
  rw [EvalRatios.costPerSample, hterms, total_real, sum_map_range, one_eq, real_add,
    profileCost_eq_sum (by omega), hlength]

/-! ## The three ways to a target -/

/-- In closed form the samples of every QoI use up a budget. -/
theorem exists_budget (hform : result.solution.form ≠ .numerical) {b : ℝ}
    (htarget : inputs.target = .budget (real b)) {qoi : ℕ} (hqoi : qoi < result.rhoSq.rows) :
    ∃ high, result.highTargets[qoi]? = some high ∧
      high * result.costPerSample inputs.costs qoi = real b := by
  have hpyramid := h.isPyramid hresult hform (Nat.zero_lt_of_lt hqoi)
  obtain ⟨rs, hlength, hrow⟩ := hpyramid.isReal qoi hqoi
  obtain ⟨cs, hcosts, hpos, heq⟩ := (h.usable hresult).exists_real
  replace hlength : rs.length = result.rhoSq.cols := hlength
  -- a high-fidelity sample costs at least itself
  have hone : 1 ≤ profileCost (cs.getD result.rhoSq.cols 0) rs cs := by
    apply one_le_profileCost (getD_pos hcosts hpos le_rfl) hpos
    intro r hr
    have hmem : real r ∈ result.solution.ratios.row qoi := by
      rw [hrow]
      exact List.mem_map_of_mem hr
    exact zero_le_one.trans (real_le_real.mp ((hpyramid.nested qoi hqoi).one_le _ hmem))
  have hcost : profileCost (cs.getD result.rhoSq.cols 0) rs cs ≠ 0 := (one_pos.trans_le hone).ne'
  have htargets : result.highTargets[qoi]? =
      some (allocateBudget (rs.map real) inputs.costs (real b)) := by
    rcases scaled_of_evalRatios htarget hresult with ⟨-, htargets⟩ | ⟨-, _, _, _, _, hsearch, -⟩
    · rw [htargets, budgetTargets, List.getElem?_map, QoiMatrix.toRows, List.getElem?_map,
        hpyramid.rows, List.getElem?_range hqoi, Option.map_some, Option.map_some, hrow]
    · rw [hsearch] at hform
      exact absurd rfl hform
  refine ⟨_, htargets, ?_⟩
  rw [heq, costPerSample_real hcosts hpos hpyramid.cols hlength hrow,
    allocateBudget_real (by rw [hlength]; exact (getD_pos hcosts hpos le_rfl).ne')
      (by rwa [hlength]),
    hlength, real_mul, div_mul_cancel₀ _ hcost]

/-- In closed form the samples of every QoI leave the variance that a tolerance asks for. -/
theorem exists_tolerance (hform : result.solution.form ≠ .numerical) {tolerance : ExactReal}
    {pilotVariance : List ExactReal} (htarget : inputs.target = .tolerance tolerance)
    (htolerance : Scalar.isPositiveFinite tolerance = true)
    (hpilots : inputs.pilotVariance = some pilotVariance) {qoi : ℕ}
    (hqoi : qoi < result.rhoSq.rows) {var pilot : ExactReal}
    (hvar : inputs.correlations.varHigh[qoi]? = some var)
    (hpilot : pilotVariance[qoi]? = some pilot) (hvarPos : Scalar.isPositiveFinite var = true)
    (hpilotPos : Scalar.isPositiveFinite pilot = true) :
    ∃ high, result.highTargets[qoi]? = some high ∧
      var * result.remaining qoi / high = tolerance * pilot := by
  obtain ⟨t, ht, rfl⟩ := isPositiveFinite_iff.mp htolerance
  obtain ⟨v, hv, rfl⟩ := isPositiveFinite_iff.mp hvarPos
  obtain ⟨p, hp, rfl⟩ := isPositiveFinite_iff.mp hpilotPos
  have hpyramid := h.isPyramid hresult hform (Nat.zero_lt_of_lt hqoi)
  obtain ⟨rs, hlength, hrow⟩ := hpyramid.isReal qoi hqoi
  obtain ⟨part, hpart, hremaining⟩ := h.exists_remaining hresult hqoi hlength hrow
    (hrow ▸ hpyramid.nested qoi hqoi)
  have hratio : (varianceRatios result.rhoSq result.solution.ratios result.solution.order)[qoi]? =
      some (real part) := by
    rw [varianceRatios, List.getElem?_map, List.getElem?_range hqoi, ← hremaining]
    rfl
  have htargets : result.highTargets[qoi]? = some (real (part * v / (p * t))) := by
    have hpositive : (0 : ExactReal) < real p := real_lt_real.mpr hp
    have hpair : (inputs.correlations.varHigh.zip pilotVariance)[qoi]? = some (real v, real p) :=
      List.getElem?_zip_eq_some.mpr ⟨hvar, hpilot⟩
    have htriple : ((varianceRatios result.rhoSq result.solution.ratios result.solution.order).zip
        (inputs.correlations.varHigh.zip pilotVariance))[qoi]? = some (real part, real v, real p) :=
      List.getElem?_zip_eq_some.mpr ⟨hratio, hpair⟩
    rw [highTargets_of_tolerance hresult hform htarget hpilots, toleranceTargets,
      List.getElem?_map, htriple, Option.map_some]
    simp only [if_pos hpositive, real_mul, real_div (mul_pos hp ht).ne']
  refine ⟨_, htargets, ?_⟩
  have hhigh : part * v / (p * t) ≠ 0 := by positivity
  rw [hremaining, real_mul, real_mul, real_div hhigh]
  congr 1
  field_simp

section Search

variable (hordered : optimizer.Ordered) (hform : result.solution.form = .numerical)
  {tolerance : ExactReal} {pilotVariance : List ExactReal}
  (htarget : inputs.target = .tolerance tolerance)
  (hpilots : inputs.pilotVariance = some pilotVariance)
include hordered hform htarget hpilots

/-- What an optimizer returns leaves a positive part of the variance of every QoI. -/
theorem exists_remaining_of_search {qoi : ℕ} (hqoi : qoi < result.rhoSq.rows) :
    ∃ part, 0 < part ∧ result.remaining qoi = real part := by
  obtain ⟨initial, found, hfound, ⟨hlength, hfinite⟩, heq⟩ :=
    searched_of_tolerance hresult hform htarget hpilots
  obtain ⟨rs, rfl⟩ := exists_map_real hfinite
  have hvalid : (inputs.startingOrder result.rhoSq).Valid result.rhoSq.cols :=
    valid_startingOrder (cols_rhoSq hresult ▸ h.previous)
  have hnested := hordered _ initial _ hvalid hfound hlength
  have hrow : result.solution.ratios.row qoi = rs.map real := by
    rw [heq]
    exact QoiMatrix.row_ofRow hqoi _
  refine h.exists_remaining hresult hqoi (by simpa using hlength) hrow ?_
  rw [heq]
  exact hnested

/-- After a search the average variance that is left is the one that a tolerance asks for. -/
theorem search_eq (htolerance : Scalar.isPositiveFinite tolerance = true)
    (hvarLength : inputs.correlations.varHigh.length = result.rhoSq.rows)
    (hpilotLength : pilotVariance.length = result.rhoSq.rows)
    (hvars : ∀ var ∈ inputs.correlations.varHigh, Scalar.isPositiveFinite var = true)
    (hpilotsPos : ∀ pilot ∈ pilotVariance, Scalar.isPositiveFinite pilot = true) :
    ∃ order ratios highTarget, result.solution =
        .numerical order ratios highTarget (tolerance * average pilotVariance) ∧
      average (inputs.correlations.varHigh.mapIdx fun qoi var =>
        var * result.remaining qoi / highTarget) = tolerance * average pilotVariance := by
  have hrows := rows_pos_of_form hresult hform
  have hparts : ∀ value ∈ inputs.correlations.varHigh.mapIdx fun qoi var =>
      var * result.remaining qoi, Scalar.isPositiveFinite value = true := by
    intro value hvalue
    obtain ⟨qoi, hqoi, rfl⟩ := List.mem_mapIdx.mp hvalue
    obtain ⟨v, hv, hvar⟩ := isPositiveFinite_iff.mp (hvars _ (List.getElem_mem hqoi))
    obtain ⟨part, hpart, hremaining⟩ := h.exists_remaining_of_search hresult hordered hform
      htarget hpilots (hvarLength ▸ hqoi)
    rw [hvar, hremaining, real_mul, isPositiveFinite_real]
    exact mul_pos hv hpart
  -- the variance that is left, the bound on it and hence the target are positive real numbers
  obtain ⟨factor, hfactorPos, hfactor⟩ := exists_average_of_isPositiveFinite
    (List.ne_nil_of_length_pos (by simpa [hvarLength] using hrows)) hparts
  obtain ⟨mean, hmeanPos, hmean⟩ := exists_average_of_isPositiveFinite
    (List.ne_nil_of_length_pos (hpilotLength ▸ hrows)) hpilotsPos
  obtain ⟨t, ht, rfl⟩ := isPositiveFinite_iff.mp htolerance
  have hbound : 0 < t * mean := mul_pos ht hmeanPos
  have hhigh : factor / (t * mean) ≠ 0 := (div_pos hfactorPos hbound).ne'
  have hcancel : real factor / real (factor / (t * mean)) = real (t * mean) := by
    rw [real_div hhigh, div_div_cancel₀ hfactorPos.ne']
  obtain ⟨order, ratios, heq⟩ := scaled_of_tolerance hresult hform htarget hpilots hvarLength
  rw [hfactor, hmean, real_mul, real_div hbound.ne', hcancel] at heq
  refine ⟨order, ratios, _, by rw [hmean, real_mul, heq], ?_⟩
  have hquotients : (inputs.correlations.varHigh.mapIdx fun qoi var =>
      var * result.remaining qoi / real (factor / (t * mean))) =
      (inputs.correlations.varHigh.mapIdx fun qoi var =>
        var * result.remaining qoi).map (· / real (factor / (t * mean))) :=
    List.ext_getElem (by simp) (by simp)
  rw [hquotients, average_map_div hhigh, hfactor, hcancel, hmean, real_mul]
  intro value hvalue
  obtain ⟨x, -, rfl⟩ := isPositiveFinite_iff.mp (hparts value hvalue)
  exact isFinite_real x

end Search

end Allocatable

end RatioInputs

/-- The targets of an allocation meet what they are scaled to exactly: the profile of a QoI in
closed form costs the budget, its estimator variance is the one that the tolerance asks for, and so
is the average one after a search. -/
theorem highTargets_saturate {inputs : RatioInputs ExactReal} (h : inputs.Allocatable)
    {optimizer : Optimizer ExactReal} (hordered : optimizer.Ordered)
    {result : EvalRatios ExactReal} (hresult : (inputs.evalRatios optimizer).outcome = .ok result) :
    result.Saturates inputs where
  budget hform b htarget qoi hqoi := h.exists_budget hresult hform htarget hqoi
  tolerance hform tolerance pilotVariance htarget htolerance hpilots qoi hqoi var pilot hvar hpilot
      hvarPos hpilotPos :=
    h.exists_tolerance hresult hform htarget htolerance hpilots hqoi hvar hpilot hvarPos hpilotPos
  search order ratios highTarget estimatorVariance hsolution tolerance pilotVariance htarget
      htolerance hpilots hvarLength hpilotLength hvars hpilotsPos := by
    have hform : result.solution.form = .numerical := by
      rw [hsolution]
      rfl
    obtain ⟨_, _, _, heq, haverage⟩ := h.search_eq hresult hordered hform htarget hpilots
      htolerance hvarLength hpilotLength hvars hpilotsPos
    rw [hsolution] at heq
    cases heq
    refine ⟨?_, haverage.symm, rfl⟩
    -- a search hands its own target to every QoI
    have htargets := (RatioInputs.evalRatios_eq_ok_iff.mp hresult).2.2
    rw [hsolution, RatioInputs.highTargets] at htargets
    exact (Except.ok.inj htargets).symm

/-! ## Models that are not ordered -/

/-- Two joint samples of two models, of which only the first one is correlated. -/
noncomputable def onlyFirst (target : Target ExactReal) : RatioInputs ExactReal where
  correlations := ⟨⟨1, 2, [1, 1]⟩, [1], .ofRows 2 (List.replicate 1 [real 1, real 0])⟩
  costs := ⟨[1, 1, 1]⟩
  target := target
  highCounts := [2]
  spent := Scalar.ofCount 6
  pilotVariance := some [real 0.5]
  previous := none
  preferReordered := false
  tolerances := .default

theorem allocatable_onlyFirst (target : Target ExactReal) : (onlyFirst target).Allocatable where
  costs := by
    refine ⟨rfl, ?_⟩
    simp [onlyFirst, Scalar.isPositiveFinite]
  tolerances := Tolerances.proper_default
  full := QoiMatrix.full_ofRows (by simp)
  previous := nofun

theorem isOrdered_onlyFirst (target : Target ExactReal) :
    isOrdered (sanitize (onlyFirst target).correlations.rhoSq (onlyFirst target).tolerances).1
      (onlyFirst target).tolerances.ordering = false := by
  have hform : selectForm (sanitize (onlyFirst target).correlations.rhoSq
      (onlyFirst target).tolerances).1 (onlyFirst target).tolerances.ordering false = .numerical :=
    selectForm_perfect_then_none one_ne_zero
  by_contra hordered
  rw [Bool.not_eq_false] at hordered
  rw [selectForm, if_pos hordered] at hform
  cases hform

theorem exists_evalRatios_onlyFirst (tolerance : ExactReal) :
    ∃ result, ((onlyFirst (.tolerance tolerance)).evalRatios unitOptimizer).outcome =
      .ok result ∧ result.solution.form = .numerical := by
  obtain ⟨initial, -, houtcome⟩ := RatioInputs.searchedSolution_outcome_of_tolerance
    (onlyFirst (.tolerance tolerance)) (sanitize _ _).1 unitOptimizer rfl rfl
  have hfound : ∀ problem, (unitOptimizer problem initial).outcome =
      .ok (List.replicate problem.numApprox 1) := fun _ => rfl
  rw [hfound] at houtcome
  change _ = if _ then _ else _ at houtcome
  rw [if_pos ⟨List.length_replicate, by simp⟩] at houtcome
  have hsolution := (RatioInputs.solution_of_search
    (isOrdered_onlyFirst (.tolerance tolerance)) rfl).trans houtcome
  exact ⟨⟨_, _, _, _⟩, RatioInputs.evalRatios_eq_ok_iff.mpr ⟨rfl, hsolution, rfl⟩, rfl⟩

/-- A tolerance of one half leaves half of the variance of the pilot. -/
theorem highTargets_saturate_of_onlyFirst :
    ∃ result order ratios highTarget,
      ((onlyFirst (.tolerance (real 0.5))).evalRatios unitOptimizer).outcome = .ok result ∧
      result.solution = .numerical order ratios highTarget (real 0.25) ∧
      result.highTargets = [highTarget] := by
  obtain ⟨result, hresult, hform⟩ := exists_evalRatios_onlyFirst (real 0.5)
  have hrows : result.rhoSq.rows = 1 := RatioInputs.rows_rhoSq hresult
  have hpositive : ∀ x : ℝ, 0 < x → ∀ value ∈ [real x], Scalar.isPositiveFinite value = true := by
    intro x hx value hvalue
    rwa [List.mem_singleton.mp hvalue, isPositiveFinite_real]
  cases hsolution : result.solution with
  | numerical order ratios highTarget estimatorVariance =>
    obtain ⟨htargets, -, hvariance⟩ := (highTargets_saturate (allocatable_onlyFirst _)
      ordered_unitOptimizer hresult).search _ _ _ _ hsolution (real 0.5) [real 0.5] rfl
        (isPositiveFinite_real.mpr (by norm_num)) rfl hrows.symm hrows.symm
        (hpositive 1 one_pos) (hpositive 0.5 (by norm_num))
    have haverage : average [real 0.5] = real 0.5 := average_replicate_self one_ne_zero _
    rw [haverage, real_mul, show (0.5 * 0.5 : ℝ) = 0.25 by norm_num] at hvariance
    rw [hrows] at htargets
    exact ⟨result, order, ratios, highTarget, hresult, by rw [hsolution, hvariance], htargets⟩
  | analytic ratios =>
    rw [hsolution] at hform
    cases hform
  | reordered order ratios =>
    rw [hsolution] at hform
    cases hform

end Multifidelity
