import Multifidelity.Proofs.Allocation.Targets

/-!
# Solutions are pyramids

In whatever form the ratios are computed, they are real numbers of one or more that do not increase
along the order of the solution, so that the samples of the models are nested. This needs squared
correlations that are kept below one, usable costs, and an optimizer that keeps to the constraints
of its problem.

## Main definitions

* `RatioSolution.IsPyramid`: solutions with nested samples and real ratios
* `RatioInputs.WellPosed`, `RatioInputs.Sound`: what an allocation needs for that

## Main results

* `RatioInputs.WellPosed.isNested`: the ratios of an allocation are nested
* `RatioInputs.Sound.isPyramid`: the solution of an allocation is a pyramid
-/

namespace Multifidelity

open ExactReal

/-- Every QoI has one real ratio per model, with which samples are nested along an order that lists
every model once. All QoI have the same ratios unless each has its own closed form. -/
structure RatioSolution.IsPyramid (dims : Dimensions) (solution : RatioSolution ExactReal) :
    Prop where
  order : solution.order.Valid dims.numApprox
  rows : solution.ratios.rows = dims.numFunctions
  cols : solution.ratios.cols = dims.numApprox
  isReal : ∀ qoi < dims.numFunctions, ∃ rs : List ℝ, rs.length = dims.numApprox ∧
    solution.ratios.row qoi = rs.map real
  nested : ∀ qoi < dims.numFunctions,
    solution.order.Nested dims.numApprox (solution.ratios.row qoi)
  shared : solution.form ≠ .analytic → ∀ a < dims.numFunctions, ∀ b < dims.numFunctions,
    solution.ratios.row a = solution.ratios.row b

theorem RatioSolution.IsPyramid.isNested {dims : Dimensions} {solution : RatioSolution ExactReal}
    (h : solution.IsPyramid dims) : solution.IsNested dims where
  order := h.order
  rows := h.rows
  cols := h.cols
  length qoi hqoi := by
    obtain ⟨rs, hlength, hrow⟩ := h.isReal qoi hqoi
    rw [hrow, List.length_map, hlength]
  nested := h.nested

/-- Solutions that all QoI share are pyramids if their one row is nested. -/
theorem RatioSolution.isPyramid_of_row {dims : Dimensions} {solution : RatioSolution ExactReal}
    (hrows : solution.ratios.rows = dims.numFunctions)
    (hcols : solution.ratios.cols = dims.numApprox)
    (horder : solution.order.Valid dims.numApprox) (rs : List ℝ)
    (hlength : rs.length = dims.numApprox)
    (hrow : ∀ qoi < dims.numFunctions, solution.ratios.row qoi = rs.map real)
    (hnested : solution.order.Nested dims.numApprox (rs.map real)) :
    solution.IsPyramid dims where
  order := horder
  rows := hrows
  cols := hcols
  isReal qoi hqoi := ⟨rs, hlength, hrow qoi hqoi⟩
  nested qoi hqoi := by
    rw [hrow qoi hqoi]
    exact hnested
  shared _ a ha b hb := by rw [hrow a ha, hrow b hb]

namespace RatioInputs

/-- Inputs with usable costs, a positive number of samples, squared correlations of the size of the
ensemble, and an order before that lists every model once. A budget is positive and finite. -/
structure WellPosed (inputs : RatioInputs ExactReal) (dims : Dimensions) : Prop where
  costs : inputs.costs.Usable dims.numApprox
  target : ∀ budget, inputs.target = .budget budget → Scalar.isPositiveFinite budget = true
  averageHigh : 0 < inputs.averageHigh
  numFunctions_pos : 0 < dims.numFunctions
  full : inputs.correlations.rhoSq.Full
  rows : inputs.correlations.rhoSq.rows = dims.numFunctions
  cols : inputs.correlations.rhoSq.cols = dims.numApprox
  previous : ∀ solution, inputs.previous = some solution → solution.order.Valid dims.numApprox

/-- Well-posed inputs with proper thresholds. -/
structure Sound (inputs : RatioInputs ExactReal) (dims : Dimensions) : Prop
    extends inputs.WellPosed dims where
  tolerances : inputs.tolerances.Proper

variable {inputs : RatioInputs ExactReal} {dims : Dimensions} (h : inputs.WellPosed dims)
  {rhoSq : QoiMatrix ExactReal} (hrows : rhoSq.rows = dims.numFunctions)
  (hcols : rhoSq.cols = dims.numApprox)

include hrows hcols in
theorem isPyramid_exhausted : (inputs.exhaustedSolution rhoSq).IsPyramid dims := by
  have hvalid := valid_correlationOrder rhoSq
  rw [hcols] at hvalid
  have hone : (List.replicate dims.numApprox (1 : ℝ)).map real =
      List.replicate dims.numApprox (real 1) := List.map_replicate
  refine RatioSolution.isPyramid_of_row hrows hcols hvalid (.replicate dims.numApprox 1)
    List.length_replicate (fun qoi hqoi => ?_) ?_
  · rw [hone, ← hcols]
    exact QoiMatrix.row_filled (hrows ▸ hqoi) _ _
  · rw [hone]
    exact hvalid.nested_replicate

/-! ## Ratios in closed form -/

section ClosedForm

variable {costs : Costs ExactReal} (hcosts : costs.Usable dims.numApprox) {limit : ℝ}
  (hlimit : 0 ≤ limit) (hone : limit < 1) (hrange : ∀ value ∈ rhoSq.entries, InRange limit value)
include hrows hcols hcosts hlimit hone hrange

/-- Every QoI has the ratios of its own squared correlations. -/
theorem isPyramid_analytic (hfull : rhoSq.Full) :
    (RatioSolution.analytic (analyticRatios rhoSq costs)).IsPyramid dims where
  order := ModelOrder.valid_nil _
  rows := (isNested_analytic hrows hcols costs hfull).rows
  cols := hcols
  isReal qoi hqoi := by
    rw [← hrows] at hqoi
    have hlength := hfull.length_row hqoi
    have hrow : ∀ value ∈ rhoSq.row qoi, InRange limit value := fun value hvalue =>
      hrange value (QoiMatrix.mem_entries_of_mem_row hvalue)
    have husable : costs.Usable (rhoSq.row qoi).length := by
      rw [hlength, hcols]
      exact hcosts
    obtain ⟨rs, hrs⟩ := exists_map_real (isFinite_of_mem_sequenceRatios hlimit hone hrow
      (ModelOrder.valid_nil _) husable)
    refine ⟨rs, ?_, (row_analyticRatios hfull costs hqoi).trans hrs⟩
    rw [← List.length_map real, ← hrs, length_sequenceRatios, hlength, hcols]
  nested := (isNested_analytic hrows hcols costs hfull).nested
  shared hform := absurd rfl hform

/-- All QoI share the ratios of the averaged squared correlations. -/
theorem isPyramid_reordered (hpos : 0 < dims.numFunctions) :
    (RatioSolution.reordered (reorderedRatios rhoSq costs).1
      (reorderedRatios rhoSq costs).2).IsPyramid dims := by
  have hlength : rhoSq.columnMeans.length = dims.numApprox := by
    simp [QoiMatrix.columnMeans, hcols]
  have hmeans : ∀ value ∈ rhoSq.columnMeans, InRange limit value := by
    intro value hvalue
    obtain ⟨model, -, rfl⟩ := List.mem_map.mp hvalue
    refine inRange_average ?_ fun entry hentry => ?_
    · simpa [QoiMatrix.column, hrows] using hpos.ne'
    · obtain ⟨qoi, -, rfl⟩ := List.mem_map.mp hentry
      exact inRange_getD hlimit hrange _
  have hvalid := valid_correlationOrder rhoSq
  rw [hcols, ← hlength] at hvalid
  have husable : costs.Usable rhoSq.columnMeans.length := by
    rw [hlength]
    exact hcosts
  obtain ⟨rs, hrs⟩ :=
    exists_map_real (isFinite_of_mem_sequenceRatios hlimit hone hmeans hvalid husable)
  have hnested := isNested_reordered hrows hcols costs
  refine RatioSolution.isPyramid_of_row hnested.rows hnested.cols hnested.order rs ?_
    (fun qoi hqoi => (row_reorderedRatios rhoSq costs (hrows ▸ hqoi)).trans hrs) ?_
  · rw [← List.length_map real, ← hrs, length_sequenceRatios, hlength]
  · have hnested := nested_sequenceRatios hvalid costs
    rwa [hrs, hlength] at hnested

end ClosedForm

namespace WellPosed

/-! ## Ratios found by a search -/

section Search

include h hcols

/-- Nested ratios stay nested when they are made to fit a budget. -/
theorem exists_nested_fitResult {order : ModelOrder} (horder : order.Valid dims.numApprox)
    (hroom : ∀ budget, inputs.target = .budget budget →
      inputs.isExhausted rhoSq.cols budget = false)
    {problem : RatioProblem ExactReal} {rs : List ℝ} (hlength : rs.length = dims.numApprox)
    (hnested : order.Nested dims.numApprox (rs.map real)) {ratios : List ExactReal}
    (hproblem : (inputs.problem rhoSq (inputs.startingOrder rhoSq)).outcome = .ok problem)
    (hratios : (inputs.fitResult problem (rs.map real)).outcome = .ok ratios) :
    ∃ fit : List ℝ, fit.length = dims.numApprox ∧ ratios = fit.map real ∧
      order.Nested dims.numApprox (fit.map real) := by
  cases htarget : inputs.target with
  | tolerance tolerance =>
    rw [fitResult, htarget] at hratios
    exact ⟨rs, hlength, (Except.ok.inj hratios).symm, hnested⟩
  | budget budget =>
    obtain ⟨cs, high, b, rfl, hfit⟩ := hasRoom_of_not_isExhausted htarget (h.target _ htarget)
      (hcols ▸ h.costs) h.averageHigh (hroom _ htarget)
    rw [problem_outcome inputs rhoSq htarget] at hproblem
    obtain rfl := Except.ok.inj hproblem
    rw [fitResult_outcome inputs rhoSq htarget] at hratios
    rw [← hcols] at hlength horder hnested
    obtain ⟨fit, hfitLength, hfitted, hfitNested, -⟩ :=
      hfit.exists_nested_fitted hlength horder hnested
    rw [hcols] at hfitLength hfitNested
    exact ⟨fit, hfitLength, (Except.ok.inj hratios).symm.trans hfitted, hfitNested⟩

include hrows in
/-- A search leads to a pyramid if the optimizer keeps to the constraints of its problem. -/
theorem isPyramid_searched {optimizer : Optimizer ExactReal} (hordered : optimizer.Ordered)
    (hroom : ∀ budget, inputs.target = .budget budget →
      inputs.isExhausted rhoSq.cols budget = false)
    {chosen : RatioSolution ExactReal}
    (hchosen : (inputs.searchedSolution rhoSq optimizer).outcome = .ok chosen) :
    chosen.IsPyramid dims := by
  obtain ⟨problem, initial, found, ratios, variance, hproblem, hfound,
    ⟨hlength, hfinite⟩, hratios, rfl⟩ := searchedSolution_eq_ok hchosen
  obtain ⟨hsame, horder, -, -⟩ := problem_eq_ok hproblem
  have hvalid : (inputs.startingOrder rhoSq).Valid rhoSq.cols :=
    valid_startingOrder (hcols ▸ h.previous)
  have hnumApprox : problem.numApprox = rhoSq.cols := congrArg QoiMatrix.cols hsame
  -- what the optimizer returns is nested along the order of its problem
  have hnested := hordered problem initial found (by rwa [horder, hnumApprox]) hfound
    (hlength.trans hnumApprox.symm)
  rw [horder, hnumApprox, hcols] at hnested
  rw [hcols] at hvalid hlength
  obtain ⟨rs, rfl⟩ := exists_map_real hfinite
  obtain ⟨fit, hfitLength, rfl, hfitNested⟩ := h.exists_nested_fitResult hcols hvalid hroom
    (by simpa using hlength) hnested hproblem hratios
  refine RatioSolution.isPyramid_of_row ?_ ?_ hvalid fit hfitLength
    (fun qoi hqoi => QoiMatrix.row_ofRow (hrows ▸ hqoi) _) hfitNested
  · rw [← hrows]
    simp [RatioSolution.ratios, QoiMatrix.ofRow, QoiMatrix.ofRows]
  · simp [RatioSolution.ratios, QoiMatrix.ofRow, QoiMatrix.ofRows, hfitLength]

end Search

/-! ## Any form -/

include h in
/-- Whatever the thresholds are, the ratios of an allocation are nested if the optimizer keeps to
the constraints of its problem. -/
theorem isNested {optimizer : Optimizer ExactReal} (hordered : optimizer.Ordered)
    {result : EvalRatios ExactReal} (hresult : (inputs.evalRatios optimizer).outcome = .ok result) :
    result.solution.IsNested dims := by
  have hrows : result.rhoSq.rows = dims.numFunctions := (rows_rhoSq hresult).trans h.rows
  have hcols : result.rhoSq.cols = dims.numApprox := (cols_rhoSq hresult).trans h.cols
  rcases solution_eq_ok (evalRatios_eq_ok_iff.mp hresult).2.1 with heq | heq | hsearch
  · rw [heq]
    exact isNested_analytic hrows hcols inputs.costs (full_rhoSq h.full hresult)
  · rw [heq]
    exact isNested_reordered hrows hcols inputs.costs
  · rcases numericalSolution_cases hsearch with heq | ⟨hroom, hsearched⟩
    · rw [heq]
      exact (isPyramid_exhausted hrows hcols).isNested
    · exact (h.isPyramid_searched hrows hcols hordered hroom hsearched).isNested

end WellPosed

/-- The solution of an allocation is a pyramid if the optimizer keeps to the constraints of its
problem. -/
theorem Sound.isPyramid (h : inputs.Sound dims) {optimizer : Optimizer ExactReal}
    (hordered : optimizer.Ordered) {result : EvalRatios ExactReal}
    (hresult : (inputs.evalRatios optimizer).outcome = .ok result) :
    result.solution.IsPyramid dims := by
  have hrows : result.rhoSq.rows = dims.numFunctions := (rows_rhoSq hresult).trans h.rows
  have hcols : result.rhoSq.cols = dims.numApprox := (cols_rhoSq hresult).trans h.cols
  obtain ⟨limit, hlimit, hone, hclamp⟩ := h.tolerances.exists_limit
  obtain ⟨hsanitized, hsolution, -⟩ := evalRatios_eq_ok_iff.mp hresult
  have hrange : ∀ value ∈ result.rhoSq.entries, InRange limit value := by
    have hfst : result.rhoSq = _ := congrArg Prod.fst hsanitized
    rw [hfst]
    exact inRange_of_mem_sanitize hclamp _
  rcases solution_eq_ok hsolution with heq | heq | hsearch
  · rw [heq]
    exact isPyramid_analytic hrows hcols h.costs hlimit hone hrange (full_rhoSq h.full hresult)
  · rw [heq]
    exact isPyramid_reordered hrows hcols h.costs hlimit hone hrange h.numFunctions_pos
  · rcases numericalSolution_cases hsearch with heq | ⟨hroom, hsearched⟩
    · rw [heq]
      exact isPyramid_exhausted hrows hcols
    · exact h.isPyramid_searched hrows hcols hordered hroom hsearched

end RatioInputs

end Multifidelity
