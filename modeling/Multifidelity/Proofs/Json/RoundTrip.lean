import Multifidelity.Listener
import Multifidelity.Proofs.Json.Format

/-!
# Round trips

Everything that a run takes or gives can be written as a tree. The tree gives the value back if all
its numbers are finite, and otherwise it is refused. Only a budget or a tolerance of the settings
may be infinite: it is written as a null and comes back as a missing one. Settings of which fields
are taken out have the defaults in their place.

## Main definitions

* `Tolerances.scalars`, `RatioSolution.scalars`, `Checkpoint.scalars`, `Report.scalars` and others:
  the numbers of a value that are no counts
* `Settings.finite`, `Settings.reset`: the settings that come back

## Main results

* `Json.readsBack_solution`, `Json.readsBack_checkpoint`, `Json.readsBack_report` and others: the
  round trip of a type
* `Json.settings?_without`: the round trip of settings
* `Json.roundTrip`: all round trips
-/

namespace Multifidelity

variable {α : Type}

/-! ## The numbers of a value -/

/-- The thresholds. -/
def Tolerances.scalars (tolerances : Tolerances α) : List α :=
  [tolerances.ordering, tolerances.floor, tolerances.ceiling]

/-- The value of a target. -/
def Target.scalars : Target α → List α
  | .budget value | .tolerance value => [value]

/-- The variances and the squared correlations. -/
def Correlations.scalars (correlations : Correlations α) : List α :=
  correlations.varLow.entries ++ correlations.varHigh ++ correlations.rhoSq.entries

/-- The ratios, and what a search has found together with them. -/
def RatioSolution.scalars : RatioSolution α → List α
  | .analytic ratios | .reordered _ ratios => ratios.entries
  | .numerical _ ratios highTarget estimatorVariance =>
    ratios.entries ++ [highTarget] ++ [estimatorVariance]

/-- The numbers of a checkpoint that are no counts. -/
def Checkpoint.scalars (checkpoint : Checkpoint α) : List α :=
  [checkpoint.spent] ++ checkpoint.varHigh ++ checkpoint.rhoSq.entries ++
    checkpoint.solution.scalars ++ checkpoint.highTargets ++ checkpoint.varianceRatios

/-- The numbers of a report that are no counts. -/
def Report.scalars (report : Report α) : List α :=
  report.solution.scalars ++ [report.spent] ++ report.pilotVariance.toList.flatten ++
    report.varHigh ++ report.rhoSq.entries ++ report.highTargets ++ report.varianceRatios ++
    report.rawMoments.toList.flatMap (List.flatMap Vector.toList)

/-- The numbers of a summary that are no counts. -/
def Summary.scalars (summary : Summary α) : List α :=
  summary.initial.toList.map Prod.snd ++ [summary.monteCarlo] ++ [summary.multifidelity] ++
    [summary.ratio]

namespace Json

variable [Scalar α]

/-! ## Plain values -/

theorem readsBack_scalars : ReadsBack (ofScalars : List α → Json α) scalars? id := by
  intro values
  have h := readsBack_scalar.list values
  rwa [List.flatMap_singleton'] at h

theorem readsBack_counts : ReadsBack (ofCounts : List ℕ → Json α) counts? fun _ => [] :=
  readsBack_count.plainList

theorem readsBack_bool : ReadsBack (bool : Bool → Json α) bool? fun _ => [] :=
  fun _ => rfl

theorem readsBack_pilotMode : ReadsBack (ofPilotMode : PilotMode → Json α) pilotMode?
    fun _ => [] := by
  intro mode
  cases mode with
  | online => rfl
  | offline => rfl
  | projection => rfl

theorem readsBack_matrix :
    ReadsBack (ofMatrix : QoiMatrix α → Json α) matrix? QoiMatrix.entries := by
  intro matrix
  have hslots : (ofMatrix matrix).slots? ["rows", "cols", "data"] false = some [_, _, _] :=
    slots?_zip (by decide) [_, _, _] rfl false
  simp only [matrix?, hslots, Option.bind_eq_bind, Option.bind_some, readsBack_count.required,
    readsBack_scalars.required, bind_ite_some, List.all_nil, if_true]
  rfl

theorem readsBack_tolerances :
    ReadsBack (ofTolerances : Tolerances α → Json α) tolerances? Tolerances.scalars := by
  intro tolerances
  have hslots : (ofTolerances tolerances).slots? ["ordering", "rho2_floor", "rho2_ceiling"] false =
      some [_, _, _] :=
    slots?_zip (by decide) [_, _, _] rfl false
  simp only [tolerances?, hslots, Option.bind_eq_bind, Option.bind_some,
    readsBack_scalar.required, bind_ite_some]
  simp [Tolerances.scalars, ite_and]

theorem readsBack_target : ReadsBack (ofTarget : Target α → Json α) target? Target.scalars := by
  rintro (value | value)
  · simp only [target?, ofTarget, variant?_choice, readsBack_scalar value, Target.scalars]
    exact apply_ite (Option.map Target.budget) _ _ _
  · simp only [target?, ofTarget, variant?_choice, readsBack_scalar value, Target.scalars]
    exact apply_ite (Option.map Target.tolerance) _ _ _

theorem readsBack_warning : ReadsBack (ofWarning : Warning → Json α) warning? fun _ => [] := by
  rintro (qoi | ⟨qoi, model⟩ | ⟨iterations, remaining⟩)
  · have hslots : (record [("qoi", (count qoi : Json α))]).slots? ["qoi"] false = some [_] :=
      slots?_zip (by decide) [_] rfl false
    simp only [warning?, ofWarning, variant?_choice, hslots, Option.bind_eq_bind, Option.bind_some,
      readsBack_count.required]
    rfl
  · have hslots : (record [("qoi", (count qoi : Json α)), ("approx", count model)]).slots?
        ["qoi", "approx"] false = some [_, _] :=
      slots?_zip (by decide) [_, _] rfl false
    simp only [warning?, ofWarning, variant?_choice, hslots, Option.bind_eq_bind, Option.bind_some,
      readsBack_count.required]
    rfl
  · have hslots : (record [("iterations", (count iterations : Json α)),
        ("remaining_samples", count remaining)]).slots? ["iterations", "remaining_samples"] false =
          some [_, _] :=
      slots?_zip (by decide) [_, _] rfl false
    simp only [warning?, ofWarning, variant?_choice, hslots, Option.bind_eq_bind, Option.bind_some,
      readsBack_count.required]
    rfl

/-! ## Correlations and ratios -/

theorem readsBack_correlations :
    ReadsBack (ofCorrelations : Correlations α → Json α) correlations? Correlations.scalars := by
  intro correlations
  have hslots : (ofCorrelations correlations).slots? ["var_l", "var_h", "rho2_lh"] false =
      some [_, _, _] :=
    slots?_zip (by decide) [_, _, _] rfl false
  simp only [correlations?, hslots, Option.bind_eq_bind, Option.bind_some,
    readsBack_matrix.required, readsBack_scalars.required, bind_ite_some, id]
  simp only [Correlations.scalars, List.all_append, Bool.and_eq_true, ite_and]
  rfl

theorem readsBack_solution :
    ReadsBack (ofSolution : RatioSolution α → Json α) solution? RatioSolution.scalars := by
  rintro (ratios | ⟨order, ratios⟩ | ⟨order, ratios, highTarget, estimatorVariance⟩)
  · have hslots : (record [("eval_ratios", ofMatrix ratios)]).slots? ["eval_ratios"] false =
        some [_] :=
      slots?_zip (by decide) [_] rfl false
    simp only [solution?, ofSolution, variant?_choice, hslots, Option.bind_eq_bind,
      Option.bind_some, readsBack_matrix.required, bind_ite_some]
    rfl
  · have hslots : (record [("sequence", ofCounts order), ("eval_ratios", ofMatrix ratios)]).slots?
        ["sequence", "eval_ratios"] false = some [_, _] :=
      slots?_zip (by decide) [_, _] rfl false
    simp only [solution?, ofSolution, variant?_choice, hslots, Option.bind_eq_bind,
      Option.bind_some, readsBack_matrix.required, readsBack_counts.required, bind_ite_some,
      List.all_nil, if_true]
    rfl
  · have hslots : (record [("sequence", ofCounts order), ("eval_ratios", ofMatrix ratios),
        ("avg_hf_target", ofScalar highTarget), ("avg_est_var", ofScalar estimatorVariance)]).slots?
          ["sequence", "eval_ratios", "avg_hf_target", "avg_est_var"] false = some [_, _, _, _] :=
      slots?_zip (by decide) [_, _, _, _] rfl false
    simp only [solution?, ofSolution, variant?_choice, hslots, Option.bind_eq_bind,
      Option.bind_some, readsBack_counts.required, readsBack_matrix.required,
      readsBack_scalar.required, bind_ite_some, List.all_nil, if_true]
    simp only [RatioSolution.scalars, List.all_append, Bool.and_eq_true, ite_and]
    rfl

/-! ## Checkpoints and reports -/

theorem readsBack_checkpoint :
    ReadsBack (ofCheckpoint : Checkpoint α → Json α) checkpoint? Checkpoint.scalars := by
  intro checkpoint
  have hslots : (ofCheckpoint checkpoint).slots? checkpointNames false = _ :=
    slots?_zip (by decide) _ rfl false
  rw [checkpoint?, hslots, Option.bind_eq_bind, Option.bind_some]
  simp only [List.map_cons, List.map_nil]
  simp only [Option.bind_eq_bind, readsBack_count.required, readsBack_counts.required,
    readsBack_scalar.required, readsBack_scalars.required, readsBack_matrix.required,
    readsBack_solution.required, bind_ite_some, Option.bind_some, List.all_nil, if_true, id]
  simp only [Checkpoint.scalars, List.all_append, Bool.and_eq_true, ite_and]
  rfl

/-- Exactly four numbers make the moments of a QoI. -/
theorem readsBack_moments :
    ReadsBack (ofMoments : Vector α 4 → Json α) moments? Vector.toList := by
  intro moments
  obtain ⟨first, second, third, fourth, rfl⟩ :
      ∃ first second third fourth, moments = #v[first, second, third, fourth] :=
    ⟨moments[0], moments[1], moments[2], moments[3], by ext i hi; interval_cases i <;> rfl⟩
  have hscalars := readsBack_scalars #v[first, second, third, fourth].toList
  simp only [moments?, ofMoments, hscalars, Option.bind_eq_bind, bind_ite_some]
  rfl

theorem readsBack_report :
    ReadsBack (ofReport : Report α → Json α) report? Report.scalars := by
  intro report
  have hslots : (ofReport report).slots? reportNames false = _ :=
    slots?_zip (by decide) _ rfl false
  have hvariance := readsBack_scalars.optional (fun _ => nofun) report.pilotVariance
  have hcounts : optional? counts? (some (ofOption ofCounts report.pilotCounts : Json α)) =
      some report.pilotCounts := by
    simpa using readsBack_counts.optional (fun _ => nofun) report.pilotCounts
  have hmoments := readsBack_moments.list.optional (fun _ => nofun) report.rawMoments
  rw [report?, hslots, Option.bind_eq_bind, Option.bind_some]
  simp only [List.map_cons, List.map_nil]
  simp only [Option.bind_eq_bind, readsBack_pilotMode.required, readsBack_count.required,
    readsBack_counts.required, readsBack_scalar.required, readsBack_scalars.required,
    readsBack_matrix.required, readsBack_solution.required, readsBack_counts.plainList.required,
    readsBack_warning.plainList.required, hvariance, hcounts, hmoments, bind_ite_some,
    Option.bind_some, List.all_nil, if_true, List.flatMap_id, id]
  simp only [Report.scalars, List.all_append, Bool.and_eq_true, ite_and]
  rfl

theorem readsBack_initial :
    ReadsBack (ofInitial : ℕ × α → Json α) initial? fun initial => [initial.2] := by
  rintro ⟨samples, variance⟩
  simp only [initial?, ofInitial, readsBack_count samples, readsBack_scalar variance,
    Option.bind_eq_bind, bind_ite_some, List.all_nil, if_true]
  rfl

theorem readsBack_summary :
    ReadsBack (ofSummary : Summary α → Json α) summary? Summary.scalars := by
  intro summary
  have hslots : (ofSummary summary).slots? summaryNames false = _ :=
    slots?_zip (by decide) _ rfl false
  have hinitial := readsBack_initial.optional (fun _ => nofun) summary.initial
  rw [← List.map_eq_flatMap] at hinitial
  rw [summary?, hslots, Option.bind_eq_bind, Option.bind_some]
  simp only [List.map_cons, List.map_nil]
  simp only [Option.bind_eq_bind, readsBack_bool.required, readsBack_count.required,
    readsBack_scalar.required, hinitial, bind_ite_some, Option.bind_some, List.all_nil, if_true]
  simp only [Summary.scalars, List.all_append, Bool.and_eq_true, ite_and]
  rfl

end Json

/-! ## Settings -/

section Settings

variable [Scalar α] (settings : Settings α)

/-- The settings without a budget or a tolerance that is not finite. -/
def Settings.finite : Settings α :=
  { settings with
    budget := settings.budget.filter Scalar.isFinite
    tolerance := settings.tolerance.filter Scalar.isFinite }

/-- The settings with the defaults in place of the fields of the given names. -/
def Settings.reset (names : List String) : Settings α :=
  let default : Settings α := .default
  { pilotSamples := if "pilot_samples" ∈ names then default.pilotSamples else settings.pilotSamples
    maxIterations :=
      if "max_iterations" ∈ names then default.maxIterations else settings.maxIterations
    budget := if "max_function_evals" ∈ names then default.budget else settings.budget
    tolerance := if "convergence_tol" ∈ names then default.tolerance else settings.tolerance
    pilotMode := if "pilot_mode" ∈ names then default.pilotMode else settings.pilotMode
    preferReordered :=
      if "prefer_reordered_analytic" ∈ names then default.preferReordered
      else settings.preferReordered
    tolerances := if "tolerances" ∈ names then default.tolerances else settings.tolerances }

namespace Json

/-- A field with a default. -/
theorem ReadsBack.defaulted {β : Type} {encode : β → Json α} {decode : Json α → Option β}
    {scalars : β → List α} (h : ReadsBack encode decode scalars) (default value : β) (p : Prop)
    [Decidable p] :
    defaulted? default decode (if p then none else some (encode value)) =
      if p ∨ (scalars value).all Scalar.isFinite then some (if p then default else value)
      else none := by
  by_cases hp : p
  · simp [hp, defaulted?]
  · simp only [hp, if_false, false_or]
    exact h value

/-- A number that may be missing and is missing if it is not finite. -/
theorem optional?_ofOption_ofScalar (value : Option α) (p : Prop) [Decidable p] :
    optional? scalar? (if p then none else some (ofOption ofScalar value)) =
      some (if p then none else value.filter Scalar.isFinite) := by
  by_cases hp : p
  · simp [hp, optional?]
  · simp only [hp, if_false]
    cases value with
    | none => rfl
    | some x =>
      cases hfinite : Scalar.isFinite x <;>
        simp [ofOption, ofScalar, hfinite, optional?, scalar?, Option.filter]

/-- Settings read back if the thresholds are finite or taken out. -/
theorem settings?_without (removed : List String) :
    settings? ((ofSettings settings).without removed) =
      if "tolerances" ∈ removed ∨ settings.tolerances.scalars.all Scalar.isFinite then
        some (settings.finite.reset removed)
      else none := by
  have hslots : ((ofSettings settings).without removed).slots? settingsNames true = _ :=
    slots?_without (by decide) _ rfl removed true
  rw [settings?, hslots, Option.bind_eq_bind, Option.bind_some]
  simp only [settingsNames, List.zip_cons_cons, List.zip_nil_right, List.map_cons, List.map_nil]
  simp only [Option.bind_eq_bind, readsBack_count.defaulted, readsBack_pilotMode.defaulted,
    readsBack_bool.defaulted, readsBack_tolerances.defaulted, optional?_ofOption_ofScalar,
    List.all_nil, or_true, if_true, Option.bind_some, bind_ite_some]
  rfl

end Json

end Settings

namespace Json

/-- Every value is read back from its tree if all its numbers are finite, and otherwise the tree is
refused. So are the checkpoints from the file that a listener stores. Settings may have a budget or
a tolerance that is not finite, and it is missing when they are read back. Fields that are taken out
of them come back with their defaults. -/
theorem roundTrip [Scalar α] :
    ReadsBack (ofTolerances : Tolerances α → Json α) tolerances? Tolerances.scalars ∧
    ReadsBack (ofTarget : Target α → Json α) target? Target.scalars ∧
    ReadsBack (ofWarning : Warning → Json α) warning? (fun _ => []) ∧
    ReadsBack (ofMatrix : QoiMatrix α → Json α) matrix? QoiMatrix.entries ∧
    ReadsBack (ofCorrelations : Correlations α → Json α) correlations? Correlations.scalars ∧
    ReadsBack (ofSolution : RatioSolution α → Json α) solution? RatioSolution.scalars ∧
    ReadsBack (ofCheckpoint : Checkpoint α → Json α) checkpoint? Checkpoint.scalars ∧
    ReadsBack (ofList ofCheckpoint : List (Checkpoint α) → Json α) (list? checkpoint?)
      (List.flatMap Checkpoint.scalars) ∧
    (∀ path (checkpoints : List (Checkpoint Float)), ∃ contents,
      Listener.file path none checkpoints = [.stored contents] ∧
      list? checkpoint? contents =
        if (checkpoints.flatMap Checkpoint.scalars).all Scalar.isFinite then some checkpoints
        else none) ∧
    ReadsBack (ofReport : Report α → Json α) report? Report.scalars ∧
    ReadsBack (ofSummary : Summary α → Json α) summary? Summary.scalars ∧
    ∀ (settings : Settings α) (removed : List String),
      settings? ((ofSettings settings).without removed) =
        if "tolerances" ∈ removed ∨ settings.tolerances.scalars.all Scalar.isFinite then
          some (settings.finite.reset removed)
        else none :=
  ⟨readsBack_tolerances, readsBack_target, readsBack_warning, readsBack_matrix,
    readsBack_correlations, readsBack_solution, readsBack_checkpoint, readsBack_checkpoint.list,
    fun _ checkpoints => ⟨_, rfl, readsBack_checkpoint.list checkpoints⟩, readsBack_report,
    readsBack_summary, settings?_without⟩

end Json

end Multifidelity
