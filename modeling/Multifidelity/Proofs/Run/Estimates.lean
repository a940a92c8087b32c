import Multifidelity.Proofs.Estimate.Nested
import Multifidelity.Proofs.Run.Ledger
import Multifidelity.Proofs.Run.Rounds

/-!
# The estimates of a run

What a run reports about its samples is a function of the responses that it has charged. The counts
are the numbers of values that the responses have, and the moments are estimated from these values.

## Main definitions

* `nestedValues`: the values of a low-fidelity model at its joint samples and in its refinements
* `Report.Reflects`: reports that are about given increments

## Main results

* `Plan.Refines.tallies`: the tallies after all refinements
* `Plan.reflects_reportOf`: what a run reports, given its shared samples and its refinements
* `report_reflects`: the reports of online and offline runs
-/

namespace Multifidelity

open ExactReal

/-! ## Values of increments -/

/-- The values of a low-fidelity model at the joint samples of a QoI, followed by those in the
responses to calls of a kind. -/
noncomputable def nestedValues (dims : Dimensions) (kind : ℕ → Call → Bool)
    (drawn : List (Call × Batch ExactReal)) (qoi model : ℕ) : List ℝ :=
  (dims.jointSamples (sharedResponses drawn) qoi).map (·.value model) ++
    dims.values (responsesTo (kind model) drawn) model qoi

/-- The report is about given increments. It counts the joint samples, and the values of each
low-fidelity model at its refinements with them. The moments are those of the joint samples,
corrected by what each low-fidelity model says about the refinements on which it is not the last
model, and about all of its refinements. -/
structure Report.Reflects (dims : Dimensions) (drawn : List (Call × Batch ExactReal))
    (report : Report ExactReal) : Prop where
  sharedCounts : report.sharedCounts = dims.jointCounts (sharedResponses drawn)
  lowCounts : report.lowCounts = (List.range dims.numApprox).map fun model =>
    (List.range dims.numFunctions).map fun qoi =>
      ((sharedResponses drawn).countP fun response => dims.IsJoint response qoi) +
        (dims.values (responsesTo (Call.lists model) drawn) model qoi).length
  rawMoments : report.rawMoments = some ((List.range dims.numFunctions).map fun qoi =>
    .ofFn fun order => real (estimatedMoment dims.numApprox
      (dims.jointSamples (sharedResponses drawn) qoi)
      (nestedValues dims Call.listsBeforeLast drawn qoi) (nestedValues dims Call.lists drawn qoi)
      (order + 1)))

/-- Calls for samples on all models are of no other kind. -/
theorem responsesTo_of_isShared {α : Type} {kind : Call → Bool} {drawn : List (Call × Batch α)}
    (hdrawn : ∀ entry ∈ drawn, entry.1.isShared)
    (hkind : ∀ iteration samples, kind (.shared iteration samples) = false) :
    responsesTo kind drawn = [] := by
  rw [responsesTo, List.flatMap_eq_nil_iff]
  intro entry hentry
  obtain ⟨hmem, hkind'⟩ := List.mem_filter.mp hentry
  have hshared := hdrawn entry hmem
  obtain ⟨call, batch⟩ := entry
  cases call with
  | shared iteration samples =>
    rw [hkind] at hkind'
    cases hkind'
  | approx => cases hshared

/-- Refinements after increments on all models add values to those of the joint samples. -/
theorem nestedValues_append {dims : Dimensions} {kind : ℕ → Call → Bool}
    {drawn refinements : List (Call × Batch ExactReal)}
    (hdrawn : ∀ entry ∈ drawn, entry.1.isShared) (hnone : sharedResponses refinements = [])
    (hkind : ∀ model iteration samples, kind model (.shared iteration samples) = false) :
    nestedValues dims kind (drawn ++ refinements) = fun qoi model =>
      (dims.jointSamples (sharedResponses drawn) qoi).map (·.value model) ++
        dims.values (responsesTo (kind model) refinements) model qoi := by
  funext qoi model
  rw [nestedValues, sharedResponses_append, hnone, List.append_nil, responsesTo_append,
    responsesTo_of_isShared hdrawn (hkind model), List.nil_append]

namespace Plan

variable {σ : Type} {plan : Plan σ ExactReal} {iteration stop : ℕ}
  {allocation : Allocation ExactReal} {state : σ}

/-! ## Refinements -/

/-- Refinements add the values of their responses to the models of their ranges. -/
theorem Refines.tallies {refinement last : Refinement σ ExactReal}
    {events : List (Event ExactReal)}
    (h : plan.Refines iteration allocation stop refinement events last)
    {sharedValues refinedValues : ℕ → ℕ → List ℝ}
    (horder : allocation.evalRatios.solution.order.Valid plan.ensemble.dims.numApprox)
    (hstop : stop ≤ plan.ensemble.dims.numApprox)
    (htallies : refinement.pyramid.Tallies plan.ensemble.dims sharedValues refinedValues) :
    last.pyramid.Tallies plan.ensemble.dims
      (fun qoi model => sharedValues qoi model ++ plan.ensemble.dims.values
        (responsesTo (Call.listsBeforeLast model) (increments events)) model qoi)
      (fun qoi model => refinedValues qoi model ++ plan.ensemble.dims.values
        (responsesTo (Call.lists model) (increments events)) model qoi) := by
  induction h generalizing sharedValues refinedValues with
  | done => simpa [Dimensions.values] using htallies
  | skip _ _ ih => exact ih (by omega) htallies
  | @draw _ _ _ _ call batch events _ hcall _ hpyramid _ _ ih =>
    have hnext := ih (by omega) (htallies.refine horder hstop hcall hpyramid)
    -- the values of this refinement come before those of the later ones
    have hadd : ∀ (kind : ℕ → Call → Bool) (values : ℕ → ℕ → List ℝ) (qoi model : ℕ),
        addValues plan.ensemble.dims (kind · call) values batch qoi model ++
            plan.ensemble.dims.values (responsesTo (kind model) (increments events)) model qoi =
          values qoi model ++ plan.ensemble.dims.values (responsesTo (kind model)
            (increments (.increment call batch :: events))) model qoi := by
      intro kind values qoi model
      rw [increments_increment, responsesTo_cons, Dimensions.values_append, addValues,
        List.append_assoc]
      split <;> rfl
    simpa only [hadd] using hnext

/-! ## Reports -/

/-- After increments on all models, refinements lead to a report about all of these increments. -/
theorem reflects_reportOf {drawn : List (Call × Batch ExactReal)} {sums : JointSums ExactReal 4}
    {bench : Bench σ ExactReal} {final : Refinement σ ExactReal}
    {events : List (Event ExactReal)} {moments : List (Vector ExactReal 4)}
    (hdrawn : ∀ entry ∈ drawn, entry.1.isShared)
    (hsums : sums = (sharedResponses drawn).foldl JointSums.addResponse
      (.empty plan.ensemble.dims))
    (horder : allocation.evalRatios.solution.order.Valid plan.ensemble.dims.numApprox)
    (hrefines : plan.Refines iteration allocation plan.numApprox ⟨bench, .ofJoint sums, 0⟩ events
      final)
    (hmoments : (rawMoments sums final.pyramid).outcome = .ok moments)
    (pilot : Option (Pilot ExactReal)) (warnings : List Warning) :
    (plan.reportOf iteration allocation sums pilot warnings final moments).Reflects
      plan.ensemble.dims (drawn ++ increments events) := by
  have hnone := hrefines.sharedResponses_eq_nil
  have hshared : sharedResponses (drawn ++ increments events) = sharedResponses drawn := by
    rw [sharedResponses_append, hnone, List.append_nil]
  -- the tallies are those of the nested values
  have htallies : final.pyramid.Tallies plan.ensemble.dims
      (nestedValues plan.ensemble.dims Call.listsBeforeLast (drawn ++ increments events))
      (nestedValues plan.ensemble.dims Call.lists (drawn ++ increments events)) := by
    have hstart := PyramidSums.tallies_ofJoint plan.ensemble.dims (sharedResponses drawn)
    rw [← hsums] at hstart
    rw [nestedValues_append hdrawn hnone fun _ _ _ => rfl,
      nestedValues_append hdrawn hnone fun _ _ _ => rfl]
    exact hrefines.tallies horder le_rfl hstart
  have hlength : ∀ kind qoi model,
      (plan.ensemble.dims.jointSamples (sharedResponses drawn) qoi).length ≤
        (nestedValues plan.ensemble.dims kind (drawn ++ increments events) qoi model).length := by
    intro kind qoi model
    rw [nestedValues, hshared, List.length_append, List.length_map]
    exact Nat.le_add_right _ _
  constructor
  case sharedCounts =>
    change sums.counts = _
    rw [hsums, JointSums.counts_foldl_addResponse, hshared]
  case lowCounts =>
    refine List.map_congr_left fun model hmodel => ?_
    rw [htallies.refinedCounts (List.mem_range.mp hmodel)]
    refine List.map_congr_left fun qoi _ => ?_
    rw [nestedValues, List.length_append, List.length_map, Dimensions.length_jointSamples]
  case rawMoments =>
    rw [hsums] at hmoments
    rw [hshared]
    exact congrArg some (rawMoments_of_tallies htallies (hlength _) (hlength _) hmoments)

/-! ## Runs -/

theorem reflects_online {report : Report ExactReal} (h : (plan.online state).outcome = .ok report) :
    report.Reflects plan.ensemble.dims (increments (plan.online state).journal) := by
  obtain ⟨past, last, hreaches, -, final, moments, events, hrefines, hmoments, htranscript, rfl⟩ :=
    exists_reaches_of_online h
  obtain ⟨hdocuments, -⟩ := hreaches.documents
  rw [← increments_transcript, htranscript, increments_append]
  refine reflects_reportOf hdocuments.isShared hdocuments.sums hreaches.settled.order hrefines
    hmoments _ _

/-- The order of the allocation after a pilot lists every model once. -/
theorem valid_order_of_pilot {charged : Bool} {pilot : PilotSamples σ ExactReal}
    {spent : ExactReal} {pilotVariance : Option (List ExactReal)}
    {planned : Allocation ExactReal} (hpilot : (plan.pilot charged state).outcome = .ok pilot)
    (hplanned : (plan.allocate pilot.correlations pilot.counts spent pilotVariance none).outcome =
      .ok planned) :
    planned.evalRatios.solution.order.Valid plan.ensemble.dims.numApprox := by
  obtain ⟨sums, hsums, hcorrelations, -, -⟩ := pilot_eq_ok_iff.mp hpilot
  obtain ⟨heval, -, -⟩ := allocate_eq_ok_iff.mp hplanned
  have hcols := JointSums.cols_correlations hcorrelations
  rw [((JointSums.sized_empty _).accumulate hsums).dims_eq] at hcols
  rw [← hcols]
  exact RatioInputs.valid_order_of_evalRatios
    (fun solution hsolution => absurd hsolution.symm (Option.some_ne_none solution)) heval

theorem reflects_offline {report : Report ExactReal}
    (h : (plan.offline state).outcome = .ok report) :
    report.Reflects plan.ensemble.dims
      (PilotMode.offline.charged (increments (plan.offline state).journal)) := by
  obtain ⟨pilot, planned, drawn, hpilot, hplanned, hdrawn, final, moments, events, hrefines,
    hmoments, htranscript, rfl⟩ := exists_refines_of_offline h
  obtain ⟨hsums, -⟩ := sharedIncrement_eq_ok_iff.mp hdrawn
  obtain ⟨-, haccumulate⟩ := JointSums.accumulate_eq_ok_iff.mp hsums
  -- the pilot is the first of the increments
  obtain ⟨second, hsecond⟩ : ∃ second, second = (Call.shared 1 (plan.offlineSamples planned),
    (plan.answer (.shared 1 (plan.offlineSamples planned)) pilot.bench).1) := ⟨_, rfl⟩
  have hcharged : PilotMode.offline.charged (increments (plan.offline state).journal) =
      [second] ++ increments events := by
    rw [← increments_transcript, htranscript, hsecond]
    rfl
  have horder := valid_order_of_pilot hpilot hplanned
  change (planned.realize drawn.sums.counts).evalRatios.solution.order.Valid _ at horder
  rw [hcharged]
  refine reflects_reportOf ?_ ?_ horder hrefines hmoments _ _
  · intro entry hentry
    rw [List.mem_singleton.mp hentry, hsecond]
    rfl
  · rw [haccumulate, hsecond, ← List.nil_append [_], sharedResponses_concat]
    rfl

end Plan

/-- An online or offline run that ends with a report reports the numbers of values in the responses
that it has charged, and the moments that are estimated from these values. -/
theorem report_reflects {σ : Type} {optimizer : Optimizer ExactReal}
    {ensemble : Ensemble σ ExactReal} {settings : Settings ExactReal} {state : σ}
    {report : Report ExactReal} (hmode : settings.pilotMode ≠ .projection)
    (hreport : (sampleWith optimizer ensemble settings state).outcome = .ok report) :
    report.Reflects ensemble.dims (settings.pilotMode.charged
      (increments (sampleWith optimizer ensemble settings state).journal)) := by
  rcases Plan.sampleWith_eq optimizer ensemble settings state with ⟨plan, hchecked, hrun⟩ |
    ⟨failure, hrun⟩
  · rw [hrun, Plan.execute, hchecked.settings_eq] at hreport ⊢
    rw [← hchecked.ensemble_eq]
    cases hpilot : settings.pilotMode with
    | online =>
      rw [hpilot] at hreport
      exact Plan.reflects_online hreport
    | offline =>
      rw [hpilot] at hreport
      exact Plan.reflects_offline hreport
    | projection => exact absurd hpilot hmode
  · rw [hrun] at hreport
    cases hreport

/-- What is reported about a run with two rounds and refinements of both low-fidelity models. -/
theorem report_reflects_of_quartet :
    let settings := quartetSettings .online
    let run := sampleWith unitOptimizer quartetEnsemble settings ()
    settings.pilotMode ≠ .projection ∧
      ∃ report, run.outcome = .ok report ∧ report.iterations = 2 ∧
        report.sharedCounts = [8] ∧ report.lowCounts = [[32], [16]] ∧
        report.Reflects quartetEnsemble.dims (increments run.journal) := by
  intro settings run
  obtain ⟨report, hreport, hiterations, -, -, hshared, hlow, -⟩ :=
    exists_online_quartet unitOptimizer
  have hmode : settings.pilotMode ≠ .projection := by decide
  exact ⟨hmode, report, hreport, hiterations, hshared, hlow, report_reflects hmode hreport⟩

end Multifidelity
