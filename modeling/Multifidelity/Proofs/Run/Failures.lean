import Multifidelity.Proofs.Allocation.SearchStart
import Multifidelity.Proofs.Run.Protocol
import Multifidelity.Proofs.Run.VarianceReduction

/-!
# The failures of a run

A run with the usual compass search only fails for what its user has given it. Settings, an ensemble
or costs that are not accepted end it before it begins. After that an ensemble may answer with a
response of the wrong length, or with too few joint samples. The search never fails: it starts from
feasible ratios, and it keeps their number.

## Main definitions

* `Plan.Rejects`: why settings and an ensemble make up no plan
* `Plan.Searches`: plans whose allocations use a compass search
* `RefusesLast`: transcripts that end with a response of the wrong length
* `Plan.Fails`: how a run fails, given what it shows

## Main results

* `Plan.check_eq_error_iff`: when no plan is made
* `Plan.Searches.exists_allocate`: allocations never fail
* `Plan.Searches.step_eq_error`, `Plan.Reaches.iterate_eq_error`: one round, and those that follow
* `Plan.refineBelow_eq_error`, `Plan.finish_eq_error`: what follows the last round
* `sample_failures`: runs in all pilot modes
-/

namespace Multifidelity

/-! ## Plans that are not accepted -/

namespace Plan

section Rejects

variable {σ α : Type} [Scalar α]

/-- Why settings and an ensemble make up no plan. The target is looked at first, then the size of
the ensemble, and its costs last. -/
inductive Rejects (ensemble : Ensemble σ α) (settings : Settings α) : Failure α → Prop
  | target {failure : Failure α} (htarget : settings.target = .error failure) :
      Rejects ensemble settings failure
  | empty {target : Target α} (htarget : settings.target = .ok target)
      (hempty : ensemble.dims.numApprox = 0 ∨ ensemble.dims.numFunctions = 0) :
      Rejects ensemble settings
        (.invalidSettings (.emptyEnsemble ensemble.dims.numApprox ensemble.dims.numFunctions))
  | costs {target : Target α} {failure : Failure α} (htarget : settings.target = .ok target)
      (hlow : 0 < ensemble.dims.numApprox) (hqoi : 0 < ensemble.dims.numFunctions)
      (hcosts : Costs.check ensemble.dims.numApprox ensemble.costs = .error failure) :
      Rejects ensemble settings failure

variable {ensemble : Ensemble σ α} {settings : Settings α} {failure : Failure α}

/-- No plan is made if and only if something is rejected. -/
theorem check_eq_error_iff {optimizer : Optimizer α} :
    check ensemble settings optimizer = .error failure ↔ Rejects ensemble settings failure := by
  constructor
  · intro h
    unfold check at h
    cases htarget : settings.target with
    | error fault =>
      rw [htarget] at h
      cases h
      exact .target htarget
    | ok target =>
      rw [htarget] at h
      simp only [bind, Except.bind] at h
      split at h
      · rename_i hempty
        cases h
        exact .empty htarget hempty
      · rename_i hsize
        rw [not_or] at hsize
        cases hcosts : Costs.check ensemble.dims.numApprox ensemble.costs with
        | error fault =>
          rw [hcosts] at h
          cases h
          exact .costs htarget (Nat.pos_of_ne_zero hsize.1) (Nat.pos_of_ne_zero hsize.2) hcosts
        | ok costs =>
          rw [hcosts] at h
          cases h
  · intro h
    unfold check
    cases h with
    | target htarget => rw [htarget]; rfl
    | empty htarget hempty =>
      rw [htarget]
      exact if_pos hempty
    | costs htarget hlow hqoi hcosts =>
      have hsize : ¬ (ensemble.dims.numApprox = 0 ∨ ensemble.dims.numFunctions = 0) := by omega
      rw [htarget]
      simp only [bind, Except.bind]
      rw [if_neg hsize, hcosts]

theorem sampleWith_of_rejects (h : Rejects ensemble settings failure) (optimizer : Optimizer α)
    (state : σ) : sampleWith optimizer ensemble settings state = .fail failure := by
  unfold sampleWith
  rw [check_eq_error_iff.mpr h]
  exact Recorder.bind_of_error rfl _

/-- Settings are only rejected for what is wrong with them. -/
theorem Rejects.ne (h : Rejects ensemble settings failure) :
    (∀ fault, failure ≠ .optimizer fault) ∧
      failure ≠ .invalidSettings .missingPilotVariance ∧
      ∀ qoi count, failure ≠ .insufficientSamples qoi count := by
  cases h with
  | target htarget =>
    unfold Settings.target at htarget
    repeat' split at htarget
    all_goals cases htarget
    all_goals exact ⟨nofun, nofun, nofun⟩
  | empty htarget hempty => exact ⟨nofun, nofun, nofun⟩
  | costs htarget hlow hqoi hcosts =>
    unfold Costs.check at hcosts
    dsimp only at hcosts
    split at hcosts
    all_goals cases hcosts
    exact ⟨nofun, nofun, nofun⟩

end Rejects

end Plan

/-! ## Allocations -/

/-- A proper plan that allocates with a compass search. Its target is a budget if the pilot is not
charged. -/
structure Plan.Searches {σ : Type} (plan : Plan σ ExactReal) : Prop extends plan.Proper where
  search : ∃ search : CompassSearch ExactReal, search.Bounded ∧ plan.optimizer = search.optimize
  charged : plan.settings.pilotMode = .offline → ∃ budget, plan.target = .budget budget

namespace Plan

open ExactReal

variable {σ : Type} {plan : Plan σ ExactReal} {state : σ}

theorem Checked.searches {ensemble : Ensemble σ ExactReal} {settings : Settings ExactReal}
    {search : CompassSearch ExactReal} (h : Checked ensemble settings search.optimize plan)
    (hsearch : search.Bounded) (htolerances : settings.tolerances.Proper) : plan.Searches where
  toProper := h.proper htolerances hsearch.ordered_optimize
  search := ⟨search, hsearch, h.optimizer_eq⟩
  charged hmode := Settings.exists_budget_of_offline h.target_eq (h.settings_eq ▸ hmode)

/-- An allocation after a shared increment has a result. -/
theorem Searches.exists_allocate (hplan : plan.Searches) {m : ℕ}
    {responses : List (Response ExactReal)} {sums : JointSums ExactReal (m + 1)}
    (hsums : sums = responses.foldl JointSums.addResponse (.empty plan.ensemble.dims))
    {correlations : Correlations ExactReal} (hcorrelations : sums.correlations = .ok correlations)
    (spent : ExactReal) {pilotVariance : Option (List ExactReal)}
    (hvariance : ∀ tolerance, plan.target = .tolerance tolerance →
      ∃ variance, pilotVariance = some variance) {previous : Option (Allocation ExactReal)}
    (hprevious : ∀ allocation, previous = some allocation →
      allocation.evalRatios.solution.IsPyramid plan.ensemble.dims) :
    ∃ allocation, (plan.allocate correlations sums.counts spent pilotVariance previous).outcome =
      .ok allocation := by
  obtain ⟨search, hsearch, hoptimizer⟩ := hplan.search
  have hsized : sums.Sized plan.ensemble.dims :=
    hsums ▸ (JointSums.sized_empty _).foldl_addResponse responses
  have hinputs : (plan.ratioInputs correlations sums.counts spent pilotVariance
      previous).Searchable plan.ensemble.dims := {
    toSound := hplan.sound_ratioInputs hsized hcorrelations spent pilotVariance previous hprevious
    isPyramid := by
      intro solution hsolution
      obtain ⟨allocation, hallocation, rfl⟩ := Option.map_eq_some_iff.mp hsolution
      exact hprevious allocation hallocation
    varHigh := by
      obtain ⟨vars, hlength, -, hvars⟩ := JointSums.exists_varHigh (hsums ▸ hcorrelations)
      exact ⟨vars, hlength, hvars⟩
    pilotVariance := hvariance }
  obtain ⟨result, hresult⟩ := hinputs.exists_evalRatios hsearch
  rw [← hoptimizer] at hresult
  exact ⟨⟨correlations, result, realizedVarianceRatios result.rhoSq result.solution
    result.highTargets sums.counts⟩, allocate_eq_ok_iff.mpr ⟨hresult, rfl, rfl⟩⟩

end Plan

/-! ## Responses of the wrong length -/

/-- The transcript ends with an increment that has a response of the wrong length. The first such
response is the reason. -/
inductive RefusesLast {α : Type} (dims : Dimensions) (shown : List (Event α)) : Failure α → Prop
  | response {past : List (Event α)} {call : Call} {batch : Batch α} {response : Response α}
      (hlast : shown = past ++ [.increment call batch])
      (hfirst : batch.find? (fun r => r.length != dims.responseLength) = some response) :
      RefusesLast dims shown (.responseLength dims.responseLength response.length)

section RefusesLast

variable {α : Type} {dims : Dimensions} {failure : Failure α}

theorem RefusesLast.of_check {call : Call} {batch : Batch α}
    (h : dims.check batch = .error failure) :
    RefusesLast dims [.increment call batch] failure := by
  obtain ⟨response, hfirst, rfl⟩ := dims.check_eq_error_iff.mp h
  exact .response (List.nil_append _).symm hfirst

theorem RefusesLast.append {shown : List (Event α)} (h : RefusesLast dims shown failure)
    (past : List (Event α)) : RefusesLast dims (past ++ shown) failure := by
  obtain ⟨rfl, hfirst⟩ := h
  exact .response (List.append_assoc _ _ _).symm hfirst

end RefusesLast

/-! ## Too few samples -/

/-- A QoI has fewer than two samples. The first such QoI is the reason, with its count. -/
inductive Undersampled {α : Type} (counts : List ℕ) : Failure α → Prop
  | first {qoi : ℕ} (hfirst : counts.findIdx? (· < 2) = some qoi) :
      Undersampled counts (.insufficientSamples qoi (counts.getD qoi 0))

theorem not_undersampled {α : Type} {counts : List ℕ} (h : ∀ count ∈ counts, 2 ≤ count)
    (failure : Failure α) : ¬ Undersampled counts failure := by
  rintro ⟨hfirst⟩
  obtain ⟨hlt, hfew, -⟩ := List.findIdx?_eq_some_iff_getElem.mp hfirst
  exact absurd (h _ (List.getElem_mem hlt)) (not_le.mpr (of_decide_eq_true hfew))

theorem JointSums.undersampled_of_correlations {α : Type} [Scalar α] {m : ℕ}
    {sums : JointSums α (m + 1)} {failure : Failure α} (h : sums.correlations = .error failure) :
    Undersampled sums.counts failure := by
  obtain ⟨qoi, hfirst, rfl⟩ := correlations_eq_error_iff.mp h
  exact .first hfirst

namespace Plan

section Parts

variable {σ α : Type} [Scalar α] {plan : Plan σ α} {iteration samples : ℕ} {bench : Bench σ α}
  {failure : Failure α}

theorem sharedIncrement_eq_error_iff {M : ℕ} {charged : Bool} {sums : JointSums α M} :
    (plan.sharedIncrement iteration samples charged sums bench).outcome = .error failure ↔
      sums.dims.check (plan.answer (.shared iteration samples) bench).1 = .error failure := by
  unfold sharedIncrement
  rw [Recorder.bind_of_ok (outcome_log _), Recorder.bind_of_ok (outcome_draw _ bench)]
  dsimp only
  rw [Recorder.outcome_bind_eq_error, Recorder.outcome_ofExcept, JointSums.accumulate_eq_error_iff]
  exact or_iff_left fun ⟨_, _, h⟩ => nomatch h

/-- A pilot fails for a response of the wrong length, or for a QoI with too few samples. -/
theorem pilot_eq_error {charged : Bool} {state : σ}
    (h : (plan.pilot charged state).outcome = .error failure) :
    let batch := (plan.answer (.shared 0 plan.settings.pilotSamples) ⟨state, 0⟩).1
    plan.ensemble.dims.check batch = .error failure ∨
      Undersampled (plan.ensemble.dims.jointCounts batch) failure := by
  intro batch
  unfold pilot at h
  rcases Recorder.outcome_bind_eq_error.mp h with hdrawn | ⟨drawn, hdrawn, h⟩
  · exact Or.inl (sharedIncrement_eq_error_iff.mp hdrawn)
  · obtain ⟨haccumulate, -⟩ := sharedIncrement_eq_ok_iff.mp hdrawn
    obtain ⟨-, hsums⟩ := JointSums.accumulate_eq_ok_iff.mp haccumulate
    rcases Recorder.outcome_bind_eq_error.mp h with hcorrelations | ⟨_, _, h⟩
    · have hlacks := JointSums.undersampled_of_correlations hcorrelations
      rw [hsums, JointSums.counts_foldl_addResponse] at hlacks
      exact Or.inr hlacks
    · cases h

/-! ## Refinements -/

variable {allocation : Allocation α}

/-- An increment on low-fidelity models only fails for a response of the wrong length. -/
theorem approxIncrement_eq_error {stop : ℕ} {refinement : Refinement σ α}
    (h : (plan.approxIncrement iteration allocation (stop + 1) refinement).outcome =
      .error failure) :
    RefusesLast refinement.pyramid.dims
      (transcript (plan.approxIncrement iteration allocation (stop + 1) refinement).journal)
      failure := by
  rw [transcript_approxIncrement]
  unfold approxIncrement at h
  rw [Recorder.bind_of_ok (outcome_log _)] at h
  dsimp only at h
  split at h
  · cases h
  · rename_i hsome
    change refinement.missing allocation stop ≠ 0 at hsome
    dsimp only
    rw [if_neg hsome]
    rw [Recorder.bind_of_ok (outcome_draw _ _)] at h
    dsimp only at h
    rcases Recorder.outcome_bind_eq_error.mp h with hrefused | ⟨_, _, h⟩
    · exact .of_check (PyramidSums.refine_eq_error_iff.mp hrefused)
    · cases h

theorem refineBelow_eq_error {dims : Dimensions} {stop : ℕ} {refinement : Refinement σ α}
    (hsized : refinement.pyramid.Sized dims)
    (h : (plan.refineBelow iteration allocation stop refinement).outcome = .error failure) :
    RefusesLast dims
      (transcript (plan.refineBelow iteration allocation stop refinement).journal) failure := by
  induction stop generalizing refinement with
  | zero => cases h
  | succ stop ih =>
    unfold refineBelow at h ⊢
    rcases Recorder.outcome_bind_eq_error.mp h with hfirst | ⟨next, hnext, h⟩
    · rw [transcript_bind_of_error hfirst, ← hsized.dims_eq]
      exact approxIncrement_eq_error hfirst
    · have hnextSized : next.pyramid.Sized dims := by
        rcases approxIncrement_eq_ok hnext with ⟨-, rfl⟩ | ⟨-, hpyramid, -⟩
        · exact hsized
        · exact hsized.refine hpyramid
      rw [transcript_bind_of_ok hnext]
      exact (ih hnextSized h).append _

/-- After the last shared increment a run fails for a response of the wrong length, or after all
refinements for the first QoI without a joint sample. -/
theorem finish_eq_error {iterations : ℕ} {sums : JointSums α 4}
    (hsums : sums.Sized plan.ensemble.dims) {pilot : Option (Pilot α)} {warnings : List Warning}
    (h : (plan.finish iterations allocation sums bench pilot warnings).outcome =
      .error failure) :
    let shown :=
      transcript (plan.finish iterations allocation sums bench pilot warnings).journal
    RefusesLast plan.ensemble.dims shown failure ∨
      ∃ final qoi, plan.Refines iterations allocation plan.numApprox ⟨bench, .ofJoint sums, 0⟩
          shown final ∧
        sums.counts.findIdx? (· = 0) = some qoi ∧ failure = .insufficientSamples qoi 0 := by
  intro shown
  have hshown : shown = _ := transcript_finish plan iterations allocation sums bench pilot warnings
  rw [hshown]
  unfold finish refine at h
  rcases Recorder.outcome_bind_eq_error.mp h with h | ⟨final, hfinal, h⟩
  · rcases Recorder.outcome_bind_eq_error.mp h with h | ⟨_, _, h⟩
    · exact Or.inl (refineBelow_eq_error (PyramidSums.sized_ofJoint hsums) h)
    · cases h
  · obtain ⟨last, hlast, hfinal⟩ := Recorder.outcome_bind_eq_ok.mp hfinal
    cases hfinal
    rcases Recorder.outcome_bind_eq_error.mp h with h | ⟨_, _, h⟩
    · obtain ⟨qoi, hfirst, rfl⟩ := rawMoments_eq_error h
      exact Or.inr ⟨final, qoi, refines_of_refineBelow hlast, hfirst, rfl⟩
    · cases h

end Parts

/-! ## Rounds -/

section Rounds

variable {σ : Type} {plan : Plan σ ExactReal} {state : σ} {failure : Failure ExactReal}
  {iteration samples : ℕ} {bench : Bench σ ExactReal} {before : Option (Progress σ ExactReal)}
  {sums : JointSums ExactReal 4} {past : List (Event ExactReal)}

/-- A round that fails shows its increment. -/
theorem transcript_step_of_error
    (h : (plan.step before iteration samples bench sums).outcome = .error failure) :
    transcript (plan.step before iteration samples bench sums).journal =
      [.increment (.shared iteration samples)
        (plan.answer (.shared iteration samples) bench).1] := by
  obtain ⟨internal, hinternal, hjournal⟩ :=
    step_journal plan before iteration samples bench sums
  rw [hjournal, h]
  simp [transcript_of_internal hinternal]

/-- A round fails for a response of the wrong length, or for a QoI with too few samples. -/
theorem Searches.step_eq_error (hplan : plan.Searches) (responses : List (Response ExactReal))
    (hsums : sums = responses.foldl JointSums.addResponse (.empty plan.ensemble.dims))
    (hbefore : ∀ progress, before = some progress →
      progress.allocation.evalRatios.solution.IsPyramid plan.ensemble.dims)
    (h : (plan.step before iteration samples bench sums).outcome = .error failure) :
    let batch := (plan.answer (.shared iteration samples) bench).1
    plan.ensemble.dims.check batch = .error failure ∨
      Undersampled (plan.ensemble.dims.jointCounts (responses ++ batch)) failure := by
  intro batch
  unfold step at h
  rcases Recorder.outcome_bind_eq_error.mp h with hdrawn | ⟨drawn, hdrawn, h⟩
  · have hcheck := sharedIncrement_eq_error_iff.mp hdrawn
    rw [hsums, JointSums.dims_foldl_addResponse] at hcheck
    exact Or.inl hcheck
  · obtain ⟨haccumulate, -⟩ := sharedIncrement_eq_ok_iff.mp hdrawn
    obtain ⟨-, hdrawnSums⟩ := JointSums.accumulate_eq_ok_iff.mp haccumulate
    rw [hsums, ← List.foldl_append] at hdrawnSums
    rcases Recorder.outcome_bind_eq_error.mp h with hcorrelations | ⟨correlations, hok, h⟩
    · have hlacks := JointSums.undersampled_of_correlations hcorrelations
      rw [hdrawnSums, JointSums.counts_foldl_addResponse] at hlacks
      exact Or.inr hlacks
    · -- the allocation does not fail, and nothing else does
      obtain ⟨allocation, hallocation⟩ := hplan.exists_allocate hdrawnSums hok drawn.bench.spent
        (fun _ _ => ⟨_, rfl⟩) (fun allocation hprevious => by
          obtain ⟨progress, hprogress, rfl⟩ := Option.map_eq_some_iff.mp hprevious
          exact hbefore progress hprogress)
      rcases Recorder.outcome_bind_eq_error.mp h with hfail | ⟨_, _, h⟩
      · rw [hallocation] at hfail
        cases hfail
      · cases h

/-- Between two rounds the counts are those of all shared responses, and they are two at least. -/
theorem Reaches.two_le_counts {progress : Progress σ ExactReal}
    (h : plan.Reaches state past progress) :
    progress.sums.counts =
        plan.ensemble.dims.jointCounts (sharedResponses (increments past)) ∧
      ∀ count ∈ progress.sums.counts, 2 ≤ count := by
  obtain ⟨_, _, _, _, _, hsteps⟩ := h.exists_steps
  refine ⟨?_, JointSums.two_le_of_correlations hsteps.correlations⟩
  rw [h.documents.1.sums, JointSums.counts_foldl_addResponse]

/-- The rounds after the pilot only fail for a response of the wrong length. -/
theorem Reaches.iterate_eq_error (hplan : plan.Searches) {limit : ℕ}
    {progress : Progress σ ExactReal} (h : plan.Reaches state past progress)
    (hlimit : progress.iterations + limit = plan.settings.maxIterations + 1)
    (hfail : (plan.iterate limit progress).outcome = .error failure) :
    RefusesLast plan.ensemble.dims (past ++ transcript (plan.iterate limit progress).journal)
      failure := by
  induction limit generalizing past progress with
  | zero => cases hfail
  | succ limit ih =>
    unfold Plan.iterate at hfail ⊢
    split at hfail
    · cases hfail
    · rename_i hpending
      rw [if_neg hpending]
      rcases Recorder.outcome_bind_eq_error.mp hfail with hstep | ⟨next, hnext, hfail⟩
      · obtain ⟨hcounts, htwo⟩ := h.two_le_counts
        rw [hcounts] at htwo
        have hbefore : ∀ before, some progress = some before →
            before.allocation.evalRatios.solution.IsPyramid plan.ensemble.dims := by
          intro before heq
          cases heq
          exact (h.reduces hplan.toProper).allocation.usable.isPyramid
        rw [transcript_bind_of_error hstep, transcript_step_of_error hstep]
        rcases hplan.step_eq_error _ h.documents.1.sums hbefore hstep with hcheck | hlacks
        · exact (RefusesLast.of_check hcheck).append past
        · -- counts do not decrease
          exact absurd hlacks (not_undersampled (Dimensions.le_jointCounts_append htwo _) _)
      · have hsteps := step_eq_ok_iff.mp hnext
        have hiterations : next.iterations + limit = plan.settings.maxIterations + 1 := by
          rw [hsteps.iterations]
          omega
        rw [transcript_bind_of_ok hnext, transcript_step hnext, ← List.append_assoc]
        exact ih (h.round hpending (by omega) hsteps) hiterations hfail

end Rounds

/-! ## Runs -/

/-- How a run fails whose plan has been accepted, given what it shows: for a response of the wrong
length, for too few joint samples of its pilot, or, after all refinements of an offline run, for a
QoI without a joint sample. -/
inductive Fails {σ α : Type} [Scalar α] (plan : Plan σ α) (state : σ) (shown : List (Event α)) :
    Failure α → Prop
  | response {failure : Failure α} (h : RefusesLast plan.ensemble.dims shown failure) :
      Fails plan state shown failure
  | pilot {batch : Batch α} {failure : Failure α}
      (hshown : shown = [.increment (.shared 0 plan.settings.pilotSamples) batch])
      (h : Undersampled (plan.ensemble.dims.jointCounts batch) failure) :
      Fails plan state shown failure
  | moments {pilot : PilotSamples σ α} {planned : Allocation α} {drawn : SharedSamples σ α 4}
      {first second : Checkpoint α} {events : List (Event α)} {final : Refinement σ α} {qoi : ℕ}
      (hmode : plan.settings.pilotMode = .offline)
      (hpilot : (plan.pilot false state).outcome = .ok pilot)
      (hplanned : (plan.allocate pilot.correlations pilot.counts pilot.bench.spent none
        none).outcome = .ok planned)
      (hdrawn : (plan.sharedIncrement 1 (plan.offlineSamples planned) true
        (.empty plan.ensemble.dims : JointSums α 4) pilot.bench).outcome = .ok drawn)
      (hrefines : plan.Refines 2 (planned.realize drawn.sums.counts) plan.numApprox
        ⟨drawn.bench, .ofJoint drawn.sums, 0⟩ events final)
      (hshown : shown = plan.round 0 plan.settings.pilotSamples ⟨state, 0⟩ [first] ++
        plan.round 1 (plan.offlineSamples planned) pilot.bench [first, second] ++ events)
      (hnone : drawn.sums.counts.findIdx? (· = 0) = some qoi) :
      Fails plan state shown (.insufficientSamples qoi 0)

section Runs

variable {σ : Type} {plan : Plan σ ExactReal} {state : σ} {failure : Failure ExactReal}

theorem Fails.ne {shown : List (Event ExactReal)} (h : plan.Fails state shown failure) :
    (∀ fault, failure ≠ .optimizer fault) ∧
      failure ≠ .invalidSettings .missingPilotVariance := by
  cases h with
  | response h => cases h; exact ⟨nofun, nofun⟩
  | pilot _ h => cases h; exact ⟨nofun, nofun⟩
  | moments => exact ⟨nofun, nofun⟩

/-- A run whose pilot has enough samples only lacks them at the end of an offline run. -/
theorem Fails.ne_insufficientSamples {journal : List (Event ExactReal)}
    (h : plan.Fails state (transcript journal) failure)
    (hmode : plan.settings.pilotMode ≠ .offline) {call : Call} {batch : Batch ExactReal}
    {rest : List (Call × Batch ExactReal)} (hpilot : increments journal = (call, batch) :: rest)
    (htwo : ∀ count ∈ plan.ensemble.dims.jointCounts batch, 2 ≤ count) (qoi count : ℕ) :
    failure ≠ .insufficientSamples qoi count := by
  cases h with
  | response h =>
    cases h
    nofun
  | pilot hshown h =>
    rw [← increments_transcript, hshown] at hpilot
    cases hpilot
    exact absurd h (not_undersampled htwo _)
  | moments hoffline => exact absurd hoffline hmode

theorem fails_of_pilot {charged : Bool} (h : (plan.pilot charged state).outcome = .error failure) :
    plan.Fails state (transcript (plan.pilot charged state).journal) failure := by
  rw [pilot_journal]
  rcases pilot_eq_error h with hcheck | hlacks
  · exact .response (.of_check hcheck)
  · exact .pilot rfl hlacks

/-- The plan that a pilot leads to exists. -/
theorem Searches.exists_planned (hplan : plan.Searches) {charged : Bool}
    {pilot : PilotSamples σ ExactReal} (hpilot : (plan.pilot charged state).outcome = .ok pilot)
    (pilotVariance : Option (List ExactReal))
    (hvariance : ∀ tolerance, plan.target = .tolerance tolerance →
      ∃ variance, pilotVariance = some variance) :
    ∃ planned, (plan.allocate pilot.correlations pilot.counts pilot.bench.spent pilotVariance
      none).outcome = .ok planned := by
  obtain ⟨sums, hsums, hcorrelations, hcounts, -⟩ := pilot_eq_ok_iff.mp hpilot
  obtain ⟨-, hsums⟩ := JointSums.accumulate_eq_ok_iff.mp hsums
  rw [hcounts]
  exact hplan.exists_allocate hsums hcorrelations _ hvariance nofun

theorem Searches.fails_online (hplan : plan.Searches)
    (h : (plan.online state).outcome = .error failure) :
    plan.Fails state (transcript (plan.online state).journal) failure := by
  have hunfold := h
  unfold online at hunfold
  rcases Recorder.outcome_bind_eq_error.mp hunfold with hfirst | ⟨first, hfirst, hunfold⟩
  · unfold online
    rw [transcript_bind_of_error hfirst, transcript_step_of_error hfirst]
    rcases hplan.step_eq_error [] rfl (by nofun) hfirst with hcheck | hlacks
    · exact .response (.of_check hcheck)
    · exact .pilot rfl hlacks
  · have hsteps := step_eq_ok_iff.mp hfirst
    have hstart : first.iterations + plan.settings.maxIterations =
        plan.settings.maxIterations + 1 := by
      rw [hsteps.iterations]
      omega
    rcases Recorder.outcome_bind_eq_error.mp hunfold with hiterate | ⟨last, hlast, hunfold⟩
    · unfold online
      rw [transcript_bind_of_ok hfirst, transcript_step hfirst]
      dsimp only
      rw [transcript_bind_of_error hiterate]
      exact .response ((Reaches.pilot hsteps).iterate_eq_error hplan hstart hiterate)
    · obtain ⟨hreaches, -⟩ := (Reaches.pilot hsteps).iterate hstart hlast
      rw [transcript_online hfirst hlast]
      rcases Recorder.outcome_bind_eq_error.mp hunfold with hlog | ⟨_, _, hfinish⟩
      · cases hlog
      · rcases finish_eq_error hreaches.settled.sums hfinish with hrefused | ⟨_, qoi, -, hnone, -⟩
        · exact .response (hrefused.append _)
        · -- every QoI still has the samples of the pilot
          obtain ⟨hlt, hzero, -⟩ := List.findIdx?_eq_some_iff_getElem.mp hnone
          have htwo := hreaches.two_le_counts.2 _ (List.getElem_mem hlt)
          have hzero := of_decide_eq_true hzero
          omega

theorem Searches.fails_offline (hplan : plan.Searches) (hmode : plan.settings.pilotMode = .offline)
    (h : (plan.offline state).outcome = .error failure) :
    plan.Fails state (transcript (plan.offline state).journal) failure := by
  have hunfold := h
  unfold offline at hunfold
  rcases Recorder.outcome_bind_eq_error.mp hunfold with hpilot | ⟨pilot, hpilot, hunfold⟩
  · unfold offline
    rw [transcript_bind_of_error hpilot]
    exact fails_of_pilot hpilot
  · obtain ⟨budget, htarget⟩ := hplan.charged hmode
    obtain ⟨planned, hplanned⟩ := hplan.exists_planned hpilot none
      fun tolerance htolerance => nomatch htarget.symm.trans htolerance
    rcases Recorder.outcome_bind_eq_error.mp hunfold with hfail | ⟨planned', hplanned', hunfold⟩
    · rw [hplanned] at hfail
      cases hfail
    · rw [hplanned] at hplanned'
      cases hplanned'
      rcases Recorder.outcome_bind_eq_error.mp hunfold with hnotify | ⟨_, hnotify, hunfold⟩
      · cases hnotify
      · rcases Recorder.outcome_bind_eq_error.mp hunfold with hdrawn | ⟨drawn, hdrawn, hunfold⟩
        · have hcheck := sharedIncrement_eq_error_iff.mp hdrawn
          unfold offline
          rw [transcript_bind_of_ok hpilot]
          dsimp only
          rw [transcript_bind_of_ok hplanned, transcript_bind_of_ok (outcome_notify _ _),
            transcript_bind_of_error hdrawn, sharedIncrement_journal]
          exact .response ((((RefusesLast.of_check hcheck).append _).append _).append _)
        · rw [transcript_offline hpilot hplanned hdrawn]
          have hsized := (JointSums.sized_empty plan.ensemble.dims).accumulate
            (sharedIncrement_eq_ok_iff.mp hdrawn).1
          rcases Recorder.outcome_bind_eq_error.mp hunfold with hnotify | ⟨_, _, hfinish⟩
          · cases hnotify
          · rcases finish_eq_error hsized hfinish with hrefused | ⟨final, qoi, hrefines, hnone, rfl⟩
            · exact .response (hrefused.append _)
            · exact .moments hmode hpilot hplanned hdrawn hrefines rfl hnone

theorem Searches.fails_projection (hplan : plan.Searches)
    (h : (plan.projection state).outcome = .error failure) :
    plan.Fails state (transcript (plan.projection state).journal) failure := by
  have hunfold := h
  unfold projection at hunfold
  rcases Recorder.outcome_bind_eq_error.mp hunfold with hpilot | ⟨pilot, hpilot, hunfold⟩
  · unfold projection
    rw [transcript_bind_of_error hpilot]
    exact fails_of_pilot hpilot
  · obtain ⟨planned, hplanned⟩ := hplan.exists_planned hpilot _ fun _ _ => ⟨_, rfl⟩
    rcases Recorder.outcome_bind_eq_error.mp hunfold with hfail | ⟨_, _, hunfold⟩
    · rw [hplanned] at hfail
      cases hfail
    · cases hunfold

theorem Searches.fails_execute (hplan : plan.Searches)
    (h : (plan.execute state).outcome = .error failure) :
    plan.Fails state (transcript (plan.execute state).journal) failure := by
  unfold execute at h ⊢
  cases hmode : plan.settings.pilotMode with
  | online =>
    rw [hmode] at h
    exact hplan.fails_online h
  | offline =>
    rw [hmode] at h
    exact hplan.fails_offline hmode h
  | projection =>
    rw [hmode] at h
    exact hplan.fails_projection h

end Runs

end Plan

/-- The failures of a run with the usual compass search, provided that squared correlations are cut
off at a floor that is not negative, and at a positive distance from one. Settings, an ensemble or
costs that are rejected end it before anything else happens. Otherwise it fails for the first
response of the wrong length in the last batch, for too few joint samples in its pilot, or, after
all refinements of an offline run, for a QoI without a joint sample. The search does not fail, and
no variance of the pilot is missing. A run whose pilot is charged and has two joint samples of every
QoI does not lack samples, whatever later batches are. -/
theorem sample_failures {σ : Type} (ensemble : Ensemble σ ExactReal)
    {settings : Settings ExactReal} (hfloor : 0 ≤ settings.tolerances.floor)
    (hpositive : 0 < settings.tolerances.ceiling) (hceiling : settings.tolerances.ceiling ≤ 1)
    (state : σ) :
    let run := sample ensemble settings state
    (∀ failure, Plan.Rejects ensemble settings failure →
        run.outcome = .error failure ∧ run.journal = []) ∧
      ∀ failure, run.outcome = .error failure →
        (∀ fault, failure ≠ .optimizer fault) ∧
        failure ≠ .invalidSettings .missingPilotVariance ∧
        (Plan.Rejects ensemble settings failure ∨
          ∃ plan, Plan.Checked ensemble settings CompassSearch.default.optimize plan ∧
            plan.Fails state (transcript run.journal) failure) ∧
        (settings.pilotMode ≠ .offline → ∀ call batch rest,
          increments run.journal = (call, batch) :: rest →
            (∀ count ∈ ensemble.dims.jointCounts batch, 2 ≤ count) →
              ∀ qoi count, failure ≠ .insufficientSamples qoi count) := by
  intro run
  refine ⟨fun failure hrejects => ?_, fun failure hfailure => ?_⟩
  · have hrun : run = .fail failure := Plan.sampleWith_of_rejects hrejects _ state
    rw [hrun]
    exact ⟨rfl, rfl⟩
  · cases hcheck : Plan.check ensemble settings CompassSearch.default.optimize with
    | error other =>
      have hrejects := Plan.check_eq_error_iff.mp hcheck
      have hrun : run = .fail other := Plan.sampleWith_of_rejects hrejects _ state
      rw [hrun] at hfailure
      cases hfailure
      obtain ⟨hoptimizer, hvariance, hsamples⟩ := hrejects.ne
      exact ⟨hoptimizer, hvariance, Or.inl hrejects, fun _ _ _ _ _ _ => hsamples⟩
    | ok plan =>
      have hchecked := Plan.check_eq_ok_iff.mp hcheck
      have hplan := hchecked.searches CompassSearch.bounded_default ⟨hfloor, hpositive, hceiling⟩
      have hrun : run = plan.execute state := Plan.sampleWith_of_checked hchecked state
      rw [hrun] at hfailure ⊢
      have hfails := hplan.fails_execute hfailure
      obtain ⟨hoptimizer, hvariance⟩ := hfails.ne
      refine ⟨hoptimizer, hvariance, Or.inr ⟨plan, hchecked, hfails⟩, ?_⟩
      intro hmode call batch rest hpilot htwo
      rw [← hchecked.settings_eq] at hmode
      rw [← hchecked.ensemble_eq] at htwo
      exact hfails.ne_insufficientSamples hmode hpilot htwo

/-- A single sample is too few for correlations. -/
theorem exists_sums_single_spike : ∃ sums : JointSums ExactReal 4,
    (JointSums.empty spikeEnsemble.dims).accumulate [spikeRow 0] = .ok sums ∧
      sums.correlations = .error (.insufficientSamples 0 1) := by
  have hlength : ∀ response ∈ [spikeRow 0],
      response.length = spikeEnsemble.dims.responseLength := by
    intro response hresponse
    rw [List.mem_singleton.mp hresponse]
    rfl
  obtain ⟨sums, hsums⟩ : ∃ sums : JointSums ExactReal 4,
      sums = [spikeRow 0].foldl JointSums.addResponse (.empty spikeEnsemble.dims) := ⟨_, rfl⟩
  have hcounts : sums.counts = [1] := by
    have hjoint := congrArg List.length (joint_spikeRow 0 zero_lt_one)
    have hcount := Dimensions.length_filterMap_joint? spikeEnsemble.dims [spikeRow 0] 0
    rw [hsums, JointSums.counts_foldl_addResponse]
    exact congrArg (fun count => [count]) (hcount.symm.trans hjoint)
  refine ⟨sums, hsums ▸ JointSums.accumulate_of_lengths _ hlength,
    JointSums.correlations_eq_error_iff.mpr ⟨0, ?_, ?_⟩⟩
  · rw [hcounts]
    rfl
  · rw [hcounts]
    rfl

theorem outcome_of_single_spike :
    (sample spikeEnsemble (.withBudget 1 (ExactReal.real 1)) ()).outcome =
      .error (.insufficientSamples 0 1) := by
  have htarget : (Settings.withBudget 1 (ExactReal.real 1)).target =
      .ok (.budget (ExactReal.real 1)) :=
    Settings.target_eq_budget rfl rfl one_ne_zero (by simp [Scalar.isPositiveFinite])
  have hcosts : (⟨spikeEnsemble.costs⟩ : Costs ExactReal).Usable spikeEnsemble.dims.numApprox :=
    ⟨rfl, by simp [spikeEnsemble, Scalar.isPositiveFinite]⟩
  have hchecked := Plan.checked_of_usable htarget two_pos one_pos hcosts
    CompassSearch.default.optimize
  obtain ⟨sums, hsums, hcorrelations⟩ := exists_sums_single_spike
  rw [sample, Plan.sampleWith_of_checked hchecked]
  -- the first round ends with the correlations
  refine Recorder.outcome_bind_eq_error.mpr (Or.inl (Recorder.outcome_bind_eq_error.mpr (Or.inr
    ⟨⟨sums, _⟩, Plan.sharedIncrement_eq_ok_iff.mpr ⟨hsums, rfl⟩, ?_⟩)))
  exact Recorder.outcome_bind_eq_error.mpr (Or.inl hcorrelations)

/-- A run with the usual thresholds and a pilot of a single sample fails right after the pilot. -/
theorem sample_failures_of_spike :
    (sample spikeEnsemble (.withBudget 1 (ExactReal.real 1)) ()).outcome =
        .error (.insufficientSamples 0 1) ∧
      ∃ plan : Plan Unit ExactReal,
        Plan.Checked spikeEnsemble (.withBudget 1 (ExactReal.real 1))
          CompassSearch.default.optimize plan ∧
        plan.Fails ()
          (transcript (sample spikeEnsemble (.withBudget 1 (ExactReal.real 1)) ()).journal)
          (.insufficientSamples 0 1) := by
  have hproper : (Settings.withBudget 1 (ExactReal.real 1)).tolerances.Proper :=
    Tolerances.proper_default
  obtain ⟨-, hfailures⟩ := sample_failures spikeEnsemble hproper.floor hproper.ceiling_pos
    hproper.ceiling_le ()
  obtain ⟨-, -, hreason, -⟩ := hfailures _ outcome_of_single_spike
  refine ⟨outcome_of_single_spike, hreason.resolve_left fun hrejects => ?_⟩
  exact hrejects.ne.2.2 0 1 rfl

end Multifidelity
