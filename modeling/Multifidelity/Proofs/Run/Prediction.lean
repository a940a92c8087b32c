import Multifidelity.Proofs.Run.Completion
import Multifidelity.Proofs.Run.UsableValues
import Multifidelity.Proofs.Sums.FirstOrder

/-!
# What a projection predicts

A projection and a run with an online pilot start with the same pilot. Although the projection keeps
its sums of first order only, both come to the same allocation or fail alike. Hence the report of
the projection shows what the online run tells the listener first.

## Main definitions

* `Report.Matches`: a report and a checkpoint that agree in what follows from the samples
* `Report.InRange`: a report whose counts are in range
* `Report.Predicts`: a report that agrees with a checkpoint, also in what is to follow
* `Plan.Variants`: plans for the same run in different ways
* `Recorder.Foretells`: a projection that predicts how an online run begins

## Main results

* `Plan.Variants.alike`: a projection ends like the first step of an online run
* `Plan.online_of_step_error`, `Plan.online_of_step_ok`: an online run after its first step
* `sampleWith_foretells`: the projection of a run foretells the online run
-/

namespace Multifidelity

/-- The report and the checkpoint agree in what follows from the samples that were drawn. -/
structure Report.Matches {α : Type} (report : Report α) (checkpoint : Checkpoint α) : Prop where
  counts : report.sharedCounts = checkpoint.highCounts
  spent : report.spent = checkpoint.spent
  varHigh : report.varHigh = checkpoint.varHigh
  rhoSq : report.rhoSq = checkpoint.rhoSq
  solution : report.solution = checkpoint.solution
  highTargets : report.highTargets = checkpoint.highTargets

/-- The counts of the report are in the range of counts. -/
structure Report.InRange {α : Type} (report : Report α) : Prop where
  highCounts : ∀ count ∈ report.highCounts, count ≤ maxCount
  lowCounts : ∀ counts ∈ report.lowCounts, ∀ count ∈ counts, count ≤ maxCount

/-- The report agrees with the checkpoint, and as long as its counts are in range it projects the
next samples of the checkpoint. -/
structure Report.Predicts {α : Type} (report : Report α) (checkpoint : Checkpoint α) : Prop
    extends report.Matches checkpoint where
  highCounts : report.InRange →
    report.highCounts = report.sharedCounts.map (· + checkpoint.nextSamples) ∧
      ∀ count ∈ report.sharedCounts, count + checkpoint.nextSamples ≤ maxCount

/-- A report predicts a checkpoint if its counts are the sums that they should be. Sums that are in
range do not wrap. -/
theorem Report.Matches.predicts {α : Type} {report : Report α} {checkpoint : Checkpoint α}
    (h : report.Matches checkpoint)
    (hhigh : report.highCounts = report.sharedCounts.map (· + checkpoint.nextSamples)) :
    report.Predicts checkpoint where
  toMatches := h
  highCounts hrange := by
    refine ⟨hhigh, fun count hcount => hrange.highCounts _ ?_⟩
    rw [hhigh]
    exact List.mem_map_of_mem hcount

variable {σ τ α : Type} [Scalar α]

namespace Plan

/-- Plans for the same run in different ways, of ensembles that give the same answers. -/
structure Variants (first : Plan σ α) (s : σ) (second : Plan τ α) (t : τ) : Prop where
  ensemble : first.ensemble.AnswersLike (fun _ => Eq) s second.ensemble t
  settings : { first.settings with pilotMode := second.settings.pilotMode } = second.settings
  optimizer : first.optimizer = second.optimizer
  target : first.target = second.target
  costs : first.costs = second.costs

/-! ## The first step -/

namespace Variants

variable {first : Plan σ α} {s : σ} {second : Plan τ α} {t : τ}
  (h : first.Variants s second t)
include h

omit [Scalar α] in
theorem numApprox_eq : first.numApprox = second.numApprox :=
  congrArg Dimensions.numApprox h.ensemble.dims

omit [Scalar α] in
theorem pilotSamples_eq : first.settings.pilotSamples = second.settings.pilotSamples := by
  rw [← h.settings]

/-- The first increment has the same effect on the sums of first order. -/
theorem sharedIncrement {m : ℕ} (iteration samples : ℕ) (charged : Bool)
    (sums : JointSums α (m + 1)) (spent : α) :
    Alike (fun drawn drawn' => drawn.sums = drawn'.sums.first ∧
        drawn.bench.spent = drawn'.bench.spent)
      (first.sharedIncrement iteration samples charged sums.first ⟨s, spent⟩).outcome
      (second.sharedIncrement iteration samples charged sums ⟨t, spent⟩).outcome := by
  have hanswer := h.ensemble.answer (.shared iteration samples)
  unfold Plan.sharedIncrement
  refine Recorder.alike_bind (R := Eq) (.ok rfl) fun _ _ _ => ?_
  -- both draw the same batch
  rw [Recorder.bind_of_ok (outcome_draw _ _), Recorder.bind_of_ok (outcome_draw _ _)]
  dsimp only [answer]
  rw [← hanswer]
  refine Recorder.alike_bind (sums.accumulate_first _) ?_
  rintro _ result rfl
  refine .ok ⟨rfl, ?_⟩
  cases charged with
  | false => rfl
  | true =>
    dsimp only [charge]
    rw [h.costs, h.numApprox_eq, if_pos rfl, if_pos rfl]

/-- The ways of a run do not differ in the allocation. -/
theorem allocate_eq (correlations : Correlations α) (highCounts : List ℕ) (spent : α)
    (pilotVariance : Option (List α)) (previous : Option (Allocation α)) :
    first.allocate correlations highCounts spent pilotVariance previous =
      second.allocate correlations highCounts spent pilotVariance previous := by
  unfold allocate
  rw [h.costs, h.target, h.optimizer, ← h.settings]

/-- A projection fails like the first step of an online run, or it predicts its checkpoint. -/
theorem alike :
    Alike (fun report progress => report.pilotVariance = some progress.pilot.variance ∧
        report.pilotCounts = some progress.pilot.counts ∧
        ∃ checkpoint, progress.checkpoints = [checkpoint] ∧ report.Predicts checkpoint)
      (first.projection s).outcome
      (second.step none 0 second.settings.pilotSamples ⟨t, 0⟩
        (.empty second.ensemble.dims)).outcome := by
  -- both are the same sequence up to the allocation, and only then differ in what they make of it
  unfold projection Plan.pilot step
  rw [h.pilotSamples_eq, h.ensemble.dims, ← JointSums.first_empty (m := 3), bind_assoc]
  refine Recorder.alike_bind (h.sharedIncrement _ _ _ _ _) ?_
  rintro ⟨_, bench⟩ ⟨sums, bench'⟩ ⟨rfl, hspent⟩
  dsimp only at hspent ⊢
  rw [bind_assoc, JointSums.correlations_first, JointSums.counts_first]
  refine Recorder.alike_bind (.refl _) ?_
  rintro correlations _ rfl
  rw [pure_bind, hspent, h.allocate_eq]
  refine Recorder.alike_bind (.refl _) ?_
  rintro planned _ rfl
  exact .ok ⟨rfl, rfl, _, rfl, Report.Matches.predicts ⟨rfl, rfl, rfl, rfl, rfl, rfl⟩ rfl⟩

end Variants

/-! ## What is told -/

variable {plan : Plan σ α} {state : σ} {report : Report α}

/-- The only checkpoint of a projection agrees with its report. -/
theorem exists_notifications_projection (h : (plan.projection state).outcome = .ok report) :
    ∃ own, notifications (plan.projection state).journal = [[own]] ∧ report.Matches own := by
  obtain ⟨pilot, planned, -, -, rfl, htranscript⟩ := transcript_projection h
  have hnotified := notifications_transcript (plan.projection state).journal
  rw [htranscript] at hnotified
  exact ⟨_, hnotified.symm, rfl, rfl, rfl, rfl, rfl, rfl⟩

/-- An online run whose first step fails tells nothing. -/
theorem online_of_step_error {failure : Failure α}
    (h : (plan.step none 0 plan.settings.pilotSamples ⟨state, 0⟩
      (.empty plan.ensemble.dims)).outcome = .error failure) :
    (plan.online state).outcome = .error failure ∧
      notifications (plan.online state).journal = [] := by
  obtain ⟨internal, hinternal, hjournal⟩ := step_journal plan none 0 plan.settings.pilotSamples
    ⟨state, 0⟩ (.empty plan.ensemble.dims)
  unfold online
  rw [Recorder.bind_of_error h]
  refine ⟨rfl, ?_⟩
  rw [hjournal, h, ← notifications_transcript]
  simp [transcript_of_internal hinternal]

/-- The later steps keep the pilot of the first one. -/
theorem iterate_pilot {limit : ℕ} {progress last : Progress σ α}
    (h : (plan.iterate limit progress).outcome = .ok last) : last.pilot = progress.pilot := by
  induction limit generalizing progress with
  | zero =>
    cases h
    rfl
  | succ limit ih =>
    unfold iterate at h
    split at h
    · cases h
      rfl
    · obtain ⟨next, hnext, h⟩ := Recorder.outcome_bind_eq_ok.mp h
      rw [ih h, (step_eq_ok_iff.mp hnext).pilot]
      rfl

/-- An online run tells the checkpoint of its first step first, and it reports about its pilot. -/
theorem online_of_step_ok {progress : Progress σ α}
    (h : (plan.step none 0 plan.settings.pilotSamples ⟨state, 0⟩
      (.empty plan.ensemble.dims)).outcome = .ok progress) :
    (∃ later, notifications (plan.online state).journal = progress.checkpoints :: later) ∧
      ∀ final, (plan.online state).outcome = .ok final →
        final.pilotVariance = some progress.pilot.variance ∧
          final.pilotCounts = some progress.pilot.counts := by
  unfold online
  constructor
  · rw [Recorder.bind_of_ok h, notifications_append, ← notifications_transcript,
      transcript_step h]
    exact ⟨_, rfl⟩
  · intro final hfinal
    rw [Recorder.bind_of_ok h] at hfinal
    obtain ⟨last, hlast, hfinal⟩ := Recorder.outcome_bind_eq_ok.mp hfinal
    obtain ⟨-, -, hfinal⟩ := Recorder.outcome_bind_eq_ok.mp hfinal
    obtain ⟨_, _, -, -, rfl⟩ := exists_refines_of_finish hfinal
    rw [← iterate_pilot hlast]
    exact ⟨rfl, rfl⟩

end Plan

/-! ## Runs -/

/-- The projection of a run foretells the online run. If the projection fails, so does the online
run, before it tells anything. Otherwise the only checkpoint of the projection and the first one of
the online run are as reported, and so is what the online run reports about its pilot. -/
structure Recorder.Foretells (projection online : Recorded α (Report α)) : Prop where
  failure : ∀ failure, projection.outcome = .error failure →
    online.outcome = .error failure ∧ notifications online.journal = []
  report : ∀ report, projection.outcome = .ok report →
    ∃ own checkpoint later,
      notifications projection.journal = [[own]] ∧ report.Matches own ∧
      notifications online.journal = [checkpoint] :: later ∧ report.Predicts checkpoint ∧
      ∀ final, online.outcome = .ok final →
        final.pilotVariance = report.pilotVariance ∧ final.pilotCounts = report.pilotCounts

theorem Plan.Variants.foretells {first : Plan σ α} {s : σ} {second : Plan τ α} {t : τ}
    (h : first.Variants s second t) : (first.projection s).Foretells (second.online t) := by
  constructor
  · intro failure hfailure
    exact online_of_step_error (h.alike.eq_error hfailure)
  · intro report hreport
    obtain ⟨progress, hstep, hvariance, hcounts, checkpoint, htold, hpredicts⟩ :=
      h.alike.exists_ok hreport
    obtain ⟨own, hown, hmatches⟩ := exists_notifications_projection hreport
    obtain ⟨⟨later, hlater⟩, hfinal⟩ := online_of_step_ok hstep
    rw [htold] at hlater
    rw [hvariance, hcounts]
    exact ⟨own, checkpoint, later, hown, hmatches, hlater, hpredicts, hfinal⟩

variable {first : Ensemble σ α} {s : σ} {second : Ensemble τ α} {t : τ}

/-- The projection of a run foretells the online run, as the sums of first order are the same,
whether they are kept alone or with those of higher order. -/
theorem sampleWith_foretells (optimizer : Optimizer α) (settings : Settings α)
    (h : first.AnswersLike (fun _ => Eq) s second t) :
    (∀ batch : Batch α,
      Alike (fun x y => x = y.first ∧ x.counts = y.counts ∧ x.correlations = y.correlations)
        ((.empty first.dims : JointSums α 1).accumulate batch)
        ((.empty first.dims : JointSums α 4).accumulate batch)) ∧
    (sampleWith optimizer first { settings with pilotMode := .projection } s).Foretells
      (sampleWith optimizer second { settings with pilotMode := .online } t) := by
  constructor
  · intro batch
    rw [← JointSums.first_empty (m := 3)]
    refine (JointSums.accumulate_first _ batch).mono ?_
    rintro _ sums rfl
    exact ⟨rfl, sums.counts_first, sums.correlations_first⟩
  · -- the mode does not count when a run is checked
    have hchecked := Plan.alike_check optimizer { settings with pilotMode := .projection }
      { settings with pilotMode := .online } rfl h.dims h.alike_costs
    unfold sampleWith
    generalize Plan.check first _ optimizer = x, Plan.check second _ optimizer = y at hchecked
    cases hchecked with
    | error failure =>
      rw [Recorder.bind_of_error rfl, Recorder.bind_of_error rfl]
      exact ⟨fun failure' hfailure => ⟨hfailure, rfl⟩, nofun⟩
    | ok hplans =>
      obtain ⟨target, costs, _, rfl, rfl, rfl⟩ := hplans
      rw [Recorder.bind_of_ok rfl, Recorder.bind_of_ok rfl]
      exact Plan.Variants.foretells ⟨h, rfl, rfl, rfl, rfl⟩

/-! ## An ensemble that counts -/

/-- An ensemble that counts its calls. -/
noncomputable def countingEnsemble : Ensemble ℕ ExactReal where
  dims := quartetEnsemble.dims
  costs := quartetEnsemble.costs
  respond call calls := ((quartetEnsemble.respond call ()).1, calls + 1)

/-- Counting does not change the answers. -/
theorem answersLike_countingEnsemble (calls : ℕ) :
    quartetEnsemble.AnswersLike (fun _ => Eq) () countingEnsemble calls where
  dims := rfl
  costs := rfl
  answers _ _ := rfl

theorem Report.inRange_quartet {α : Type} {report : Report α} (hhigh : report.highCounts = [8])
    (hlow : report.lowCounts = [[32], [16]]) : report.InRange := by
  constructor
  · rw [hhigh]
    decide
  · rw [hlow]
    decide

/-- The projection of a run that draws four samples of its pilot and four samples more. -/
theorem sampleWith_foretells_of_quartet :
    quartetEnsemble.AnswersLike (fun _ => Eq) () countingEnsemble 0 ∧
    ∃ report own checkpoint later,
      let projection := sampleWith unitOptimizer quartetEnsemble (quartetSettings .projection) ()
      let online := sampleWith unitOptimizer countingEnsemble (quartetSettings .online) 0
      projection.outcome = .ok report ∧ report.InRange ∧
        notifications projection.journal = [[own]] ∧ report.Matches own ∧
        notifications online.journal = [checkpoint] :: later ∧ report.Predicts checkpoint ∧
        report.sharedCounts = [4] ∧ report.highCounts = [8] ∧ checkpoint.nextSamples = 4 := by
  have hanswers := answersLike_countingEnsemble 0
  obtain ⟨-, hforetells⟩ :=
    sampleWith_foretells unitOptimizer (quartetSettings .online) hanswers
  obtain ⟨report, hreport, hshared, hhigh, hlow⟩ := exists_projection_quartet unitOptimizer
  have hrange := Report.inRange_quartet hhigh hlow
  obtain ⟨own, checkpoint, later, hown, hmatches, hlater, hpredicts, -⟩ :=
    hforetells.report report hreport
  obtain ⟨hnext, -⟩ := hpredicts.highCounts hrange
  rw [hshared, hhigh] at hnext
  obtain hfour : 8 = 4 + checkpoint.nextSamples := List.singleton_inj.mp hnext
  exact ⟨hanswers, report, own, checkpoint, later, hreport, hrange, hown, hmatches, hlater,
    hpredicts, hshared, hhigh, by omega⟩

end Multifidelity
