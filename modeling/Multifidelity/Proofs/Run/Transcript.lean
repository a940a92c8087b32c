import Multifidelity.Proofs.Run.Modes
import Multifidelity.Proofs.Run.Refinement
import Multifidelity.Proofs.Transcript

/-!
# What a run shows

The transcript of a run that ends with a report. An online run repeats rounds of a shared increment
and a notification; an offline run has two of them, and a projection one. Then come the refinements
of the low-fidelity models.

## Main definitions

* `Plan.Reaches`: the states between the rounds of an online run, with the transcript so far
* `Plan.Refines`: the refinements on nested ranges, with their transcript
* `Plan.reportOf`: the report about a run

## Main results

* `Plan.transcript_online`, `Plan.exists_reaches_of_online`: the transcript of an online run
* `Plan.transcript_offline`, `Plan.exists_refines_of_offline`, `Plan.transcript_projection`: the
  transcripts of other runs
* `Plan.transcript_finish`, `Plan.exists_refines_of_finish`: what follows the last shared increment
-/

namespace Multifidelity

namespace Plan

variable {σ α : Type} [Scalar α]

/-! ## Rounds -/

/-- What a round shows: a shared increment and a notification. -/
def round (plan : Plan σ α) (iteration samples : ℕ) (bench : Bench σ α)
    (checkpoints : List (Checkpoint α)) : List (Event α) :=
  [.increment (.shared iteration samples) (plan.answer (.shared iteration samples) bench).1,
    .notified checkpoints]

/-- The states that the rounds of an online run lead to, each with what has been shown so far. -/
inductive Reaches (plan : Plan σ α) (state : σ) : List (Event α) → Progress σ α → Prop
  | pilot {first : Progress σ α}
      (h : plan.Steps none 0 plan.settings.pilotSamples ⟨state, 0⟩ (.empty plan.ensemble.dims)
        first) :
      Reaches plan state (plan.round 0 plan.settings.pilotSamples ⟨state, 0⟩ first.checkpoints)
        first
  | round {past : List (Event α)} {progress next : Progress σ α}
      (hpast : Reaches plan state past progress) (hpending : progress.pending ≠ 0)
      (hlimit : progress.iterations ≤ plan.settings.maxIterations)
      (h : plan.Steps (some progress) progress.iterations progress.pending progress.bench
        progress.sums next) :
      Reaches plan state
        (past ++ plan.round progress.iterations progress.pending progress.bench next.checkpoints)
        next

variable {plan : Plan σ α} {iteration samples : ℕ} {bench : Bench σ α}
  {before : Option (Progress σ α)} {sums : JointSums α 4} {state : σ}

theorem transcript_step {next : Progress σ α}
    (h : (plan.step before iteration samples bench sums).outcome = .ok next) :
    transcript (plan.step before iteration samples bench sums).journal =
      plan.round iteration samples bench next.checkpoints := by
  obtain ⟨internal, hinternal, hjournal⟩ :=
    step_journal plan before iteration samples bench sums
  rw [hjournal, h]
  simp [transcript_of_internal hinternal, round]

/-- Steps within the limit lead to a state that needs no more samples, or that is at the limit. -/
theorem Reaches.iterate {limit : ℕ} {past : List (Event α)} {progress last : Progress σ α}
    (h : plan.Reaches state past progress)
    (hlimit : progress.iterations + limit = plan.settings.maxIterations + 1)
    (hlast : (plan.iterate limit progress).outcome = .ok last) :
    plan.Reaches state (past ++ transcript (plan.iterate limit progress).journal) last ∧
      (last.pending = 0 ∨ last.iterations = plan.settings.maxIterations + 1) := by
  induction limit generalizing past progress with
  | zero =>
    cases hlast
    exact ⟨by simpa [Plan.iterate] using h, Or.inr hlimit⟩
  | succ limit ih =>
    unfold Plan.iterate at hlast ⊢
    split at hlast
    · rename_i hpending
      cases hlast
      rw [if_pos hpending]
      exact ⟨by simpa using h, Or.inl hpending⟩
    · rename_i hpending
      rw [if_neg hpending]
      obtain ⟨next, hnext, hlast⟩ := Recorder.outcome_bind_eq_ok.mp hlast
      have hsteps := step_eq_ok_iff.mp hnext
      have hreaches := h.round hpending (by omega) hsteps
      have hiterations : next.iterations + limit = plan.settings.maxIterations + 1 := by
        rw [hsteps.iterations]
        omega
      obtain ⟨hfinal, hstop⟩ := ih hreaches hiterations hlast
      refine ⟨?_, hstop⟩
      rw [Recorder.bind_of_ok hnext, transcript_append, transcript_step hnext, ← List.append_assoc]
      exact hfinal

/-- The listener has been told all checkpoints. -/
theorem Reaches.told_eq {past : List (Event α)} {progress : Progress σ α}
    (h : plan.Reaches state past progress) : told past = progress.checkpoints := by
  cases h with
  | pilot h => rfl
  | round hpast hpending hlimit h =>
    rw [Plan.round, List.append_cons, told_append_notified]

/-! ## Refinements -/

end Plan

/-- The number of samples that the model at a position lacks to its targets. -/
def Refinement.missing {σ α : Type} [Scalar α] (allocation : Allocation α) (position : ℕ)
    (refinement : Refinement σ α) : ℕ :=
  let model := allocation.evalRatios.solution.order.model position
  increment (refinement.pyramid.refinedCounts model) (allocation.lowTargets model) 1

/-- The call for samples on the models at the positions before `stop`. -/
def Allocation.call {α : Type} (allocation : Allocation α) (iteration stop samples : ℕ) : Call :=
  .approx iteration (allocation.evalRatios.solution.order.along stop) samples

namespace Plan

variable {σ α : Type} [Scalar α]

/-- The refinements on the nested ranges of the positions before `stop`, with what they show. No
samples are drawn on a range whose last model lacks none. -/
inductive Refines (plan : Plan σ α) (iteration : ℕ) (allocation : Allocation α) :
    ℕ → Refinement σ α → List (Event α) → Refinement σ α → Prop
  | done {refinement : Refinement σ α} :
      Refines plan iteration allocation 0 refinement [] refinement
  | skip {stop : ℕ} {refinement last : Refinement σ α} {events : List (Event α)}
      (hnone : refinement.missing allocation stop = 0)
      (hrest : Refines plan iteration allocation stop refinement events last) :
      Refines plan iteration allocation (stop + 1) refinement events last
  | draw {stop : ℕ} {refinement next last : Refinement σ α} {call : Call} {batch : Batch α}
      {events : List (Event α)}
      (hsome : refinement.missing allocation stop ≠ 0)
      (hcall : call = allocation.call iteration (stop + 1) (refinement.missing allocation stop))
      (hbatch : batch = (plan.answer call refinement.bench).1)
      (hpyramid : refinement.pyramid.refine allocation.evalRatios.solution.order 0 (stop + 1)
        batch = .ok next.pyramid)
      (hbench : next.bench = plan.charge (allocation.evalRatios.solution.order.along (stop + 1))
        batch.length ⟨(plan.answer call refinement.bench).2, refinement.bench.spent⟩)
      (hrest : Refines plan iteration allocation stop next events last) :
      Refines plan iteration allocation (stop + 1) refinement (.increment call batch :: events)
        last

variable {plan : Plan σ α} {iteration : ℕ} {allocation : Allocation α}

theorem transcript_approxIncrement {stop : ℕ} (refinement : Refinement σ α) :
    transcript (plan.approxIncrement iteration allocation (stop + 1) refinement).journal =
      let samples := refinement.missing allocation stop
      let call := allocation.call iteration (stop + 1) samples
      if samples = 0 then []
      else [.increment call (plan.answer call refinement.bench).1] := by
  unfold approxIncrement
  rw [Recorder.bind_of_ok (outcome_log _)]
  dsimp only
  split
  · rename_i hnone
    change refinement.missing allocation stop = 0 at hnone
    rw [if_pos hnone]
    simp
  · rename_i hsome
    change refinement.missing allocation stop ≠ 0 at hsome
    rw [if_neg hsome, Recorder.bind_of_ok (outcome_draw _ _), journal_draw]
    dsimp only
    rw [Recorder.journal_bind, Recorder.journal_ofExcept]
    split <;> rfl

/-- Refinements on all ranges below a position, in terms of what they show. -/
theorem refines_of_refineBelow {stop : ℕ} {refinement last : Refinement σ α}
    (h : (plan.refineBelow iteration allocation stop refinement).outcome = .ok last) :
    plan.Refines iteration allocation stop refinement
      (transcript (plan.refineBelow iteration allocation stop refinement).journal) last := by
  induction stop generalizing refinement with
  | zero =>
    cases h
    exact .done
  | succ stop ih =>
    unfold refineBelow at h ⊢
    obtain ⟨next, hnext, h⟩ := Recorder.outcome_bind_eq_ok.mp h
    have hrest := ih h
    rw [Recorder.bind_of_ok hnext, transcript_append, transcript_approxIncrement]
    rcases approxIncrement_eq_ok hnext with ⟨hnone, rfl⟩ | ⟨hsome, hpyramid, hbench⟩
    · have hnone : next.missing allocation stop = 0 := hnone
      dsimp only
      rw [if_pos hnone]
      exact .skip hnone hrest
    · have hsome : refinement.missing allocation stop ≠ 0 := hsome
      dsimp only
      rw [if_neg hsome]
      exact .draw hsome rfl rfl hpyramid hbench hrest

/-- Refinements tell the listener nothing. -/
theorem Refines.notifications_eq_nil {stop : ℕ} {refinement last : Refinement σ α}
    {events : List (Event α)}
    (h : plan.Refines iteration allocation stop refinement events last) :
    notifications events = [] := by
  induction h with
  | done => rfl
  | skip _ _ ih => exact ih
  | draw _ _ _ _ _ _ ih => exact ih

/-- What holds at every increment holds throughout the refinements. -/
theorem Refines.throughout {stop : ℕ} {refinement last : Refinement σ α}
    {events past : List (Event α)} {P : List (Event α) → Event α → Prop}
    (h : plan.Refines iteration allocation stop refinement events last)
    (hP : ∀ past call batch, P past (.increment call batch)) : Throughout P past events := by
  induction h generalizing past with
  | done => trivial
  | skip _ _ ih => exact ih
  | draw _ _ _ _ _ _ ih => exact ⟨hP _ _ _, ih⟩

theorem Refines.sharedResponses_eq_nil {stop : ℕ} {refinement last : Refinement σ α}
    {events : List (Event α)}
    (h : plan.Refines iteration allocation stop refinement events last) :
    sharedResponses (increments events) = [] := by
  induction h with
  | done => rfl
  | skip _ _ ih => exact ih
  | draw _ hcall _ _ _ _ ih =>
    rw [increments_increment, hcall]
    exact ih

/-- Refinements keep the size of the pyramid. -/
theorem Refines.sized {stop : ℕ} {refinement last : Refinement σ α} {events : List (Event α)}
    (h : plan.Refines iteration allocation stop refinement events last) {dims : Dimensions}
    (hsized : refinement.pyramid.Sized dims) : last.pyramid.Sized dims := by
  induction h with
  | done => exact hsized
  | skip _ _ ih => exact ih hsized
  | draw _ _ _ hpyramid _ _ ih => exact ih (hsized.refine hpyramid)

/-! ## Reports -/

variable {iterations : ℕ} {sums : JointSums α 4} {bench : Bench σ α}
  {pilot : Option (Pilot α)} {warnings : List Warning} {report : Report α} {state : σ}

/-- The report about a run, from the state after all refinements and the moments. -/
def reportOf (plan : Plan σ α) (iterations : ℕ) (allocation : Allocation α)
    (sums : JointSums α 4) (pilot : Option (Pilot α)) (warnings : List Warning)
    (last : Refinement σ α) (moments : List (Vector α 4)) : Report α where
  pilotMode := plan.settings.pilotMode
  solution := allocation.evalRatios.solution
  iterations := iterations
  spent := last.bench.spent
  pilotVariance := pilot.map Pilot.variance
  pilotCounts := pilot.map Pilot.counts
  highCounts := sums.counts
  sharedCounts := sums.counts
  varHigh := allocation.correlations.varHigh
  rhoSq := allocation.evalRatios.rhoSq
  highTargets := allocation.evalRatios.highTargets
  varianceRatios := allocation.varianceRatios
  lowCounts := (List.range plan.numApprox).map last.pyramid.refinedCounts
  rawMoments := some moments
  warnings := warnings

/-- After the last shared increment only refinements are seen. -/
theorem transcript_finish (plan : Plan σ α) (iterations : ℕ) (allocation : Allocation α)
    (sums : JointSums α 4) (bench : Bench σ α) (pilot : Option (Pilot α))
    (warnings : List Warning) :
    transcript (plan.finish iterations allocation sums bench pilot warnings).journal =
      transcript (plan.refineBelow iterations allocation plan.numApprox
        ⟨bench, .ofJoint sums, 0⟩).journal := by
  unfold finish refine
  rw [transcript_bind_of_internal, transcript_bind_of_internal]
  · exact fun _ => .bind (only_log (fun _ => trivial) _) fun _ _ => .pure _
  · refine fun _ => .bind (only_rawMoments _ _) fun _ _ => ?_
    exact .bind (only_log (fun _ => trivial) _) fun _ _ => .pure _

/-- After the last shared increment the low-fidelity models are refined, and the report is about
the state after that. -/
theorem exists_refines_of_finish
    (h : (plan.finish iterations allocation sums bench pilot warnings).outcome = .ok report) :
    ∃ last moments,
      plan.Refines iterations allocation plan.numApprox ⟨bench, .ofJoint sums, 0⟩
        (transcript (plan.finish iterations allocation sums bench pilot warnings).journal) last ∧
      (rawMoments sums last.pyramid).outcome = .ok moments ∧
      report = plan.reportOf iterations allocation sums pilot warnings last moments := by
  rw [transcript_finish]
  unfold finish refine at h
  obtain ⟨last, hlast, h⟩ := Recorder.outcome_bind_eq_ok.mp h
  obtain ⟨refinement, hrefinement, hlast⟩ := Recorder.outcome_bind_eq_ok.mp hlast
  obtain ⟨moments, hmoments, h⟩ := Recorder.outcome_bind_eq_ok.mp h
  cases hlast
  cases h
  exact ⟨last, moments, refines_of_refineBelow hrefinement, hmoments, rfl⟩

/-! ## Runs -/

/-- An online run shows its rounds, and then its refinements. -/
theorem transcript_online {first last : Progress σ α}
    (hfirst : (plan.step none 0 plan.settings.pilotSamples ⟨state, 0⟩
      (.empty plan.ensemble.dims)).outcome = .ok first)
    (hlast : (plan.iterate plan.settings.maxIterations first).outcome = .ok last) :
    transcript (plan.online state).journal =
      plan.round 0 plan.settings.pilotSamples ⟨state, 0⟩ first.checkpoints ++
        transcript (plan.iterate plan.settings.maxIterations first).journal ++
        transcript (plan.finish last.iterations last.allocation last.sums last.bench
          (some last.pilot)
          (last.allocation.evalRatios.warnings ++ limitWarnings last)).journal := by
  unfold online
  rw [transcript_bind_of_ok hfirst, transcript_step hfirst, List.append_assoc]
  dsimp only
  -- the warning about the limit is only logged
  rw [transcript_bind_of_ok hlast, transcript_bind_of_ok (outcome_logAll _),
    transcript_of_internal (only_logAll (fun _ => trivial) _), List.nil_append]

/-- An online run ends between two rounds, when no more samples are needed or at the limit, and
refines the low-fidelity models then. -/
theorem exists_reaches_of_online (h : (plan.online state).outcome = .ok report) :
    ∃ past last,
      plan.Reaches state past last ∧
      (last.pending = 0 ∨ last.iterations = plan.settings.maxIterations + 1) ∧
      ∃ final moments events,
        plan.Refines last.iterations last.allocation plan.numApprox
          ⟨last.bench, .ofJoint last.sums, 0⟩ events final ∧
        (rawMoments last.sums final.pyramid).outcome = .ok moments ∧
        transcript (plan.online state).journal = past ++ events ∧
        report = plan.reportOf last.iterations last.allocation last.sums (some last.pilot)
          (last.allocation.evalRatios.warnings ++ limitWarnings last) final moments := by
  unfold online at h ⊢
  obtain ⟨first, hfirst, h⟩ := Recorder.outcome_bind_eq_ok.mp h
  obtain ⟨last, hlast, h⟩ := Recorder.outcome_bind_eq_ok.mp h
  obtain ⟨-, -, h⟩ := Recorder.outcome_bind_eq_ok.mp h
  obtain ⟨final, moments, hrefines, hmoments, hreport⟩ := exists_refines_of_finish h
  have hsteps := step_eq_ok_iff.mp hfirst
  have hstart : first.iterations + plan.settings.maxIterations =
      plan.settings.maxIterations + 1 := by
    rw [hsteps.iterations]
    omega
  obtain ⟨hreaches, hstop⟩ := (Reaches.pilot hsteps).iterate hstart hlast
  exact ⟨_, last, hreaches, hstop, final, moments, _, hrefines, hmoments,
    transcript_online hfirst hlast, hreport⟩

/-- An offline run shows two rounds, and then its refinements. -/
theorem transcript_offline {pilot : PilotSamples σ α} {planned : Allocation α}
    {drawn : SharedSamples σ α 4} (hpilot : (plan.pilot false state).outcome = .ok pilot)
    (hplanned : (plan.allocate pilot.correlations pilot.counts pilot.bench.spent none
      none).outcome = .ok planned)
    (hdrawn : (plan.sharedIncrement 1 (plan.offlineSamples planned) true
      (.empty plan.ensemble.dims : JointSums α 4) pilot.bench).outcome = .ok drawn) :
    let first := planned.checkpoint 0 plan.settings.pilotSamples pilot.counts pilot.bench.spent 0
    let second := (planned.realize drawn.sums.counts).checkpoint 1 (plan.offlineSamples planned)
      drawn.sums.counts drawn.bench.spent 0
    transcript (plan.offline state).journal =
      plan.round 0 plan.settings.pilotSamples ⟨state, 0⟩ [first] ++
        plan.round 1 (plan.offlineSamples planned) pilot.bench [first, second] ++
        transcript (plan.finish 2 (planned.realize drawn.sums.counts) drawn.sums drawn.bench none
          planned.evalRatios.warnings).journal := by
  intro first second
  unfold offline
  rw [transcript_bind_of_ok hpilot, pilot_journal]
  dsimp only
  rw [transcript_bind_of_ok hplanned, transcript_of_internal only_allocate]
  rw [transcript_bind_of_ok (outcome_notify _ _), journal_notify]
  rw [transcript_bind_of_ok hdrawn, sharedIncrement_journal]
  rw [transcript_bind_of_ok (outcome_notify _ _), journal_notify]
  rfl

/-- An offline run draws the samples that the plan of its pilot asks for. -/
theorem exists_refines_of_offline (h : (plan.offline state).outcome = .ok report) :
    ∃ pilot planned drawn,
      (plan.pilot false state).outcome = .ok pilot ∧
      (plan.allocate pilot.correlations pilot.counts pilot.bench.spent none none).outcome =
        .ok planned ∧
      (plan.sharedIncrement 1 (plan.offlineSamples planned) true
        (.empty plan.ensemble.dims : JointSums α 4) pilot.bench).outcome = .ok drawn ∧
      let first := planned.checkpoint 0 plan.settings.pilotSamples pilot.counts
        pilot.bench.spent 0
      let second := (planned.realize drawn.sums.counts).checkpoint 1
        (plan.offlineSamples planned) drawn.sums.counts drawn.bench.spent 0
      ∃ final moments events,
        plan.Refines 2 (planned.realize drawn.sums.counts) plan.numApprox
          ⟨drawn.bench, .ofJoint drawn.sums, 0⟩ events final ∧
        (rawMoments drawn.sums final.pyramid).outcome = .ok moments ∧
        transcript (plan.offline state).journal =
          plan.round 0 plan.settings.pilotSamples ⟨state, 0⟩ [first] ++
            plan.round 1 (plan.offlineSamples planned) pilot.bench [first, second] ++ events ∧
        report = plan.reportOf 2 (planned.realize drawn.sums.counts) drawn.sums none
          planned.evalRatios.warnings final moments := by
  obtain ⟨pilot, planned, drawn, hpilot, hplanned, hdrawn, hfinish⟩ := offline_eq_ok_iff.mp h
  obtain ⟨final, moments, hrefines, hmoments, hreport⟩ := exists_refines_of_finish hfinish
  exact ⟨pilot, planned, drawn, hpilot, hplanned, hdrawn, final, moments, _, hrefines, hmoments,
    transcript_offline hpilot hplanned hdrawn, hreport⟩

/-- A projection ends after its pilot. -/
theorem transcript_projection (h : (plan.projection state).outcome = .ok report) :
    ∃ pilot planned,
      (plan.pilot true state).outcome = .ok pilot ∧
      (plan.allocate pilot.correlations pilot.counts pilot.bench.spent
        (some (Pilot.of pilot.correlations pilot.counts).variance) none).outcome = .ok planned ∧
      report = plan.projectedReport pilot planned ∧
      transcript (plan.projection state).journal =
        plan.round 0 plan.settings.pilotSamples ⟨state, 0⟩
          [(planned.realize (projected pilot.counts planned.evalRatios.highTargets)).checkpoint 0
            plan.settings.pilotSamples pilot.counts pilot.bench.spent 0] := by
  obtain ⟨pilot, planned, hpilot, hplanned, hreport⟩ := projection_eq_ok_iff.mp h
  refine ⟨pilot, planned, hpilot, hplanned, hreport, ?_⟩
  have hinternal : transcript (plan.allocate pilot.correlations pilot.counts pilot.bench.spent
      (some (Pilot.of pilot.correlations pilot.counts).variance) none).journal = [] :=
    transcript_of_internal only_allocate
  unfold projection
  rw [Recorder.bind_of_ok hpilot, transcript_append, pilot_journal]
  dsimp only
  rw [Recorder.bind_of_ok hplanned, transcript_append, hinternal]
  rw [Recorder.bind_of_ok (outcome_notify _ _), transcript_append, journal_notify]
  rfl

end Plan

end Multifidelity
