import Multifidelity.Proofs.Run.Step

/-!
# The ways of a run

What a run with an offline pilot does, and what a projection does, part by part. Runs with an online
pilot repeat one step, which has a module of its own.

## Main definitions

* `Plan.projectedReport`: the report about a projection

## Main results

* `Plan.pilot_eq_ok_iff`: a pilot that only serves to estimate correlations
* `Plan.offline_eq_ok_iff`, `Plan.projection_eq_ok_iff`: when such runs end with a report
-/

namespace Multifidelity

namespace Plan

variable {σ α : Type} [Scalar α] {plan : Plan σ α} {state : σ}

/-! ## Pilots -/

/-- The state after a pilot, which is charged or not. -/
theorem pilot_eq_ok_iff {charged : Bool} {pilot : PilotSamples σ α} :
    (plan.pilot charged state).outcome = .ok pilot ↔
      let answer := plan.answer (.shared 0 plan.settings.pilotSamples) ⟨state, 0⟩
      ∃ sums : JointSums α 1, (JointSums.empty plan.ensemble.dims).accumulate answer.1 = .ok sums ∧
        sums.correlations = .ok pilot.correlations ∧ pilot.counts = sums.counts ∧
        pilot.bench = if charged then
            plan.charge (List.range (plan.numApprox + 1)) answer.1.length ⟨answer.2, 0⟩
          else ⟨answer.2, 0⟩ := by
  unfold Plan.pilot
  constructor
  · intro h
    obtain ⟨drawn, hdrawn, h⟩ := Recorder.outcome_bind_eq_ok.mp h
    obtain ⟨correlations, hcorrelations, h⟩ := Recorder.outcome_bind_eq_ok.mp h
    obtain ⟨hsums, hbench⟩ := sharedIncrement_eq_ok_iff.mp hdrawn
    cases h
    exact ⟨drawn.sums, hsums, hcorrelations, rfl, hbench⟩
  · obtain ⟨correlations, counts, bench⟩ := pilot
    rintro ⟨sums, hsums, hcorrelations, rfl, rfl⟩
    refine Recorder.outcome_bind_eq_ok.mpr
      ⟨⟨sums, _⟩, sharedIncrement_eq_ok_iff.mpr ⟨hsums, rfl⟩, ?_⟩
    exact Recorder.outcome_bind_eq_ok.mpr ⟨correlations, hcorrelations, rfl⟩

theorem pilot_journal (plan : Plan σ α) (charged : Bool) (state : σ) :
    (plan.pilot charged state).journal =
      [.logged (.sharedIncrement 0 plan.settings.pilotSamples),
        .increment (.shared 0 plan.settings.pilotSamples)
          (plan.answer (.shared 0 plan.settings.pilotSamples) ⟨state, 0⟩).1] := by
  unfold Plan.pilot
  rw [Recorder.journal_bind, sharedIncrement_journal]
  -- nothing is recorded after the increment
  split
  · rw [Recorder.journal_bind, Recorder.journal_ofExcept]
    split <;> rfl
  · rfl

/-! ## Offline runs -/

/-- An offline run plans with its pilot, draws the samples of the plan at once, and refines. -/
theorem offline_eq_ok_iff {report : Report α} :
    (plan.offline state).outcome = .ok report ↔
      ∃ pilot planned drawn,
        (plan.pilot false state).outcome = .ok pilot ∧
        (plan.allocate pilot.correlations pilot.counts pilot.bench.spent none none).outcome =
          .ok planned ∧
        (plan.sharedIncrement 1 (plan.offlineSamples planned) true
          (.empty plan.ensemble.dims : JointSums α 4) pilot.bench).outcome = .ok drawn ∧
        (plan.finish 2 (planned.realize drawn.sums.counts) drawn.sums drawn.bench none
          planned.evalRatios.warnings).outcome = .ok report := by
  unfold offline
  constructor
  · intro h
    obtain ⟨pilot, hpilot, h⟩ := Recorder.outcome_bind_eq_ok.mp h
    obtain ⟨planned, hplanned, h⟩ := Recorder.outcome_bind_eq_ok.mp h
    obtain ⟨checkpoints, -, h⟩ := Recorder.outcome_bind_eq_ok.mp h
    obtain ⟨drawn, hdrawn, h⟩ := Recorder.outcome_bind_eq_ok.mp h
    obtain ⟨-, -, h⟩ := Recorder.outcome_bind_eq_ok.mp h
    exact ⟨pilot, planned, drawn, hpilot, hplanned, hdrawn, h⟩
  · rintro ⟨pilot, planned, drawn, hpilot, hplanned, hdrawn, h⟩
    refine Recorder.outcome_bind_eq_ok.mpr ⟨pilot, hpilot, ?_⟩
    refine Recorder.outcome_bind_eq_ok.mpr ⟨planned, hplanned, ?_⟩
    refine Recorder.outcome_bind_eq_ok.mpr ⟨_, rfl, ?_⟩
    refine Recorder.outcome_bind_eq_ok.mpr ⟨drawn, hdrawn, ?_⟩
    exact Recorder.outcome_bind_eq_ok.mpr ⟨_, rfl, h⟩

/-! ## Projections -/

/-- The report about a projection, from its pilot and the allocation that the pilot suggests. -/
def projectedReport (plan : Plan σ α) (pilot : PilotSamples σ α) (planned : Allocation α) :
    Report α where
  pilotMode := plan.settings.pilotMode
  solution := planned.evalRatios.solution
  iterations := 1
  spent := pilot.bench.spent
  pilotVariance := some (Pilot.of pilot.correlations pilot.counts).variance
  pilotCounts := some pilot.counts
  highCounts := projected pilot.counts planned.evalRatios.highTargets
  sharedCounts := pilot.counts
  varHigh := planned.correlations.varHigh
  rhoSq := planned.evalRatios.rhoSq
  highTargets := planned.evalRatios.highTargets
  varianceRatios :=
    (planned.realize (projected pilot.counts planned.evalRatios.highTargets)).varianceRatios
  lowCounts := (List.range plan.numApprox).map fun model =>
    projected pilot.counts (planned.lowTargets model)
  rawMoments := none
  warnings := planned.evalRatios.warnings

/-- A projection plans with its pilot, and the rest of the run is not drawn. -/
theorem projection_eq_ok_iff {report : Report α} :
    (plan.projection state).outcome = .ok report ↔
      ∃ pilot planned,
        (plan.pilot true state).outcome = .ok pilot ∧
        (plan.allocate pilot.correlations pilot.counts pilot.bench.spent
          (some (Pilot.of pilot.correlations pilot.counts).variance) none).outcome = .ok planned ∧
        report = plan.projectedReport pilot planned := by
  unfold projection
  constructor
  · intro h
    obtain ⟨pilot, hpilot, h⟩ := Recorder.outcome_bind_eq_ok.mp h
    obtain ⟨planned, hplanned, h⟩ := Recorder.outcome_bind_eq_ok.mp h
    obtain ⟨-, -, h⟩ := Recorder.outcome_bind_eq_ok.mp h
    obtain ⟨-, -, h⟩ := Recorder.outcome_bind_eq_ok.mp h
    cases h
    exact ⟨pilot, planned, hpilot, hplanned, rfl⟩
  · rintro ⟨pilot, planned, hpilot, hplanned, rfl⟩
    refine Recorder.outcome_bind_eq_ok.mpr ⟨pilot, hpilot, ?_⟩
    refine Recorder.outcome_bind_eq_ok.mpr ⟨planned, hplanned, ?_⟩
    exact Recorder.outcome_bind_eq_ok.mpr
      ⟨_, rfl, Recorder.outcome_bind_eq_ok.mpr ⟨(), rfl, rfl⟩⟩

end Plan

end Multifidelity
