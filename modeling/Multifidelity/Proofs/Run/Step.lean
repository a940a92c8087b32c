import Multifidelity.Proofs.Run.Plan

/-!
# The steps of an online run

A step draws one shared increment, charges it, allocates anew and tells the listener.

## Main definitions

* `Plan.Steps`: what a step makes of the state before it

## Main results

* `Plan.step_eq_ok_iff`: when a step succeeds, and to what state it leads
* `Plan.step_journal`: the events of a step
* `Plan.only_finish`: after the last step there are only refinements
-/

namespace Multifidelity

namespace Plan

variable {σ α : Type} [Scalar α] {plan : Plan σ α} {iteration samples : ℕ} {bench : Bench σ α}

/-! ## Steps -/

/-- The state after a step: one increment more is added to the sums and charged, and the samples
are allocated anew. -/
structure Steps (plan : Plan σ α) (before : Option (Progress σ α)) (iteration samples : ℕ)
    (bench : Bench σ α) (sums : JointSums α 4) (next : Progress σ α) : Prop where
  sums : sums.accumulate (plan.answer (.shared iteration samples) bench).1 = .ok next.sums
  bench : next.bench = plan.charge (List.range (plan.numApprox + 1))
    (plan.answer (.shared iteration samples) bench).1.length
    ⟨(plan.answer (.shared iteration samples) bench).2, bench.spent⟩
  correlations : next.sums.correlations = .ok next.allocation.correlations
  pilot : next.pilot = (before.map Progress.pilot).getD
    (.of next.allocation.correlations next.sums.counts)
  allocation : (plan.allocate next.allocation.correlations next.sums.counts next.bench.spent
    (some next.pilot.variance) (before.map Progress.allocation)).outcome = .ok next.allocation
  pending : next.pending =
    increment next.sums.counts next.allocation.evalRatios.highTargets 1
  iterations : next.iterations = iteration + 1
  checkpoints : next.checkpoints = (before.map Progress.checkpoints).getD [] ++
    [next.allocation.checkpoint iteration samples next.sums.counts next.bench.spent next.pending]

variable {before : Option (Progress σ α)} {sums : JointSums α 4}

theorem step_eq_ok_iff {next : Progress σ α} :
    (plan.step before iteration samples bench sums).outcome = .ok next ↔
      plan.Steps before iteration samples bench sums next := by
  constructor
  · intro h
    unfold step at h
    obtain ⟨drawn, hdrawn, h⟩ := Recorder.outcome_bind_eq_ok.mp h
    obtain ⟨correlations, hcorrelations, h⟩ := Recorder.outcome_bind_eq_ok.mp h
    obtain ⟨allocation, hallocation, h⟩ := Recorder.outcome_bind_eq_ok.mp h
    obtain ⟨checkpoints, hcheckpoints, h⟩ := Recorder.outcome_bind_eq_ok.mp h
    obtain ⟨hsums, hbench⟩ := sharedIncrement_eq_ok_iff.mp hdrawn
    obtain ⟨-, hsame, -⟩ := allocate_eq_ok_iff.mp hallocation
    cases hcheckpoints
    cases h
    subst hsame
    exact ⟨hsums, hbench, hcorrelations, rfl, hallocation, rfl, rfl, rfl⟩
  · intro h
    obtain ⟨bench', sums', pilot, allocation, checkpoints, iterations, pending⟩ := next
    obtain ⟨hsums, hbench, hcorrelations, hpilot, hallocation, hpending, hiterations,
      hcheckpoints⟩ := h
    dsimp only at hsums hbench hcorrelations hpilot hallocation hpending hiterations hcheckpoints
    subst hcheckpoints hpending hiterations hpilot
    have hdrawn : (plan.sharedIncrement iteration samples true sums bench).outcome =
        .ok ⟨sums', bench'⟩ :=
      sharedIncrement_eq_ok_iff.mpr ⟨hsums, hbench⟩
    unfold step
    rw [Recorder.bind_of_ok hdrawn]
    dsimp only
    rw [hcorrelations, Recorder.bind_of_ok (Recorder.outcome_ofExcept _)]
    dsimp only
    rw [Recorder.bind_of_ok hallocation]
    rfl

/-- A step draws its increment first. If it succeeds it tells the listener last. -/
theorem step_journal (plan : Plan σ α) (before : Option (Progress σ α)) (iteration samples : ℕ)
    (bench : Bench σ α) (sums : JointSums α 4) :
    ∃ internal : List (Event α), (∀ event ∈ internal, event.IsInternal) ∧
      (plan.step before iteration samples bench sums).journal =
        .logged (.sharedIncrement iteration samples) ::
          .increment (.shared iteration samples)
            (plan.answer (.shared iteration samples) bench).1 ::
          (internal ++
            match (plan.step before iteration samples bench sums).outcome with
            | .ok next => [.notified next.checkpoints]
            | .error _ => []) := by
  unfold step
  -- what follows the increment is internal, up to the notification of a step that succeeds
  cases hdrawn : (plan.sharedIncrement iteration samples true sums bench).outcome with
  | error failure =>
    rw [Recorder.bind_of_error hdrawn, sharedIncrement_journal]
    exact ⟨[], by simp, rfl⟩
  | ok drawn =>
    rw [Recorder.bind_of_ok hdrawn, sharedIncrement_journal]
    dsimp only
    cases hcorrelations : drawn.sums.correlations with
    | error failure =>
      rw [Recorder.bind_of_error (Recorder.outcome_ofExcept _)]
      exact ⟨[], by simp, rfl⟩
    | ok correlations =>
      rw [Recorder.bind_of_ok (Recorder.outcome_ofExcept _)]
      dsimp only
      generalize hrest : plan.allocate correlations drawn.sums.counts drawn.bench.spent _ _ = rest
      have honly : rest.Only Event.IsInternal := hrest ▸ only_allocate
      refine ⟨rest.journal, honly, ?_⟩
      cases hallocation : rest.outcome with
      | error failure =>
        rw [Recorder.bind_of_error hallocation]
        simp
      | ok allocation =>
        rw [Recorder.bind_of_ok hallocation]
        simp [Recorder.bind_of_ok]

/-- A step that succeeds tells the listener its checkpoint, and then the run goes on. -/
theorem step_bind_journal {β : Type} {next : Progress σ α}
    (h : (plan.step before iteration samples bench sums).outcome = .ok next) :
    ∃ first, ∀ rest : Progress σ α → Recorded α β,
      (plan.step before iteration samples bench sums >>= rest).journal =
        first ++ .notified ((before.map Progress.checkpoints).getD [] ++
          [next.allocation.checkpoint iteration samples next.sums.counts next.bench.spent
            next.pending]) :: (rest next).journal := by
  obtain ⟨internal, -, hjournal⟩ := step_journal plan before iteration samples bench sums
  rw [h] at hjournal
  refine ⟨.logged (.sharedIncrement iteration samples) ::
    .increment (.shared iteration samples) (plan.answer (.shared iteration samples) bench).1 ::
      internal, fun rest => ?_⟩
  rw [Recorder.bind_of_ok h, hjournal]
  simp [(step_eq_ok_iff.mp h).checkpoints]

/-! ## After the last step -/

/-- No step follows when no more samples are needed. -/
theorem iterate_of_pending_eq_zero (limit : ℕ) {progress : Progress σ α}
    (h : progress.pending = 0) : (plan.iterate limit progress).outcome = .ok progress := by
  cases limit with
  | zero => rfl
  | succ limit =>
    rw [iterate, if_pos h]
    rfl

omit [Scalar α] in
theorem only_draw_approx (iteration samples : ℕ) (models : List ℕ) (bench : Bench σ α) :
    (plan.draw (.approx iteration models samples) bench).Only Event.IsRefinement := by
  intro event hevent
  rw [journal_draw] at hevent
  obtain rfl := List.mem_singleton.mp hevent
  trivial

theorem only_approxIncrement (iteration : ℕ) (allocation : Allocation α) (stop : ℕ)
    (refinement : Refinement σ α) :
    (plan.approxIncrement iteration allocation stop refinement).Only Event.IsRefinement := by
  unfold approxIncrement
  refine .bind (only_log (fun _ => trivial) _) fun _ _ => ?_
  dsimp only
  split
  · exact .pure _
  · refine .bind (only_draw_approx _ _ _ _) fun _ _ => ?_
    exact .bind (.ofExcept _) fun _ _ => .pure _

theorem only_refineBelow (iteration : ℕ) (allocation : Allocation α) (stop : ℕ)
    (refinement : Refinement σ α) :
    (plan.refineBelow iteration allocation stop refinement).Only Event.IsRefinement := by
  induction stop generalizing refinement with
  | zero => exact .pure _
  | succ stop ih => exact .bind (only_approxIncrement _ _ _ _) fun next _ => ih next

theorem only_rawMoments (sums : JointSums α 4) (pyramid : PyramidSums α) :
    (rawMoments sums pyramid).Only Event.IsInternal := by
  refine .mapM fun ((qoiSums, tallies), qoi) => ?_
  unfold QoiSums.rawMoments
  dsimp only
  split
  · exact .bind (.fail _) fun _ _ => .bind (only_logAll (fun _ => trivial) _) fun _ _ => .pure _
  · exact .bind (only_logAll (fun _ => trivial) _) fun _ _ => .pure _

/-- After the last step there are only refinements. -/
theorem only_finish (iterations : ℕ) (allocation : Allocation α) (sums : JointSums α 4)
    (bench : Bench σ α) (pilot : Option (Pilot α)) (warnings : List Warning) :
    (plan.finish iterations allocation sums bench pilot warnings).Only Event.IsRefinement := by
  unfold finish refine
  refine .bind ?_ fun _ _ => ?_
  · refine .bind (only_refineBelow _ _ _ _) fun _ _ => ?_
    exact .bind (only_log (fun _ => trivial) _) fun _ _ => .pure _
  · refine .bind ((only_rawMoments _ _).mono fun _ h => h.isRefinement) fun _ _ => ?_
    exact .bind (only_log (fun _ => trivial) _) fun _ _ => .pure _

end Plan

end Multifidelity
