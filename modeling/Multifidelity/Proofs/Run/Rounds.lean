import Multifidelity.Proofs.Run.Transcript

/-!
# The rounds of an online run

Between two rounds the state of an online run is a function of its transcript. The sums are those of
all shared responses, and each round has added one checkpoint, which says what it requested, what
the counts were then, and what the next round requests.

## Main definitions

* `Paced`: what holds at a notification, given the events before
* `Plan.Documents`: how checkpoints and sums document a transcript
* `Plan.Settled`: the sizes of the state between two rounds

## Main results

* `Plan.Documents.concat`: documents that go on
* `Plan.Steps.documents`, `Plan.Reaches.documents`: one round, and all of them
* `Plan.Steps.settled`, `Plan.Reaches.settled`: the same for the sizes
-/

namespace Multifidelity

variable {σ α : Type}

/-- At a notification: there is one checkpoint for each increment before. -/
def Paced (past : List (Event α)) : Event α → Prop
  | .notified checkpoints => (increments past).length = checkpoints.length
  | .increment .. | .consulted .. | .logged _ => True

/-- The first elements of a list that goes on are those of the list. -/
theorem map_range_take_append {β γ : Type} (xs : List β) (x : β) (f : List β → γ) :
    (List.range (xs ++ [x]).length).map (fun i => f ((xs ++ [x]).take (i + 1))) =
      (List.range xs.length).map (fun i => f (xs.take (i + 1))) ++ [f (xs ++ [x])] := by
  rw [List.length_append, List.length_singleton, List.range_succ, List.map_append,
    List.map_singleton, List.take_of_length_le (by simp)]
  congr 1
  refine List.map_congr_left fun i hi => ?_
  rw [List.take_append_of_le_length (List.mem_range.mp hi)]

namespace Plan

variable [Scalar α] {plan : Plan σ α} {state : σ} {past : List (Event α)}
  {checkpoints : List (Checkpoint α)} {sums : JointSums α 4} {samples iteration : ℕ}
  {bench : Bench σ α} {before : Option (Progress σ α)} {next : Progress σ α}

/-! ## Transcripts -/

/-- The checkpoints and the sums after some rounds document their transcript, and `samples` is what
the next round requests. -/
structure Documents (plan : Plan σ α) (past : List (Event α)) (checkpoints : List (Checkpoint α))
    (sums : JointSums α 4) (samples : ℕ) : Prop where
  calls : (increments past).map Prod.fst =
    checkpoints.mapIdx fun i checkpoint => .shared i checkpoint.samples
  sums : sums = (sharedResponses (increments past)).foldl JointSums.addResponse
    (.empty plan.ensemble.dims)
  notifications : notifications past =
    (List.range checkpoints.length).map fun i => checkpoints.take (i + 1)
  paced : Throughout Paced [] past
  requests : checkpoints.map Checkpoint.samples ++ [samples] =
    plan.settings.pilotSamples :: checkpoints.map Checkpoint.nextSamples
  iterations : checkpoints.map Checkpoint.iteration = List.range checkpoints.length
  counts : checkpoints.map Checkpoint.highCounts = (List.range checkpoints.length).map fun i =>
    plan.ensemble.dims.jointCounts (sharedResponses ((increments past).take (i + 1)))

theorem documents_nil (plan : Plan σ α) :
    plan.Documents [] [] (.empty plan.ensemble.dims) plan.settings.pilotSamples where
  calls := rfl
  sums := rfl
  notifications := rfl
  paced := trivial
  requests := rfl
  iterations := rfl
  counts := rfl

theorem Documents.length_increments (h : plan.Documents past checkpoints sums samples) :
    (increments past).length = checkpoints.length := by
  simpa using congrArg List.length h.calls

theorem Documents.isShared (h : plan.Documents past checkpoints sums samples) :
    ∀ entry ∈ increments past, entry.1.isShared := by
  intro entry hentry
  have hmem := List.mem_map_of_mem (f := Prod.fst) hentry
  rw [h.calls] at hmem
  obtain ⟨i, _, hcall⟩ := List.mem_mapIdx.mp hmem
  rw [← hcall]
  rfl

/-- Documents go on with a batch and with a checkpoint that says what the batch has led to. -/
theorem Documents.concat (h : plan.Documents past checkpoints sums samples)
    {checkpoint : Checkpoint α} {batch : Batch α}
    (hiteration : checkpoint.iteration = checkpoints.length)
    (hsamples : checkpoint.samples = samples)
    (hcounts : checkpoint.highCounts = (batch.foldl JointSums.addResponse sums).counts) :
    plan.Documents
      (past ++ [.increment (.shared checkpoints.length samples) batch,
        .notified (checkpoints ++ [checkpoint])])
      (checkpoints ++ [checkpoint]) (batch.foldl JointSums.addResponse sums)
      checkpoint.nextSamples := by
  have hlength := h.length_increments
  obtain ⟨drawn, hdrawn⟩ : ∃ drawn, drawn = increments past ++
    [(.shared checkpoints.length samples, batch)] := ⟨_, rfl⟩
  have hincrements : increments (past ++ [.increment (.shared checkpoints.length samples) batch,
      .notified (checkpoints ++ [checkpoint])]) = drawn := by
    rw [increments_append, hdrawn]
    rfl
  -- the batch comes after the responses of all rounds before
  have hsums : batch.foldl JointSums.addResponse sums =
      (sharedResponses drawn).foldl JointSums.addResponse (.empty plan.ensemble.dims) := by
    rw [hdrawn, sharedResponses_concat, List.foldl_append, ← h.sums]
  constructor
  case calls =>
    rw [hincrements, hdrawn, List.map_append, h.calls, List.mapIdx_concat, hsamples]
    rfl
  case sums => rw [hincrements, hsums]
  case notifications =>
    rw [notifications_append, h.notifications]
    exact (map_range_take_append checkpoints checkpoint id).symm
  case paced =>
    -- the notification comes after the increment
    refine throughout_append.mpr ⟨h.paced, trivial, ?_, trivial⟩
    change (increments _).length = (checkpoints ++ [checkpoint]).length
    simp [hlength]
  case requests =>
    rw [List.map_append, List.map_append, ← List.cons_append, ← h.requests, List.map_singleton,
      hsamples, List.map_singleton]
  case iterations =>
    rw [List.map_append, h.iterations, List.length_append, List.length_singleton, List.range_succ,
      List.map_singleton, hiteration]
  case counts =>
    -- there are as many checkpoints as increments, so that both lists grow alike
    have hlength' : (checkpoints ++ [checkpoint]).length = drawn.length := by
      rw [hdrawn]
      simp [hlength]
    rw [hsums, JointSums.counts_foldl_addResponse] at hcounts
    rw [hlength', hincrements, List.map_append, h.counts, List.map_singleton, hcounts, hdrawn,
      map_range_take_append (increments past) _ fun drawn =>
        plan.ensemble.dims.jointCounts (sharedResponses drawn), hlength]

/-- A round adds a checkpoint that documents it. -/
theorem Steps.documents (h : plan.Steps before checkpoints.length samples bench sums next)
    (hbefore : (before.map Progress.checkpoints).getD [] = checkpoints)
    (hpast : plan.Documents past checkpoints sums samples) :
    plan.Documents (past ++ plan.round checkpoints.length samples bench next.checkpoints)
      next.checkpoints next.sums next.pending := by
  obtain ⟨-, haccumulate⟩ := JointSums.accumulate_eq_ok_iff.mp h.sums
  obtain ⟨checkpoint, hcheckpoint⟩ : ∃ checkpoint, checkpoint =
      next.allocation.checkpoint checkpoints.length samples next.sums.counts next.bench.spent
        next.pending := ⟨_, rfl⟩
  have hcheckpoints : next.checkpoints = checkpoints ++ [checkpoint] := by
    rw [h.checkpoints, hbefore, hcheckpoint]
  have hpending : next.pending = checkpoint.nextSamples := by
    rw [hcheckpoint]
    rfl
  rw [hcheckpoints, hpending, haccumulate]
  apply hpast.concat
  · rw [hcheckpoint]
    rfl
  · rw [hcheckpoint]
    rfl
  · rw [hcheckpoint, ← haccumulate]
    rfl

/-- The state between two rounds documents the transcript of all rounds before. -/
theorem Reaches.documents {progress : Progress σ α} (h : plan.Reaches state past progress) :
    plan.Documents past progress.checkpoints progress.sums progress.pending ∧
      progress.checkpoints.length = progress.iterations := by
  induction h with
  | pilot h =>
    -- nothing has been documented before the first round
    have hstart : plan.Steps none ([] : List (Checkpoint α)).length plan.settings.pilotSamples
        ⟨state, 0⟩ (.empty plan.ensemble.dims) _ := h
    refine ⟨hstart.documents rfl plan.documents_nil, ?_⟩
    rw [h.checkpoints, h.iterations]
    rfl
  | round hpast _ _ h ih =>
    obtain ⟨hdocuments, hlength⟩ := ih
    rw [← hlength] at h ⊢
    refine ⟨h.documents rfl hdocuments, ?_⟩
    rw [h.checkpoints, h.iterations]
    simp

/-! ## Sizes -/

/-- The state between two rounds has the size of the ensemble, and its order lists every model
once. -/
structure Settled (plan : Plan σ α) (progress : Progress σ α) : Prop where
  sums : progress.sums.Sized plan.ensemble.dims
  order : progress.allocation.evalRatios.solution.order.Valid plan.numApprox
  pilot : progress.pilot.variance.length = plan.ensemble.dims.numFunctions
  targets : progress.allocation.evalRatios.highTargets.length = plan.ensemble.dims.numFunctions

/-- A round keeps the sizes. -/
theorem Steps.settled (h : plan.Steps before iteration samples bench sums next)
    (hsums : sums.Sized plan.ensemble.dims)
    (hbefore : ∀ progress, before = some progress → plan.Settled progress) :
    plan.Settled next := by
  have hsized := hsums.accumulate h.sums
  have hlength : next.sums.counts.length = plan.ensemble.dims.numFunctions := by
    rw [JointSums.counts, List.length_map, hsized.length_qois]
  obtain ⟨heval, -, -⟩ := allocate_eq_ok_iff.mp h.allocation
  have hrows := JointSums.rows_correlations h.correlations
  have hcols := JointSums.cols_correlations h.correlations
  rw [hlength] at hrows
  rw [hsized.dims_eq] at hcols
  have hvarHigh : next.allocation.correlations.varHigh.length =
      plan.ensemble.dims.numFunctions := by
    rw [JointSums.length_varHigh h.correlations, hlength]
  have hpilot : next.pilot.variance.length = plan.ensemble.dims.numFunctions := by
    rw [h.pilot]
    cases before with
    | none => simp [Pilot.of, monteCarloVariance, hvarHigh, hlength]
    | some progress => exact (hbefore progress rfl).pilot
  refine ⟨hsized, ?_, hpilot, ?_⟩
  · -- a search may keep to the order of the allocation before
    rw [numApprox, ← hcols]
    refine RatioInputs.valid_order_of_evalRatios (fun solution hsolution => ?_) heval
    obtain ⟨allocation, hallocation, rfl⟩ := Option.map_eq_some_iff.mp hsolution
    obtain ⟨progress, hprogress, rfl⟩ := Option.map_eq_some_iff.mp hallocation
    rw [ratioInputs, hcols]
    exact (hbefore progress hprogress).order
  · rw [← hrows]
    refine RatioInputs.length_highTargets_of_evalRatios (hvarHigh.trans hrows.symm)
      (fun variance hvariance => ?_) heval
    cases hvariance
    exact hpilot.trans hrows.symm

/-- Rounds keep the sizes. -/
theorem Reaches.settled {progress : Progress σ α} (h : plan.Reaches state past progress) :
    plan.Settled progress := by
  induction h with
  | pilot h => exact h.settled (JointSums.sized_empty _) nofun
  | round hpast _ _ h ih =>
    refine h.settled ih.sums fun progress hprogress => ?_
    cases hprogress
    exact ih

end Plan

end Multifidelity
