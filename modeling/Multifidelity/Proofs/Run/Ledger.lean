import Multifidelity.Proofs.Run.Completion

/-!
# The ledger of a run

A run charges every response that an ensemble returns, however many were requested, for one
evaluation of each model of its increment. Only the pilot of an offline run is free. Whatever the
increments are and however they follow each other, the cost in a checkpoint is that of the
increments before it, and the cost in the report is that of all increments.

## Main definitions

* `ledger`: the cost of increments
* `PilotMode.charged`: the increments that are charged
* `Books`: what holds at a notification, given the events before

## Main results

* `Plan.Reaches.books`, `Plan.Refines.ledger`: the rounds of an online run, and the refinements
* `pairwise_spent_of_books`: the costs in checkpoints do not decrease
* `ledger_conserved`: the costs in the checkpoints and in the report of a run
-/

namespace Multifidelity

open ExactReal

/-! ## The cost of increments -/

/-- The cost of increments in high-fidelity evaluations: every response costs one evaluation of each
model of its increment. The high-fidelity model comes after `numApprox` low-fidelity ones. -/
noncomputable def ledger (cs : List ℝ) (numApprox : ℕ) (drawn : List (Call × Batch ExactReal)) :
    ℝ :=
  (drawn.map fun (call, batch) =>
    batch.length * ((call.models numApprox).map fun model => cs.getD model 0).sum /
      cs.getD numApprox 0).sum

/-- The increments that are charged: all of them, except the pilot of an offline run. -/
def PilotMode.charged {α : Type} (mode : PilotMode) (drawn : List (Call × Batch α)) :
    List (Call × Batch α) :=
  match mode with
  | .online | .projection => drawn
  | .offline => drawn.drop 1

section Ledger

variable {cs : List ℝ} {numApprox : ℕ} {mode : PilotMode}

@[simp] theorem ledger_nil : ledger cs numApprox [] = 0 := rfl

theorem ledger_append (first second : List (Call × Batch ExactReal)) :
    ledger cs numApprox (first ++ second) =
      ledger cs numApprox first + ledger cs numApprox second := by
  simp [ledger]

theorem ledger_cons (entry : Call × Batch ExactReal) (drawn : List (Call × Batch ExactReal)) :
    ledger cs numApprox (entry :: drawn) =
      ledger cs numApprox [entry] + ledger cs numApprox drawn := by
  simp [ledger]

/-- More increments do not cost less. -/
theorem ledger_le_of_sublist (hpos : ∀ c ∈ cs, 0 < c) {some all : List (Call × Batch ExactReal)}
    (h : some.Sublist all) : ledger cs numApprox some ≤ ledger cs numApprox all := by
  have hcost : ∀ model, 0 ≤ cs.getD model 0 := by
    intro model
    rcases lt_or_ge model cs.length with hlt | hge
    · rw [List.getD_eq_getElem _ _ hlt]
      exact (hpos _ (List.getElem_mem hlt)).le
    · rw [List.getD_eq_default _ _ hge]
  refine (h.map _).sum_le_sum fun x hx => ?_
  obtain ⟨⟨call, batch⟩, -, rfl⟩ := List.mem_map.mp hx
  refine div_nonneg (mul_nonneg (Nat.cast_nonneg _) (List.sum_nonneg fun y hy => ?_)) (hcost _)
  obtain ⟨model, -, rfl⟩ := List.mem_map.mp hy
  exact hcost model

theorem PilotMode.charged_sublist {α : Type} (mode : PilotMode)
    (first second : List (Call × Batch α)) :
    (mode.charged first).Sublist (mode.charged (first ++ second)) := by
  cases mode with
  | online => exact List.sublist_append_left _ _
  | projection => exact List.sublist_append_left _ _
  | offline => exact (List.sublist_append_left first second).drop 1

/-! ## Books -/

/-- At a notification: it adds a checkpoint, whose cost is that of the charged increments so far. -/
def Books (mode : PilotMode) (cs : List ℝ) (numApprox : ℕ) (past : List (Event ExactReal)) :
    Event ExactReal → Prop
  | .notified checkpoints => ∃ checkpoint, checkpoints = told past ++ [checkpoint] ∧
      checkpoint.spent = real (ledger cs numApprox (mode.charged (increments past)))
  | .increment .. | .consulted .. | .logged _ => True

/-- If the books are kept, the costs in checkpoints do not decrease. -/
theorem pairwise_spent_of_books (hpos : ∀ c ∈ cs, 0 < c) {journal : List (Event ExactReal)}
    (h : Throughout (Books mode cs numApprox) [] journal) :
    ((told journal).map Checkpoint.spent ++
      [real (ledger cs numApprox (mode.charged (increments journal)))]).Pairwise (· ≤ ·) := by
  induction journal using List.reverseRecOn with
  | nil => simp
  | append_singleton journal event ih =>
    obtain ⟨hjournal, hevent, -⟩ := throughout_append.mp h
    obtain ⟨hsorted, -, hle⟩ := List.pairwise_append.mp (ih hjournal)
    -- an event that is no notification may add to the cost
    have hother (hnone : notifications [event] = []) :
        ((told (journal ++ [event])).map Checkpoint.spent ++
          [real (ledger cs numApprox (mode.charged (increments (journal ++ [event]))))]).Pairwise
            (· ≤ ·) := by
      rw [told_of_notifications_eq_nil hnone, increments_append]
      refine List.pairwise_append.mpr ⟨hsorted, List.pairwise_singleton _ _, fun x hx y hy => ?_⟩
      rw [List.mem_singleton.mp hy]
      refine ExactReal.le_trans (hle x hx _ List.mem_cons_self) (real_le_real.mpr ?_)
      exact ledger_le_of_sublist hpos (mode.charged_sublist _ _)
    cases event with
    | notified checkpoints =>
      obtain ⟨checkpoint, hcheckpoints, hspent⟩ := hevent
      rw [List.nil_append] at hcheckpoints hspent
      have hincrements : increments (journal ++ [.notified checkpoints]) = increments journal := by
        simp
      rw [told_append_notified, hincrements, hcheckpoints, List.map_append, List.map_singleton,
        hspent]
      refine List.pairwise_append.mpr
        ⟨ih hjournal, List.pairwise_singleton _ _, fun x hx y hy => ?_⟩
      rw [List.mem_singleton.mp hy]
      rcases List.mem_append.mp hx with hx | hx
      · exact hle x hx _ List.mem_cons_self
      · rw [List.mem_singleton.mp hx]
        exact real_le_real.mpr le_rfl
    | increment call batch => exact hother rfl
    | consulted problem initial => exact hother rfl
    | logged entry => exact hother rfl

end Ledger

/-! ## Increments -/

namespace Plan

variable {σ : Type} {plan : Plan σ ExactReal} {cs : List ℝ} (hpriced : plan.Priced cs)
  {state : σ}
include hpriced

/-- The charge for an increment is its entry in the ledger. -/
theorem charge_eq_ledger (call : Call) (batch : Batch ExactReal) (state : σ) (spent : ℝ) :
    (plan.charge (call.models plan.numApprox) batch.length ⟨state, real spent⟩).spent =
      real (spent + ledger cs plan.numApprox [(call, batch)]) := by
  have hhigh := (getD_pos hpriced.length hpriced.pos le_rfl).ne'
  unfold charge
  dsimp only
  rw [hpriced.costs_eq, Costs.equivalents_real hhigh, real_add]
  simp [ledger]

/-! ## Rounds -/

/-- A round keeps the books. -/
theorem Steps.books {before : Option (Progress σ ExactReal)} {iteration samples : ℕ}
    {bench : Bench σ ExactReal} {sums : JointSums ExactReal 4} {next : Progress σ ExactReal}
    (h : plan.Steps before iteration samples bench sums next) {past : List (Event ExactReal)}
    (htold : (before.map Progress.checkpoints).getD [] = told past)
    (hspent : bench.spent = real (ledger cs plan.numApprox (increments past)))
    (hbooks : Throughout (Books .online cs plan.numApprox) [] past) :
    let now := past ++ plan.round iteration samples bench next.checkpoints
    next.bench.spent = real (ledger cs plan.numApprox (increments now)) ∧
      Throughout (Books .online cs plan.numApprox) [] now := by
  intro now
  have hcharged : next.bench.spent = real (ledger cs plan.numApprox (increments past) +
      ledger cs plan.numApprox [(.shared iteration samples,
        (plan.answer (.shared iteration samples) bench).1)]) := by
    rw [h.bench, hspent]
    exact charge_eq_ledger hpriced (.shared iteration samples) _ _ _
  constructor
  · rw [hcharged, ← ledger_append]
    simp [now, round]
  · -- the notification comes after the increment
    refine throughout_append.mpr ⟨hbooks, trivial, ⟨next.allocation.checkpoint iteration samples
      next.sums.counts next.bench.spent next.pending, ?_, ?_⟩, trivial⟩
    · rw [h.checkpoints, htold, List.nil_append, told_of_notifications_eq_nil rfl]
    · change next.bench.spent = _
      rw [hcharged, ← ledger_append]
      simp [PilotMode.charged]

/-- Rounds keep the books. -/
theorem Reaches.books {past : List (Event ExactReal)} {progress : Progress σ ExactReal}
    (h : plan.Reaches state past progress) :
    progress.bench.spent = real (ledger cs plan.numApprox (increments past)) ∧
      Throughout (Books .online cs plan.numApprox) [] past := by
  induction h with
  | pilot h => exact h.books hpriced (show _ = told [] from rfl) rfl trivial
  | round hpast _ _ h ih => exact h.books hpriced hpast.told_eq.symm ih.1 ih.2

/-! ## Refinements -/

/-- Refinements are charged for all models of their ranges. -/
theorem Refines.ledger {iteration stop : ℕ} {allocation : Allocation ExactReal}
    {refinement last : Refinement σ ExactReal} {events : List (Event ExactReal)}
    (h : plan.Refines iteration allocation stop refinement events last) {spent : ℝ}
    (hspent : refinement.bench.spent = real spent) :
    last.bench.spent = real (spent + ledger cs plan.numApprox (increments events)) := by
  induction h generalizing spent with
  | done => simpa using hspent
  | skip _ _ ih => exact ih hspent
  | draw hsome hcall hbatch hpyramid hbench hrest ih =>
    have hmodels := congrArg (Call.models plan.numApprox) hcall
    change _ = allocation.evalRatios.solution.order.along _ at hmodels
    rw [← hmodels, hspent] at hbench
    rw [ih (hbench ▸ charge_eq_ledger hpriced _ _ _ _), increments_increment,
      ledger_cons _ (increments _), add_assoc]

/-! ## Runs -/

/-- What holds at the end of a run: the books have been kept, and the report has the cost of all
charged increments. -/
structure Balances (cs : List ℝ) (numApprox : ℕ) (mode : PilotMode)
    (shown : List (Event ExactReal)) (report : Report ExactReal) : Prop where
  books : Throughout (Books mode cs numApprox) [] shown
  spent : report.spent = real (ledger cs numApprox (mode.charged (increments shown)))

theorem balances_online {report : Report ExactReal}
    (h : (plan.online state).outcome = .ok report) :
    Balances cs plan.numApprox .online (transcript (plan.online state).journal) report := by
  obtain ⟨past, last, hreaches, -, final, moments, events, hrefines, -, htranscript, rfl⟩ :=
    exists_reaches_of_online h
  obtain ⟨hspent, hbooks⟩ := hreaches.books hpriced
  rw [htranscript]
  refine ⟨throughout_append.mpr ⟨hbooks, hrefines.throughout fun _ _ _ => trivial⟩, ?_⟩
  change final.bench.spent = _
  rw [hrefines.ledger hpriced hspent, ← ledger_append, increments_append]
  rfl

theorem balances_offline {report : Report ExactReal}
    (h : (plan.offline state).outcome = .ok report) :
    Balances cs plan.numApprox .offline (transcript (plan.offline state).journal) report := by
  obtain ⟨pilot, planned, drawn, hpilot, -, hdrawn, final, moments, events, hrefines, -,
    htranscript, rfl⟩ := exists_refines_of_offline h
  obtain ⟨-, -, -, -, hbench⟩ := pilot_eq_ok_iff.mp hpilot
  obtain ⟨-, hcharged⟩ := sharedIncrement_eq_ok_iff.mp hdrawn
  have hzero : pilot.bench.spent = real 0 := by rw [hbench]; rfl
  -- the increment after the pilot is the first one that is charged
  have hspent : drawn.bench.spent = real (ledger cs plan.numApprox
      [(.shared 1 (plan.offlineSamples planned),
        (plan.answer (.shared 1 (plan.offlineSamples planned)) pilot.bench).1)]) := by
    rw [hcharged, if_pos rfl, hzero, ← zero_add (ledger _ _ _)]
    exact charge_eq_ledger hpriced (.shared 1 (plan.offlineSamples planned)) _ _ _
  rw [htranscript]
  refine ⟨throughout_append.mpr ⟨⟨trivial, ⟨_, rfl, hzero⟩, trivial, ⟨_, rfl, ?_⟩, trivial⟩,
    hrefines.throughout fun _ _ _ => trivial⟩, ?_⟩
  · exact hspent
  · change final.bench.spent = _
    rw [hrefines.ledger hpriced hspent, ← ledger_append]
    rfl

theorem balances_projection {report : Report ExactReal}
    (h : (plan.projection state).outcome = .ok report) :
    Balances cs plan.numApprox .projection (transcript (plan.projection state).journal)
      report := by
  obtain ⟨pilot, planned, hpilot, -, rfl, htranscript⟩ := transcript_projection h
  obtain ⟨-, -, -, -, hbench⟩ := pilot_eq_ok_iff.mp hpilot
  have hspent : pilot.bench.spent = real (ledger cs plan.numApprox
      [(.shared 0 plan.settings.pilotSamples,
        (plan.answer (.shared 0 plan.settings.pilotSamples) ⟨state, 0⟩).1)]) := by
    rw [hbench, if_pos rfl, ← zero_add (ledger _ _ _)]
    exact charge_eq_ledger hpriced (.shared 0 plan.settings.pilotSamples) _ _ _
  rw [htranscript]
  exact ⟨⟨trivial, ⟨_, rfl, hspent⟩, trivial⟩, hspent⟩

theorem balances_execute {report : Report ExactReal}
    (h : (plan.execute state).outcome = .ok report) :
    Balances cs plan.numApprox plan.settings.pilotMode
      (transcript (plan.execute state).journal) report := by
  unfold execute at h ⊢
  cases hmode : plan.settings.pilotMode with
  | online =>
    rw [hmode] at h
    exact balances_online hpriced h
  | offline =>
    rw [hmode] at h
    exact balances_offline hpriced h
  | projection =>
    rw [hmode] at h
    exact balances_projection hpriced h

end Plan

/-- In a run that ends with a report, every notification adds a checkpoint whose cost is that of the
charged increments before it, and the report has the cost of all charged increments. The costs in
the checkpoints do not decrease, and none of them exceeds that of the report. -/
theorem ledger_conserved {σ : Type} {optimizer : Optimizer ExactReal}
    {ensemble : Ensemble σ ExactReal} {settings : Settings ExactReal} {state : σ}
    {report : Report ExactReal}
    (hreport : (sampleWith optimizer ensemble settings state).outcome = .ok report) :
    let journal := (sampleWith optimizer ensemble settings state).journal
    ∃ cs : List ℝ, ensemble.costs = cs.map real ∧
      (∀ before checkpoints after, journal = before ++ .notified checkpoints :: after →
        ∃ checkpoint, checkpoints = told before ++ [checkpoint] ∧
          checkpoint.spent = real (ledger cs ensemble.dims.numApprox
            (settings.pilotMode.charged (increments before)))) ∧
      report.spent = real (ledger cs ensemble.dims.numApprox
        (settings.pilotMode.charged (increments journal))) ∧
      ((told journal).map Checkpoint.spent ++ [report.spent]).Pairwise (· ≤ ·) := by
  intro journal
  rcases Plan.sampleWith_eq optimizer ensemble settings state with ⟨plan, hchecked, hrun⟩ |
    ⟨failure, hrun⟩
  · obtain ⟨cs, hpriced, hcosts⟩ := hchecked.exists_priced
    rw [hrun] at hreport
    have hbalances := Plan.balances_execute hpriced hreport
    rw [← hrun, hchecked.settings_eq, Plan.numApprox, hchecked.ensemble_eq] at hbalances
    obtain ⟨hbooks, hspent⟩ := hbalances
    have hpairwise := pairwise_spent_of_books hpriced.pos hbooks
    rw [increments_transcript] at hspent hpairwise
    rw [told_transcript, ← hspent] at hpairwise
    refine ⟨cs, hcosts, fun before checkpoints after hjournal => ?_, hspent, hpairwise⟩
    -- what the transcript says about a notification holds in the journal
    have hsplit : transcript (before ++ .notified checkpoints :: after) = transcript journal :=
      congrArg transcript hjournal.symm
    obtain ⟨checkpoint, hadded, hcost⟩ :=
      Throughout.of_transcript (show Event.isVisible (.notified checkpoints) = true from rfl)
        (hsplit ▸ hbooks)
    rw [told_transcript] at hadded
    rw [increments_transcript] at hcost
    exact ⟨checkpoint, hadded, hcost⟩
  · rw [hrun] at hreport
    cases hreport

/-- The two rounds and the two refinements of a run use up its budget of eleven evaluations. -/
theorem ledger_conserved_of_quartet :
    let run := sampleWith unitOptimizer quartetEnsemble (quartetSettings .online) ()
    ∃ report, run.outcome = .ok report ∧ report.iterations = 2 ∧
      report.lowCounts = [[32], [16]] ∧ report.spent = real 11 ∧
      ∃ cs : List ℝ, quartetEnsemble.costs = cs.map real ∧
        ledger cs quartetEnsemble.dims.numApprox (increments run.journal) = 11 ∧
        ((told run.journal).map Checkpoint.spent ++ [real 11]).Pairwise (· ≤ ·) := by
  intro run
  obtain ⟨report, hreport, hiterations, -, -, -, hlow, heleven⟩ :=
    exists_online_quartet unitOptimizer
  obtain ⟨cs, hcosts, -, hspent, hpairwise⟩ := ledger_conserved hreport
  rw [heleven] at hspent hpairwise
  exact ⟨report, hreport, hiterations, hlow, heleven, cs, hcosts, (real.inj hspent).symm,
    hpairwise⟩

end Multifidelity
