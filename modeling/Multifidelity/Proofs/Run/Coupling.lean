import Multifidelity.Proofs.Lockstep
import Multifidelity.Proofs.Run.Modes
import Multifidelity.Proofs.Sums.Pyramid

/-!
# Coupled runs

Two runs are in lockstep if their ensembles are: answers that are related lead to sums that are
related, from which both runs draw the same conclusions. What has to be kept related, and what has
to agree, is the same for all pilot modes.

## Main definitions

* `Coupling`: relations between the data of two runs that all computations on them keep
* `Coupling.ofBatches`: batches that have the same effect on all sums
* `Plan.Coupled`: plans whose ensembles keep giving related answers
* `Report.Agrees`: reports that are equal except for the moments

## Main results

* `Plan.Coupled.step`, `Plan.Coupled.approxIncrement`: one increment of coupled plans
* `Plan.Coupled.iterate`, `Plan.Coupled.refineBelow`: any number of increments
* `Plan.Coupled.execute`: coupled plans make the same moves and end alike
* `Plan.alike_check`, `sampleWith_lockstep`: runs that are checked alike, and runs in lockstep
-/

namespace Multifidelity

open Recorder (Lockstep)

/-- Relations between the data of two runs of ensembles of one size. Related data lead to the same
counts and to the same failures. -/
structure Coupling (α : Type) [Scalar α] (dims : Dimensions) where
  /-- The relation of the batches that answer a call. -/
  batches : Call → Batch α → Batch α → Prop
  /-- The relation of sums over joint samples. -/
  sums : ∀ {M : ℕ}, JointSums α M → JointSums α M → Prop
  /-- The relation of sums over low-fidelity samples. -/
  pyramids : PyramidSums α → PyramidSums α → Prop
  /-- The relation of estimated second moments. -/
  correlations : Correlations α → Correlations α → Prop
  /-- The relation of estimated raw moments. -/
  moments : List (Vector α 4) → List (Vector α 4) → Prop
  length_eq : ∀ {call x y}, batches call x y → x.length = y.length
  empty : ∀ M, sums (.empty dims : JointSums α M) (.empty dims)
  accumulate : ∀ {M : ℕ} {x y : JointSums α M} {iteration samples : ℕ} {first second : Batch α},
    sums x y → batches (.shared iteration samples) first second →
      Alike sums (x.accumulate first) (y.accumulate second)
  counts_eq : ∀ {M : ℕ} {x y : JointSums α M}, sums x y → x.counts = y.counts
  estimate : ∀ {m : ℕ} {x y : JointSums α (m + 1)}, sums x y →
    Alike correlations x.correlations y.correlations
  varHigh_eq : ∀ {x y}, correlations x y → x.varHigh = y.varHigh
  ofJoint : ∀ {x y}, sums x y → pyramids (.ofJoint x) (.ofJoint y)
  refine : ∀ {x y : PyramidSums α} {order : ModelOrder} {iteration stop samples : ℕ}
    {first second : Batch α}, pyramids x y →
      batches (.approx iteration (order.along stop) samples) first second →
        Alike pyramids (x.refine order 0 stop first) (y.refine order 0 stop second)
  refinedCounts_eq : ∀ {x y : PyramidSums α}, pyramids x y →
    ∀ model, x.refinedCounts model = y.refinedCounts model
  rawMoments : ∀ {x y : JointSums α 4} {x' y' : PyramidSums α}, sums x y → pyramids x' y' →
    Lockstep moments (rawMoments x x') (rawMoments y y')

/-- Batches that have the same effect on all sums of the size of an ensemble. Everything else that
the runs keep is equal. -/
def Coupling.ofBatches {α : Type} [Scalar α] {dims : Dimensions}
    (batches : Call → Batch α → Batch α → Prop)
    (length_eq : ∀ {call first second}, batches call first second → first.length = second.length)
    (accumulate : ∀ {M : ℕ} {sums : JointSums α M} {iteration samples : ℕ} {first second : Batch α},
      sums.Sized dims → batches (.shared iteration samples) first second →
        sums.accumulate first = sums.accumulate second)
    (refine : ∀ {sums : PyramidSums α} {order : ModelOrder} {iteration stop samples : ℕ}
      {first second : Batch α}, sums.Sized dims →
        batches (.approx iteration (order.along stop) samples) first second →
          sums.refine order 0 stop first = sums.refine order 0 stop second) :
    Coupling α dims where
  batches := batches
  sums x y := x = y ∧ x.Sized dims
  pyramids x y := x = y ∧ x.Sized dims
  correlations := Eq
  moments := Eq
  length_eq := length_eq
  empty _ := ⟨rfl, JointSums.sized_empty dims⟩
  accumulate := by
    rintro M x _ iteration samples first second ⟨rfl, hsized⟩ hbatches
    rw [← accumulate hsized hbatches]
    cases hresult : x.accumulate first with
    | ok result => exact .ok ⟨rfl, hsized.accumulate hresult⟩
    | error failure => exact .error failure
  counts_eq := by
    rintro M x _ ⟨rfl, -⟩
    rfl
  estimate := by
    rintro m x _ ⟨rfl, -⟩
    exact .refl _
  varHigh_eq := by
    rintro x _ rfl
    rfl
  ofJoint := by
    rintro x _ ⟨rfl, hsized⟩
    exact ⟨rfl, PyramidSums.sized_ofJoint hsized⟩
  refine := by
    rintro x _ order iteration stop samples first second ⟨rfl, hsized⟩ hbatches
    rw [← refine hsized hbatches]
    cases hresult : x.refine order 0 stop first with
    | ok result => exact .ok ⟨rfl, hsized.refine hresult⟩
    | error failure => exact .error failure
  refinedCounts_eq := by
    rintro x _ ⟨rfl, -⟩ model
    rfl
  rawMoments := by
    rintro x _ x' _ ⟨rfl, -⟩ ⟨rfl, -⟩
    exact .refl _

/-- Reports that are equal except for the moments, which are related. -/
structure Report.Agrees {α : Type} (moments : List (Vector α 4) → List (Vector α 4) → Prop)
    (first second : Report α) : Prop where
  rest : { first with rawMoments := none } = { second with rawMoments := none }
  moments : Option.Rel moments first.rawMoments second.rawMoments

theorem Report.Agrees.eq {α : Type} {first second : Report α} (h : first.Agrees Eq second) :
    first = second := by
  obtain ⟨hrest, hmoments⟩ := h
  have hsame : first.rawMoments = second.rawMoments := by
    generalize first.rawMoments = x, second.rawMoments = y at hmoments
    cases hmoments with
    | some h => rw [h]
    | none => rfl
  cases first
  cases second
  simp_all

section Data

variable {σ τ α : Type}

/-- The same cost has been charged, and the states of the ensembles are related. -/
structure Bench.Coupled (states : σ → τ → Prop) (first : Bench σ α) (second : Bench τ α) :
    Prop where
  state : states first.state second.state
  spent : first.spent = second.spent

variable [Scalar α] {dims : Dimensions} (coupling : Coupling α dims)

/-- The same allocation, based on related second moments. -/
structure Allocation.Coupled (first second : Allocation α) : Prop where
  correlations : coupling.correlations first.correlations second.correlations
  evalRatios : first.evalRatios = second.evalRatios
  varianceRatios : first.varianceRatios = second.varianceRatios

/-- The same progress, based on related sums. -/
structure Progress.Coupled (states : σ → τ → Prop) (first : Progress σ α)
    (second : Progress τ α) : Prop where
  bench : first.bench.Coupled states second.bench
  sums : coupling.sums first.sums second.sums
  pilot : first.pilot = second.pilot
  allocation : first.allocation.Coupled coupling second.allocation
  checkpoints : first.checkpoints = second.checkpoints
  iterations : first.iterations = second.iterations
  pending : first.pending = second.pending

/-- The same number of refinements, with related sums. -/
structure Refinement.Coupled (states : σ → τ → Prop) (first : Refinement σ α)
    (second : Refinement τ α) : Prop where
  bench : first.bench.Coupled states second.bench
  pyramid : coupling.pyramids first.pyramid second.pyramid
  drawn : first.drawn = second.drawn

/-- Plans with the same settings whose ensembles keep giving related answers. Related second
moments lead to the same allocation, and all charges agree. -/
structure Plan.Coupled (states : σ → τ → Prop) (first : Plan σ α) (second : Plan τ α) : Prop where
  dims_first : first.ensemble.dims = dims
  dims_second : second.ensemble.dims = dims
  settings : first.settings = second.settings
  batch : ∀ call {s t}, states s t →
    coupling.batches call (first.ensemble.respond call s).1 (second.ensemble.respond call t).1
  state : ∀ call {s t}, states s t →
    states (first.ensemble.respond call s).2 (second.ensemble.respond call t).2
  equivalents : ∀ models samples,
    first.costs.equivalents dims.numApprox models samples =
      second.costs.equivalents dims.numApprox models samples
  evalRatios : ∀ {x y : Correlations α} (counts : List ℕ) (spent : α)
    (pilotVariance : Option (List α)) (previous previous' : Option (Allocation α)),
    coupling.correlations x y →
    previous.map (·.evalRatios.solution) = previous'.map (·.evalRatios.solution) →
      ((first.ratioInputs x counts spent pilotVariance previous).evalRatios
        first.optimizer).outcome =
      ((second.ratioInputs y counts spent pilotVariance previous').evalRatios
        second.optimizer).outcome

end Data

variable {σ τ α : Type} [Scalar α] {dims : Dimensions} {coupling : Coupling α dims}
  {states : σ → τ → Prop}

/-! ## Allocations -/

section Allocation

variable {x y : Allocation α} (h : x.Coupled coupling y)
include h

theorem Allocation.Coupled.checkpoint (iteration samples : ℕ) (highCounts : List ℕ) (spent : α)
    (nextSamples : ℕ) : x.checkpoint iteration samples highCounts spent nextSamples =
      y.checkpoint iteration samples highCounts spent nextSamples := by
  unfold Allocation.checkpoint
  rw [coupling.varHigh_eq h.correlations, h.evalRatios, h.varianceRatios]

theorem Allocation.Coupled.realize (highCounts : List ℕ) :
    (x.realize highCounts).Coupled coupling (y.realize highCounts) where
  correlations := h.correlations
  evalRatios := h.evalRatios
  varianceRatios := by
    unfold Allocation.realize
    rw [h.evalRatios]

theorem Allocation.Coupled.lowTargets : x.lowTargets = y.lowTargets := by
  funext model
  unfold Allocation.lowTargets
  rw [h.evalRatios]

end Allocation

namespace Plan.Coupled

variable {first : Plan σ α} {second : Plan τ α} (h : first.Coupled coupling states second)
include h

/-! ## Increments -/

theorem numApprox_eq : first.numApprox = second.numApprox := by
  rw [numApprox, numApprox, h.dims_first, h.dims_second]

/-- The ensembles answer a call alike. -/
theorem draw (call : Call) {x : Bench σ α} {y : Bench τ α} (hbench : x.Coupled states y) :
    Lockstep (fun answer answer' => coupling.batches call answer.1 answer'.1 ∧
      answer.2.Coupled states answer'.2) (first.draw call x) (second.draw call y) where
  moves := rfl
  outcome := .ok ⟨h.batch call hbench.state, h.state call hbench.state, hbench.spent⟩

theorem charge (models : List ℕ) (samples : ℕ) {x : Bench σ α} {y : Bench τ α}
    (hbench : x.Coupled states y) :
    (first.charge models samples x).Coupled states (second.charge models samples y) where
  state := hbench.state
  spent := by
    unfold Plan.charge
    rw [numApprox, numApprox, h.dims_first, h.dims_second, h.equivalents, hbench.spent]

theorem sharedIncrement {M : ℕ} (iteration samples : ℕ) (charged : Bool) {x y : JointSums α M}
    (hsums : coupling.sums x y) {b : Bench σ α} {b' : Bench τ α} (hbench : b.Coupled states b') :
    Lockstep (fun drawn drawn' => coupling.sums drawn.sums drawn'.sums ∧
        drawn.bench.Coupled states drawn'.bench)
      (first.sharedIncrement iteration samples charged x b)
      (second.sharedIncrement iteration samples charged y b') := by
  unfold Plan.sharedIncrement
  refine .bind (.log _ _) fun _ _ _ => ?_
  refine .bind (h.draw _ hbench) fun ⟨batch, c⟩ ⟨batch', c'⟩ ⟨hbatch, hc⟩ => ?_
  refine .bind (.ofExcept (coupling.accumulate hsums hbatch)) fun sums sums' hsums' => ?_
  refine .pure ⟨hsums', ?_⟩
  dsimp only at hbatch hc ⊢
  cases charged with
  | false => exact hc
  | true =>
    rw [if_pos rfl, if_pos rfl, coupling.length_eq hbatch, h.numApprox_eq]
    exact h.charge _ _ hc

/-- The allocation is the same, whatever is logged about it. -/
theorem allocate {x y : Correlations α} (hxy : coupling.correlations x y) (counts : List ℕ)
    (spent : α) (pilotVariance : Option (List α)) {previous previous' : Option (Allocation α)}
    (hprevious : previous.map (·.evalRatios.solution) = previous'.map (·.evalRatios.solution)) :
    Lockstep (Allocation.Coupled coupling)
      (first.allocate x counts spent pilotVariance previous)
      (second.allocate y counts spent pilotVariance previous') := by
  unfold Plan.allocate
  have houtcome := h.evalRatios counts spent pilotVariance previous previous' hxy hprevious
  -- an optimizer may be consulted about different problems, but that is no move
  refine .bind (.of_internal RatioInputs.only_evalRatios RatioInputs.only_evalRatios
    (.of_eq houtcome)) ?_
  rintro evalRatios _ rfl
  exact .bind (.logAll _ _) fun _ _ _ => .pure ⟨hxy, rfl, rfl⟩

theorem pilot (charged : Bool) {s : σ} {t : τ} (hstates : states s t) :
    Lockstep (fun x y => coupling.correlations x.correlations y.correlations ∧
        x.counts = y.counts ∧ x.bench.Coupled states y.bench)
      (first.pilot charged s) (second.pilot charged t) := by
  unfold Plan.pilot
  rw [h.dims_first, h.dims_second, h.settings]
  refine .bind (h.sharedIncrement _ _ _ (coupling.empty 1) ⟨hstates, rfl⟩) ?_
  intro drawn drawn' ⟨hsums, hbench⟩
  refine .bind (.ofExcept (coupling.estimate hsums)) fun x y hxy => ?_
  exact .pure ⟨hxy, coupling.counts_eq hsums, hbench⟩

/-! ## Refinements -/

/-- One refinement keeps the runs in lockstep. -/
theorem approxIncrement (iteration : ℕ) {x y : Allocation α} (hxy : x.Coupled coupling y)
    (stop : ℕ) {r : Refinement σ α} {r' : Refinement τ α} (hr : r.Coupled coupling states r') :
    Lockstep (Refinement.Coupled coupling states)
      (first.approxIncrement iteration x stop r) (second.approxIncrement iteration y stop r') := by
  unfold Plan.approxIncrement
  refine .bind (.log _ _) fun _ _ _ => ?_
  dsimp only
  -- the counts agree, and with them what the model at this position lacks
  rw [hxy.evalRatios, hxy.lowTargets, coupling.refinedCounts_eq hr.pyramid]
  split
  · exact .pure hr
  · refine .bind (h.draw _ hr.bench) fun ⟨batch, c⟩ ⟨batch', c'⟩ ⟨hbatch, hc⟩ => ?_
    refine .bind (.ofExcept (coupling.refine hr.pyramid hbatch)) fun pyramid pyramid' hpyramid => ?_
    dsimp only at hbatch hc ⊢
    have hlength := coupling.length_eq hbatch
    have hempty : batch.isEmpty = batch'.isEmpty := by
      rw [Bool.eq_iff_iff, List.isEmpty_iff_length_eq_zero, List.isEmpty_iff_length_eq_zero,
        hlength]
    refine .pure ⟨?_, hpyramid, ?_⟩
    · rw [hlength]
      exact h.charge _ _ hc
    · rw [hr.drawn, hempty]

/-- The refinements on all ranges below a position, by induction on the position. -/
theorem refineBelow (iteration : ℕ) {x y : Allocation α} (hxy : x.Coupled coupling y)
    (stop : ℕ) {r : Refinement σ α} {r' : Refinement τ α} (hr : r.Coupled coupling states r') :
    Lockstep (Refinement.Coupled coupling states)
      (first.refineBelow iteration x stop r) (second.refineBelow iteration y stop r') := by
  induction stop generalizing r r' with
  | zero => exact .pure hr
  | succ stop ih => exact .bind (h.approxIncrement iteration hxy _ hr) fun _ _ hnext => ih hnext

theorem refine (iteration : ℕ) {x y : Allocation α} (hxy : x.Coupled coupling y)
    {u v : JointSums α 4} (huv : coupling.sums u v) {b : Bench σ α} {b' : Bench τ α}
    (hbench : b.Coupled states b') :
    Lockstep (Refinement.Coupled coupling states)
      (first.refine iteration x u b) (second.refine iteration y v b') := by
  unfold Plan.refine
  rw [h.numApprox_eq]
  refine .bind (h.refineBelow iteration hxy _ ⟨hbench, coupling.ofJoint huv, rfl⟩) ?_
  intro r r' hr
  exact .bind (.log _ _) fun _ _ _ => .pure hr

/-- What follows the last shared increment. -/
theorem finish (iterations : ℕ) {x y : Allocation α} (hxy : x.Coupled coupling y)
    {u v : JointSums α 4} (huv : coupling.sums u v) {b : Bench σ α} {b' : Bench τ α}
    (hbench : b.Coupled states b') (pilot : Option (Pilot α)) (warnings : List Warning) :
    Lockstep (Report.Agrees coupling.moments)
      (first.finish iterations x u b pilot warnings)
      (second.finish iterations y v b' pilot warnings) := by
  unfold Plan.finish
  refine .bind (h.refine iterations hxy huv hbench) fun r r' hr => ?_
  refine .bind (coupling.rawMoments huv hr.pyramid) fun moments moments' hmoments => ?_
  refine .bind (.log _ _) fun _ _ _ => ?_
  refine .pure ⟨?_, .some hmoments⟩
  have hlow : r.pyramid.refinedCounts = r'.pyramid.refinedCounts :=
    funext (coupling.refinedCounts_eq hr.pyramid)
  rw [h.settings, h.numApprox_eq, hxy.evalRatios, hxy.varianceRatios,
    coupling.varHigh_eq hxy.correlations, coupling.counts_eq huv, hr.bench.spent, hlow]

/-! ## Online runs -/

/-- One step keeps the runs in lockstep. -/
theorem step {before : Option (Progress σ α)} {before' : Option (Progress τ α)}
    (hbefore : Option.Rel (Progress.Coupled coupling states) before before')
    (iteration samples : ℕ) {b : Bench σ α} {b' : Bench τ α} (hbench : b.Coupled states b')
    {x y : JointSums α 4} (hsums : coupling.sums x y) :
    Lockstep (Progress.Coupled coupling states)
      (first.step before iteration samples b x) (second.step before' iteration samples b' y) := by
  -- what a step takes over from the one before is the same in both runs
  have hpilot : before.map Progress.pilot = before'.map Progress.pilot := by
    cases hbefore with
    | some hbefore => exact congrArg some hbefore.pilot
    | none => rfl
  have hcheckpoints : before.map Progress.checkpoints = before'.map Progress.checkpoints := by
    cases hbefore with
    | some hbefore => exact congrArg some hbefore.checkpoints
    | none => rfl
  have hprevious : (before.map Progress.allocation).map (·.evalRatios.solution) =
      (before'.map Progress.allocation).map (·.evalRatios.solution) := by
    cases hbefore with
    | some hbefore => exact congrArg (some ·.solution) hbefore.allocation.evalRatios
    | none => rfl
  unfold Plan.step
  refine .bind (h.sharedIncrement iteration samples true hsums hbench) ?_
  intro drawn drawn' ⟨hdrawn, hdrawnBench⟩
  refine .bind (.ofExcept (coupling.estimate hdrawn)) fun u v huv => ?_
  have hcounts := coupling.counts_eq hdrawn
  have hvar := coupling.varHigh_eq huv
  have hof : Pilot.of u drawn.sums.counts = Pilot.of v drawn'.sums.counts := by
    rw [Pilot.of, Pilot.of, hvar, hcounts]
  dsimp only
  rw [hpilot, hcheckpoints, hof, hcounts, hdrawnBench.spent]
  refine .bind (h.allocate huv _ _ _ hprevious) fun allocation allocation' hallocation => ?_
  rw [hallocation.checkpoint, hallocation.evalRatios]
  refine .bind_self _ fun checkpoints => ?_
  exact .pure ⟨hdrawnBench, hdrawn, rfl, hallocation, rfl, rfl, rfl⟩

/-- Any number of steps, by induction on the limit. -/
theorem iterate (limit : ℕ) {p : Progress σ α} {q : Progress τ α}
    (hpq : p.Coupled coupling states q) :
    Lockstep (Progress.Coupled coupling states) (first.iterate limit p)
      (second.iterate limit q) := by
  induction limit generalizing p q with
  | zero => exact .pure hpq
  | succ limit ih =>
    unfold Plan.iterate
    rw [hpq.pending, hpq.iterations]
    split
    · exact .pure hpq
    · exact .bind (h.step (.some hpq) _ _ hpq.bench hpq.sums) fun _ _ hnext => ih hnext

theorem online {s : σ} {t : τ} (hstates : states s t) :
    Lockstep (Report.Agrees coupling.moments) (first.online s) (second.online t) := by
  unfold Plan.online
  rw [h.dims_first, h.dims_second, h.settings]
  refine .bind (h.step .none _ _ ⟨hstates, rfl⟩ (coupling.empty 4)) fun p q hpq => ?_
  refine .bind (h.iterate _ hpq) fun last last' hlast => ?_
  refine .bind (.logAll _ _) fun _ _ _ => ?_
  have hlimited : limitWarnings last = limitWarnings last' := by
    rw [limitWarnings, limitWarnings, hlast.pending, hlast.iterations]
  rw [hlast.iterations, hlast.allocation.evalRatios, hlast.pilot, hlimited]
  exact h.finish _ hlast.allocation hlast.sums hlast.bench _ _

/-! ## Other runs -/

theorem offline {s : σ} {t : τ} (hstates : states s t) :
    Lockstep (Report.Agrees coupling.moments) (first.offline s) (second.offline t) := by
  unfold Plan.offline
  refine .bind (h.pilot false hstates) fun pilot pilot' ⟨hcorrelations, hcounts, hbench⟩ => ?_
  rw [hcounts, hbench.spent]
  refine .bind (h.allocate hcorrelations _ _ none (by rfl)) fun planned planned' hplanned => ?_
  rw [hplanned.checkpoint, h.settings]
  refine .bind_self _ fun checkpoints => ?_
  have hsamples : first.offlineSamples planned = second.offlineSamples planned' := by
    rw [offlineSamples, offlineSamples, h.dims_first, h.dims_second, hplanned.evalRatios]
  rw [h.dims_first, h.dims_second, hsamples]
  refine .bind (h.sharedIncrement _ _ _ (coupling.empty 4) hbench) ?_
  intro drawn drawn' ⟨hsums, hdrawn⟩
  have hallocation := hplanned.realize drawn'.sums.counts
  dsimp only
  rw [coupling.counts_eq hsums, hallocation.checkpoint, hallocation.evalRatios, hdrawn.spent]
  refine .bind_self _ fun _ => ?_
  exact h.finish _ hallocation hsums hdrawn _ _

theorem projection {s : σ} {t : τ} (hstates : states s t) :
    Lockstep (Report.Agrees coupling.moments) (first.projection s) (second.projection t) := by
  unfold Plan.projection
  refine .bind (h.pilot true hstates) fun pilot pilot' ⟨hcorrelations, hcounts, hbench⟩ => ?_
  have hof : Pilot.of pilot.correlations pilot.counts =
      Pilot.of pilot'.correlations pilot'.counts := by
    rw [Pilot.of, Pilot.of, coupling.varHigh_eq hcorrelations, hcounts]
  dsimp only
  rw [hof, hcounts, hbench.spent]
  refine .bind (h.allocate hcorrelations _ _ _ (by rfl)) fun planned planned' hplanned => ?_
  rw [hplanned.evalRatios, hplanned.lowTargets, h.numApprox_eq, h.settings]
  have hallocation := hplanned.realize
    (projected pilot'.counts planned'.evalRatios.highTargets)
  rw [hallocation.checkpoint, hallocation.evalRatios, hallocation.varianceRatios,
    coupling.varHigh_eq hallocation.correlations]
  refine .bind_self _ fun _ => ?_
  exact .bind (.log _ _) fun _ _ _ => .pure ⟨rfl, .none⟩

/-- Coupled plans make the same moves, and they fail alike or end with reports that agree. -/
theorem execute {s : σ} {t : τ} (hstates : states s t) :
    Lockstep (Report.Agrees coupling.moments) (first.execute s) (second.execute t) := by
  unfold Plan.execute
  rw [h.settings]
  split
  · exact h.online hstates
  · exact h.offline hstates
  · exact h.projection hstates

end Plan.Coupled

/-! ## Runs -/

/-- Runs with the same target are checked alike if their costs are. -/
theorem Plan.alike_check (optimizer : Optimizer α) {first : Ensemble σ α} {second : Ensemble τ α}
    (settings settings' : Settings α) (htarget : settings.target = settings'.target)
    (hdims : first.dims = second.dims) {R : Costs α → Costs α → Prop}
    (hcosts : Alike R (Costs.check first.dims.numApprox first.costs)
      (Costs.check first.dims.numApprox second.costs)) :
    Alike (fun p q => ∃ target costs costs', R costs costs' ∧
        p = ⟨first, settings, optimizer, target, costs⟩ ∧
        q = ⟨second, settings', optimizer, target, costs'⟩)
      (check first settings optimizer) (check second settings' optimizer) := by
  unfold check
  rw [htarget]
  refine .bind_self _ fun target => ?_
  dsimp only
  rw [← hdims]
  split
  · exact .error _
  · exact hcosts.bind fun costs costs' h => .ok ⟨target, costs, costs', h, rfl, rfl⟩

/-- Runs are in lockstep if their costs are refused alike and lead to coupled plans. -/
theorem sampleWith_lockstep (coupling : Coupling α dims) (states : σ → τ → Prop)
    (optimizer : Optimizer α) {first : Ensemble σ α} {second : Ensemble τ α}
    (settings : Settings α) {s : σ} {t : τ} (hstates : states s t)
    (hdims : first.dims = second.dims) {R : Costs α → Costs α → Prop}
    (hcosts : Alike R (Costs.check first.dims.numApprox first.costs)
      (Costs.check first.dims.numApprox second.costs))
    (hcoupled : ∀ target costs costs', R costs costs' →
      Plan.Coupled coupling states ⟨first, settings, optimizer, target, costs⟩
        ⟨second, settings, optimizer, target, costs'⟩) :
    Lockstep (Report.Agrees coupling.moments) (sampleWith optimizer first settings s)
      (sampleWith optimizer second settings t) := by
  unfold sampleWith
  refine .bind (.ofExcept (Plan.alike_check optimizer settings settings rfl hdims hcosts)) ?_
  rintro _ _ ⟨target, costs, costs', hrelated, rfl, rfl⟩
  exact (hcoupled target costs costs' hrelated).execute hstates

end Multifidelity
