import Multifidelity.Proofs.Allocation.Targets
import Multifidelity.Proofs.Run.Plan
import Multifidelity.Proofs.Shortfall
import Multifidelity.Proofs.Sums.Pyramid

/-!
# Refinement of the low-fidelity models

The low-fidelity models are refined on nested ranges of the model order. Before each increment the
models at the positions of its range have the same count, and the increment brings the last one of
them to its target. As targets do not increase along the order, a model needs no samples beyond its
own target, rounded up.

## Main definitions

* `Refinement.Level`: equal counts at the positions of a range

## Main results

* `Refinement.Level.approxIncrement`: one increment
* `Refinement.Level.refineBelow`: the increments on all ranges
* `Plan.exists_spent_le_of_finish`: the cost of a run after its last shared increment
-/

namespace Multifidelity

open ExactReal

/-! ## Outcomes -/

namespace Plan

variable {σ α : Type} [Scalar α] {plan : Plan σ α} {iteration : ℕ} {allocation : Allocation α}

/-- An increment on the positions before `stop` draws as many samples as the last one of them lacks,
unless it lacks none. -/
theorem approxIncrement_eq_ok {stop : ℕ} {refinement next : Refinement σ α}
    (h : (plan.approxIncrement iteration allocation stop refinement).outcome = .ok next) :
    let order := allocation.evalRatios.solution.order
    let model := order.model (stop - 1)
    let samples :=
      increment (refinement.pyramid.refinedCounts model) (allocation.lowTargets model) 1
    let answer := plan.answer (.approx iteration (order.along stop) samples) refinement.bench
    samples = 0 ∧ next = refinement ∨
      samples ≠ 0 ∧ refinement.pyramid.refine order 0 stop answer.1 = .ok next.pyramid ∧
        next.bench = plan.charge (order.along stop) answer.1.length
          ⟨answer.2, refinement.bench.spent⟩ := by
  intro order model samples answer
  unfold approxIncrement at h
  obtain ⟨-, -, h⟩ := Recorder.outcome_bind_eq_ok.mp h
  dsimp only at h
  split at h
  · rename_i hnone
    cases h
    exact Or.inl ⟨hnone, rfl⟩
  · rename_i hsome
    obtain ⟨⟨batch, bench⟩, hdrawn, h⟩ := Recorder.outcome_bind_eq_ok.mp h
    rw [outcome_draw] at hdrawn
    cases hdrawn
    obtain ⟨pyramid, hpyramid, h⟩ := Recorder.outcome_bind_eq_ok.mp h
    cases h
    exact Or.inr ⟨hsome, hpyramid, rfl⟩

/-- A report is about the state after all refinements. -/
theorem finish_eq_ok {iterations : ℕ} {sums : JointSums α 4} {bench : Bench σ α}
    {pilot : Option (Pilot α)} {warnings : List Warning} {report : Report α}
    (h : (plan.finish iterations allocation sums bench pilot warnings).outcome = .ok report) :
    ∃ last, (plan.refineBelow iterations allocation plan.numApprox
        ⟨bench, .ofJoint sums, 0⟩).outcome = .ok last ∧
      report.spent = last.bench.spent ∧ report.solution = allocation.evalRatios.solution := by
  unfold finish refine at h
  obtain ⟨refinement, hrefinement, h⟩ := Recorder.outcome_bind_eq_ok.mp h
  obtain ⟨last, hlast, hrefinement⟩ := Recorder.outcome_bind_eq_ok.mp hrefinement
  obtain ⟨-, -, hrefinement⟩ := Recorder.outcome_bind_eq_ok.mp hrefinement
  obtain ⟨moments, -, h⟩ := Recorder.outcome_bind_eq_ok.mp h
  obtain ⟨-, -, h⟩ := Recorder.outcome_bind_eq_ok.mp h
  cases hrefinement
  cases h
  exact ⟨_, hlast, rfl, rfl⟩

theorem approxIncrement_of_reached {stop : ℕ} {refinement : Refinement σ α}
    (h : increment
      (refinement.pyramid.refinedCounts (allocation.evalRatios.solution.order.model (stop - 1)))
      (allocation.lowTargets (allocation.evalRatios.solution.order.model (stop - 1))) 1 = 0) :
    (plan.approxIncrement iteration allocation stop refinement).outcome = .ok refinement := by
  unfold approxIncrement
  rw [Recorder.bind_of_ok (outcome_log _)]
  dsimp only
  rw [if_pos h]
  rfl

theorem refineBelow_of_reached {stop : ℕ} {refinement : Refinement σ α}
    (h : ∀ i < stop, increment
      (refinement.pyramid.refinedCounts (allocation.evalRatios.solution.order.model i))
      (allocation.lowTargets (allocation.evalRatios.solution.order.model i)) 1 = 0) :
    (plan.refineBelow iteration allocation stop refinement).outcome = .ok refinement := by
  induction stop with
  | zero => rfl
  | succ stop ih =>
    have hfirst : (plan.approxIncrement iteration allocation (stop + 1) refinement).outcome =
        .ok refinement := approxIncrement_of_reached (h stop (Nat.lt_succ_self stop))
    exact Recorder.outcome_bind_eq_ok.mpr ⟨_, hfirst, ih fun i hi => h i (by omega)⟩

theorem exists_rawMoments {sums : JointSums α 4} (h : ∀ count ∈ sums.counts, count ≠ 0)
    (pyramid : PyramidSums α) : ∃ moments, (rawMoments sums pyramid).outcome = .ok moments := by
  refine Recorder.exists_mapM fun ((qoiSums, tallies), qoi) hmem => ?_
  have hzip := List.mem_of_getElem? (List.mk_mem_zipIdx_iff_getElem?.mp hmem)
  have hqoi : qoiSums ∈ sums.qois := (List.of_mem_zip hzip).1
  have hcount := h qoiSums.count (List.mem_map_of_mem hqoi)
  unfold QoiSums.rawMoments
  dsimp only
  rw [if_neg hcount]
  exact ⟨_, rfl⟩

/-- A run ends with a report if the targets of all low-fidelity models have been reached. -/
theorem exists_finish_of_reached {sums : JointSums α 4}
    (hcounts : ∀ count ∈ sums.counts, count ≠ 0)
    (h : ∀ i < plan.numApprox, increment
      ((PyramidSums.ofJoint sums).refinedCounts (allocation.evalRatios.solution.order.model i))
      (allocation.lowTargets (allocation.evalRatios.solution.order.model i)) 1 = 0)
    (iterations : ℕ) (bench : Bench σ α) (pilot : Option (Pilot α)) (warnings : List Warning) :
    ∃ report, (plan.finish iterations allocation sums bench pilot warnings).outcome =
        .ok report ∧ report.solution = allocation.evalRatios.solution := by
  have hrefinement : (plan.refine iterations allocation sums bench).outcome =
      .ok ⟨bench, .ofJoint sums, 0⟩ :=
    Recorder.outcome_bind_eq_ok.mpr ⟨_, refineBelow_of_reached h, rfl⟩
  obtain ⟨moments, hmoments⟩ := exists_rawMoments hcounts (.ofJoint sums)
  refine ⟨_, Recorder.outcome_bind_eq_ok.mpr ⟨_, hrefinement,
    Recorder.outcome_bind_eq_ok.mpr ⟨moments, hmoments, rfl⟩⟩, rfl⟩

end Plan

/-! ## Levels -/

section Level

variable {σ : Type} {plan : Plan σ ExactReal} {cs : List ℝ} {iteration : ℕ}
  {allocation : Allocation ExactReal} {refinement : Refinement σ ExactReal}
  {stop count : ℕ} {spent : ℝ}

/-- The models at the positions before `stop` have the same count at all QoI. -/
structure Refinement.Level (dims : Dimensions) (order : ModelOrder) (stop count : ℕ) (spent : ℝ)
    (refinement : Refinement σ ExactReal) : Prop where
  sized : refinement.pyramid.Sized dims
  counts : ∀ i < stop, refinement.pyramid.refinedCounts (order.model i) =
    List.replicate dims.numFunctions count
  spent : refinement.bench.spent = real spent

/-- Samples that all models lack are no longer missing once they have been drawn. -/
theorem sum_missing_le {caps : ℕ → ℕ} {w : ℕ → ℝ} {samples : ℕ} (hw : ∀ i ≤ stop, 0 ≤ w i)
    (hmissing : ∀ i ≤ stop, samples ≤ caps i - count) :
    samples * ∑ i ∈ Finset.range (stop + 1), w i +
        ∑ i ∈ Finset.range stop, ((caps i - (count + samples) : ℕ) : ℝ) * w i ≤
      ∑ i ∈ Finset.range (stop + 1), ((caps i - count : ℕ) : ℝ) * w i := by
  have hbelow : ∀ i ∈ Finset.range stop,
      ((caps i - count : ℕ) : ℝ) * w i =
        samples * w i + ((caps i - (count + samples) : ℕ) : ℝ) * w i := by
    intro i hi
    have hsamples := hmissing i (Finset.mem_range.mp hi).le
    have hsplit : caps i - count = samples + (caps i - (count + samples)) := by omega
    rw [hsplit, Nat.cast_add, add_mul]
  have hlast : (samples : ℝ) * w stop ≤ ((caps stop - count : ℕ) : ℝ) * w stop :=
    mul_le_mul_of_nonneg_right (Nat.cast_le.mpr (hmissing stop le_rfl)) (hw stop le_rfl)
  rw [Finset.sum_range_succ, Finset.sum_range_succ, Finset.sum_congr rfl hbelow,
    Finset.sum_add_distrib, mul_add, Finset.mul_sum]
  linarith

variable {order : ModelOrder} (hfaultless : plan.ensemble.Faultless) (hpriced : plan.Priced cs)
  (horder : order.Valid plan.numApprox) (hsame : allocation.evalRatios.solution.order = order)
include hfaultless hpriced horder hsame

/-- An increment keeps the counts equal, and it is charged for all models of its range. -/
theorem Refinement.Level.approxIncrement (hstop : stop < plan.numApprox)
    (h : refinement.Level plan.ensemble.dims order (stop + 1) count spent)
    {next : Refinement σ ExactReal}
    (hnext : (plan.approxIncrement iteration allocation (stop + 1) refinement).outcome = .ok next) :
    ∃ samples,
      samples = increment (List.replicate plan.ensemble.dims.numFunctions count)
        (allocation.lowTargets (order.model stop)) 1 ∧
      next.Level plan.ensemble.dims order (stop + 1) (count + samples)
        (spent + samples * ∑ i ∈ Finset.range (stop + 1),
          weight cs plan.numApprox (order.model i)) := by
  -- the count of the last model decides, and it is the count of all of them
  have hinversion := Plan.approxIncrement_eq_ok hnext
  dsimp only at hinversion
  rw [hsame, Nat.add_sub_cancel, h.counts stop (Nat.lt_succ_self stop)] at hinversion
  refine ⟨_, rfl, ?_⟩
  generalize increment (List.replicate plan.ensemble.dims.numFunctions count)
    (allocation.lowTargets (order.model stop)) 1 = samples at hinversion ⊢
  rcases hinversion with ⟨rfl, rfl⟩ | ⟨-, hpyramid, hbench⟩
  · simpa using h
  · have hdrawn : (plan.answer (.approx iteration (order.along (stop + 1)) samples)
        refinement.bench).1.length = samples := hfaultless.length _ refinement.bench.state
    refine ⟨h.sized.refine hpyramid, fun i hi => ?_, ?_⟩
    · rw [PyramidSums.refinedCounts_refine h.sized horder hstop hi hpyramid, h.counts i hi,
        List.map_replicate, hdrawn]
      intro response hresponse qoi hqoi
      refine hfaultless.value _ refinement.bench.state response hresponse _
        (horder.model_lt (by omega)).le ?_ qoi hqoi
      exact List.mem_map_of_mem (List.mem_range.mpr hi)
    · rw [hbench, h.spent, hdrawn]
      exact Plan.charge_along hpriced _ _ _ _ _

/-- Refinements on all ranges cost no more than the models need on their own to reach the least
counts that cover their targets. -/
theorem Refinement.Level.refineBelow (caps : ℕ → ℕ)
    (hcaps : ∀ i < stop, ∀ n, increment (List.replicate plan.ensemble.dims.numFunctions n)
      (allocation.lowTargets (order.model i)) 1 ≤ caps i - n)
    (hanti : ∀ i j, i < j → j < stop → caps j ≤ caps i) (hstop : stop ≤ plan.numApprox)
    (h : refinement.Level plan.ensemble.dims order stop count spent)
    {last : Refinement σ ExactReal}
    (hlast : (plan.refineBelow iteration allocation stop refinement).outcome = .ok last) :
    ∃ final, last.bench.spent = real final ∧ spent ≤ final ∧
      final ≤ spent + ∑ i ∈ Finset.range stop,
        ((caps i - count : ℕ) : ℝ) * weight cs plan.numApprox (order.model i) := by
  -- the range shrinks by its last position, and the counts below have grown equally
  induction stop generalizing refinement count spent with
  | zero =>
    cases hlast
    exact ⟨spent, h.spent, le_rfl, by simp⟩
  | succ stop ih =>
    unfold Plan.refineBelow at hlast
    obtain ⟨next, hnext, hlast⟩ := Recorder.outcome_bind_eq_ok.mp hlast
    obtain ⟨samples, hsamples, hlevel⟩ :=
      h.approxIncrement hfaultless hpriced horder hsame hstop hnext
    have hlevel' : next.Level plan.ensemble.dims order stop _ _ :=
      { hlevel with counts := fun i hi => hlevel.counts i (by omega) }
    obtain ⟨final, hfinal, hlower, hupper⟩ :=
      ih (fun i hi => hcaps i (by omega)) (fun i j hij hj => hanti i j hij (by omega)) (by omega)
        hlevel' hlast
    have hweight : ∀ i ∈ Finset.range (stop + 1), 0 ≤ weight cs plan.numApprox (order.model i) := by
      intro i hi
      have hi := Finset.mem_range.mp hi
      exact (weight_pos hpriced.length hpriced.pos (horder.model_lt (by omega)).le).le
    have hle : samples ≤ caps stop - count := by
      rw [hsamples]
      exact hcaps stop (Nat.lt_succ_self stop) count
    refine ⟨final, hfinal, le_trans ?_ hlower, hupper.trans ?_⟩
    · exact le_add_of_nonneg_right
        (mul_nonneg (Nat.cast_nonneg samples) (Finset.sum_nonneg hweight))
    · have hmissing : ∀ i ≤ stop, samples ≤ caps i - count := fun i hi => by
        rcases Nat.lt_or_eq_of_le hi with hlt | rfl
        · have hcap := hanti i stop hlt (Nat.lt_succ_self stop)
          omega
        · exact hle
      have hsum := sum_missing_le
        (fun i hi => hweight i (Finset.mem_range.mpr (Nat.lt_succ_of_le hi))) hmissing
      linarith

end Level

/-! ## After the last shared increment -/

section Finish

variable {σ : Type} {plan : Plan σ ExactReal} {cs : List ℝ} {allocation : Allocation ExactReal}
  {count : ℕ} {limit high : ℝ} {low : ℕ → ℝ}

theorem EvalRatios.Within.lowTargets_le {dims : Dimensions}
    (h : allocation.evalRatios.Within cs dims limit high low) {model : ℕ}
    (hmodel : model < dims.numApprox) :
    ∀ target ∈ allocation.lowTargets model, target ≤ real (low model) ∨ target = nan := by
  unfold Allocation.lowTargets
  rw [h.highTargets]
  intro target htarget
  obtain ⟨qoi, hqoi, rfl⟩ := List.mem_mapIdx.mp htarget
  rw [List.length_replicate] at hqoi
  rw [List.getElem_replicate, QoiMatrix.entry_eq_getD_row _ _ (h.cols ▸ hmodel)]
  exact ((h.affordable qoi hqoi).target model hmodel).imp
    (fun heq => by rw [heq]; exact real_le_real.mpr le_rfl) id

namespace Plan

variable {iterations : ℕ} {sums : JointSums ExactReal 4} {bench : Bench σ ExactReal} {spent : ℝ}
  {pilot : Option (Pilot ExactReal)} {warnings : List Warning} {report : Report ExactReal}
  (hfaultless : plan.ensemble.Faultless) (hpriced : plan.Priced cs)
  (horder : allocation.evalRatios.solution.order.Valid plan.numApprox)
  (hwithin : allocation.evalRatios.Within cs plan.ensemble.dims limit high low)
  (hqoi : 0 < plan.ensemble.dims.numFunctions) (hsums : sums.Sized plan.ensemble.dims)
  (hcounts : sums.counts = List.replicate plan.ensemble.dims.numFunctions count)
  (hspent : bench.spent = real spent)
  (hreport : (plan.finish iterations allocation sums bench pilot warnings).outcome = .ok report)
include hfaultless hpriced horder hwithin hqoi hsums hcounts hspent hreport

/-- After the last shared increment every model is evaluated at most as often as its target says,
rounded up. -/
theorem exists_spent_of_finish :
    ∃ final, report.spent = real final ∧ spent ≤ final ∧
      final ≤ spent + ∑ model ∈ Finset.range plan.numApprox,
        ((⌈low model⌉₊ - count : ℕ) : ℝ) * weight cs plan.numApprox model := by
  obtain ⟨last, hlast, hfinal, -⟩ := finish_eq_ok hreport
  have hlevel : (⟨bench, .ofJoint sums, 0⟩ : Refinement σ ExactReal).Level plan.ensemble.dims
      allocation.evalRatios.solution.order plan.numApprox count spent := by
    refine ⟨PyramidSums.sized_ofJoint hsums, fun i hi => ?_, hspent⟩
    rw [PyramidSums.refinedCounts_ofJoint hsums (horder.model_lt hi), hcounts]
  have hanti := (hwithin.affordable 0 hqoi).antitone
  obtain ⟨final, hlast, hlower, hupper⟩ := hlevel.refineBelow hfaultless hpriced horder rfl
    (fun i => ⌈low (allocation.evalRatios.solution.order.model i)⌉₊)
    (fun i hi n => increment_le (hwithin.lowTargets_le (horder.model_lt hi)))
    (fun i j hij hj => Nat.ceil_le_ceil (hanti i j hij hj)) le_rfl hlast
  refine ⟨final, hfinal.trans hlast, hlower, ?_⟩
  rwa [horder.sum_model fun model =>
    ((⌈low model⌉₊ - count : ℕ) : ℝ) * weight cs plan.numApprox model] at hupper

/-- A run whose high-fidelity count exceeds its target by `slack` exceeds the limit by no more than
the cost of as many samples of every model. -/
theorem exists_spent_le_of_finish {slack : ℝ} (hslack : 1 ≤ slack) (hhigh : count ≤ high + slack)
    (hcharged : spent = count * sampleCost cs plan.numApprox) :
    ∃ final, report.spent = real final ∧ final ≤ limit + slack * sampleCost cs plan.numApprox := by
  obtain ⟨final, hfinal, -, hupper⟩ := exists_spent_of_finish hfaultless hpriced horder hwithin
    hqoi hsums hcounts hspent hreport
  refine ⟨final, hfinal, hupper.trans ?_⟩
  obtain ⟨hnonneg, hle, -, -, hcost⟩ := hwithin.affordable 0 hqoi
  -- a model needs at most its target and `slack` samples more, rounding included
  have hmissing : ∀ model ∈ Finset.range plan.numApprox,
      ((⌈low model⌉₊ - count : ℕ) : ℝ) * weight cs plan.numApprox model ≤
        weight cs plan.numApprox model * low model +
          (slack - count) * weight cs plan.numApprox model := by
    intro model hmodel
    have hmodel := Finset.mem_range.mp hmodel
    have hweight := (weight_pos hpriced.length hpriced.pos hmodel.le).le
    have hlow := hle model hmodel
    have hceil := Nat.ceil_lt_add_one (hnonneg.trans hlow)
    have hcount : ((⌈low model⌉₊ - count : ℕ) : ℝ) ≤ low model + (slack - count) := by
      rcases le_total ⌈low model⌉₊ count with hge | hlt
      · rw [Nat.sub_eq_zero_of_le hge, Nat.cast_zero]
        linarith
      · rw [Nat.cast_sub hlt]
        linarith
    calc ((⌈low model⌉₊ - count : ℕ) : ℝ) * weight cs plan.numApprox model
        ≤ (low model + (slack - count)) * weight cs plan.numApprox model :=
          mul_le_mul_of_nonneg_right hcount hweight
      _ = _ := by ring
  have hsum := Finset.sum_le_sum hmissing
  rw [Finset.sum_add_distrib, ← Finset.mul_sum] at hsum
  have hlimit : high + ∑ model ∈ Finset.range plan.numApprox,
      weight cs plan.numApprox model * low model ≤ limit := hcost
  rw [hcharged, sampleCost]
  linarith

/-- Nothing more is spent if the targets have been reached. -/
theorem spent_of_finish_of_le (hreached : ∀ model < plan.numApprox, low model ≤ count) :
    report.spent = real spent := by
  obtain ⟨final, hfinal, hlower, hupper⟩ := exists_spent_of_finish hfaultless hpriced horder
    hwithin hqoi hsums hcounts hspent hreport
  have hnone : ∀ model ∈ Finset.range plan.numApprox,
      ((⌈low model⌉₊ - count : ℕ) : ℝ) * weight cs plan.numApprox model = 0 := by
    intro model hmodel
    have hceil := Nat.ceil_le.mpr (hreached model (Finset.mem_range.mp hmodel))
    rw [Nat.sub_eq_zero_of_le hceil, Nat.cast_zero, zero_mul]
  rw [Finset.sum_eq_zero hnone, add_zero] at hupper
  rw [hfinal, le_antisymm hupper hlower]

omit hfaultless hpriced hqoi hspent hreport in
/-- A run ends with a report, and draws nothing more, if the targets have been reached. -/
theorem exists_finish_of_within (hcount : 0 < count)
    (hreached : ∀ model < plan.numApprox, low model ≤ count) (iterations : ℕ)
    (bench : Bench σ ExactReal) (pilot : Option (Pilot ExactReal)) (warnings : List Warning) :
    ∃ report, (plan.finish iterations allocation sums bench pilot warnings).outcome =
        .ok report ∧ report.solution = allocation.evalRatios.solution := by
  have hpositive : ∀ c ∈ sums.counts, c ≠ 0 := by
    intro c hc
    rw [hcounts] at hc
    rw [List.eq_of_mem_replicate hc]
    exact hcount.ne'
  -- a target that has been reached asks for no increment
  have hnone : ∀ i < plan.numApprox, increment ((PyramidSums.ofJoint sums).refinedCounts
      (allocation.evalRatios.solution.order.model i))
      (allocation.lowTargets (allocation.evalRatios.solution.order.model i)) 1 = 0 := by
    intro i hi
    have hmodel := horder.model_lt hi
    have hle := increment_le (q := plan.ensemble.dims.numFunctions) (n := count)
      (hwithin.lowTargets_le hmodel)
    have hceil := Nat.ceil_le.mpr (hreached _ hmodel)
    rw [PyramidSums.refinedCounts_ofJoint hsums hmodel, hcounts]
    omega
  exact exists_finish_of_reached hpositive hnone iterations bench pilot warnings

end Plan

end Finish

end Multifidelity
