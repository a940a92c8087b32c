import Multifidelity.Proofs.Allocation.Compass
import Multifidelity.Proofs.Allocation.Units
import Multifidelity.Proofs.Estimate.Rescaling
import Multifidelity.Proofs.Run.Coupling
import Multifidelity.Proofs.Run.OnlineBudget

/-!
# The units of the low-fidelity models

A run does not depend on the units of the low-fidelity models. The sums of responses in other units
differ, but they have the same counts and lead to the same correlations and to the same corrections
of the means, so that runs in different units stay in lockstep.

## Main definitions

* `JointSums.Rescaled`, `PyramidSums.Rescaled`: sums over the same responses in different units
* `Coupling.rescale`: what two runs in different units keep related
* `Rescaling.SameMoments`: moments of the same order that do not depend on the units
* `Ensemble.rescale`: an ensemble with its low-fidelity models in other units

## Main results

* `JointSums.Rescaled.correlations`: second moments in different units
* `PyramidSums.Rescaled.refine`: refinements in different units
* `rawMoments_rescaled`: moments in different units
* `sample_rescale`: a run does not depend on the units of the low-fidelity models
-/

namespace Multifidelity

open ExactReal Recorder

variable {units : Rescaling} {dims : Dimensions}

/-! ## Batches -/

/-- A batch in other units. -/
noncomputable def Rescaling.batch (units : Rescaling) (dims : Dimensions)
    (batch : Batch ExactReal) : Batch ExactReal :=
  batch.map (units.response dims)

/-- Batches are accepted in each unit alike. -/
theorem Rescaling.check_batch (units : Rescaling) (dims : Dimensions) (batch : Batch ExactReal) :
    dims.check (units.batch dims batch) = dims.check batch := by
  unfold Dimensions.check Rescaling.batch
  rw [List.find?_map]
  simp only [Function.comp_def, Rescaling.length_response]
  cases batch.find? fun response => response.length != dims.responseLength with
  | none => rfl
  | some response =>
    exact congrArg (Except.error ∘ Failure.responseLength _) (units.length_response dims response)

/-! ## Sums over joint samples -/

/-- Sums over the same responses in different units. -/
def JointSums.Rescaled (units : Rescaling) (dims : Dimensions) {M : ℕ}
    (x y : JointSums ExactReal M) : Prop :=
  ∃ responses : List (Response ExactReal), x = responses.foldl addResponse (.empty dims) ∧
    y = (responses.map (units.response dims)).foldl addResponse (.empty dims)

namespace JointSums.Rescaled

variable {M m : ℕ}

theorem accumulate {x y : JointSums ExactReal M} (h : x.Rescaled units dims y)
    (batch : Batch ExactReal) :
    Alike (JointSums.Rescaled units dims) (x.accumulate batch)
      (y.accumulate (units.batch dims batch)) := by
  obtain ⟨responses, rfl, rfl⟩ := h
  rw [accumulate_eq, accumulate_eq, dims_foldl_addResponse, dims_foldl_addResponse]
  refine .bind (.of_eq (units.check_batch dims batch).symm) fun _ _ _ => ?_
  refine .ok ⟨responses ++ batch, (List.foldl_append ..).symm, ?_⟩
  rw [List.map_append, List.foldl_append]
  rfl

theorem counts_eq {x y : JointSums ExactReal M} (h : x.Rescaled units dims y) :
    x.counts = y.counts := by
  obtain ⟨responses, rfl, rfl⟩ := h
  rw [counts_foldl_addResponse, counts_foldl_addResponse]
  refine List.map_congr_left fun qoi hqoi => ?_
  have hqoi := List.mem_range.mp hqoi
  rw [← Dimensions.length_jointSamples, ← Dimensions.length_jointSamples,
    units.jointSamples_response hqoi, List.length_map]

/-- The sums of a QoI measure joint samples, and the same ones in the other units. -/
theorem exists_measures {x y : JointSums ExactReal (m + 1)} (h : x.Rescaled units dims y) :
    ∃ (samples : ℕ → List RealSample) (sums sums' : ℕ → QoiSums ExactReal (m + 1)),
      x.dims = dims ∧ y.dims = dims ∧ x.qois = (List.range dims.numFunctions).map sums ∧
      y.qois = (List.range dims.numFunctions).map sums' ∧ ∀ qoi < dims.numFunctions,
        (sums qoi).MeasuresPowers dims.numApprox (samples qoi) ∧
        (sums' qoi).MeasuresPowers dims.numApprox
          ((samples qoi).map (units.sample dims qoi)) := by
  obtain ⟨responses, rfl, rfl⟩ := h
  obtain ⟨sums, hqois, hsums⟩ := exists_measuresPowers (m := m) dims responses
  obtain ⟨sums', hqois', hsums'⟩ :=
    exists_measuresPowers (m := m) dims (responses.map (units.response dims))
  refine ⟨dims.jointSamples responses, sums, sums', dims_foldl_addResponse _ _,
    dims_foldl_addResponse _ _, hqois, hqois', fun qoi hqoi => ⟨hsums qoi, ?_⟩⟩
  rw [← units.jointSamples_response hqoi]
  exact hsums' qoi

/-- The high-fidelity variances and the squared correlations do not depend on the units. -/
theorem correlations {x y : JointSums ExactReal (m + 1)} (h : x.Rescaled units dims y) :
    Alike (fun c c' => c.varHigh = c'.varHigh ∧ c.rhoSq = c'.rhoSq) x.correlations
      y.correlations := by
  obtain ⟨samples, sums, sums', hdims, hdims', hqois, hqois', hmeasures⟩ := h.exists_measures
  unfold JointSums.correlations
  rw [h.counts_eq, hdims, hdims', hqois, hqois']
  split
  · exact .error _
  · rename_i hnone
    have htwo : ∀ qoi < dims.numFunctions, 2 ≤ (samples qoi).length := by
      intro qoi hqoi
      have hcount := List.findIdx?_eq_none_iff.mp hnone (sums' qoi).count (by
        rw [counts, hqois', List.map_map]
        exact List.mem_map_of_mem (List.mem_range.mpr hqoi))
      rw [(hmeasures qoi hqoi).2.count, List.length_map] at hcount
      exact not_lt.mp (of_decide_eq_false hcount)
    refine .ok ⟨?_, ?_⟩
    · dsimp only
      rw [List.map_map, List.map_map]
      refine List.map_congr_left fun qoi hqoi => ?_
      obtain ⟨hsums, hsums'⟩ := hmeasures qoi (List.mem_range.mp hqoi)
      rw [Function.comp_apply, Function.comp_apply, QoiSums.varHigh, QoiSums.varHigh, hsums.count,
        hsums'.count, hsums.measures.highSum, hsums'.measures.highSum, hsums.highSquared,
        hsums'.highSquared, List.length_map, List.map_map, List.map_map]
      rfl
    · dsimp only
      rw [List.map_map, List.map_map]
      refine congrArg (QoiMatrix.ofRows _) (List.map_congr_left fun qoi hqoi => ?_)
      have hqoi := List.mem_range.mp hqoi
      obtain ⟨hsums, hsums'⟩ := hmeasures qoi hqoi
      have hcount := htwo qoi hqoi
      rw [Function.comp_apply, Function.comp_apply, hsums.measures.rhoSq_eq hcount,
        hsums'.measures.rhoSq_eq (by simpa using hcount)]
      refine List.map_congr_left fun model hmodel => congrArg real ?_
      exact (correlationSq_affine hcount (units.scale_ne_zero model qoi)
        (units.value_sample (List.mem_range.mp hmodel) qoi) fun _ => rfl).symm

end JointSums.Rescaled

/-! ## Sums over low-fidelity samples -/

/-- The pyramid with given tallies by QoI and model. -/
def PyramidSums.ofTallies (dims : Dimensions) (tallies : ℕ → ℕ → NestedTally ExactReal) :
    PyramidSums ExactReal :=
  ⟨dims, (List.range dims.numFunctions).map fun qoi =>
    (List.range dims.numApprox).map (tallies qoi)⟩

/-- Sums over the same values in different units. -/
def PyramidSums.Rescaled (units : Rescaling) (dims : Dimensions) (x y : PyramidSums ExactReal) :
    Prop :=
  ∃ tallies tallies', x = ofTallies dims tallies ∧ y = ofTallies dims tallies' ∧
    ∀ qoi < dims.numFunctions, ∀ model < dims.numApprox,
      (tallies qoi model).Rescaled (units.value model qoi) (tallies' qoi model)

namespace PyramidSums

theorem Tallies.eq_ofTallies {sharedValues refinedValues : ℕ → ℕ → List ℝ}
    {pyramid : PyramidSums ExactReal} (h : pyramid.Tallies dims sharedValues refinedValues) :
    pyramid = ofTallies dims fun qoi model =>
      ⟨.ofValues (sharedValues qoi model), .ofValues (refinedValues qoi model)⟩ := by
  obtain ⟨dims', qois⟩ := pyramid
  obtain ⟨hdims, hqois⟩ := h
  dsimp only at hdims hqois
  rw [hdims, hqois]
  rfl

theorem rescaled_ofJoint {x y : JointSums ExactReal 4} (h : x.Rescaled units dims y) :
    (ofJoint x).Rescaled units dims (ofJoint y) := by
  obtain ⟨responses, rfl, rfl⟩ := h
  refine ⟨_, _, (tallies_ofJoint dims responses).eq_ofTallies,
    (tallies_ofJoint dims _).eq_ofTallies, fun qoi hqoi model hmodel => ?_⟩
  have hvalues : (dims.jointSamples (responses.map (units.response dims)) qoi).map
      (·.value model) =
        ((dims.jointSamples responses qoi).map (·.value model)).map (units.value model qoi) := by
    rw [units.jointSamples_response hqoi, List.map_map, List.map_map]
    exact List.map_congr_left fun sample _ => units.value_sample hmodel qoi sample
  rw [hvalues]
  exact .of _ _

theorem addResponse_ofTallies (order : ModelOrder) (start stop : ℕ)
    (tallies : ℕ → ℕ → NestedTally ExactReal) (response : Response ExactReal) :
    (ofTallies dims tallies).addResponse order start stop response =
      ofTallies dims fun qoi model =>
        match dims.value? response model qoi with
        | some value =>
          ((List.range' start (stop - start)).filter (order.model · == model)).foldl
            (fun tally position => tally.add (decide (position + 1 < stop)) value)
            (tallies qoi model)
        | none => tallies qoi model := by
  unfold addResponse ofTallies
  congr 1
  rw [mapIdx_map_range]
  refine List.map_congr_left fun qoi _ => ?_
  rw [mapIdx_map_range]
  refine List.map_congr_left fun model _ => ?_
  dsimp only
  cases dims.value? response model qoi <;> rfl

namespace Rescaled

variable {x y : PyramidSums ExactReal} (h : x.Rescaled units dims y)
include h

/-- A response keeps the sums related, whatever the order of the models is. -/
theorem addResponse (order : ModelOrder) (start stop : ℕ) (response : Response ExactReal) :
    (x.addResponse order start stop response).Rescaled units dims
      (y.addResponse order start stop (units.response dims response)) := by
  obtain ⟨tallies, tallies', rfl, rfl, htallies⟩ := h
  refine ⟨_, _, addResponse_ofTallies .., addResponse_ofTallies .., ?_⟩
  intro qoi hqoi model hmodel
  have htally := htallies qoi hqoi model hmodel
  rw [units.value?_response hqoi, Dimensions.value?_eq_map_real?]
  cases dims.real? response model qoi with
  | none => exact htally
  | some value =>
    simp only [Option.map_some, if_pos hmodel]
    exact htally.foldl_add _ value _

/-- A refinement keeps the sums related. -/
theorem refine (order : ModelOrder) (start stop : ℕ) (batch : Batch ExactReal) :
    Alike (PyramidSums.Rescaled units dims) (x.refine order start stop batch)
      (y.refine order start stop (units.batch dims batch)) := by
  have hfold : (batch.foldl (PyramidSums.addResponse order start stop) x).Rescaled units dims
      ((units.batch dims batch).foldl (PyramidSums.addResponse order start stop) y) := by
    unfold Rescaling.batch
    induction batch generalizing x y with
    | nil => exact h
    | cons response batch ih => exact ih (h.addResponse order start stop response)
  obtain ⟨tallies, tallies', rfl, rfl, -⟩ := h
  rw [refine_eq, refine_eq]
  refine .bind (.of_eq (units.check_batch dims batch).symm) fun _ _ _ => ?_
  exact .ok hfold

theorem refinedCounts_eq (model : ℕ) : x.refinedCounts model = y.refinedCounts model := by
  obtain ⟨tallies, tallies', rfl, rfl, htallies⟩ := h
  unfold refinedCounts countsOf ofTallies
  rw [List.map_map, List.map_map]
  refine List.map_congr_left fun qoi hqoi => ?_
  rcases lt_or_ge model dims.numApprox with hmodel | hmodel
  · have htally := htallies qoi (List.mem_range.mp hqoi) model hmodel
    simp [hmodel, htally.count_eq]
  · simp [hmodel]

end Rescaled

end PyramidSums

/-! ## Moments -/

/-- Moments of which those of first order agree, and those of all orders if there is no shift. -/
def Rescaling.SameMoments (units : Rescaling) (dims : Dimensions)
    (first second : Vector ExactReal 4) : Prop :=
  ∀ order, (order = 0 ∨ ∀ qoi < dims.numFunctions, ∀ model < dims.numApprox,
    units.shift model qoi = 0) → first.get order = second.get order

theorem rawMoments_rescaled {x y : JointSums ExactReal 4} (h : x.Rescaled units dims y)
    {x' y' : PyramidSums ExactReal} (h' : x'.Rescaled units dims y') :
    Lockstep (List.Forall₂ (units.SameMoments dims)) (rawMoments x x') (rawMoments y y') := by
  obtain ⟨samples, sums, sums', -, -, hqois, hqois', hmeasures⟩ := h.exists_measures
  obtain ⟨tallies, tallies', rfl, rfl, htallies⟩ := h'
  have hzip : ∀ {β : Type} (f : ℕ → β) (n : ℕ),
      ((List.range n).map f).zipIdx = (List.range n).map fun i => (f i, i) :=
    fun f n => List.ext_getElem (by simp) fun i hi hi' => by simp
  unfold rawMoments PyramidSums.ofTallies
  rw [hqois, hqois', List.zip_map', List.zip_map', hzip, hzip, List.mapM_map, List.mapM_map]
  refine .mapM (T := fun qoi qoi' => qoi = qoi' ∧ qoi < dims.numFunctions)
    (List.forall₂_same.mpr fun qoi hqoi => ⟨rfl, List.mem_range.mp hqoi⟩) ?_
  rintro qoi _ ⟨rfl, hqoi⟩
  obtain ⟨hsums, hsums'⟩ := hmeasures qoi hqoi
  dsimp only [Function.comp_apply]
  unfold QoiSums.rawMoments
  have hcount : (sums qoi).count = (sums' qoi).count := by
    rw [hsums.count, hsums'.count, List.length_map]
  dsimp only
  rw [hcount]
  split
  · -- without joint samples both fail
    exact .bind (R := fun _ _ => False) ⟨rfl, .error _⟩ fun _ _ hfalse => hfalse.elim
  · rename_i hpos
    have hne : samples qoi ≠ [] := by
      rintro hnil
      exact hpos (by rw [← hcount, hsums.count, hnil, List.length_nil])
    refine .bind (.logAll _ _) fun _ _ _ => .pure fun order horder => ?_
    rw [Vector.get_ofFn, Vector.get_ofFn]
    exact (hsums.moment_sample hsums' hne (htallies qoi hqoi)
      (horder.imp_right fun hshift => hshift qoi hqoi)).symm

/-! ## Runs -/

/-- What two runs in different units keep related. -/
noncomputable def Coupling.rescale (units : Rescaling) (dims : Dimensions) :
    Coupling ExactReal dims where
  batches _ first second := second = units.batch dims first
  sums := JointSums.Rescaled units dims
  pyramids := PyramidSums.Rescaled units dims
  correlations x y := x.varHigh = y.varHigh ∧ x.rhoSq = y.rhoSq
  moments := List.Forall₂ (units.SameMoments dims)
  length_eq := by
    rintro call batch _ rfl
    exact (List.length_map _).symm
  empty _ := ⟨[], rfl, rfl⟩
  accumulate := by
    rintro M x y iteration samples batch _ h rfl
    exact h.accumulate batch
  counts_eq h := h.counts_eq
  estimate h := h.correlations
  varHigh_eq h := h.1
  ofJoint h := PyramidSums.rescaled_ofJoint h
  refine := by
    rintro x y order iteration stop samples batch _ h rfl
    exact h.refine order 0 stop batch
  refinedCounts_eq h := h.refinedCounts_eq
  rawMoments h h' := rawMoments_rescaled h h'

variable {σ : Type}

/-- The ensemble with its low-fidelity models in other units. -/
noncomputable def Ensemble.rescale (units : Rescaling) (ensemble : Ensemble σ ExactReal) :
    Ensemble σ ExactReal :=
  { ensemble with
    respond := fun call state =>
      let (batch, next) := ensemble.respond call state
      (units.batch ensemble.dims batch, next) }

/-- Plans in different units are coupled if their optimizer does not depend on the units. -/
theorem Plan.coupled_rescale (units : Rescaling) {optimizer : Optimizer ExactReal}
    (hoptimizer : optimizer.UnitFree) (ensemble : Ensemble σ ExactReal)
    (settings : Settings ExactReal) (target : Target ExactReal) (costs : Costs ExactReal) :
    Plan.Coupled (Coupling.rescale units ensemble.dims) Eq
      ⟨ensemble, settings, optimizer, target, costs⟩
      ⟨ensemble.rescale units, settings, optimizer, target, costs⟩ where
  dims_first := rfl
  dims_second := rfl
  settings := rfl
  batch := by
    rintro call s _ rfl
    rfl
  state := by
    rintro call s _ rfl
    rfl
  equivalents _ _ := rfl
  evalRatios := by
    rintro ⟨varLow, varHigh, rhoSq⟩ ⟨varLow', _, _⟩ counts spent pilotVariance previous previous'
      ⟨rfl, rfl⟩ hprevious
    -- the inputs differ in the variances of the low-fidelity models only
    have hinputs : Plan.ratioInputs
        ⟨ensemble.rescale units, settings, optimizer, target, costs⟩ ⟨varLow', varHigh, rhoSq⟩
          counts spent pilotVariance previous' =
        (Plan.ratioInputs ⟨ensemble, settings, optimizer, target, costs⟩ ⟨varLow, varHigh, rhoSq⟩
          counts spent pilotVariance previous).withUnits 1 varLow' := by
      unfold Plan.ratioInputs RatioInputs.withUnits
      rw [hprevious, Costs.scale_one]
    rw [hinputs]
    exact (RatioInputs.outcome_evalRatios_withUnits one_pos _ _ hoptimizer).symm

/-- A run with an optimizer that does not depend on the units. -/
theorem sampleWith_rescale (units : Rescaling) {optimizer : Optimizer ExactReal}
    (hoptimizer : optimizer.UnitFree) (ensemble : Ensemble σ ExactReal)
    (settings : Settings ExactReal) (state : σ) :
    Lockstep (Report.Agrees (List.Forall₂ (units.SameMoments ensemble.dims)))
      (sampleWith optimizer ensemble settings state)
      (sampleWith optimizer (ensemble.rescale units) settings state) := by
  refine sampleWith_lockstep (.rescale units ensemble.dims) Eq optimizer settings rfl rfl
    (.refl _) ?_
  rintro target costs _ rfl
  exact Plan.coupled_rescale units hoptimizer ensemble settings target costs

/-- Other units of the low-fidelity models change neither the calls nor the checkpoints nor the
failure of a run. Its report only changes in the moments of higher order, and not even there if the
units have no shift. -/
theorem sample_rescale (units : Rescaling) (ensemble : Ensemble σ ExactReal)
    (settings : Settings ExactReal) (state : σ) :
    moves (sample ensemble settings state).journal =
        moves (sample (ensemble.rescale units) settings state).journal ∧
      Alike (Report.Agrees (List.Forall₂ (units.SameMoments ensemble.dims)))
        (sample ensemble settings state).outcome
        (sample (ensemble.rescale units) settings state).outcome := by
  have hlockstep := sampleWith_rescale units CompassSearch.default.unitFree_optimize ensemble
    settings state
  exact ⟨hlockstep.moves, hlockstep.outcome⟩

/-! ## Units of the opposite sign -/

/-- Units in which all values have the opposite sign and are shifted by the model. -/
noncomputable def oppositeUnits : Rescaling where
  scale _ _ := -1
  shift model _ := model
  scale_ne_zero _ _ := neg_ne_zero.mpr one_ne_zero

/-- A run and the one in other units make the same calls, tell the listener the same, and end with
reports that agree. -/
theorem sample_rescale_of_spike :
    ∃ report report',
      let usual := sample spikeEnsemble (.withBudget 2 (real 1)) ()
      let other := sample (spikeEnsemble.rescale oppositeUnits) (.withBudget 2 (real 1)) ()
      usual.outcome = .ok report ∧ other.outcome = .ok report' ∧
        (increments usual.journal).map Prod.fst = (increments other.journal).map Prod.fst ∧
        notifications usual.journal = notifications other.journal ∧
        report.Agrees (List.Forall₂ (oppositeUnits.SameMoments spikeEnsemble.dims)) report' := by
  obtain ⟨report, hreport, -⟩ :=
    exists_online_spike CompassSearch.bounded_default.ordered_optimize
  obtain ⟨hmoves, halike⟩ :=
    sample_rescale oppositeUnits spikeEnsemble (.withBudget 2 (real 1)) ()
  obtain ⟨report', hreport', hagrees⟩ := halike.exists_ok hreport
  exact ⟨report, report', hreport, hreport', calls_eq_of_moves hmoves,
    notifications_eq_of_moves hmoves, hagrees⟩

end Multifidelity
