import Multifidelity.Proofs.Sums.Draws
import Multifidelity.Proofs.Estimate.SampleCorrelations

/-!
# Control variates for linear models

A control variate compares the means of a low-fidelity model over its shared and over all its
values. Without a refinement both are the same, and what is estimated are the moments of the samples
themselves. If the high-fidelity model is an affine function of the only low-fidelity model, the
weight of the control variate is its slope: the means over the joint samples cancel, and what is
left is the affine function of the mean over all low-fidelity values.

## Main definitions

* `Varies`: functions that are not constant on the samples

## Main results

* `regressionWeight_of_affine`: the regression on a linear model finds its slope
* `estimatedMoment_of_unrefined`, `estimatedMoment_of_affine`: moments without a refinement, and
  moments of a linear model
* `PyramidSums.Tallies.foldl_offer_single`: refinements of the only low-fidelity model
* `outcome_rawMoments_of_tallies`: moments are estimated once every QoI has a joint sample
* `rawMoments_of_linear`: the moments after any shared batches and any refinements
-/

namespace Multifidelity

open ExactReal

/-! ## Statistics -/

/-- A function that does not have the same value at all samples. -/
def Varies {β : Type} (samples : List β) (f : β → ℝ) : Prop :=
  ∃ first ∈ samples, ∃ second ∈ samples, f first ≠ f second

/-- The regression on a function that varies finds the slope of an affine function of it. -/
theorem regressionWeight_of_affine {β : Type} {samples : List β} {f g : β → ℝ} {slope intercept : ℝ}
    (hvaries : Varies samples f)
    (haffine : ∀ sample ∈ samples, g sample = slope * f sample + intercept) :
    regressionWeight samples f g = slope := by
  have hne : samples ≠ [] := List.ne_nil_of_mem hvaries.choose_spec.1
  have hself := (covariance_self_ne_zero_iff hne).mpr hvaries
  have hcross : covariance samples f g = slope * covariance samples f f := by
    rw [covariance_comm, covariance_congr haffine, covariance_affine hne]
  rw [regressionWeight, if_pos (covariance_self_nonneg.lt_of_ne' hself), hcross]
  exact mul_div_cancel_right₀ slope hself

section EstimatedMoment

variable {samples : List RealSample} {sharedValues refinedValues : ℕ → List ℝ} {exponent : ℕ}

/-- Control variates vanish as long as all values are shared. -/
theorem estimatedMoment_of_unrefined {numApprox : ℕ}
    (h : ∀ model < numApprox, sharedValues model = refinedValues model) :
    estimatedMoment numApprox samples sharedValues refinedValues exponent =
      mean (samples.map (·.high ^ exponent)) := by
  rw [estimatedMoment, List.sum_eq_zero, sub_zero]
  intro term hterm
  obtain ⟨model, hmodel, rfl⟩ := List.mem_map.mp hterm
  rw [h model (List.mem_range.mp hmodel), sub_self, mul_zero]

/-- If the powers of the high-fidelity values are affine functions of those of the only low-fidelity
model, the mean over the joint samples drops out. -/
theorem estimatedMoment_of_affine {slope intercept : ℝ}
    (hshared : sharedValues 0 = samples.map (·.value 0))
    (hvaries : Varies samples (·.value 0 ^ exponent))
    (haffine : ∀ sample ∈ samples,
      sample.high ^ exponent = slope * sample.value 0 ^ exponent + intercept) :
    estimatedMoment 1 samples sharedValues refinedValues exponent =
      slope * mean ((refinedValues 0).map (· ^ exponent)) + intercept := by
  have hne : samples ≠ [] := List.ne_nil_of_mem hvaries.choose_spec.1
  have hhigh : mean (samples.map (·.high ^ exponent)) =
      slope * mean ((sharedValues 0).map (· ^ exponent)) + intercept := by
    rw [List.map_congr_left haffine, mean_affine hne, hshared, List.map_map]
    rfl
  -- the weight is the slope, so that the mean over the joint samples cancels
  rw [estimatedMoment, List.range_one, List.map_singleton, List.sum_singleton,
    regressionWeight_of_affine hvaries haffine, hhigh]
  ring

end EstimatedMoment

/-! ## Refinements of the only low-fidelity model -/

theorem Dimensions.accepted_append {α : Type} (dims : Dimensions) (first second : List (Batch α)) :
    dims.accepted (first ++ second) = dims.accepted first ++ dims.accepted second := by
  simp [Dimensions.accepted]

namespace PyramidSums

variable {dims : Dimensions} {sharedValues refinedValues : ℕ → ℕ → List ℝ}
  {pyramid : PyramidSums ExactReal} {order : ModelOrder}

/-- Only the values of models of the ensemble are tallied. -/
theorem Tallies.congr (h : pyramid.Tallies dims sharedValues refinedValues)
    {otherShared otherRefined : ℕ → ℕ → List ℝ}
    (hshared : ∀ qoi, ∀ model < dims.numApprox, sharedValues qoi model = otherShared qoi model)
    (hrefined : ∀ qoi, ∀ model < dims.numApprox, refinedValues qoi model = otherRefined qoi model) :
    pyramid.Tallies dims otherShared otherRefined where
  dims_eq := h.dims_eq
  qois := by
    rw [h.qois]
    refine List.map_congr_left fun qoi _ => List.map_congr_left fun model hmodel => ?_
    rw [hshared qoi model (List.mem_range.mp hmodel), hrefined qoi model (List.mem_range.mp hmodel)]

/-- An accepted batch adds its values to the only low-fidelity model. None of them is shared, as no
other model follows. -/
theorem Tallies.offer_single (hsingle : dims.numApprox = 1) (horder : order.Valid 1)
    (h : pyramid.Tallies dims sharedValues refinedValues) (batch : Batch ExactReal) :
    (pyramid.offer order ⟨1, batch⟩).Tallies dims sharedValues fun qoi model =>
      refinedValues qoi model ++ dims.values (dims.accepted [batch]) model qoi := by
  by_cases haccepts : dims.Accepts batch
  · have hrefine : pyramid.refine order 0 1 batch = .ok (pyramid.offer order ⟨1, batch⟩) := by
      rw [refine_eq_ok_iff, offer_eq, h.dims_eq]
      exact ⟨haccepts, if_pos haccepts⟩
    -- the only model of the call is the last one as well
    have hcall : Call.approx 0 [0] 0 = .approx 0 (order.along 1) 0 := by
      rw [ModelOrder.along, List.range_one, List.map_singleton,
        Nat.lt_one_iff.mp (horder.model_lt Nat.one_pos)]
    refine (h.refine (hsingle ▸ horder) hsingle.ge hcall hrefine).congr (fun qoi model hmodel => ?_)
      fun qoi model hmodel => ?_
    all_goals
      obtain rfl : model = 0 := by omega
      simp [addValues, Call.lists, Call.listsBeforeLast, Dimensions.accepted, haccepts]
  · have hoffer : pyramid.offer order ⟨1, batch⟩ = pyramid := by
      rw [offer_eq, h.dims_eq]
      exact if_neg haccepts
    rw [hoffer]
    refine h.congr (fun _ _ _ => rfl) fun qoi model _ => ?_
    simp [Dimensions.accepted, Dimensions.values, haccepts]

/-- Any batches add the values of those that are accepted. -/
theorem Tallies.foldl_offer_single (hsingle : dims.numApprox = 1) (horder : order.Valid 1)
    (h : pyramid.Tallies dims sharedValues refinedValues) (batches : List (Batch ExactReal)) :
    ((batches.map (Draw.mk 1)).foldl (offer order) pyramid).Tallies dims sharedValues
      fun qoi model => refinedValues qoi model ++
        dims.values (dims.accepted batches) model qoi := by
  induction batches generalizing pyramid refinedValues with
  | nil => simpa [Dimensions.accepted, Dimensions.values] using h
  | cons batch batches ih =>
    have hrest := ih (h.offer_single hsingle horder batch)
    refine hrest.congr (fun _ _ _ => rfl) fun qoi model _ => ?_
    rw [List.append_assoc, ← Dimensions.values_append, ← Dimensions.accepted_append,
      List.singleton_append]

end PyramidSums

/-! ## Moments -/

/-- Moments are estimated as soon as every QoI has a joint sample. -/
theorem exists_rawMoments {dims : Dimensions} {responses : List (Response ExactReal)}
    (h : ∀ qoi < dims.numFunctions, dims.jointSamples responses qoi ≠ [])
    (pyramid : PyramidSums ExactReal) :
    ∃ moments, (rawMoments (responses.foldl JointSums.addResponse (.empty dims))
      pyramid).outcome = .ok moments := by
  rcases houtcome : (rawMoments (responses.foldl JointSums.addResponse (.empty dims))
    pyramid).outcome with failure | moments
  · -- a QoI without a joint sample would have been refused
    obtain ⟨qoi, hqoi, -⟩ := rawMoments_eq_error houtcome
    obtain ⟨hlt, hcount, -⟩ := List.findIdx?_eq_some_iff_getElem.mp hqoi
    simp only [JointSums.counts_foldl_addResponse, Dimensions.jointCounts, List.length_map,
      List.length_range, List.getElem_map, List.getElem_range, decide_eq_true_eq,
      ← Dimensions.length_jointSamples] at hlt hcount
    exact absurd (List.length_eq_zero_iff.mp hcount) (h qoi hlt)
  · exact ⟨moments, rfl⟩

/-- The moments of joint samples of each QoI, corrected by the values that a pyramid has tallied. -/
theorem outcome_rawMoments_of_tallies {dims : Dimensions} {responses : List (Response ExactReal)}
    (hjoint : ∀ qoi < dims.numFunctions, dims.jointSamples responses qoi ≠ [])
    {sharedValues refinedValues : ℕ → ℕ → List ℝ} {pyramid : PyramidSums ExactReal}
    (h : pyramid.Tallies dims sharedValues refinedValues)
    (hshared : ∀ qoi model,
      (dims.jointSamples responses qoi).length ≤ (sharedValues qoi model).length)
    (hrefined : ∀ qoi model,
      (dims.jointSamples responses qoi).length ≤ (refinedValues qoi model).length) :
    (rawMoments (responses.foldl JointSums.addResponse (.empty dims)) pyramid).outcome =
      .ok ((List.range dims.numFunctions).map fun qoi => .ofFn fun order =>
        real (estimatedMoment dims.numApprox (dims.jointSamples responses qoi) (sharedValues qoi)
          (refinedValues qoi) (order + 1))) := by
  obtain ⟨moments, hmoments⟩ := exists_rawMoments hjoint pyramid
  rw [hmoments, rawMoments_of_tallies h hshared hrefined hmoments]

/-- After any shared batches with a joint sample of each QoI, and without a refinement, the moments
are those of the high-fidelity samples, whatever the models are. After any refinements of the only
low-fidelity model they are those of an affine function of its values, joint and refined ones alike:
the mean if the high-fidelity samples are this affine function of the low-fidelity ones, and the
other moments if they are a multiple of them. Failed evaluations and refused batches do not
count. -/
theorem rawMoments_of_linear (dims : Dimensions) (batches : List (Batch ExactReal))
    (hjoint : ∀ qoi < dims.numFunctions, dims.jointSamples (dims.accepted batches) qoi ≠ []) :
    let sums := batches.foldl JointSums.offer (.empty dims : JointSums ExactReal 4)
    let samples := dims.jointSamples (dims.accepted batches)
    (rawMoments sums (.ofJoint sums)).outcome =
      .ok ((List.range dims.numFunctions).map fun qoi => .ofFn fun order =>
        real (mean ((samples qoi).map (·.high ^ (order.val + 1))))) ∧
    (dims.numApprox = 1 → ∀ order : ModelOrder, order.Valid 1 →
      ∀ refinements : List (Batch ExactReal),
        let pyramid := (refinements.map (Draw.mk 1)).foldl (PyramidSums.offer order) (.ofJoint sums)
        let values := fun qoi =>
          (samples qoi).map (·.value 0) ++ dims.values (dims.accepted refinements) 0 qoi
        ∃ moments : ℕ → Fin 4 → ℝ,
          (rawMoments sums pyramid).outcome = .ok ((List.range dims.numFunctions).map fun qoi =>
            .ofFn fun order => real (moments qoi order)) ∧
          ∀ qoi < dims.numFunctions, ∀ slope intercept : ℝ,
            (∀ sample ∈ samples qoi, sample.high = slope * sample.value 0 + intercept) →
            (Varies (samples qoi) (·.value 0) →
              moments qoi 0 = slope * mean (values qoi) + intercept) ∧
            (intercept = 0 → ∀ order : Fin 4,
              Varies (samples qoi) (·.value 0 ^ (order.val + 1)) →
              moments qoi order =
                slope ^ (order.val + 1) * mean ((values qoi).map (· ^ (order.val + 1))))) := by
  intro sums samples
  have hsums : sums = (dims.accepted batches).foldl JointSums.addResponse (.empty dims) :=
    JointSums.foldl_offer_eq _ batches
  have hstart := PyramidSums.tallies_ofJoint dims (dims.accepted batches)
  rw [← hsums] at hstart
  have hlength : ∀ qoi model, (samples qoi).length ≤
      ((samples qoi).map (·.value model)).length := fun qoi model => (List.length_map _).ge
  constructor
  · have hmoments := outcome_rawMoments_of_tallies hjoint hstart hlength hlength
    simp only [estimatedMoment_of_unrefined fun model _ => rfl] at hmoments
    rwa [← hsums] at hmoments
  · intro hsingle order horder refinements pyramid values
    have htallies := hstart.foldl_offer_single hsingle horder refinements
    have hmoments := outcome_rawMoments_of_tallies hjoint htallies hlength fun qoi model => by
      rw [List.length_append]
      exact (hlength qoi model).trans (Nat.le_add_right _ _)
    rw [← hsums, hsingle] at hmoments
    refine ⟨_, hmoments, fun qoi _ slope intercept haffine => ⟨fun hvaries => ?_, ?_⟩⟩
    · refine (estimatedMoment_of_affine rfl (by simpa using hvaries)
        (by simpa using haffine)).trans ?_
      simp only [Fin.val_zero, zero_add, pow_one, List.map_id']
      rfl
    · rintro rfl order hvaries
      -- a power of a multiple is a multiple of the power
      have hpower : ∀ sample ∈ samples qoi, sample.high ^ (order.val + 1) =
          slope ^ (order.val + 1) * sample.value 0 ^ (order.val + 1) + 0 := by
        intro sample hsample
        rw [haffine sample hsample, add_zero, add_zero, mul_pow]
      exact (estimatedMoment_of_affine rfl hvaries hpower).trans (add_zero _)

/-- A high-fidelity model with twice the values of its low-fidelity model. An evaluation failed in
one of three shared responses and in one of three refinements, and a fourth refinement is
refused. -/
theorem rawMoments_of_linear_twice :
    let dims : Dimensions := ⟨1, 1⟩
    let batches : List (Batch ExactReal) :=
      [[[real 1, real 2], [posInf, real 4]], [[real 3, real 6]]]
    let refinements : List (Batch ExactReal) :=
      [[[real 5, posInf], [posInf, posInf]], [[real 1]], [[real 7, posInf]]]
    let sums := batches.foldl JointSums.offer (.empty dims : JointSums ExactReal 4)
    let pyramid := (refinements.map (Draw.mk 1)).foldl (PyramidSums.offer []) (.ofJoint sums)
    (∃ moments : Vector ExactReal 4, (rawMoments sums (.ofJoint sums)).outcome = .ok [moments] ∧
      moments.get 0 = real 4 ∧ moments.get 1 = real 20) ∧
    ∃ moments : Vector ExactReal 4, (rawMoments sums pyramid).outcome = .ok [moments] ∧
      moments.get 0 = real 8 ∧ moments.get 1 = real 84 := by
  intro dims batches refinements sums pyramid
  have hsamples : dims.jointSamples (dims.accepted batches) 0 = [⟨[1], 2⟩, ⟨[3], 6⟩] := by
    simp [dims, batches, Dimensions.accepted, Dimensions.Accepts, Dimensions.responseLength,
      Dimensions.jointSamples, Dimensions.IsJoint, Nat.le_one_iff_eq_zero_or_eq_one,
      Dimensions.sample, Dimensions.real?, Dimensions.value?, toReal]
  have hvalues : dims.values (dims.accepted refinements) 0 0 = [5, 7] := by
    simp [dims, refinements, Dimensions.accepted, Dimensions.Accepts, Dimensions.responseLength,
      Dimensions.values, Dimensions.real?, Dimensions.value?, toReal]
  obtain ⟨hunrefined, hrefined⟩ := rawMoments_of_linear dims batches fun qoi hqoi => by
    obtain rfl : qoi = 0 := Nat.lt_one_iff.mp hqoi
    rw [hsamples]
    exact List.cons_ne_nil _ _
  obtain ⟨moments, hmoments, hlinear⟩ := hrefined rfl [] (ModelOrder.valid_nil 1) refinements
  obtain ⟨hmean, hpower⟩ := hlinear 0 Nat.one_pos 2 0 (by norm_num [hsamples, RealSample.value])
  have hfirst : moments 0 0 = 8 := by
    rw [hmean (by norm_num [hsamples, Varies, RealSample.value])]
    norm_num [hsamples, hvalues, mean, RealSample.value]
  have hsecond : moments 0 1 = 84 := by
    rw [hpower rfl 1 (by norm_num [hsamples, Varies, RealSample.value])]
    norm_num [hsamples, hvalues, mean, RealSample.value]
  refine ⟨⟨_, hunrefined, ?_, ?_⟩, _, hmoments, ?_, ?_⟩
  · norm_num [hsamples, mean]
  · norm_num [hsamples, mean]
  · rw [Vector.get_ofFn, hfirst]
  · rw [Vector.get_ofFn, hsecond]

end Multifidelity
