import Multifidelity.Proofs.Estimate.Reduction

/-!
# Responses in other units

The unit of a low-fidelity model at a QoI is changed by an affine function of its values. Which
evaluations fail, how many samples are joint, and how much of the variance of the high-fidelity
model the low-fidelity models explain, does not depend on the units. The weight of a control variate
changes inversely to its values, so that the mean that it corrects stays the same.

## Main definitions

* `Rescaling`: other units of the low-fidelity models
* `Rescaling.response`, `Rescaling.sample`: responses and joint samples in these units
* `NestedTally.Rescaled`: tallies of values and of the same values in other units

## Main results

* `covariance_affine`, `regressionWeight_affine`: statistics of affine images
* `correlationSq_affine`: squared correlations do not depend on the units
* `Rescaling.jointSamples_response`: the joint samples of responses in other units
* `QoiSums.moment_rescaled`: a moment whose powers change by affine functions
-/

namespace Multifidelity

open ExactReal

/-! ## Statistics -/

section Affine

variable {β : Type} {samples : List β} {f g : β → ℝ} {a : ℝ}

theorem mean_affine (hne : samples ≠ []) (a c : ℝ) :
    mean (samples.map fun sample => a * f sample + c) = a * mean (samples.map f) + c := by
  have hlength : (samples.length : ℝ) ≠ 0 := by simpa using hne
  have hsum : (samples.map fun sample => a * f sample + c).sum =
      a * (samples.map f).sum + samples.length * c := by
    rw [List.sum_map_add, List.sum_map_mul_left, List.map_const', List.sum_replicate, nsmul_eq_mul]
  rw [mean, mean, List.length_map, List.length_map, hsum]
  field_simp

theorem covariance_comm : covariance samples f g = covariance samples g f := by
  unfold covariance
  simp only [mul_comm]

theorem covariance_map {γ : Type} (change : γ → β) (samples : List γ) :
    covariance (samples.map change) f g =
      covariance samples (fun sample => f (change sample)) fun sample => g (change sample) := by
  unfold covariance
  simp only [List.map_map, Function.comp_def]

/-- A constant summand does not count. -/
theorem covariance_affine (hne : samples ≠ []) (a c : ℝ) :
    covariance samples (fun sample => a * f sample + c) g = a * covariance samples f g := by
  have hcentred := mean_affine (f := fun sample =>
    (f sample - mean (samples.map f)) * (g sample - mean (samples.map g))) hne a 0
  rw [add_zero] at hcentred
  rw [covariance, covariance, mean_affine hne, ← hcentred]
  refine congrArg mean (List.map_congr_left fun sample _ => ?_)
  ring

theorem covariance_affine_self (hne : samples ≠ []) (a c : ℝ) :
    covariance samples (fun sample => a * f sample + c) (fun sample => a * f sample + c) =
      a * a * covariance samples f f := by
  rw [covariance_affine hne, covariance_comm, covariance_affine hne, mul_assoc]

/-- The weight of a control variate changes inversely to its values. -/
theorem regressionWeight_affine (hne : samples ≠ []) (ha : a ≠ 0) (c : ℝ) :
    regressionWeight samples f g =
      a * regressionWeight samples (fun sample => a * f sample + c) g := by
  have hpos : 0 < a * a * covariance samples f f ↔ 0 < covariance samples f f :=
    mul_pos_iff_of_pos_left (mul_self_pos.mpr ha)
  unfold regressionWeight
  rw [covariance_affine_self hne, covariance_affine hne, if_congr hpos rfl rfl]
  split
  · rename_i hvar
    field_simp
  · rw [mul_zero]

theorem regressionWeight_map {γ : Type} (change : γ → β) (samples : List γ) :
    regressionWeight (samples.map change) f g =
      regressionWeight samples (fun sample => f (change sample))
        fun sample => g (change sample) := by
  unfold regressionWeight
  simp only [covariance_map]

end Affine

/-- The squared correlation of a low-fidelity model does not depend on its unit. -/
theorem correlationSq_affine {samples : List RealSample} (hcount : 2 ≤ samples.length) {model : ℕ}
    {change : RealSample → RealSample} {a c : ℝ} (ha : a ≠ 0)
    (hlow : ∀ sample, (change sample).value model = a * sample.value model + c)
    (hhigh : ∀ sample, (change sample).high = sample.high) :
    correlationSq (samples.map change) model = correlationSq samples model := by
  have hne : samples ≠ [] := List.ne_nil_of_length_pos (by omega)
  have hcount' : 2 ≤ (samples.map change).length := by simpa using hcount
  -- variances and covariances are those of statistics, up to a common factor
  have hstat : ∀ {list : List RealSample}, 2 ≤ list.length →
      lowVariance list model = covariance list (·.value model) (·.value model) *
          (list.length / (list.length - 1)) ∧
        highVariance list = covariance list RealSample.high RealSample.high *
          (list.length / (list.length - 1)) ∧
        crossCovariance list model = covariance list (·.value model) RealSample.high *
          (list.length / (list.length - 1)) :=
    fun h => ⟨sampleCov_eq h, sampleCov_eq h, sampleCov_eq h⟩
  obtain ⟨hvar, hhighVar, hcross⟩ := hstat hcount
  obtain ⟨hvar', hhighVar', hcross'⟩ := hstat hcount'
  rw [covariance_map, List.length_map] at hvar' hhighVar' hcross'
  simp only [hlow, hhigh] at hvar' hhighVar' hcross'
  rw [covariance_affine_self hne, mul_assoc, ← hvar] at hvar'
  rw [← hhighVar] at hhighVar'
  rw [covariance_affine hne, mul_assoc, ← hcross] at hcross'
  have hsq : 0 < a * a := mul_self_pos.mpr ha
  unfold correlationSq
  rw [hvar', hhighVar', hcross', mul_assoc (a * a), if_congr (mul_pos_iff_of_pos_left hsq) rfl rfl]
  split
  · rename_i hpos
    rw [mul_mul_mul_comm, mul_div_mul_left _ _ hsq.ne']
  · rfl

/-! ## Responses -/

/-- Other units of the low-fidelity models: an affine function for each model and QoI. -/
structure Rescaling where
  /-- The factor by model and QoI. -/
  scale : ℕ → ℕ → ℝ
  /-- The summand by model and QoI. -/
  shift : ℕ → ℕ → ℝ
  scale_ne_zero : ∀ model qoi, scale model qoi ≠ 0

namespace Rescaling

variable (units : Rescaling)

/-- A value in the other units. -/
def value (model qoi : ℕ) (x : ℝ) : ℝ :=
  units.scale model qoi * x + units.shift model qoi

/-- A response with the finite values of the low-fidelity models in the other units. -/
noncomputable def response (dims : Dimensions) (response : Response ExactReal) :
    Response ExactReal :=
  response.mapIdx fun i x =>
    let model := i / dims.numFunctions
    if model < dims.numApprox then lift (units.value model (i % dims.numFunctions)) x else x

/-- A joint sample of a QoI in the other units. -/
noncomputable def sample (dims : Dimensions) (qoi : ℕ) (sample : RealSample) : RealSample where
  low := (List.range dims.numApprox).map fun model => units.value model qoi (sample.value model)
  high := sample.high

@[simp] theorem length_response (dims : Dimensions) (response : Response ExactReal) :
    (units.response dims response).length = response.length :=
  List.length_mapIdx

@[simp] theorem high_sample (dims : Dimensions) (qoi : ℕ) (sample : RealSample) :
    (units.sample dims qoi sample).high = sample.high := rfl

theorem value_sample {dims : Dimensions} {model : ℕ} (hmodel : model < dims.numApprox) (qoi : ℕ)
    (sample : RealSample) :
    (units.sample dims qoi sample).value model = units.value model qoi (sample.value model) := by
  simp [RealSample.value, Rescaling.sample, hmodel]

theorem isFinite_lift (f : ℝ → ℝ) (x : ExactReal) :
    Scalar.isFinite (lift f x) = Scalar.isFinite x := by
  rw [Bool.eq_iff_iff, isFinite_iff, isFinite_iff]
  cases x with
  | real x => exact ⟨fun _ => ⟨x, rfl⟩, fun _ => ⟨f x, rfl⟩⟩
  | posInf => rfl
  | negInf => rfl
  | nan => rfl

variable {dims : Dimensions} {qoi : ℕ} (hqoi : qoi < dims.numFunctions)
  (response : Response ExactReal)
include hqoi

/-- An entry of a response belongs to one model and one QoI. -/
theorem getElem?_response (model : ℕ) :
    (units.response dims response)[model * dims.numFunctions + qoi]? =
      response[model * dims.numFunctions + qoi]?.map fun x =>
        if model < dims.numApprox then lift (units.value model qoi) x else x := by
  have hdiv : (model * dims.numFunctions + qoi) / dims.numFunctions = model := by
    rw [Nat.mul_comm, Nat.mul_add_div (by omega), Nat.div_eq_of_lt hqoi, Nat.add_zero]
  have hmod : (model * dims.numFunctions + qoi) % dims.numFunctions = qoi := by
    rw [Nat.mul_comm, Nat.mul_add_mod, Nat.mod_eq_of_lt hqoi]
  rw [Rescaling.response, List.getElem?_mapIdx, hdiv, hmod]

theorem value?_response (model : ℕ) :
    dims.value? (units.response dims response) model qoi =
      (dims.value? response model qoi).map fun x =>
        if model < dims.numApprox then lift (units.value model qoi) x else x := by
  rw [Dimensions.value?, Dimensions.value?, units.getElem?_response hqoi]
  cases response[model * dims.numFunctions + qoi]? with
  | none => rfl
  | some x =>
    have hfinite : Scalar.isFinite
        (if model < dims.numApprox then lift (units.value model qoi) x else x) =
          Scalar.isFinite x := by
      split
      · exact isFinite_lift _ x
      · rfl
    rw [Option.map_some, Option.filter_some, Option.filter_some, hfinite]
    cases Scalar.isFinite x <;> rfl

/-- A value of a low-fidelity model changes, and none is lost. -/
theorem real?_response {model : ℕ} (hmodel : model < dims.numApprox) :
    dims.real? (units.response dims response) model qoi =
      (dims.real? response model qoi).map (units.value model qoi) := by
  have hvalue := units.value?_response hqoi response model
  simp only [if_pos hmodel] at hvalue
  rw [Dimensions.real?, hvalue, Dimensions.value?_eq_map_real?, Option.map_map, Option.map_map]
  rfl

/-- The high-fidelity values stay the same. -/
theorem real?_response_high :
    dims.real? (units.response dims response) dims.numApprox qoi =
      dims.real? response dims.numApprox qoi := by
  have hvalue := units.value?_response hqoi response dims.numApprox
  simp only [if_neg (lt_irrefl dims.numApprox), Option.map_id'] at hvalue
  rw [Dimensions.real?, hvalue, Dimensions.real?]

/-- A response is a joint sample in the other units if it is one. -/
theorem isJoint_response :
    dims.IsJoint (units.response dims response) qoi ↔ dims.IsJoint response qoi := by
  unfold Dimensions.IsJoint
  simp only [units.value?_response hqoi, Option.isSome_map]

theorem sample_response (hjoint : dims.IsJoint response qoi) :
    dims.sample qoi (units.response dims response) =
      units.sample dims qoi (dims.sample qoi response) := by
  unfold Dimensions.sample Rescaling.sample
  rw [units.real?_response_high hqoi]
  congr 1
  refine List.map_congr_left fun model hmodel => ?_
  have hlt := List.mem_range.mp hmodel
  obtain ⟨value, hvalue⟩ := Option.isSome_iff_exists.mp (hjoint model hlt.le)
  rw [Dimensions.value?_eq_map_real?] at hvalue
  obtain ⟨x, hx, -⟩ := Option.map_eq_some_iff.mp hvalue
  simp [units.real?_response hqoi response hlt, hx, RealSample.value, hlt]

omit response in
/-- The joint samples of responses in other units are the joint samples in these units. -/
theorem jointSamples_response (responses : List (Response ExactReal)) :
    dims.jointSamples (responses.map (units.response dims)) qoi =
      (dims.jointSamples responses qoi).map (units.sample dims qoi) := by
  unfold Dimensions.jointSamples
  rw [List.filter_map, List.map_map, List.map_map]
  have hfilter : (fun response => decide (dims.IsJoint response qoi)) ∘ units.response dims =
      fun response => decide (dims.IsJoint response qoi) :=
    funext fun response => decide_eq_decide.mpr (units.isJoint_response hqoi response)
  rw [hfilter]
  refine List.map_congr_left fun response hresponse => ?_
  exact units.sample_response hqoi response (of_decide_eq_true (List.mem_filter.mp hresponse).2)

end Rescaling

/-! ## Tallies -/

/-- Tallies of values and of the same values in other units. -/
inductive NestedTally.Rescaled (f : ℝ → ℝ) : NestedTally ExactReal → NestedTally ExactReal → Prop
  | of (shared refined : List ℝ) : Rescaled f ⟨.ofValues shared, .ofValues refined⟩
      ⟨.ofValues (shared.map f), .ofValues (refined.map f)⟩

namespace NestedTally.Rescaled

variable {f : ℝ → ℝ} {tally tally' : NestedTally ExactReal} (h : tally.Rescaled f tally')
include h

theorem add (isShared : Bool) (x : ℝ) :
    (tally.add isShared (real x)).Rescaled f (tally'.add isShared (real (f x))) := by
  cases h with
  | of shared refined =>
    have hadd : ∀ values : List ℝ, (Tally.ofValues (values.map f)).add (real (f x)) =
        .ofValues ((values ++ [x]).map f) := by
      intro values
      rw [Tally.add_ofValues, List.map_append, List.map_singleton]
    cases isShared with
    | true =>
      have hboth := Rescaled.of (f := f) (shared ++ [x]) (refined ++ [x])
      rwa [← hadd, ← hadd, ← Tally.add_ofValues, ← Tally.add_ofValues] at hboth
    | false =>
      have hrefined := Rescaled.of (f := f) shared (refined ++ [x])
      rwa [← hadd, ← Tally.add_ofValues] at hrefined

/-- A value counts as often in other units, whatever the positions of its model are. -/
theorem foldl_add (isShared : ℕ → Bool) (x : ℝ) (positions : List ℕ) :
    (positions.foldl (fun tally position => tally.add (isShared position) (real x))
        tally).Rescaled f
      (positions.foldl (fun tally position => tally.add (isShared position) (real (f x)))
        tally') := by
  induction positions generalizing tally tally' with
  | nil => exact h
  | cons position positions ih => exact ih (h.add (isShared position) x)

theorem count_eq : tally'.refined.count = tally.refined.count := by
  cases h with
  | of shared refined => exact List.length_map f

/-- A control variate takes the same away from a mean if its powers change by an affine function
and its weight changes inversely. -/
theorem mul_sub_mean {order : Fin 4} {a c weight weight' : ℝ}
    (hf : ∀ x, f x ^ (order.val + 1) = a * x ^ (order.val + 1) + c)
    (hweight : weight = a * weight') :
    real weight' * (tally'.shared.mean order - tally'.refined.mean order) =
      real weight * (tally.shared.mean order - tally.refined.mean order) := by
  cases h with
  | of shared refined =>
    -- an empty tally has no mean in any unit
    have hnil : (Tally.ofValues []).mean order = nan := by
      simp [Tally.mean, Tally.ofValues]
    have hmean : ∀ {values : List ℝ}, values ≠ [] → (Tally.ofValues (values.map f)).mean order =
        real (a * Multifidelity.mean (values.map (· ^ (order.val + 1))) + c) := by
      intro values hne
      rw [Tally.mean_ofValues (by simpa using hne), List.map_map, ← mean_affine hne]
      exact congrArg (real ∘ Multifidelity.mean) (List.map_congr_left fun x _ => hf x)
    have hnan : ∀ x : ExactReal, x - nan = nan := fun x => by cases x <;> rfl
    dsimp only
    rcases eq_or_ne shared [] with rfl | hshared
    · rw [List.map_nil, hnil]
      rfl
    · rcases eq_or_ne refined [] with rfl | hrefined
      · rw [List.map_nil, hnil, hnan, hnan]
        rfl
      · rw [hmean hshared, hmean hrefined, Tally.mean_ofValues hshared,
          Tally.mean_ofValues hrefined, real_sub, real_sub, real_mul, real_mul, hweight]
        congr 1
        ring

end NestedTally.Rescaled

/-! ## Moments -/

/-- The powers of a value change by an affine function, if their exponent is one or if there is no
shift. -/
theorem Rescaling.exists_pow_value (units : Rescaling) (model qoi : ℕ) {order : Fin 4}
    (h : order = 0 ∨ units.shift model qoi = 0) :
    ∃ a c, a ≠ 0 ∧
      ∀ x, units.value model qoi x ^ (order.val + 1) = a * x ^ (order.val + 1) + c := by
  rcases h with rfl | hshift
  · refine ⟨units.scale model qoi, units.shift model qoi, units.scale_ne_zero model qoi, ?_⟩
    intro x
    simp [Rescaling.value]
  · refine ⟨units.scale model qoi ^ (order.val + 1), 0,
      pow_ne_zero _ (units.scale_ne_zero model qoi), ?_⟩
    intro x
    rw [Rescaling.value, hshift, add_zero, add_zero, mul_pow]

/-- The estimate of a moment does not depend on the units if they change its powers by affine
functions. -/
theorem QoiSums.MeasuresPowers.moment_sample {units : Rescaling} {dims : Dimensions} {qoi : ℕ}
    {samples : List RealSample} {sums sums' : QoiSums ExactReal 4}
    (h : sums.MeasuresPowers dims.numApprox samples)
    (h' : sums'.MeasuresPowers dims.numApprox (samples.map (units.sample dims qoi)))
    (hne : samples ≠ []) {tallies tallies' : ℕ → NestedTally ExactReal}
    (htallies : ∀ model < dims.numApprox,
      (tallies model).Rescaled (units.value model qoi) (tallies' model))
    {order : Fin 4} (hunits : order = 0 ∨ ∀ model < dims.numApprox, units.shift model qoi = 0) :
    sums'.moment ((List.range dims.numApprox).map tallies') order =
      sums.moment ((List.range dims.numApprox).map tallies) order := by
  have hhigh : sums'.high.get order / Scalar.ofCount sums'.count =
      sums.high.get order / Scalar.ofCount sums.count := by
    rw [h'.high, h.high, h'.count, h.count, List.length_map]
    simp only [List.map_map, Function.comp_def, Rescaling.high_sample]
  unfold QoiSums.moment
  rw [hhigh, h'.weights_eq (by simpa using hne), h.weights_eq hne, List.zip_map', List.zip_map',
    List.foldl_map, List.foldl_map]
  -- each control variate takes the same away from the mean
  refine List.foldl_ext _ _ _ fun estimate model hmodel => ?_
  have hlt := List.mem_range.mp hmodel
  obtain ⟨a, c, ha, hpow⟩ := units.exists_pow_value model qoi
    (hunits.imp_right fun hshift => hshift model hlt)
  dsimp only
  refine congrArg (estimate - ·) ((htallies model hlt).mul_sub_mean hpow ?_)
  rw [regressionWeight_map, regressionWeight_affine hne ha c]
  simp only [Rescaling.high_sample, Rescaling.value_sample units hlt, hpow]

end Multifidelity
