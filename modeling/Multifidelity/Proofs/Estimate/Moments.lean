import Multifidelity.Estimate.Moments
import Multifidelity.Proofs.Estimate.Correlation
import Multifidelity.Proofs.Recorder

/-!
# Moments of real samples

Over exact scalars the estimate of a moment is the mean of the powers of the high-fidelity values,
corrected by a control variate for each low-fidelity model. The weight of a control variate is the
coefficient of a linear regression.

## Main definitions

* `mean`, `covariance`, `regressionWeight`: statistics of real values
* `Tally.ofValues`: the tally of real values
* `estimatedMoment`: a moment from joint samples and from nested values of the low-fidelity models

## Main results

* `covariance_eq`: covariances from sums
* `covariance_sq_le`: the covariance is bounded by the variances
* `controlVariateWeight_real`: the weight of a control variate
* `QoiSums.MeasuresPowers.moment_eq`: the moments that are estimated
* `rawMoments_eq_ok`, `rawMoments_eq_error`: what is reported about all QoI, and what is refused
-/

namespace Multifidelity

open ExactReal

/-! ## Statistics -/

/-- The mean of real values. -/
noncomputable def mean (values : List ℝ) : ℝ :=
  values.sum / values.length

section Covariance

variable {β : Type} (samples : List β) (f g : β → ℝ)

/-- The covariance of two functions of the samples. -/
noncomputable def covariance : ℝ :=
  mean (samples.map fun sample =>
    (f sample - mean (samples.map f)) * (g sample - mean (samples.map g)))

/-- The coefficient of the linear regression of `g` on `f`, zero if `f` does not vary. -/
noncomputable def regressionWeight : ℝ :=
  if 0 < covariance samples f f then covariance samples f g / covariance samples f f else 0

variable {samples f g}

/-- The covariance from sums. -/
theorem covariance_eq (hne : samples ≠ []) :
    covariance samples f g = ((samples.map fun sample => f sample * g sample).sum -
      (samples.map f).sum / samples.length * (samples.map g).sum) / samples.length := by
  have hlength : (samples.length : ℝ) ≠ 0 := by simpa using hne
  obtain ⟨a, ha⟩ : ∃ a, a = (samples.map f).sum / samples.length := ⟨_, rfl⟩
  obtain ⟨b, hb⟩ : ∃ b, b = (samples.map g).sum / samples.length := ⟨_, rfl⟩
  -- the products of the centred values, expanded
  have hexpand : (samples.map fun sample => (f sample - a) * (g sample - b)).sum =
      (samples.map fun sample => f sample * g sample).sum - a * (samples.map g).sum -
        b * (samples.map f).sum + samples.length * (a * b) := by
    clear hne hlength ha hb
    induction samples with
    | nil => simp
    | cons sample samples ih =>
      simp only [List.map_cons, List.sum_cons, List.length_cons, Nat.cast_add, Nat.cast_one, ih]
      ring
  rw [covariance, mean, mean, mean, List.length_map, List.length_map, List.length_map, ← ha, ← hb,
    hexpand, ha, hb]
  field_simp
  ring

theorem covariance_self_nonneg : 0 ≤ covariance samples f f := by
  refine div_nonneg (List.sum_nonneg fun x hx => ?_) (Nat.cast_nonneg _)
  obtain ⟨sample, -, rfl⟩ := List.mem_map.mp hx
  exact mul_self_nonneg _

/-- The Cauchy–Schwarz inequality. -/
theorem covariance_sq_le :
    covariance samples f g ^ 2 ≤ covariance samples f f * covariance samples g g := by
  unfold covariance
  generalize mean (samples.map f) = a, mean (samples.map g) = b
  have hcauchy := Finset.sum_mul_sq_le_sq_mul_sq Finset.univ
    (fun i : Fin samples.length => f samples[i.val] - a) fun i => g samples[i.val] - b
  simp only [sq (_ - _)] at hcauchy
  rw [Fin.sum_univ_fun_getElem samples fun sample => (f sample - a) * (g sample - b),
    Fin.sum_univ_fun_getElem samples fun sample => (f sample - a) * (f sample - a),
    Fin.sum_univ_fun_getElem samples fun sample => (g sample - b) * (g sample - b)] at hcauchy
  simp only [mean, List.length_map]
  rw [div_pow, div_mul_div_comm, ← sq]
  exact div_le_div_of_nonneg_right hcauchy (sq_nonneg _)

/-- The weight of a control variate is the coefficient of a linear regression. -/
theorem controlVariateWeight_real (hne : samples ≠ []) :
    controlVariateWeight (real (samples.map f).sum) (real (samples.map g).sum)
        (real (samples.map fun sample => f sample * f sample).sum)
        (real (samples.map fun sample => f sample * g sample).sum) samples.length =
      real (regressionWeight samples f g) := by
  have hlength : (0 : ℝ) < samples.length := Nat.cast_pos.mpr (List.length_pos_iff.mpr hne)
  unfold controlVariateWeight regressionWeight
  rw [covariance_eq hne, covariance_eq hne]
  -- numerator and denominator are covariances, but for the number of samples
  simp only [ofCount_eq, real_div hlength.ne', real_mul, real_sub, zero_eq, real_lt_real]
  by_cases hpos : 0 < (samples.map fun sample => f sample * f sample).sum -
      (samples.map f).sum / samples.length * (samples.map f).sum
  · rw [if_pos hpos, if_pos (div_pos hpos hlength), real_div hpos.ne',
      div_div_div_cancel_right₀ hlength.ne']
  · rw [if_neg hpos, if_neg fun h => hpos ((div_pos_iff_of_pos_right hlength).mp h)]

end Covariance

/-! ## Tallies -/

/-- The tally of real values. -/
noncomputable def Tally.ofValues (values : List ℝ) : Tally ExactReal where
  count := values.length
  powers := .ofFn fun order => real (values.map (· ^ (order.val + 1))).sum

theorem Tally.add_ofValues (values : List ℝ) (x : ℝ) :
    (Tally.ofValues values).add (real x) = .ofValues (values ++ [x]) := by
  unfold Tally.add Tally.ofValues
  congr 1
  · simp
  · ext order horder
    simp

theorem Tally.mean_ofValues {values : List ℝ} (hne : values ≠ []) (order : Fin 4) :
    (Tally.ofValues values).mean order =
      real (Multifidelity.mean (values.map (· ^ (order.val + 1)))) := by
  have hlength : (values.length : ℝ) ≠ 0 := by simpa using hne
  simp [Tally.mean, Tally.ofValues, Multifidelity.mean, hlength]

/-! ## Moments -/

/-- The estimate of a moment from joint samples. The values of each low-fidelity model are nested:
those that it shares with a more correlated model come with those that it does not. -/
noncomputable def estimatedMoment (numApprox : ℕ) (samples : List RealSample)
    (sharedValues refinedValues : ℕ → List ℝ) (exponent : ℕ) : ℝ :=
  mean (samples.map fun sample => sample.high ^ exponent) -
    ((List.range numApprox).map fun model =>
      regressionWeight samples (fun sample => sample.value model ^ exponent)
          (fun sample => sample.high ^ exponent) *
        (mean ((sharedValues model).map (· ^ exponent)) -
          mean ((refinedValues model).map (· ^ exponent)))).sum

theorem foldl_sub_real {β : Type} {step : ExactReal → β → ExactReal} {f : β → ℝ} {xs : List β}
    (hstep : ∀ x ∈ xs, ∀ start, step (real start) x = real (start - f x)) (start : ℝ) :
    xs.foldl step (real start) = real (start - (xs.map f).sum) := by
  induction xs generalizing start with
  | nil => simp
  | cons x xs ih =>
    rw [List.foldl_cons, hstep x List.mem_cons_self,
      ih fun y hy => hstep y (List.mem_cons_of_mem x hy), List.map_cons, List.sum_cons,
      sub_sub]

/-- The weights of the control variates are those of regressions, model by model. -/
theorem QoiSums.MeasuresPowers.weights_eq {numApprox : ℕ} {samples : List RealSample}
    {sums : QoiSums ExactReal 4} (h : sums.MeasuresPowers numApprox samples) (hne : samples ≠ [])
    (order : Fin 4) :
    sums.weights order = (List.range numApprox).map fun model =>
      real (regressionWeight samples (fun sample => sample.value model ^ (order.val + 1))
        (fun sample => sample.high ^ (order.val + 1))) := by
  rw [QoiSums.weights, h.pairs, List.map_map]
  refine List.map_congr_left fun model _ => ?_
  rw [Function.comp_apply, Vector.get_ofFn, h.high, Vector.get_ofFn, h.count]
  exact controlVariateWeight_real hne

/-- The moments of real samples. -/
theorem QoiSums.MeasuresPowers.moment_eq {numApprox : ℕ} {samples : List RealSample}
    {sums : QoiSums ExactReal 4} (h : sums.MeasuresPowers numApprox samples) (hne : samples ≠ [])
    {sharedValues refinedValues : ℕ → List ℝ}
    (hshared : ∀ model < numApprox, sharedValues model ≠ [])
    (hrefined : ∀ model < numApprox, refinedValues model ≠ []) (order : Fin 4) :
    sums.moment ((List.range numApprox).map fun model =>
        ⟨.ofValues (sharedValues model), .ofValues (refinedValues model)⟩) order =
      real (estimatedMoment numApprox samples sharedValues refinedValues (order + 1)) := by
  have hlength : (samples.length : ℝ) ≠ 0 := by simpa using hne
  have hhigh : sums.high.get order / Scalar.ofCount sums.count =
      real (mean (samples.map fun sample => sample.high ^ (order.val + 1))) := by
    rw [h.high, Vector.get_ofFn, h.count, ofCount_eq, real_div hlength, mean, List.length_map]
  -- each control variate takes its share away from the mean
  rw [QoiSums.moment, hhigh, h.weights_eq hne, List.zip_map', List.foldl_map, estimatedMoment]
  refine foldl_sub_real (fun model hmodel start => ?_) _
  have hlt := List.mem_range.mp hmodel
  dsimp only
  rw [Tally.mean_ofValues (hshared model hlt), Tally.mean_ofValues (hrefined model hlt), real_sub,
    real_mul, real_sub]

/-! ## All moments -/

section RawMoments

variable {α : Type} [Scalar α]

theorem QoiSums.rawMoments_eq_ok {sums : QoiSums α 4} {qoi : ℕ} {tallies : List (NestedTally α)}
    {moments : Vector α 4} (h : (sums.rawMoments qoi tallies).outcome = .ok moments) :
    sums.count ≠ 0 ∧ moments = .ofFn (sums.moment tallies) := by
  unfold QoiSums.rawMoments at h
  dsimp only at h
  split at h
  · obtain ⟨_, hfail, -⟩ := Recorder.outcome_bind_eq_ok.mp h
    cases hfail
  · rename_i hcount
    obtain ⟨-, -, h⟩ := Recorder.outcome_bind_eq_ok.mp h
    cases h
    exact ⟨hcount, rfl⟩

theorem QoiSums.rawMoments_eq_error {sums : QoiSums α 4} {qoi : ℕ}
    {tallies : List (NestedTally α)} {failure : Failure α}
    (h : (sums.rawMoments qoi tallies).outcome = .error failure) :
    sums.count = 0 ∧ failure = .insufficientSamples qoi 0 := by
  unfold QoiSums.rawMoments at h
  dsimp only at h
  split at h
  · rename_i hcount
    cases h
    exact ⟨hcount, rfl⟩
  · cases h

/-- Moments are refused for the first QoI without a joint sample. -/
theorem rawMoments_eq_error {sums : JointSums α 4} {pyramid : PyramidSums α}
    {failure : Failure α} (h : (rawMoments sums pyramid).outcome = .error failure) :
    ∃ qoi, sums.counts.findIdx? (· = 0) = some qoi ∧ failure = .insufficientSamples qoi 0 := by
  obtain ⟨_, ⟨entry, qoi⟩, _, hsplit, hbefore, hfail⟩ := Recorder.exists_of_mapM_eq_error h
  obtain ⟨before, _, hzip, rfl, hrest⟩ := List.zipIdx_eq_append_iff.mp hsplit
  obtain ⟨_, after, rfl, heq, -⟩ := List.zipIdx_eq_cons_iff.mp hrest.symm
  cases heq
  obtain ⟨hcount, rfl⟩ := QoiSums.rawMoments_eq_error hfail
  have hcounts : ∀ (i : ℕ) found, (before ++ entry :: after)[i]? = some found →
      sums.counts[i]? = some found.1.count := by
    intro i found hfound
    rw [← hzip] at hfound
    rw [JointSums.counts, List.getElem?_map, (List.getElem?_zip_eq_some.mp hfound).1,
      Option.map_some]
  -- the refused QoI has no joint sample, and those before it have some
  obtain ⟨hlt, hrefused⟩ := List.getElem?_eq_some_iff.mp
    (hcounts before.length entry (by simp))
  refine ⟨before.length, List.findIdx?_eq_some_iff_getElem.mpr ⟨hlt, ?_, fun i hi => ?_⟩, ?_⟩
  · rw [hrefused]
    exact decide_eq_true hcount
  · obtain ⟨_, hget⟩ := List.getElem?_eq_some_iff.mp
      (hcounts i before[i] (List.getElem?_append_left hi ▸ List.getElem?_eq_getElem hi))
    have hmem : (before[i], i) ∈ before.zipIdx :=
      List.mem_zipIdx_iff_getElem?.mpr (List.getElem?_eq_getElem hi)
    obtain ⟨moments, hmoments⟩ := hbefore _ hmem
    rw [hget]
    simpa using (QoiSums.rawMoments_eq_ok hmoments).1
  · rw [Nat.zero_add]

/-- The moments of all QoI, each of which needs a joint sample. -/
theorem rawMoments_eq_ok {sums : JointSums α 4} {pyramid : PyramidSums α}
    {moments : List (Vector α 4)} (h : (rawMoments sums pyramid).outcome = .ok moments) :
    (∀ entry ∈ sums.qois.zip pyramid.qois, entry.1.count ≠ 0) ∧
      moments = (sums.qois.zip pyramid.qois).map fun (qoiSums, tallies) =>
        .ofFn (qoiSums.moment tallies) := by
  obtain ⟨hcounts, hmoments⟩ := Recorder.mapM_eq_ok
    (g := fun entry => Vector.ofFn (entry.1.1.moment entry.1.2))
    (P := fun entry => entry.1.1.count ≠ 0)
    (fun ⟨⟨qoiSums, tallies⟩, qoi⟩ result hresult => QoiSums.rawMoments_eq_ok hresult) h
  -- the index of a QoI only matters to a failure
  constructor
  · intro entry hentry
    obtain ⟨i, hi, rfl⟩ := List.mem_iff_getElem.mp hentry
    have hmem : ((sums.qois.zip pyramid.qois)[i], i) ∈ (sums.qois.zip pyramid.qois).zipIdx :=
      List.mem_zipIdx_iff_getElem?.mpr (List.getElem?_eq_getElem hi)
    exact hcounts _ hmem
  · have hmap := List.map_map (g := fun entry : QoiSums α 4 × List (NestedTally α) =>
      (Vector.ofFn (entry.1.moment entry.2) : Vector α 4)) (f := Prod.fst)
      (l := (sums.qois.zip pyramid.qois).zipIdx)
    rw [List.zipIdx_map_fst] at hmap
    rw [hmoments]
    exact hmap.symm

end RawMoments

end Multifidelity
