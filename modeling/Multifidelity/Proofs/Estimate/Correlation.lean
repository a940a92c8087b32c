import Mathlib
import Multifidelity.Proofs.ExactReal
import Multifidelity.Proofs.Sums.Joint

/-!
# Correlations of real samples

Joint samples are finite. Over exact scalars the power sums are the sums over their real values, and
the estimated second moments are those of the samples.

## Main definitions

* `RealSample`: the real values of a joint sample
* `QoiSums.MeasuresPowers`: sums of all orders over real samples
* `QoiSums.Measures`: sums of first order over real samples
* `sampleCov`: the unbiased covariance from real sums

## Main results

* `QoiSums.MeasuresPowers.foldl_add`: sums go on measuring what is added
* `QoiSums.MeasuresPowers.measures`: the sums of the lowest order
* `QoiSums.Measures.rhoSq_eq`: the squared correlations of real samples
-/

namespace Multifidelity

open ExactReal

/-- The real values of a joint sample. -/
structure RealSample where
  /-- One value per low-fidelity model. -/
  low : List ℝ
  /-- The value of the high-fidelity model. -/
  high : ℝ

/-- The joint sample with the given real values. -/
def RealSample.toJoint (sample : RealSample) : JointSample ExactReal :=
  ⟨sample.low.map real, real sample.high⟩

/-- The value of a low-fidelity model, zero for a model that does not exist. -/
def RealSample.value (model : ℕ) (sample : RealSample) : ℝ :=
  sample.low.getD model 0

/-- The response of a sample at a single QoI. -/
def RealSample.response (sample : RealSample) : Response ExactReal :=
  sample.low.map real ++ [real sample.high]

theorem RealSample.length_response (sample : RealSample) :
    sample.response.length = (⟨sample.low.length, 1⟩ : Dimensions).responseLength := by
  simp [response, Dimensions.responseLength]

/-- All values of the response of a sample are finite. -/
theorem RealSample.value?_response (sample : RealSample) (model : ℕ) :
    (⟨sample.low.length, 1⟩ : Dimensions).value? sample.response model 0 =
      sample.response[model]? := by
  have hreal : sample.response = (sample.low ++ [sample.high]).map real := by simp [response]
  rw [Dimensions.value?, Nat.mul_one, Nat.add_zero, hreal, List.getElem?_map]
  cases (sample.low ++ [sample.high])[model]? with
  | none => rfl
  | some x => exact filter_isFinite_real x

/-- A sample is the joint sample of its response. -/
theorem RealSample.joint?_response (sample : RealSample) :
    (⟨sample.low.length, 1⟩ : Dimensions).joint? sample.response 0 = some sample.toJoint := by
  refine Dimensions.joint?_eq_some_iff.mpr ⟨?_, ?_⟩
  · refine List.ext_getElem (by simp [toJoint]) fun model hmodel _ => ?_
    simp only [List.length_map, List.length_range] at hmodel
    rw [List.getElem_map, List.getElem_range, value?_response]
    simp [response, toJoint, List.getElem?_append_left, hmodel]
  · rw [value?_response]
    simp [response, toJoint]

/-! ## Power sums -/

@[simp] theorem power_real (x : ℝ) (order : ℕ) :
    power (real x) order = real (x ^ (order + 1)) := by
  induction order with
  | zero => rw [zero_add, pow_one, power]
  | succ order ih => rw [power, ih, real_mul, ← pow_succ]

/-- The sums of powers that involve a low-fidelity model. -/
def powerPair (samples : List RealSample) (exponent model : ℕ) : PairSums ExactReal where
  low := real (samples.map fun sample => sample.value model ^ exponent).sum
  lowLow := real (samples.map fun sample =>
    sample.value model ^ exponent * sample.value model ^ exponent).sum
  lowHigh := real (samples.map fun sample =>
    sample.value model ^ exponent * sample.high ^ exponent).sum

namespace QoiSums

/-- Sums of all orders over real samples. -/
structure MeasuresPowers {M : ℕ} (numApprox : ℕ) (samples : List RealSample)
    (sums : QoiSums ExactReal M) : Prop where
  count : sums.count = samples.length
  highSquared : sums.highSquared =
    real (samples.map fun sample => sample.high * sample.high).sum
  high : sums.high = .ofFn fun order =>
    real (samples.map fun sample => sample.high ^ (order.val + 1)).sum
  pairs : sums.pairs = (List.range numApprox).map fun model =>
    .ofFn fun order => powerPair samples (order + 1) model

variable {M numApprox : ℕ} {samples : List RealSample} {sums : QoiSums ExactReal M}

theorem measuresPowers_empty :
    (empty numApprox : QoiSums ExactReal M).MeasuresPowers numApprox [] where
  count := rfl
  highSquared := rfl
  high := by
    ext order horder
    simp [empty]
  pairs := by
    have hnone : (.ofFn fun _ => PairSums.empty : Vector (PairSums ExactReal) M) =
        .replicate M .empty := by
      ext order horder
      simp
    change List.replicate numApprox (Vector.replicate M PairSums.empty) =
      (List.range numApprox).map fun _ => Vector.ofFn fun _ => PairSums.empty
    rw [List.map_const', List.length_range, hnone]

theorem MeasuresPowers.add (h : sums.MeasuresPowers numApprox samples) {sample : RealSample}
    (hlow : sample.low.length = numApprox) :
    (sums.add sample.toJoint).MeasuresPowers numApprox (samples ++ [sample]) where
  count := by
    simp [QoiSums.add, h.count]
  highSquared := by
    simp [QoiSums.add, h.highSquared, RealSample.toJoint]
  high := by
    ext order horder
    simp [QoiSums.add, h.high, RealSample.toJoint]
  pairs := by
    -- the pair of a model grows by the powers of the value of that model in the sample
    refine List.ext_getElem (by simp [QoiSums.add, RealSample.toJoint, h.pairs, hlow])
      fun model hmodel hmodel' => ?_
    have hlows : model < sample.low.length := by
      simpa [hlow] using hmodel'
    have hvalue : sample.value model = sample.low[model] :=
      List.getD_eq_getElem sample.low 0 hlows
    ext order horder
    simp [QoiSums.add, h.pairs, RealSample.toJoint, PairSums.add, powerPair, hvalue]

/-- Sums go on measuring what is added. -/
theorem MeasuresPowers.foldl_add (h : sums.MeasuresPowers numApprox samples)
    {added : List RealSample} (hlow : ∀ sample ∈ added, sample.low.length = numApprox) :
    ((added.map RealSample.toJoint).foldl QoiSums.add sums).MeasuresPowers numApprox
      (samples ++ added) := by
  induction added generalizing sums samples with
  | nil => simpa using h
  | cons sample added ih =>
    have hrest := ih (h.add (hlow sample List.mem_cons_self)) fun later hlater =>
      hlow later (List.mem_cons_of_mem sample hlater)
    simpa using hrest

end QoiSums

/-! ## Sums of first order -/

/-- The sums that involve a low-fidelity model. -/
def pairSums (samples : List RealSample) (model : ℕ) : PairSums ExactReal where
  low := real (samples.map (·.value model)).sum
  lowLow := real (samples.map fun sample => sample.value model * sample.value model).sum
  lowHigh := real (samples.map fun sample => sample.value model * sample.high).sum

namespace QoiSums

/-- Sums of first order over real samples. -/
structure Measures {m : ℕ} (numApprox : ℕ) (samples : List RealSample)
    (sums : QoiSums ExactReal (m + 1)) : Prop where
  count : sums.count = samples.length
  highSum : sums.highSum = real (samples.map RealSample.high).sum
  highSquared : sums.highSquared =
    real (samples.map fun sample => sample.high * sample.high).sum
  firstPairs : sums.firstPairs = (List.range numApprox).map (pairSums samples)

variable {m numApprox : ℕ} {samples : List RealSample} {sums : QoiSums ExactReal (m + 1)}

/-- The sums of the lowest order are those of the values. -/
theorem MeasuresPowers.measures (h : sums.MeasuresPowers numApprox samples) :
    sums.Measures numApprox samples where
  count := h.count
  highSum := by
    rw [highSum, h.high, Vector.get_ofFn]
    simp
  highSquared := h.highSquared
  firstPairs := by
    rw [firstPairs, h.pairs, List.map_map]
    refine List.map_congr_left fun model _ => ?_
    rw [Function.comp_apply, Vector.get_ofFn]
    simp [powerPair, pairSums]

end QoiSums

/-! ## Estimated moments -/

/-- The unbiased covariance from the sums of both components and of their products. -/
noncomputable def sampleCov (n : ℕ) (sumX sumY sumXY : ℝ) : ℝ :=
  (sumXY - n * (sumX / n) * (sumY / n)) / (n - 1)

theorem sampleCovariance_real {n : ℕ} (hn : 2 ≤ n) (sumX sumY sumXY : ℝ) :
    sampleCovariance (real n) (real sumX) (real sumY) (real sumXY) =
      real (sampleCov n sumX sumY sumXY) := by
  have hpos : (n : ℝ) ≠ 0 := by
    rw [Nat.cast_ne_zero]
    omega
  have hone : (n : ℝ) - 1 ≠ 0 := by
    rw [sub_ne_zero, Nat.cast_ne_one]
    omega
  simp [sampleCovariance, sampleCov, hpos, hone]

section Moments

variable (samples : List RealSample)

/-- The variance of the high-fidelity values. -/
noncomputable def highVariance : ℝ :=
  let sum := (samples.map RealSample.high).sum
  sampleCov samples.length sum sum (samples.map fun sample => sample.high * sample.high).sum

/-- The variance of the values of a low-fidelity model. -/
noncomputable def lowVariance (model : ℕ) : ℝ :=
  let sum := (samples.map (·.value model)).sum
  sampleCov samples.length sum sum
    (samples.map fun sample => sample.value model * sample.value model).sum

/-- The covariance of a low-fidelity model with the high-fidelity one. -/
noncomputable def crossCovariance (model : ℕ) : ℝ :=
  sampleCov samples.length (samples.map (·.value model)).sum (samples.map RealSample.high).sum
    (samples.map fun sample => sample.value model * sample.high).sum

/-- The squared correlation of a low-fidelity model with the high-fidelity one, zero if one of
them does not vary. -/
noncomputable def correlationSq (model : ℕ) : ℝ :=
  if 0 < lowVariance samples model * highVariance samples then
    crossCovariance samples model * crossCovariance samples model /
      (lowVariance samples model * highVariance samples)
  else 0

end Moments

namespace QoiSums

variable {m numApprox : ℕ} {samples : List RealSample} {sums : QoiSums ExactReal (m + 1)}

section Measures

variable (h : sums.Measures numApprox samples) (hcount : 2 ≤ samples.length)
include h hcount

/-- The variance of the high-fidelity values of real samples. -/
theorem Measures.varHigh_eq : sums.varHigh = real (highVariance samples) := by
  rw [varHigh, h.count, h.highSum, h.highSquared]
  exact sampleCovariance_real hcount _ _ _

/-- The variances of the low-fidelity values of real samples. -/
theorem Measures.varLow_eq : sums.varLow = (List.range numApprox).map fun model =>
    real (lowVariance samples model) := by
  rw [varLow, h.firstPairs, h.count, List.map_map]
  exact List.map_congr_left fun model _ => sampleCovariance_real hcount _ _ _

/-- The covariances of real samples. -/
theorem Measures.cov_eq : sums.cov = (List.range numApprox).map fun model =>
    real (crossCovariance samples model) := by
  rw [cov, h.firstPairs, h.count, h.highSum, List.map_map]
  exact List.map_congr_left fun model _ => sampleCovariance_real hcount _ _ _

/-- The squared correlations of real samples. -/
theorem Measures.rhoSq_eq :
    sums.rhoSq = (List.range numApprox).map fun model => real (correlationSq samples model) := by
  rw [rhoSq, h.varHigh_eq hcount, h.varLow_eq hcount, h.cov_eq hcount, List.zipWith_map,
    List.zipWith_self]
  refine List.map_congr_left fun model _ => ?_
  unfold squaredCorrelation correlationSq
  by_cases hpos : 0 < lowVariance samples model * highVariance samples
  · simp [hpos, hpos.ne']
  · simp [hpos]

end Measures

end QoiSums

/-! ## Single spikes -/

/-- One sample at which the first of two models agrees with the high-fidelity one, and samples at
which everything vanishes. -/
def spike (zeros : ℕ) : List RealSample :=
  ⟨[1, 0], 1⟩ :: List.replicate zeros ⟨[0, 0], 0⟩

theorem correlationSq_spike_zero {zeros : ℕ} (h : zeros ≠ 0) :
    correlationSq (spike zeros) 0 = 1 := by
  have hpos : (0 : ℝ) < zeros := by positivity
  -- the variances and the covariance agree, since the models agree
  have hcov : sampleCov (spike zeros).length 1 1 1 = 1 / (zeros + 1) := by
    rw [sampleCov, spike, List.length_cons, List.length_replicate]
    push_cast
    rw [add_sub_cancel_right]
    field_simp
    ring
  have hcov_ne : (1 : ℝ) / (zeros + 1) ≠ 0 := by positivity
  have hlow : lowVariance (spike zeros) 0 = 1 / (zeros + 1) := by
    rw [lowVariance, ← hcov]
    simp [spike, RealSample.value]
  have hhigh : highVariance (spike zeros) = 1 / (zeros + 1) := by
    rw [highVariance, ← hcov]
    simp [spike]
  have hcross : crossCovariance (spike zeros) 0 = 1 / (zeros + 1) := by
    rw [crossCovariance, ← hcov]
    simp [spike, RealSample.value]
  rw [correlationSq, hlow, hhigh, hcross, if_pos (by positivity)]
  exact div_self (mul_ne_zero hcov_ne hcov_ne)

theorem correlationSq_spike_one (zeros : ℕ) : correlationSq (spike zeros) 1 = 0 := by
  have hlow : lowVariance (spike zeros) 1 = 0 := by
    simp [lowVariance, sampleCov, spike, RealSample.value]
  rw [correlationSq, hlow]
  simp

/-! ## Correlations of a batch -/

namespace JointSums

/-- The sums of a batch at each QoI run over the joint samples there. -/
theorem qois_foldl_addResponse_empty {m : ℕ} {dims : Dimensions} {batch : Batch ExactReal}
    {samples : ℕ → List RealSample}
    (hjoint : ∀ qoi < dims.numFunctions,
      batch.filterMap (dims.joint? · qoi) = (samples qoi).map RealSample.toJoint) :
    (batch.foldl addResponse (empty dims : JointSums ExactReal (m + 1))).qois =
      (List.range dims.numFunctions).map fun qoi =>
        ((samples qoi).map RealSample.toJoint).foldl QoiSums.add (.empty dims.numApprox) := by
  refine List.ext_getElem? fun qoi => ?_
  rw [getElem?_qois_foldl_addResponse]
  rcases lt_or_ge qoi dims.numFunctions with hqoi | hqoi
  · simp [empty, hqoi, hjoint qoi hqoi]
  · simp [empty, hqoi]

/-- A batch with two joint samples at each QoI has the correlations of these samples. -/
theorem exists_correlations (m : ℕ) (dims : Dimensions) (batch : Batch ExactReal)
    (samples : ℕ → List RealSample)
    (hlength : ∀ response ∈ batch, response.length = dims.responseLength)
    (hjoint : ∀ qoi < dims.numFunctions,
      batch.filterMap (dims.joint? · qoi) = (samples qoi).map RealSample.toJoint)
    (hcount : ∀ qoi < dims.numFunctions, 2 ≤ (samples qoi).length) :
    ∃ (sums : JointSums ExactReal (m + 1)) (correlations : Correlations ExactReal),
      (empty dims).accumulate batch = .ok sums ∧
      sums.counts = (List.range dims.numFunctions).map (fun qoi => (samples qoi).length) ∧
      sums.correlations = .ok correlations ∧
      correlations.rhoSq = .ofRows dims.numApprox ((List.range dims.numFunctions).map fun qoi =>
        (List.range dims.numApprox).map fun model => real (correlationSq (samples qoi) model)) := by
  have hqois := qois_foldl_addResponse_empty (m := m) hjoint
  -- the sums of a QoI measure its own samples
  have hmeasures : ∀ qoi < dims.numFunctions,
      (((samples qoi).map RealSample.toJoint).foldl QoiSums.add
        (.empty dims.numApprox : QoiSums ExactReal (m + 1))).Measures dims.numApprox
          (samples qoi) := by
    intro qoi hqoi
    refine (QoiSums.measuresPowers_empty.foldl_add fun sample hsample => ?_).measures
    have hmem : sample.toJoint ∈ batch.filterMap (dims.joint? · qoi) := by
      rw [hjoint qoi hqoi]
      exact List.mem_map_of_mem hsample
    obtain ⟨response, -, hresponse⟩ := List.mem_filterMap.mp hmem
    simpa [RealSample.toJoint] using Dimensions.length_low hresponse
  have hcounts : (batch.foldl addResponse (empty dims : JointSums ExactReal (m + 1))).counts =
      (List.range dims.numFunctions).map fun qoi => (samples qoi).length := by
    rw [counts, hqois, List.map_map]
    exact List.map_congr_left fun qoi hqoi => (hmeasures qoi (List.mem_range.mp hqoi)).count
  -- no QoI has fewer than two samples
  have hnone : (batch.foldl addResponse (empty dims : JointSums ExactReal (m + 1))).counts.findIdx?
      (· < 2) = none := by
    rw [hcounts, List.findIdx?_eq_none_iff]
    intro count hmem
    obtain ⟨qoi, hqoi, rfl⟩ := List.mem_map.mp hmem
    exact decide_eq_false (not_lt.mpr (hcount qoi (List.mem_range.mp hqoi)))
  obtain ⟨sums, hsums⟩ : ∃ sums, sums =
      batch.foldl addResponse (empty dims : JointSums ExactReal (m + 1)) := ⟨_, rfl⟩
  rw [← hsums] at hcounts hnone hqois
  have hdims : sums.dims = dims := by
    rw [hsums, dims_foldl_addResponse]
    rfl
  have hok : sums.correlations = .ok {
      varLow := .ofRows sums.dims.numApprox (sums.qois.map QoiSums.varLow)
      varHigh := sums.qois.map QoiSums.varHigh
      rhoSq := .ofRows sums.dims.numApprox (sums.qois.map QoiSums.rhoSq) } := by
    rw [correlations, hnone]
  refine ⟨sums, _, by rw [hsums, accumulate_of_lengths _ hlength], hcounts, hok, ?_⟩
  dsimp only
  rw [hdims, hqois, List.map_map]
  congr 1
  exact List.map_congr_left fun qoi hqoi => (hmeasures qoi (List.mem_range.mp hqoi)).rhoSq_eq
    (hcount qoi (List.mem_range.mp hqoi))

end JointSums

end Multifidelity
