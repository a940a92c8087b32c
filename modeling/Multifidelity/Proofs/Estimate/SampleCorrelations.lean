import Multifidelity.Proofs.Estimate.Rescaling
import Multifidelity.Proofs.Sums.Batches

/-!
# Sample correlations

The correlations that are estimated from power sums are those of the joint samples of each QoI, by
their definition with centred values. They are defined for two samples and more, and depend neither
on the order of the samples nor on the batches in which they came.

## Main definitions

* `unbiasedCovariance`: the unbiased covariance, from centred values
* `sampleCorrelationSq`: the squared correlation, zero if one of the functions does not vary
* `AffinelyRelated`: functions that vary and are affine functions of each other
* `sampleCorrelations`: variances and squared correlations of the samples of all QoI

## Main results

* `covariance_sq_eq_iff`: the equality case of the Cauchy–Schwarz inequality
* `sampleCorrelationSq_eq_one_iff`: when a correlation is perfect
* `JointSums.correlations_foldl_eq_ok`, `JointSums.correlations_foldl_eq_error_iff`: the
  correlations of a list of responses
* `JointSums.correlations_of_batches`: what is estimated after any batches
-/

namespace Multifidelity

open ExactReal

/-! ## Covariances -/

section Covariance

variable {β : Type} {samples : List β} {f g k : β → ℝ}

theorem covariance_congr (h : ∀ sample ∈ samples, f sample = k sample) :
    covariance samples f g = covariance samples k g := by
  have hmap : samples.map f = samples.map k := List.map_congr_left h
  unfold covariance
  rw [hmap]
  refine congrArg mean (List.map_congr_left fun sample hsample => ?_)
  rw [h sample hsample]

theorem covariance_perm {others : List β} (h : samples.Perm others) :
    covariance samples f g = covariance others f g := by
  have hmean : ∀ value : β → ℝ, mean (samples.map value) = mean (others.map value) := by
    intro value
    rw [mean, mean, (h.map value).sum_eq, (h.map value).length_eq]
  unfold covariance
  rw [hmean f, hmean g, hmean]

variable (hne : samples ≠ [])
include hne

theorem covariance_add :
    covariance samples (fun sample => f sample + k sample) g =
      covariance samples f g + covariance samples k g := by
  rw [covariance_eq hne, covariance_eq hne, covariance_eq hne]
  simp only [add_mul, List.sum_map_add]
  ring

/-- The variance of what a multiple of another function leaves over. -/
theorem covariance_residual (a : ℝ) :
    covariance samples (fun sample => f sample + (a * g sample + 0))
        (fun sample => f sample + (a * g sample + 0)) =
      covariance samples f f + 2 * a * covariance samples f g +
        a ^ 2 * covariance samples g g := by
  have hsplit : ∀ k : β → ℝ, covariance samples (fun sample => f sample + (a * g sample + 0)) k =
      covariance samples f k + a * covariance samples g k := by
    intro k
    rw [covariance_add hne, covariance_affine hne]
  rw [hsplit, covariance_comm.trans (hsplit f), covariance_comm.trans (hsplit g),
    covariance_comm (f := g) (g := f)]
  ring

/-- A function varies unless it has the same value at all samples. -/
theorem covariance_self_ne_zero_iff :
    covariance samples f f ≠ 0 ↔ ∃ first ∈ samples, ∃ second ∈ samples, f first ≠ f second := by
  constructor
  · intro hvaries
    by_contra! hconst
    obtain ⟨first, hfirst⟩ := List.exists_mem_of_ne_nil samples hne
    -- a constant is an affine function with slope zero
    have hzero : ∀ sample ∈ samples, f sample = 0 * f sample + f first := fun sample hsample => by
      rw [zero_mul, zero_add, hconst sample hsample first hfirst]
    rw [covariance_congr hzero, covariance_affine hne, zero_mul] at hvaries
    exact hvaries rfl
  · rintro ⟨first, hfirst, second, hsecond, hdiffer⟩ hzero
    have hlength : (samples.length : ℝ) ≠ 0 := by simpa using hne
    have hsum : (samples.map fun sample => (f sample - mean (samples.map f)) *
        (f sample - mean (samples.map f))).sum = 0 := by
      rw [covariance, mean, List.length_map] at hzero
      exact (div_eq_zero_iff.mp hzero).resolve_right hlength
    -- a sum of squares vanishes only if all values are equal to the mean
    have hmean : ∀ sample ∈ samples, f sample = mean (samples.map f) := by
      intro sample hsample
      have hterm := List.all_zero_of_le_zero_le_of_sum_eq_zero (fun x hx => ?_) hsum
        (List.mem_map_of_mem hsample)
      · exact sub_eq_zero.mp (mul_self_eq_zero.mp hterm)
      · obtain ⟨other, -, rfl⟩ := List.mem_map.mp hx
        exact mul_self_nonneg _
    exact hdiffer ((hmean first hfirst).trans (hmean second hsecond).symm)

/-- The equality case of the Cauchy–Schwarz inequality. -/
theorem covariance_sq_eq_iff (hvaries : covariance samples g g ≠ 0) :
    covariance samples f g ^ 2 = covariance samples f f * covariance samples g g ↔
      ∃ slope intercept, ∀ sample ∈ samples, f sample = slope * g sample + intercept := by
  constructor
  · intro heq
    -- the regression on `g` leaves nothing over that varies
    have hresidual := covariance_residual (f := f) (g := g) hne
      (-(covariance samples f g / covariance samples g g))
    have hzero : covariance samples f f + 2 * -(covariance samples f g / covariance samples g g) *
        covariance samples f g + (-(covariance samples f g / covariance samples g g)) ^ 2 *
          covariance samples g g = 0 := by
      field_simp
      linarith
    rw [hzero] at hresidual
    have hconst := (covariance_self_ne_zero_iff hne).not.mp (not_not.mpr hresidual)
    push Not at hconst
    obtain ⟨first, hfirst⟩ := List.exists_mem_of_ne_nil samples hne
    refine ⟨covariance samples f g / covariance samples g g,
      f first - covariance samples f g / covariance samples g g * g first,
      fun sample hsample => ?_⟩
    linarith [hconst sample hsample first hfirst]
  · rintro ⟨slope, intercept, haffine⟩
    have hcross : covariance samples f g = slope * covariance samples g g := by
      rw [covariance_congr haffine, covariance_affine hne]
    have hself : covariance samples f f = slope * slope * covariance samples g g := by
      rw [covariance_congr haffine, covariance_comm, covariance_congr haffine,
        covariance_affine_self hne]
    rw [hcross, hself]
    ring

end Covariance

/-! ## Statistics of samples -/

section Samples

variable {β : Type}

/-- The unbiased covariance of two functions of the samples. -/
noncomputable def unbiasedCovariance (samples : List β) (f g : β → ℝ) : ℝ :=
  (samples.map fun sample =>
    (f sample - mean (samples.map f)) * (g sample - mean (samples.map g))).sum /
      (samples.length - 1)

/-- The squared correlation of two functions of the samples, zero if one of them does not vary. -/
noncomputable def sampleCorrelationSq (samples : List β) (f g : β → ℝ) : ℝ :=
  if unbiasedCovariance samples f f = 0 ∨ unbiasedCovariance samples g g = 0 then 0
  else unbiasedCovariance samples f g ^ 2 /
    (unbiasedCovariance samples f f * unbiasedCovariance samples g g)

/-- A function that varies over the samples, and another one that is an affine function of it and
varies as well. -/
def AffinelyRelated (samples : List β) (f g : β → ℝ) : Prop :=
  (∃ first ∈ samples, ∃ second ∈ samples, g first ≠ g second) ∧
    ∃ slope intercept, slope ≠ 0 ∧ ∀ sample ∈ samples, f sample = slope * g sample + intercept

variable {samples : List β} {f g : β → ℝ} (h : 2 ≤ samples.length)
include h

/-- The unbiased covariance is the covariance up to a positive factor. -/
theorem unbiasedCovariance_eq :
    unbiasedCovariance samples f g =
      covariance samples f g * (samples.length / (samples.length - 1)) := by
  have hlength : (samples.length : ℝ) ≠ 0 := by
    rw [Nat.cast_ne_zero]
    omega
  have hsum : ∀ value : β → ℝ,
      (samples.map value).sum = mean (samples.map value) * samples.length := by
    intro value
    rw [mean, List.length_map, div_mul_cancel₀ _ hlength]
  rw [unbiasedCovariance, hsum, mul_div_assoc]
  rfl

theorem unbiasedCovariance_perm {others : List β} (hperm : samples.Perm others) :
    unbiasedCovariance samples f g = unbiasedCovariance others f g := by
  rw [unbiasedCovariance_eq h, unbiasedCovariance_eq (hperm.length_eq ▸ h), covariance_perm hperm,
    hperm.length_eq]

theorem sampleCorrelationSq_perm {others : List β} (hperm : samples.Perm others) :
    sampleCorrelationSq samples f g = sampleCorrelationSq others f g := by
  unfold sampleCorrelationSq
  simp only [unbiasedCovariance_perm h hperm]

theorem unbiasedCovariance_self_nonneg : 0 ≤ unbiasedCovariance samples f f := by
  rw [unbiasedCovariance_eq h]
  exact mul_nonneg covariance_self_nonneg (unbiased_pos h).le

theorem unbiasedCovariance_eq_zero_iff :
    unbiasedCovariance samples f g = 0 ↔ covariance samples f g = 0 := by
  rw [unbiasedCovariance_eq h, mul_eq_zero, or_iff_left (unbiased_pos h).ne']

theorem sampleCorrelationSq_eq :
    sampleCorrelationSq samples f g =
      if covariance samples f f = 0 ∨ covariance samples g g = 0 then 0
      else covariance samples f g ^ 2 / (covariance samples f f * covariance samples g g) := by
  unfold sampleCorrelationSq
  simp only [unbiasedCovariance_eq_zero_iff h]
  congr 1
  have hfactor := (unbiased_pos h).ne'
  rw [unbiasedCovariance_eq h, unbiasedCovariance_eq h, unbiasedCovariance_eq h, mul_pow,
    mul_mul_mul_comm, ← sq ((samples.length : ℝ) / _),
    mul_div_mul_right _ _ (pow_ne_zero 2 hfactor)]

theorem sampleCorrelationSq_mem_Icc : sampleCorrelationSq samples f g ∈ Set.Icc 0 1 := by
  rw [sampleCorrelationSq_eq h]
  split
  · exact ⟨le_rfl, zero_le_one⟩
  · have hnonneg : 0 ≤ covariance samples f f * covariance samples g g :=
      mul_nonneg covariance_self_nonneg covariance_self_nonneg
    exact ⟨div_nonneg (sq_nonneg _) hnonneg, div_le_one_of_le₀ covariance_sq_le hnonneg⟩

/-- The correlation of functions that are affinely related is perfect, and no other one is. -/
theorem sampleCorrelationSq_eq_one_iff :
    sampleCorrelationSq samples f g = 1 ↔ AffinelyRelated samples f g := by
  have hne : samples ≠ [] := List.ne_nil_of_length_pos (by omega)
  rw [sampleCorrelationSq_eq h, AffinelyRelated, ← covariance_self_ne_zero_iff hne]
  constructor
  · intro hone
    split at hone
    · exact absurd hone zero_ne_one
    · rename_i hvaries
      obtain ⟨hf, hg⟩ := not_or.mp hvaries
      have heq := (div_eq_one_iff_eq (mul_ne_zero hf hg)).mp hone
      obtain ⟨slope, intercept, haffine⟩ := (covariance_sq_eq_iff hne hg).mp heq
      refine ⟨hg, slope, intercept, ?_, haffine⟩
      rintro rfl
      rw [covariance_congr haffine, covariance_affine hne, zero_mul] at hf
      exact hf rfl
  · rintro ⟨hg, slope, intercept, hslope, haffine⟩
    have heq := (covariance_sq_eq_iff hne hg).mpr ⟨slope, intercept, haffine⟩
    have hf : covariance samples f f ≠ 0 := by
      rw [covariance_congr haffine, covariance_comm, covariance_congr haffine,
        covariance_affine_self hne]
      exact mul_ne_zero (mul_ne_zero hslope hslope) hg
    rw [if_neg (not_or.mpr ⟨hf, hg⟩), heq]
    exact div_self (mul_ne_zero hf hg)

/-- A squared correlation and the variances determine the covariance up to its sign. -/
theorem sqrt_sampleCorrelationSq_mul :
    √(sampleCorrelationSq samples f g * unbiasedCovariance samples f f *
      unbiasedCovariance samples g g) = |unbiasedCovariance samples f g| := by
  rw [← Real.sqrt_sq_eq_abs, mul_assoc]
  congr 1
  unfold sampleCorrelationSq
  split
  · rename_i hzero
    -- a function that does not vary has no covariance with any other
    have hcauchy : covariance samples f g ^ 2 ≤ covariance samples f f * covariance samples g g :=
      covariance_sq_le
    rw [unbiasedCovariance_eq_zero_iff h, unbiasedCovariance_eq_zero_iff h] at hzero
    rw [mul_eq_zero.mpr hzero] at hcauchy
    have hcov := (unbiasedCovariance_eq_zero_iff h).mpr
      (pow_eq_zero_iff two_ne_zero |>.mp (hcauchy.antisymm (sq_nonneg _)))
    rw [zero_mul, hcov, sq, zero_mul]
  · rename_i hvaries
    obtain ⟨hf, hg⟩ := not_or.mp hvaries
    exact div_mul_cancel₀ _ (mul_ne_zero hf hg)

end Samples

/-! ## Correlations of responses -/

/-- The variances and squared correlations of the samples of each QoI. -/
noncomputable def sampleCorrelations (dims : Dimensions) (samples : ℕ → List RealSample) :
    Correlations ExactReal where
  varLow := .ofFn dims.numFunctions dims.numApprox fun qoi model =>
    real (unbiasedCovariance (samples qoi) (·.value model) (·.value model))
  varHigh := (List.range dims.numFunctions).map fun qoi =>
    real (unbiasedCovariance (samples qoi) RealSample.high RealSample.high)
  rhoSq := .ofFn dims.numFunctions dims.numApprox fun qoi model =>
    real (sampleCorrelationSq (samples qoi) (·.value model) RealSample.high)

theorem lowVariance_eq {samples : List RealSample} (h : 2 ≤ samples.length) (model : ℕ) :
    lowVariance samples model = unbiasedCovariance samples (·.value model) (·.value model) :=
  (sampleCov_eq h).trans (unbiasedCovariance_eq h).symm

theorem highVariance_eq {samples : List RealSample} (h : 2 ≤ samples.length) :
    highVariance samples = unbiasedCovariance samples RealSample.high RealSample.high :=
  (sampleCov_eq h).trans (unbiasedCovariance_eq h).symm

theorem crossCovariance_eq {samples : List RealSample} (h : 2 ≤ samples.length) (model : ℕ) :
    crossCovariance samples model = unbiasedCovariance samples (·.value model) RealSample.high :=
  (sampleCov_eq h).trans (unbiasedCovariance_eq h).symm

theorem correlationSq_eq {samples : List RealSample} (h : 2 ≤ samples.length) (model : ℕ) :
    correlationSq samples model =
      sampleCorrelationSq samples (·.value model) RealSample.high := by
  rw [correlationSq, lowVariance_eq h, highVariance_eq h, crossCovariance_eq h, sampleCorrelationSq]
  -- the product of the variances is positive unless one of them vanishes
  have hlow := unbiasedCovariance_self_nonneg (f := (·.value model)) h
  have hhigh := unbiasedCovariance_self_nonneg (f := RealSample.high) h
  have hpos := (mul_nonneg hlow hhigh).lt_iff_ne'
  rw [mul_ne_zero_iff, ← not_or] at hpos
  rw [if_congr hpos rfl rfl, ite_not, ← sq]

/-- Samples in another order have the same correlations. -/
theorem sampleCorrelations_perm {dims : Dimensions} {samples others : ℕ → List RealSample}
    (hcount : ∀ qoi < dims.numFunctions, 2 ≤ (samples qoi).length)
    (h : ∀ qoi, (samples qoi).Perm (others qoi)) :
    sampleCorrelations dims samples = sampleCorrelations dims others := by
  unfold sampleCorrelations
  congr 1
  · refine QoiMatrix.ofFn_congr fun qoi hqoi model _ => ?_
    rw [unbiasedCovariance_perm (hcount qoi hqoi) (h qoi)]
  · refine List.map_congr_left fun qoi hqoi => ?_
    rw [unbiasedCovariance_perm (hcount qoi (List.mem_range.mp hqoi)) (h qoi)]
  · refine QoiMatrix.ofFn_congr fun qoi hqoi model _ => ?_
    rw [sampleCorrelationSq_perm (hcount qoi hqoi) (h qoi)]

/-- The covariances are recovered up to their signs. -/
theorem cov_sampleCorrelations {dims : Dimensions} {samples : ℕ → List RealSample}
    (hcount : ∀ qoi < dims.numFunctions, 2 ≤ (samples qoi).length) :
    (sampleCorrelations dims samples).cov =
      .ofFn dims.numFunctions dims.numApprox fun qoi model =>
        real |unbiasedCovariance (samples qoi) (·.value model) RealSample.high| := by
  refine QoiMatrix.ofFn_congr fun qoi (hqoi : qoi < dims.numFunctions) model
    (hmodel : model < dims.numApprox) => ?_
  have hrhoSq : (sampleCorrelations dims samples).rhoSq.entry qoi model = _ :=
    QoiMatrix.entry_ofFn hqoi hmodel _
  have hvarLow : (sampleCorrelations dims samples).varLow.entry qoi model = _ :=
    QoiMatrix.entry_ofFn hqoi hmodel _
  have hvarHigh : (sampleCorrelations dims samples).varHigh.getD qoi 0 =
      real (unbiasedCovariance (samples qoi) RealSample.high RealSample.high) := by
    simp [sampleCorrelations, hqoi]
  -- the root is taken of a product of numbers that are not negative
  have hsq := (sampleCorrelationSq_mem_Icc (f := (·.value model)) (g := RealSample.high)
    (hcount qoi hqoi)).1
  have hlow := unbiasedCovariance_self_nonneg (f := (·.value model)) (hcount qoi hqoi)
  have hhigh := unbiasedCovariance_self_nonneg (f := RealSample.high) (hcount qoi hqoi)
  rw [hrhoSq, hvarLow, hvarHigh, real_mul, real_mul,
    sqrt_real (mul_nonneg (mul_nonneg hsq hlow) hhigh),
    sqrt_sampleCorrelationSq_mul (hcount qoi hqoi)]

namespace JointSums

variable {m : ℕ} {dims : Dimensions} {responses : List (Response ExactReal)}

/-- With two joint samples at each QoI, the correlations are those of the samples. -/
theorem correlations_foldl_eq_ok
    (h : ∀ qoi < dims.numFunctions, 2 ≤ (dims.jointSamples responses qoi).length) :
    (responses.foldl addResponse (empty dims : JointSums ExactReal (m + 1))).correlations =
      .ok (sampleCorrelations dims (dims.jointSamples responses)) := by
  obtain ⟨sums, hqois, hmeasures⟩ := exists_measuresPowers (m := m) dims responses
  have hnone : (responses.foldl addResponse
      (empty dims : JointSums ExactReal (m + 1))).counts.findIdx? (· < 2) = none := by
    rw [counts_foldl_addResponse, List.findIdx?_eq_none_iff]
    intro count hcount
    obtain ⟨qoi, hqoi, rfl⟩ := List.mem_map.mp hcount
    rw [← Dimensions.length_jointSamples]
    exact decide_eq_false (not_lt.mpr (h qoi (List.mem_range.mp hqoi)))
  have hsums := fun qoi (hqoi : qoi ∈ List.range dims.numFunctions) =>
    And.intro (hmeasures qoi).measures (h qoi (List.mem_range.mp hqoi))
  rw [correlations, hnone, hqois, dims_foldl_addResponse, List.map_map, List.map_map, List.map_map,
    sampleCorrelations, QoiMatrix.ofFn_eq_ofRows, QoiMatrix.ofFn_eq_ofRows]
  refine congrArg Except.ok ?_
  congr 1
  · refine congrArg _ (List.map_congr_left fun qoi hqoi => ?_)
    obtain ⟨hmeasure, hcount⟩ := hsums qoi hqoi
    simp only [Function.comp_apply, hmeasure.varLow_eq hcount, lowVariance_eq hcount]
  · refine List.map_congr_left fun qoi hqoi => ?_
    obtain ⟨hmeasure, hcount⟩ := hsums qoi hqoi
    simp only [Function.comp_apply, hmeasure.varHigh_eq hcount, highVariance_eq hcount]
  · refine congrArg _ (List.map_congr_left fun qoi hqoi => ?_)
    obtain ⟨hmeasure, hcount⟩ := hsums qoi hqoi
    simp only [Function.comp_apply, hmeasure.rhoSq_eq hcount, correlationSq_eq hcount]

/-- Correlations are refused for the first QoI with fewer than two joint samples. -/
theorem correlations_foldl_eq_error_iff {failure : Failure ExactReal} :
    (responses.foldl addResponse (empty dims : JointSums ExactReal (m + 1))).correlations =
        .error failure ↔
      ∃ qoi < dims.numFunctions, (dims.jointSamples responses qoi).length < 2 ∧
        (∀ earlier < qoi, 2 ≤ (dims.jointSamples responses earlier).length) ∧
        failure = .insufficientSamples qoi (dims.jointSamples responses qoi).length := by
  rw [correlations_eq_error_iff, counts_foldl_addResponse]
  refine exists_congr fun qoi => ?_
  simp only [Dimensions.jointCounts, ← Dimensions.length_jointSamples]
  rw [List.findIdx?_eq_some_iff_getElem]
  simp only [List.length_map, List.length_range, List.getElem_map, List.getElem_range,
    decide_eq_true_eq, not_lt, exists_prop, and_assoc]
  refine and_congr_right fun hqoi => ?_
  rw [List.getD_eq_getElem _ _ (by simpa using hqoi), List.getElem_map, List.getElem_range]

/-- Responses in another order have the same correlations, or are refused alike. -/
theorem correlations_foldl_perm {others : List (Response ExactReal)} (h : responses.Perm others) :
    (responses.foldl addResponse (empty dims : JointSums ExactReal (m + 1))).correlations =
      (others.foldl addResponse (empty dims : JointSums ExactReal (m + 1))).correlations := by
  have hsamples : ∀ qoi, (dims.jointSamples responses qoi).Perm (dims.jointSamples others qoi) :=
    fun qoi => (h.filter _).map _
  cases hfirst : (responses.foldl addResponse
      (empty dims : JointSums ExactReal (m + 1))).correlations with
  | ok correlations =>
    have hcount := fun qoi (hqoi : qoi < dims.numFunctions) => two_le_jointSamples hfirst hqoi
    rw [← hfirst, correlations_foldl_eq_ok hcount, sampleCorrelations_perm hcount hsamples,
      correlations_foldl_eq_ok fun qoi hqoi => (hsamples qoi).length_eq ▸ hcount qoi hqoi]
  | error failure =>
    rw [correlations_foldl_eq_error_iff] at hfirst
    simp only [(hsamples _).length_eq] at hfirst
    exact (correlations_foldl_eq_error_iff.mpr hfirst).symm

/-- After any batches correlations are refused for the first QoI with fewer than two joint samples.
Otherwise they are the correlations of the joint samples, by their definition with centred values,
and the covariances are recovered from them up to their signs. Variances are not negative, squared
correlations are between zero and one, and they are one if the low-fidelity values are an affine
function of the high-fidelity ones and both vary. Neither the order of the responses nor the batches
in which they come matter. -/
theorem correlations_of_batches (m : ℕ) (dims : Dimensions) (batches : List (Batch ExactReal)) :
    let sums := batches.foldl offer (empty dims : JointSums ExactReal (m + 1))
    let samples := dims.jointSamples (dims.accepted batches)
    (∀ failure, sums.correlations = .error failure ↔
      ∃ qoi < dims.numFunctions, (samples qoi).length < 2 ∧
        (∀ earlier < qoi, 2 ≤ (samples earlier).length) ∧
        failure = .insufficientSamples qoi (samples qoi).length) ∧
    ((∀ qoi < dims.numFunctions, 2 ≤ (samples qoi).length) →
      sums.correlations = .ok (sampleCorrelations dims samples) ∧
      (sampleCorrelations dims samples).cov =
        .ofFn dims.numFunctions dims.numApprox (fun qoi model =>
          real |unbiasedCovariance (samples qoi) (·.value model) RealSample.high|) ∧
      ∀ qoi < dims.numFunctions,
        0 ≤ unbiasedCovariance (samples qoi) RealSample.high RealSample.high ∧
        ∀ model < dims.numApprox,
          0 ≤ unbiasedCovariance (samples qoi) (·.value model) (·.value model) ∧
          sampleCorrelationSq (samples qoi) (·.value model) RealSample.high ∈ Set.Icc 0 1 ∧
          (sampleCorrelationSq (samples qoi) (·.value model) RealSample.high = 1 ↔
            AffinelyRelated (samples qoi) (·.value model) RealSample.high)) ∧
    ∀ others, (dims.accepted others).Perm (dims.accepted batches) →
      (others.foldl offer (empty dims : JointSums ExactReal (m + 1))).correlations =
        sums.correlations := by
  intro sums samples
  have hsums : sums = (dims.accepted batches).foldl addResponse (empty dims) :=
    foldl_offer_eq _ batches
  rw [hsums]
  refine ⟨fun failure => correlations_foldl_eq_error_iff, fun hcount => ?_, fun others hperm => ?_⟩
  · refine ⟨correlations_foldl_eq_ok hcount, cov_sampleCorrelations hcount, fun qoi hqoi => ?_⟩
    refine ⟨unbiasedCovariance_self_nonneg (hcount qoi hqoi), fun model _ => ?_⟩
    exact ⟨unbiasedCovariance_self_nonneg (hcount qoi hqoi),
      sampleCorrelationSq_mem_Icc (hcount qoi hqoi),
      sampleCorrelationSq_eq_one_iff (hcount qoi hqoi)⟩
  · rw [foldl_offer_eq]
    exact correlations_foldl_perm hperm

end JointSums

end Multifidelity
