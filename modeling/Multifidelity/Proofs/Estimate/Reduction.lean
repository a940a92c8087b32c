import Multifidelity.Proofs.Allocation.RealizedVariance
import Multifidelity.Proofs.Estimate.Nested
import Multifidelity.Report

/-!
# Variance reduction

A report compares two estimators with the same high-fidelity samples. The averaged variance of the
multifidelity estimator is a sum over the QoI that weights the fractions of the variance by the
Monte Carlo variances. These are not negative, so that fractions of at most one never make the
multifidelity estimator the worse one.

## Main definitions

* `Report.Reduces`: reports about fractions of the variance whose summary shows a reduction

## Main results

* `JointSums.exists_varHigh`: sample variances are not negative
* `JointSums.not_one_lt_of_mem_rhoSq`: squared correlations are at most one
* `sum_zipWith_mul_bounds`: bounds of a weighted sum
* `Report.reduces_of_fractions`: what fractions of the variance mean for a summary
-/

namespace Multifidelity

open ExactReal

/-! ## Sample variances -/

/-- The unbiased covariance is the covariance up to a positive factor. -/
theorem sampleCov_eq {β : Type} {samples : List β} {f g : β → ℝ} (h : 2 ≤ samples.length) :
    sampleCov samples.length (samples.map f).sum (samples.map g).sum
        (samples.map fun sample => f sample * g sample).sum =
      covariance samples f g * (samples.length / (samples.length - 1)) := by
  have htwo : (2 : ℝ) ≤ samples.length := by exact_mod_cast h
  have hlength : (samples.length : ℝ) ≠ 0 := by linarith
  have hpred : (samples.length : ℝ) - 1 ≠ 0 := by linarith
  rw [covariance_eq (List.ne_nil_of_length_pos (by omega)), sampleCov]
  field_simp

theorem unbiased_pos {n : ℕ} (h : 2 ≤ n) : (0 : ℝ) < n / (n - 1) := by
  have htwo : (2 : ℝ) ≤ n := by exact_mod_cast h
  exact div_pos (by linarith) (by linarith)

section Samples

variable {samples : List RealSample} (h : 2 ≤ samples.length)
include h

/-- The variance of real samples is not negative. -/
theorem highVariance_nonneg : 0 ≤ highVariance samples := by
  have heq := sampleCov_eq (f := RealSample.high) (g := RealSample.high) h
  rw [highVariance, heq]
  exact mul_nonneg covariance_self_nonneg (unbiased_pos h).le

/-- The squared correlation of real samples is at most one. -/
theorem correlationSq_le_one (model : ℕ) : correlationSq samples model ≤ 1 := by
  have hlow : lowVariance samples model = _ :=
    sampleCov_eq (f := RealSample.value model) (g := RealSample.value model) h
  have hhigh : highVariance samples = _ :=
    sampleCov_eq (f := RealSample.high) (g := RealSample.high) h
  have hcross : crossCovariance samples model = _ :=
    sampleCov_eq (f := RealSample.value model) (g := RealSample.high) h
  unfold correlationSq
  split
  · rename_i hpos
    have hcauchy : covariance samples (RealSample.value model) RealSample.high ^ 2 ≤ _ :=
      covariance_sq_le
    have hle := mul_le_mul_of_nonneg_right hcauchy
      (sq_nonneg ((samples.length : ℝ) / (samples.length - 1)))
    rw [div_le_one hpos, hlow, hhigh, hcross]
    linarith
  · exact zero_le_one

end Samples

namespace JointSums

variable {m : ℕ} {dims : Dimensions} {responses : List (Response ExactReal)}
  {correlations : Correlations ExactReal}
  (h : (responses.foldl addResponse (empty dims : JointSums ExactReal (m + 1))).correlations =
    .ok correlations)
include h

/-- Estimated correlations rest on two joint samples of every QoI. -/
theorem two_le_jointSamples {qoi : ℕ} (hqoi : qoi < dims.numFunctions) :
    2 ≤ (dims.jointSamples responses qoi).length := by
  refine two_le_of_correlations h _ ?_
  rw [counts_foldl_addResponse, Dimensions.length_jointSamples]
  exact List.mem_map_of_mem (List.mem_range.mpr hqoi)

/-- The variances of the high-fidelity model are real numbers that are not negative. -/
theorem exists_varHigh : ∃ vars : List ℝ, vars.length = dims.numFunctions ∧
    (∀ var ∈ vars, 0 ≤ var) ∧ correlations.varHigh = vars.map real := by
  obtain ⟨sums, hqois, hmeasures⟩ := exists_measuresPowers (m := m) dims responses
  refine ⟨(List.range dims.numFunctions).map fun qoi =>
    highVariance (dims.jointSamples responses qoi), by simp, fun var hvar => ?_, ?_⟩
  · obtain ⟨qoi, hqoi, rfl⟩ := List.mem_map.mp hvar
    exact highVariance_nonneg (two_le_jointSamples h (List.mem_range.mp hqoi))
  · have htwo := fun qoi (hqoi : qoi < dims.numFunctions) => two_le_jointSamples h hqoi
    unfold JointSums.correlations at h
    split at h
    · cases h
    · cases h
      dsimp only
      rw [hqois, List.map_map, List.map_map]
      refine List.map_congr_left fun qoi hqoi => ?_
      exact (hmeasures qoi).measures.varHigh_eq (htwo qoi (List.mem_range.mp hqoi))

/-- No squared correlation is above one. -/
theorem not_one_lt_of_mem_rhoSq : ∀ rho ∈ correlations.rhoSq.entries, ¬ 1 < rho := by
  obtain ⟨sums, hqois, hmeasures⟩ := exists_measuresPowers (m := m) dims responses
  have htwo := fun qoi (hqoi : qoi < dims.numFunctions) => two_le_jointSamples h hqoi
  unfold JointSums.correlations at h
  split at h
  · cases h
  · cases h
    intro rho hrho
    obtain ⟨row, hrow, hmem⟩ := List.mem_flatten.mp hrho
    rw [hqois, List.map_map] at hrow
    obtain ⟨qoi, hqoi, rfl⟩ := List.mem_map.mp hrow
    have hqoi := htwo qoi (List.mem_range.mp hqoi)
    rw [Function.comp_apply, (hmeasures qoi).measures.rhoSq_eq hqoi] at hmem
    obtain ⟨model, -, rfl⟩ := List.mem_map.mp hmem
    exact not_lt_of_le (real_le_real.mpr (correlationSq_le_one hqoi model))

end JointSums

/-! ## Summaries -/

/-- A weighted sum is between the bounds of its values. -/
theorem sum_zipWith_mul_bounds {weights values : List ℝ} {least greatest : ℝ}
    (hlength : weights.length = values.length) (hweights : ∀ weight ∈ weights, 0 ≤ weight)
    (hvalues : ∀ value ∈ values, least ≤ value ∧ value ≤ greatest) :
    least * weights.sum ≤ (List.zipWith (· * ·) weights values).sum ∧
      (List.zipWith (· * ·) weights values).sum ≤ greatest * weights.sum := by
  induction weights generalizing values with
  | nil => simp
  | cons weight weights ih =>
    cases values with
    | nil => cases hlength
    | cons value values =>
      obtain ⟨hlow, hhigh⟩ := ih (Nat.succ.inj hlength)
        (fun w hw => hweights w (List.mem_cons_of_mem weight hw))
        fun v hv => hvalues v (List.mem_cons_of_mem value hv)
      obtain ⟨hleast, hgreatest⟩ := hvalues value List.mem_cons_self
      have hweight := hweights weight List.mem_cons_self
      rw [List.zipWith_cons_cons, List.sum_cons, List.sum_cons]
      constructor <;> nlinarith

/-- A list that is not empty has a least and a greatest number. -/
theorem exists_least_greatest {values : List ℝ} (h : values ≠ []) :
    ∃ least ∈ values, ∃ greatest ∈ values, ∀ value ∈ values, least ≤ value ∧ value ≤ greatest := by
  have hne : values.toFinset.Nonempty := (List.toFinset_nonempty_iff values).mpr h
  obtain ⟨least, hleast, hbelow⟩ := values.toFinset.exists_min_image id hne
  obtain ⟨greatest, hgreatest, habove⟩ := values.toFinset.exists_max_image id hne
  refine ⟨least, List.mem_toFinset.mp hleast, greatest, List.mem_toFinset.mp hgreatest,
    fun value hvalue => ?_⟩
  have hvalue := List.mem_toFinset.mpr hvalue
  exact ⟨hbelow value hvalue, habove value hvalue⟩

theorem monteCarloVariance_real {vars : List ℝ} {counts : List ℕ}
    (h : ∀ count ∈ counts, 0 < count) :
    monteCarloVariance (vars.map real) counts =
      (List.zipWith (fun (var : ℝ) (count : ℕ) => var / count) vars counts).map real := by
  unfold monteCarloVariance
  rw [List.zipWith_map_left, List.map_zipWith]
  refine List.ext_getElem (by simp) fun i hi _ => ?_
  rw [List.length_zipWith, lt_min_iff] at hi
  have hcount : (counts[i] : ℝ) ≠ 0 := Nat.cast_ne_zero.mpr (h _ (List.getElem_mem hi.2)).ne'
  rw [List.getElem_zipWith, List.getElem_zipWith, ofCount_eq, real_div hcount]

/-- A report about fractions of the variance whose summary shows a reduction. -/
structure Report.Reduces (dims : Dimensions) (report : Report ExactReal) : Prop where
  /-- Every QoI has a fraction of the variance. -/
  fractions : report.varianceRatios.length = dims.numFunctions ∧
    ∀ ratio ∈ report.varianceRatios, 0 < ratio ∧ ratio ≤ 1
  /-- The multifidelity estimator is not worse than the Monte Carlo estimator. -/
  le : report.summary.multifidelity ≤ report.summary.monteCarlo
  /-- The ratio of both is between the least and the greatest fraction. -/
  ratio : 0 < report.summary.monteCarlo →
    ∃ least ∈ report.varianceRatios, ∃ greatest ∈ report.varianceRatios,
      (∀ ratio ∈ report.varianceRatios, least ≤ ratio ∧ ratio ≤ greatest) ∧
        least ≤ report.summary.ratio ∧ report.summary.ratio ≤ greatest

theorem AreFractions.bounds {numFunctions : ℕ} {ratios : List ExactReal}
    (h : AreFractions numFunctions ratios) :
    ratios.length = numFunctions ∧ ∀ ratio ∈ ratios, 0 < ratio ∧ ratio ≤ 1 := by
  obtain ⟨parts, hlength, hparts, rfl⟩ := h
  refine ⟨by rw [List.length_map, hlength], fun ratio hratio => ?_⟩
  obtain ⟨part, hpart, rfl⟩ := List.mem_map.mp hratio
  exact hparts part hpart

/-- Fractions of variances that are not negative lead to a reduction. -/
theorem Report.reduces_of_fractions {dims : Dimensions} (hpos : 0 < dims.numFunctions)
    {report : Report ExactReal} {vars : List ℝ} (hvars : vars.length = dims.numFunctions)
    (hnonneg : ∀ var ∈ vars, 0 ≤ var) (hvarHigh : report.varHigh = vars.map real)
    (hcounts : report.highCounts.length = dims.numFunctions)
    (hcount : ∀ count ∈ report.highCounts, 0 < count)
    (hfractions : AreFractions dims.numFunctions report.varianceRatios) :
    report.Reduces dims := by
  obtain ⟨parts, hlength, hparts, hratios⟩ := id hfractions
  have hne : parts ≠ [] := List.ne_nil_of_length_pos (hlength ▸ hpos)
  let weights := List.zipWith (fun (var : ℝ) (count : ℕ) => var / count) vars report.highCounts
  have hweights : weights.length = dims.numFunctions := by simp [weights, hvars, hcounts]
  have hweight : ∀ weight ∈ weights, 0 ≤ weight := by
    intro weight hmem
    obtain ⟨i, hi, rfl⟩ := List.mem_iff_getElem.mp hmem
    rw [List.getElem_zipWith]
    exact div_nonneg (hnonneg _ (List.getElem_mem _)) (Nat.cast_nonneg _)
  let products := List.zipWith (· * ·) weights parts
  have hproducts : products.length = dims.numFunctions := by simp [products, hweights, hlength]
  have hmonteCarlo : monteCarloVariance report.varHigh report.highCounts = weights.map real := by
    rw [hvarHigh, monteCarloVariance_real hcount]
  -- both averages are over all QoI
  have hcast : (0 : ℝ) < dims.numFunctions := Nat.cast_pos.mpr hpos
  have hfirst : report.summary.monteCarlo = real (weights.sum / dims.numFunctions) := by
    show average (monteCarloVariance report.varHigh report.highCounts) = _
    rw [hmonteCarlo, average_real (List.ne_nil_of_length_pos (hweights ▸ hpos)), hweights]
  have hsecond : report.summary.multifidelity = real (products.sum / dims.numFunctions) := by
    show average (List.zipWith (· * ·) (monteCarloVariance report.varHigh report.highCounts)
      report.varianceRatios) = _
    have hmap : List.zipWith (· * ·) (weights.map real) (parts.map real) = products.map real := by
      simp [products, List.zipWith_map, List.map_zipWith]
    rw [hmonteCarlo, hratios, hmap, average_real (List.ne_nil_of_length_pos (hproducts ▸ hpos)),
      hproducts]
  constructor
  case fractions => exact hfractions.bounds
  case le =>
    rw [hfirst, hsecond, real_le_real]
    have hle := (sum_zipWith_mul_bounds (hweights.trans hlength.symm) hweight fun part hpart =>
      ⟨(hparts part hpart).1.le, (hparts part hpart).2⟩).2
    rw [one_mul] at hle
    exact div_le_div_of_nonneg_right hle hcast.le
  case ratio =>
    intro hpositive
    rw [hfirst, zero_eq, real_lt_real] at hpositive
    have hsum : 0 < weights.sum := by
      rwa [div_pos_iff_of_pos_right hcast] at hpositive
    obtain ⟨least, hleast, greatest, hgreatest, hextrema⟩ := exists_least_greatest hne
    obtain ⟨hlow, hhigh⟩ :=
      sum_zipWith_mul_bounds (hweights.trans hlength.symm) hweight hextrema
    have hratio : report.summary.ratio = real (products.sum / weights.sum) := by
      show report.summary.multifidelity / report.summary.monteCarlo = _
      rw [hfirst, hsecond, real_div hpositive.ne', div_div_div_cancel_right₀ hcast.ne']
    rw [hratio, hratios]
    refine ⟨real least, List.mem_map_of_mem hleast, real greatest, List.mem_map_of_mem hgreatest,
      fun ratio hmem => ?_, real_le_real.mpr ((le_div_iff₀ hsum).mpr hlow),
      real_le_real.mpr ((div_le_iff₀ hsum).mpr hhigh)⟩
    obtain ⟨part, hpart, rfl⟩ := List.mem_map.mp hmem
    exact hextrema part hpart

end Multifidelity
