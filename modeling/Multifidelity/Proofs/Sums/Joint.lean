import Mathlib.Data.List.Basic
import Mathlib.Data.Option.Basic
import Mathlib.Order.Basic
import Multifidelity.Estimate.Correlation
import Multifidelity.Proofs.QoiMatrix

/-!
# Sums over joint samples

Sums keep the size of their ensemble whatever is added to them, and they grow by every joint sample
of a batch. A batch in which no evaluation failed adds as many as it has responses.

## Main definitions

* `Dimensions.IsJoint`: the responses at which no model failed
* `Dimensions.jointCounts`: their numbers by QoI
* `JointSums.Sized`: sums of the size of an ensemble

## Main results

* `JointSums.Sized.accumulate`: an accepted batch keeps the size
* `JointSums.counts_foldl_addResponse`: the counts of a list of responses
* `JointSums.counts_accumulate`: the counts after a batch in which no evaluation failed
* `JointSums.accumulate_eq_error_iff`, `JointSums.correlations_eq_error_iff`: what is refused
* `JointSums.rows_correlations`, `JointSums.cols_correlations`: the size of the correlations
-/

namespace Multifidelity

/-- Every element has a result in `Option` if and only if the list of results is the one of a
traversal. -/
theorem mapM_eq_some_iff {α β : Type} {f : α → Option β} {xs : List α} {ys : List β} :
    xs.mapM f = some ys ↔ xs.map f = ys.map some := by
  induction xs generalizing ys with
  | nil =>
    rw [List.mapM_nil, List.map_nil, eq_comm (a := []), List.map_eq_nil_iff, eq_comm (b := [])]
    exact Option.some_inj
  | cons x xs ih =>
    rw [List.mapM_cons, List.map_cons]
    cases hx : f x with
    | none => cases ys <;> simp
    | some y =>
      cases hxs : xs.mapM f with
      | none =>
        have hne : ∀ zs : List β, xs.map f ≠ zs.map some := fun zs heq => by
          rw [ih.mpr heq] at hxs
          cases hxs
        cases ys <;> simp [hne]
      | some zs =>
        have hinj := List.map_injective_iff.mpr (Option.some_injective β)
        cases ys <;> simp [ih.mp hxs, hinj.eq_iff]

theorem exists_mapM {α β : Type} {f : α → Option β} {xs : List α}
    (h : ∀ x ∈ xs, ∃ y, f x = some y) : ∃ ys, xs.mapM f = some ys := by
  induction xs with
  | nil => exact ⟨[], rfl⟩
  | cons x xs ih =>
    obtain ⟨y, hy⟩ := h x List.mem_cons_self
    obtain ⟨ys, hys⟩ := ih fun z hz => h z (List.mem_cons_of_mem x hz)
    exact ⟨y :: ys, by simp [List.mapM_cons, hy, hys]⟩

variable {α : Type} [Scalar α]

/-! ## Joint samples -/

namespace Dimensions

variable {dims : Dimensions} {response : Response α} {qoi : ℕ}

theorem joint?_eq_some_iff {sample : JointSample α} :
    dims.joint? response qoi = some sample ↔
      (List.range dims.numApprox).map (fun model => dims.value? response model qoi) =
          sample.low.map some ∧
        dims.value? response dims.numApprox qoi = some sample.high := by
  rw [← mapM_eq_some_iff]
  unfold joint?
  obtain ⟨low, high⟩ := sample
  cases (List.range dims.numApprox).mapM fun model => dims.value? response model qoi with
  | none => simp
  | some low' =>
    cases dims.value? response dims.numApprox qoi with
    | none => simp
    | some high' => simp

theorem length_low {sample : JointSample α} (h : dims.joint? response qoi = some sample) :
    sample.low.length = dims.numApprox := by
  have hlow := congrArg List.length (joint?_eq_some_iff.mp h).1
  simpa using hlow.symm

/-- A response is a joint sample where every model has a value. -/
theorem exists_joint? (h : ∀ model ≤ dims.numApprox, ∃ x, dims.value? response model qoi = some x) :
    ∃ sample, dims.joint? response qoi = some sample := by
  obtain ⟨low, hlow⟩ := exists_mapM (f := fun model => dims.value? response model qoi)
    fun model hmodel => h model (Nat.le_of_lt (List.mem_range.mp hmodel))
  obtain ⟨high, hhigh⟩ := h dims.numApprox (Nat.le_refl _)
  exact ⟨⟨low, high⟩, joint?_eq_some_iff.mpr ⟨mapM_eq_some_iff.mp hlow, hhigh⟩⟩

/-- Responses with the same values at a QoI are the same joint sample there. -/
theorem joint?_congr {other : Response α}
    (h : ∀ model ≤ dims.numApprox, dims.value? response model qoi = dims.value? other model qoi) :
    dims.joint? response qoi = dims.joint? other qoi := by
  have hlow : (List.range dims.numApprox).map (fun model => dims.value? response model qoi) =
      (List.range dims.numApprox).map fun model => dims.value? other model qoi :=
    List.map_congr_left fun model hmodel => h model (List.mem_range.mp hmodel).le
  ext sample
  rw [joint?_eq_some_iff, joint?_eq_some_iff, hlow, h dims.numApprox le_rfl]

/-- Whether every model has a value at a QoI. -/
def IsJoint (dims : Dimensions) (response : Response α) (qoi : ℕ) : Prop :=
  ∀ model ≤ dims.numApprox, (dims.value? response model qoi).isSome

instance (dims : Dimensions) (response : Response α) (qoi : ℕ) :
    Decidable (dims.IsJoint response qoi) :=
  inferInstanceAs (Decidable (∀ model ≤ dims.numApprox, _))

theorem isSome_joint?_iff : (dims.joint? response qoi).isSome ↔ dims.IsJoint response qoi := by
  constructor
  · intro h model hmodel
    obtain ⟨sample, hsample⟩ := Option.isSome_iff_exists.mp h
    obtain ⟨hlow, hhigh⟩ := joint?_eq_some_iff.mp hsample
    rcases Nat.eq_or_lt_of_le hmodel with rfl | hlt
    · rw [hhigh]
      rfl
    · have hvalue := congrArg (·[model]?) hlow
      have hlt' : model < sample.low.length := length_low hsample ▸ hlt
      simp only [List.getElem?_map, List.getElem?_range hlt, List.getElem?_eq_getElem hlt',
        Option.map_some] at hvalue
      rw [Option.some.inj hvalue]
      rfl
  · intro h
    obtain ⟨sample, hsample⟩ :=
      exists_joint? fun model hmodel => Option.isSome_iff_exists.mp (h model hmodel)
    rw [hsample]
    rfl

/-- Joint samples, if they are known for the responses at which every model has a value. -/
theorem filterMap_joint?_eq_map {f : Response α → JointSample α}
    (h : ∀ response, dims.IsJoint response qoi → dims.joint? response qoi = some (f response))
    (responses : List (Response α)) :
    responses.filterMap (dims.joint? · qoi) =
      (responses.filter fun response => dims.IsJoint response qoi).map f := by
  induction responses with
  | nil => rfl
  | cons response responses ih =>
    rw [List.filterMap_cons, ih, List.filter_cons]
    by_cases hjoint : dims.IsJoint response qoi
    · rw [h response hjoint, if_pos (decide_eq_true hjoint)]
      rfl
    · have hnone : dims.joint? response qoi = none :=
        Option.not_isSome_iff_eq_none.mp (isSome_joint?_iff.not.mpr hjoint)
      rw [hnone, if_neg (by simpa using hjoint)]

/-- The numbers of responses at which every model has a value, by QoI. -/
def jointCounts (dims : Dimensions) (responses : List (Response α)) : List ℕ :=
  (List.range dims.numFunctions).map fun qoi =>
    responses.countP fun response => dims.IsJoint response qoi

/-- More responses do not lower a count. -/
theorem le_jointCounts_append {dims : Dimensions} {n : ℕ} {responses : List (Response α)}
    (h : ∀ count ∈ dims.jointCounts responses, n ≤ count) (later : List (Response α)) :
    ∀ count ∈ dims.jointCounts (responses ++ later), n ≤ count := by
  intro count hcount
  obtain ⟨qoi, hqoi, rfl⟩ := List.mem_map.mp hcount
  rw [List.countP_append]
  exact (h _ (List.mem_map_of_mem hqoi)).trans (Nat.le_add_right _ _)

theorem length_filterMap_joint? (dims : Dimensions) (responses : List (Response α)) (qoi : ℕ) :
    (responses.filterMap (dims.joint? · qoi)).length =
      responses.countP fun response => dims.IsJoint response qoi := by
  rw [List.length_filterMap_eq_countP]
  refine List.countP_congr fun response _ => ?_
  rw [isSome_joint?_iff, decide_eq_true_eq]

end Dimensions

theorem QoiSums.count_foldl_add {M : ℕ} (sums : QoiSums α M) (samples : List (JointSample α)) :
    (samples.foldl QoiSums.add sums).count = sums.count + samples.length := by
  induction samples generalizing sums with
  | nil => rfl
  | cons sample samples ih =>
    rw [List.foldl_cons, ih, List.length_cons]
    exact Nat.succ_add_eq_add_succ _ _

namespace JointSums

variable {M : ℕ} {dims : Dimensions} {sums : JointSums α M} {batch : Batch α}

theorem accumulate_eq_ok_iff {result : JointSums α M} :
    sums.accumulate batch = .ok result ↔
      (∀ response ∈ batch, response.length = sums.dims.responseLength) ∧
        result = batch.foldl addResponse sums := by
  constructor
  · intro h
    have hlength : ∀ response ∈ batch, response.length = sums.dims.responseLength := by
      rw [← Dimensions.check_eq_ok_iff]
      rw [accumulate_eq] at h
      cases hcheck : sums.dims.check batch with
      | ok => rfl
      | error failure =>
        rw [hcheck] at h
        cases h
    rw [accumulate_of_lengths sums hlength] at h
    exact ⟨hlength, (Except.ok.inj h).symm⟩
  · rintro ⟨hlength, rfl⟩
    exact accumulate_of_lengths sums hlength

theorem accumulate_eq_error_iff {failure : Failure α} :
    sums.accumulate batch = .error failure ↔ sums.dims.check batch = .error failure := by
  rw [accumulate_eq]
  cases sums.dims.check batch with
  | ok => exact iff_of_false nofun nofun
  | error other => simp [bind, Except.bind]

/-! ## The size of sums -/

/-- Sums of the size of an ensemble. -/
structure Sized (dims : Dimensions) (sums : JointSums α M) : Prop where
  dims_eq : sums.dims = dims
  length_qois : sums.qois.length = dims.numFunctions
  length_pairs : ∀ qoi ∈ sums.qois, qoi.pairs.length = dims.numApprox

theorem sized_empty (dims : Dimensions) : (empty dims : JointSums α M).Sized dims where
  dims_eq := rfl
  length_qois := by simp [empty]
  length_pairs := by
    intro qoi hqoi
    rw [List.eq_of_mem_replicate hqoi]
    simp [QoiSums.empty]

theorem Sized.addResponse (h : sums.Sized dims) (response : Response α) :
    (sums.addResponse response).Sized dims where
  dims_eq := h.dims_eq
  length_qois := by simpa [JointSums.addResponse] using h.length_qois
  length_pairs := by
    intro qoiSums hmem
    obtain ⟨qoi, hqoi, rfl⟩ := List.mem_mapIdx.mp hmem
    have hpairs := h.length_pairs _ (List.getElem_mem hqoi)
    split
    · rename_i sample hsample
      rw [QoiSums.add, List.length_zipWith, hpairs, Dimensions.length_low hsample, h.dims_eq,
        Nat.min_self]
    · exact hpairs

theorem Sized.foldl_addResponse (h : sums.Sized dims) (responses : List (Response α)) :
    (responses.foldl JointSums.addResponse sums).Sized dims := by
  induction responses generalizing sums with
  | nil => exact h
  | cons response responses ih => exact ih (h.addResponse response)

/-- An accepted batch keeps the size. -/
theorem Sized.accumulate (h : sums.Sized dims) {result : JointSums α M}
    (hresult : sums.accumulate batch = .ok result) : result.Sized dims := by
  obtain ⟨-, rfl⟩ := accumulate_eq_ok_iff.mp hresult
  exact h.foldl_addResponse batch

/-! ## Counts -/

@[simp] theorem counts_empty (dims : Dimensions) :
    (empty dims : JointSums α M).counts = List.replicate dims.numFunctions 0 := by
  simp [empty, counts, QoiSums.empty]

/-- The counts of a list of responses are those of its joint samples. -/
theorem counts_foldl_addResponse (dims : Dimensions) (responses : List (Response α)) :
    (responses.foldl addResponse (empty dims : JointSums α M)).counts =
      dims.jointCounts responses := by
  refine List.ext_getElem? fun qoi => ?_
  rw [counts, List.getElem?_map, getElem?_qois_foldl_addResponse]
  rcases lt_or_ge qoi dims.numFunctions with hqoi | hqoi
  · simp [empty, Dimensions.jointCounts, hqoi, QoiSums.count_foldl_add,
      Dimensions.length_filterMap_joint?, QoiSums.empty]
  · simp [empty, Dimensions.jointCounts, hqoi]

/-- A batch in which no evaluation failed adds all of its responses to every count. -/
theorem counts_accumulate {result : JointSums α M} (hresult : sums.accumulate batch = .ok result)
    (hjoint : ∀ response ∈ batch, ∀ qoi < sums.qois.length,
      ∃ sample, sums.dims.joint? response qoi = some sample) :
    result.counts = sums.counts.map (· + batch.length) := by
  obtain ⟨-, rfl⟩ := accumulate_eq_ok_iff.mp hresult
  clear hresult
  induction batch generalizing sums with
  | nil => simp
  | cons response batch ih =>
    -- the first response counts at every QoI, since it is a joint sample there
    have hfirst : (sums.addResponse response).counts = sums.counts.map (· + 1) := by
      unfold counts JointSums.addResponse
      rw [List.map_map]
      refine List.ext_getElem (by simp) fun qoi hqoi hqoi' => ?_
      rw [List.length_map] at hqoi'
      obtain ⟨sample, hsample⟩ := hjoint response List.mem_cons_self qoi hqoi'
      simp [hsample, QoiSums.add]
    have hlength : (sums.addResponse response).qois.length = sums.qois.length := by
      simp [JointSums.addResponse]
    rw [List.foldl_cons, ih (fun later hlater => ?_), hfirst, List.map_map]
    · refine List.map_congr_left fun count _ => ?_
      simp only [Function.comp_apply, List.length_cons]
      omega
    · rw [hlength, dims_addResponse]
      exact hjoint later (List.mem_cons_of_mem response hlater)

/-- Correlations are refused for the first QoI with fewer than two joint samples. -/
theorem correlations_eq_error_iff {m : ℕ} {sums : JointSums α (m + 1)} {failure : Failure α} :
    sums.correlations = .error failure ↔
      ∃ qoi, sums.counts.findIdx? (· < 2) = some qoi ∧
        failure = .insufficientSamples qoi (sums.counts.getD qoi 0) := by
  unfold JointSums.correlations
  cases sums.counts.findIdx? (· < 2) with
  | none => exact iff_of_false nofun fun ⟨_, hnone, _⟩ => nomatch hnone
  | some qoi =>
    constructor
    · intro h
      exact ⟨qoi, rfl, (Except.error.inj h).symm⟩
    · rintro ⟨_, hsome, rfl⟩
      cases hsome
      rfl

/-! ## The size of the correlations -/

theorem two_le_of_correlations {m : ℕ} {sums : JointSums α (m + 1)}
    {correlations : Correlations α} (h : sums.correlations = .ok correlations) :
    ∀ count ∈ sums.counts, 2 ≤ count := by
  unfold JointSums.correlations at h
  split at h
  · cases h
  · rename_i hnone
    intro count hcount
    exact not_lt.mp (of_decide_eq_false (List.findIdx?_eq_none_iff.mp hnone count hcount))

theorem full_correlations {m : ℕ} {sums : JointSums α (m + 1)} (hsums : sums.Sized dims)
    {correlations : Correlations α} (h : sums.correlations = .ok correlations) :
    correlations.rhoSq.Full := by
  unfold JointSums.correlations at h
  split at h
  · cases h
  · cases h
    refine QoiMatrix.full_ofRows fun row hrow => ?_
    obtain ⟨qoi, hqoi, rfl⟩ := List.mem_map.mp hrow
    simp [QoiSums.rhoSq, QoiSums.varLow, QoiSums.cov, QoiSums.firstPairs,
      hsums.length_pairs qoi hqoi, hsums.dims_eq]

theorem rows_correlations {m : ℕ} {sums : JointSums α (m + 1)} {correlations : Correlations α}
    (h : sums.correlations = .ok correlations) :
    correlations.rhoSq.rows = sums.counts.length := by
  unfold JointSums.correlations at h
  split at h
  · cases h
  · cases h
    simp [QoiMatrix.ofRows, JointSums.counts]

theorem length_varHigh {m : ℕ} {sums : JointSums α (m + 1)} {correlations : Correlations α}
    (h : sums.correlations = .ok correlations) :
    correlations.varHigh.length = sums.counts.length := by
  unfold JointSums.correlations at h
  split at h
  · cases h
  · cases h
    simp [JointSums.counts]

theorem cols_correlations {m : ℕ} {sums : JointSums α (m + 1)} {correlations : Correlations α}
    (h : sums.correlations = .ok correlations) :
    correlations.rhoSq.cols = sums.dims.numApprox := by
  unfold JointSums.correlations at h
  split at h
  · cases h
  · cases h
    rfl

end JointSums

end Multifidelity
