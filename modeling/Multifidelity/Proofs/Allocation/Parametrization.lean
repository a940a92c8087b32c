import Multifidelity.Proofs.Allocation.Compass
import Multifidelity.Proofs.Allocation.Variance

/-!
# Ratios and their logarithmic increments

The increments of ratios are the differences of the logarithms of their peaks along the order: the
peak at a position is the largest ratio from there on, and at least one. The ratios of increments
are the exponentials of the sums from each position on. Hence the two maps are inverse to each other
between increments that are neither negative nor cut off, and ratios that are nested. In general the
way there and back leads to the peaks.

## Main definitions

* `highest`: the largest of several ratios, at least one
* `ModelOrder.peak`: the largest ratio from a position on along an order
* `CompassSearch.logIncrements`: the increments of real ratios by position

## Main results

* `CompassSearch.suffixSums_real`, `CompassSearch.incrementsAlong_real`: both maps on real numbers
* `CompassSearch.toIncrements_toRatios`: increments in the range of a search are found again
* `CompassSearch.toRatios_toIncrements`: so are nested ratios, if no increment is cut off
* `CompassSearch.parametrization_exact`: the whole of it, with the peaks of any other ratios
-/

namespace Multifidelity

open ExactReal

/-! ## Peaks -/

/-- The largest of several ratios, at least one. -/
noncomputable def highest (xs : List ℝ) : ℝ := xs.foldr max 1

@[simp] theorem highest_nil : highest [] = 1 := rfl

@[simp] theorem highest_cons (x : ℝ) (rest : List ℝ) :
    highest (x :: rest) = max x (highest rest) := rfl

theorem one_le_highest (xs : List ℝ) : 1 ≤ highest xs := by
  induction xs with
  | nil => exact le_rfl
  | cons x rest ih => exact ih.trans (le_max_right x _)

theorem highest_pos (xs : List ℝ) : 0 < highest xs := zero_lt_one.trans_le (one_le_highest xs)

theorem highest_le {xs : List ℝ} {bound : ℝ} (hone : 1 ≤ bound) (h : ∀ x ∈ xs, x ≤ bound) :
    highest xs ≤ bound := by
  induction xs with
  | nil => exact hone
  | cons x rest ih =>
    exact max_le (h x List.mem_cons_self) (ih fun y hy => h y (List.mem_cons_of_mem x hy))

/-- Ratios of one or more that do not increase are highest at the front. -/
theorem highest_of_pairwise {xs : List ℝ} (hone : ∀ x ∈ xs, 1 ≤ x)
    (hpairwise : xs.Pairwise fun before after => after ≤ before) : highest xs = xs.headD 1 := by
  cases xs with
  | nil => rfl
  | cons x rest =>
    have hle := highest_le (hone x List.mem_cons_self) (List.pairwise_cons.mp hpairwise).1
    exact max_eq_left hle

namespace ModelOrder

/-- Real ratios, listed along an order. -/
def listed (order : ModelOrder) (rs : List ℝ) : List ℝ :=
  (order.along rs.length).map fun model => rs.getD model 0

/-- The largest ratio from a position on along an order, at least one. -/
noncomputable def peak (order : ModelOrder) (rs : List ℝ) (position : ℕ) : ℝ :=
  highest ((order.listed rs).drop position)

@[simp] theorem length_listed (order : ModelOrder) (rs : List ℝ) :
    (order.listed rs).length = rs.length := by
  simp [listed]

theorem gather_map (order : ModelOrder) (rs : List ℝ) :
    order.gather rs.length (rs.map real) = (order.listed rs).map real := by
  rw [gather, listed, List.map_map]
  exact List.map_congr_left fun model _ => List.getD_map rs 0 real

theorem getElem_listed (order : ModelOrder) (rs : List ℝ) {i : ℕ}
    (hi : i < (order.listed rs).length) : (order.listed rs)[i] = rs.getD (order.model i) 0 := by
  simp [listed, along]

theorem headD_drop_listed (order : ModelOrder) (rs : List ℝ) {i : ℕ} (hi : i < rs.length) :
    ((order.listed rs).drop i).headD 1 = rs.getD (order.model i) 0 := by
  have hi' : i < (order.listed rs).length := by simpa using hi
  rw [List.drop_eq_getElem_cons hi', List.headD_cons, getElem_listed]

namespace Nested

variable {order : ModelOrder} {rs : List ℝ} (h : order.Nested rs.length (rs.map real))
  (horder : order.Valid rs.length)
include h

theorem pairwise_listed : (order.listed rs).Pairwise fun before after => after ≤ before := by
  refine List.pairwise_map.mpr (List.pairwise_map.mpr ?_)
  refine List.pairwise_lt_range.imp_of_mem fun {i j} _ hj hij => ?_
  have hle := h.antitone i j hij (List.mem_range.mp hj)
  rwa [zero_eq, List.getD_map, List.getD_map, real_le_real] at hle

include horder

theorem one_le_of_mem_listed : ∀ x ∈ order.listed rs, 1 ≤ x := by
  intro x hx
  obtain ⟨model, hmodel, rfl⟩ := List.mem_map.mp hx
  have hlt := horder.mem_along.mp hmodel
  rw [List.getD_eq_getElem _ _ hlt]
  exact real_le_real.mp (h.one_le _ (List.mem_map_of_mem (List.getElem_mem hlt)))

/-- The peaks of nested ratios are the ratios themselves. Behind the last one stands a one. -/
theorem peak_eq_ladder (i : ℕ) : order.peak rs i = order.ladder rs.length (rs.getD · 0) 1 i := by
  have hone : ∀ x ∈ (order.listed rs).drop i, 1 ≤ x := fun x hx =>
    h.one_le_of_mem_listed horder x (List.mem_of_mem_drop hx)
  rw [peak, highest_of_pairwise hone (h.pairwise_listed.sublist (List.drop_sublist _ _))]
  rcases lt_or_ge i rs.length with hi | hi
  · rw [headD_drop_listed order rs hi, ladder_of_lt hi]
  · rw [List.drop_eq_nil_of_le (by simpa using hi), ladder, if_neg (not_lt.mpr hi)]
    rfl

theorem peak_eq {i : ℕ} (hi : i < rs.length) : order.peak rs i = rs.getD (order.model i) 0 := by
  rw [h.peak_eq_ladder horder, ladder_of_lt hi]

end Nested

end ModelOrder

namespace CompassSearch

/-! ## Sums of increments -/

theorem headD_suffixSums_real (xs : List ℝ) :
    (suffixSums (xs.map real)).headD 0 = real xs.sum := by
  induction xs with
  | nil => rfl
  | cons x rest ih =>
    rw [List.map_cons, suffixSums, List.headD_cons, ih, real_add, List.sum_cons, add_comm]

theorem suffixSums_cons_real (x : ℝ) (rest : List ℝ) :
    suffixSums ((x :: rest).map real) = real (x + rest.sum) :: suffixSums (rest.map real) := by
  rw [List.map_cons, suffixSums, headD_suffixSums_real, real_add, add_comm]

/-- The sums from each position on. -/
theorem suffixSums_real (xs : List ℝ) :
    suffixSums (xs.map real) = (List.range xs.length).map fun i => real (xs.drop i).sum := by
  induction xs with
  | nil => rfl
  | cons x rest ih =>
    rw [suffixSums_cons_real, ih, List.length_cons, List.range_succ_eq_map, List.map_cons,
      List.map_map, List.drop_zero, List.sum_cons]
    rfl

/-- The ratio at a position is the exponential of the increments from there on. -/
theorem getD_toRatios {order : ModelOrder} {xs : List ℝ} (horder : order.Valid xs.length) {i : ℕ}
    (hi : i < xs.length) :
    (toRatios order (xs.map real)).getD (order.model i) 0 = real (Real.exp (xs.drop i).sum) := by
  have hlength : ((suffixSums (xs.map real)).map Scalar.exp).length = xs.length := by simp
  rw [toRatios, ModelOrder.Valid.getD_scatter (by rwa [hlength]) (by rwa [hlength])]
  simp [suffixSums_real]

/-! ## Increments of ratios -/

/-- The increments of real ratios by position: the differences of the logarithms of their peaks, cut
off at a limit. -/
noncomputable def logIncrements (limit : ℝ) : List ℝ → List ℝ
  | [] => []
  | x :: rest =>
    min (Real.log (highest (x :: rest)) - Real.log (highest rest)) limit :: logIncrements limit rest

@[simp] theorem length_logIncrements (limit : ℝ) (xs : List ℝ) :
    (logIncrements limit xs).length = xs.length := by
  induction xs with
  | nil => rfl
  | cons x rest ih => rw [logIncrements, List.length_cons, List.length_cons, ih]

theorem drop_logIncrements (limit : ℝ) (xs : List ℝ) (i : ℕ) :
    (logIncrements limit xs).drop i = logIncrements limit (xs.drop i) := by
  induction xs generalizing i with
  | nil => simp [logIncrements]
  | cons x rest ih =>
    cases i with
    | zero => rfl
    | succ i => exact ih i

/-- The increments of real ratios, with the logarithm of their peak. -/
theorem incrementsAlong_real (limit : ℝ) (xs : List ℝ) :
    incrementsAlong (real limit) (xs.map real) =
      ((logIncrements limit xs).map real, real (Real.log (highest xs))) := by
  induction xs with
  | nil => simp [incrementsAlong, logIncrements]
  | cons x rest ih =>
    -- the logarithm of the larger ratio is the larger logarithm
    have hlog : max (Real.log (max x 1)) (Real.log (highest rest)) =
        Real.log (highest (x :: rest)) := by
      have hpos : (0 : ℝ) < max x 1 := zero_lt_one.trans_le (le_max_right x 1)
      have hmax : highest (x :: rest) = max (max x 1) (highest rest) := by
        rw [highest_cons, max_assoc, max_eq_right (one_le_highest rest)]
      rw [hmax]
      exact (Real.strictMonoOn_log.monotoneOn.map_max hpos (highest_pos rest)).symm
    rw [List.map_cons, incrementsAlong, ih]
    dsimp only
    rw [one_eq, larger_real, log_real (zero_lt_one.trans_le (le_max_right x 1)), larger_real, hlog,
      real_sub, smaller_real]
    rfl

/-- No sum of increments is above the logarithm of the peak. -/
theorem sum_logIncrements_le (limit : ℝ) (xs : List ℝ) :
    (logIncrements limit xs).sum ≤ Real.log (highest xs) := by
  induction xs with
  | nil => simp [logIncrements]
  | cons x rest ih =>
    rw [logIncrements, List.sum_cons]
    have hmin := min_le_left (Real.log (highest (x :: rest)) - Real.log (highest rest)) limit
    linarith

/-- The sum reaches it if no increment is cut off. -/
theorem sum_logIncrements {limit : ℝ} {xs : List ℝ}
    (h : ∀ i < xs.length, highest (xs.drop i) / highest (xs.drop (i + 1)) ≤ Real.exp limit) :
    (logIncrements limit xs).sum = Real.log (highest xs) := by
  induction xs with
  | nil => simp [logIncrements]
  | cons x rest ih =>
    have hquotient : highest (x :: rest) / highest rest ≤ Real.exp limit := by
      simpa using h 0 (Nat.succ_pos _)
    have hle : Real.log (highest (x :: rest)) - Real.log (highest rest) ≤ limit := by
      rw [← Real.log_div (highest_pos _).ne' (highest_pos _).ne']
      exact (Real.log_le_iff_le_exp (div_pos (highest_pos _) (highest_pos _))).mpr hquotient
    rw [logIncrements, List.sum_cons, min_eq_left hle,
      ih fun i hi => h (i + 1) (Nat.succ_lt_succ hi), sub_add_cancel]

/-- Sums of increments that are neither negative nor above the limit have these increments. -/
theorem incrementsAlong_exp {limit : ℝ} {xs : List ℝ} (h : ∀ x ∈ xs, 0 ≤ x ∧ x ≤ limit) :
    incrementsAlong (real limit) ((suffixSums (xs.map real)).map Scalar.exp) =
      (xs.map real, real xs.sum) := by
  induction xs with
  | nil => rfl
  | cons x rest ih =>
    obtain ⟨hx, hle⟩ := h x List.mem_cons_self
    have hrest : ∀ y ∈ rest, 0 ≤ y ∧ y ≤ limit := fun y hy => h y (List.mem_cons_of_mem x hy)
    have hsum : 0 ≤ x + rest.sum := add_nonneg hx (List.sum_nonneg fun y hy => (hrest y hy).1)
    rw [suffixSums_cons_real, List.map_cons, incrementsAlong, ih hrest]
    dsimp only
    rw [exp_real, one_eq, larger_real, max_eq_left (Real.one_le_exp hsum),
      log_real (Real.exp_pos _), Real.log_exp, larger_real,
      max_eq_left (le_add_of_nonneg_left hx), real_sub, add_sub_cancel_right, smaller_real,
      min_eq_left hle, List.sum_cons, List.map_cons]

/-! ## There and back -/

variable {search : CompassSearch ExactReal} {limit : ℝ} (hmax : search.maxLogRatio = real limit)
  {order : ModelOrder}
include hmax

theorem toIncrements_real (order : ModelOrder) (rs : List ℝ) :
    search.toIncrements order (rs.map real) =
      (logIncrements limit (order.listed rs)).map real := by
  rw [toIncrements, List.length_map, order.gather_map, hmax, incrementsAlong_real]

/-- The ratio that the increments of ratios lead to at a position. -/
theorem getD_toRatios_toIncrements {rs : List ℝ} (horder : order.Valid rs.length) {i : ℕ}
    (hi : i < rs.length) :
    (toRatios order (search.toIncrements order (rs.map real))).getD (order.model i) 0 =
      real (Real.exp (logIncrements limit ((order.listed rs).drop i)).sum) := by
  have hlength : (logIncrements limit (order.listed rs)).length = rs.length := by simp
  rw [toIncrements_real hmax, getD_toRatios (by rwa [hlength]) (by rwa [hlength]),
    drop_logIncrements]

/-- If the peaks do not fall by more than the limit allows, ratios become their peaks. -/
theorem getD_toRatios_of_peaks {rs : List ℝ} (horder : order.Valid rs.length)
    (hpeaks : ∀ i < rs.length, order.peak rs i / order.peak rs (i + 1) ≤ Real.exp limit) {i : ℕ}
    (hi : i < rs.length) :
    (toRatios order (search.toIncrements order (rs.map real))).getD (order.model i) 0 =
      real (order.peak rs i) := by
  rw [getD_toRatios_toIncrements hmax horder hi, sum_logIncrements, Real.exp_log (highest_pos _)]
  · rfl
  · intro j hj
    rw [List.length_drop, ModelOrder.length_listed] at hj
    rw [List.drop_drop, List.drop_drop, ← Nat.add_assoc]
    exact hpeaks (i + j) (by omega)

/-- Nested ratios are found again if they do not fall by more than the limit allows. -/
theorem toRatios_toIncrements {rs : List ℝ} (horder : order.Valid rs.length)
    (hnested : order.Nested rs.length (rs.map real))
    (hpeaks : ∀ i < rs.length, order.peak rs i / order.peak rs (i + 1) ≤ Real.exp limit) :
    toRatios order (search.toIncrements order (rs.map real)) = rs.map real := by
  have hlength : (toRatios order (search.toIncrements order (rs.map real))).length = rs.length := by
    simp [toIncrements]
  refine List.ext_getElem (by rw [hlength, List.length_map]) fun model hmodel hmodel' => ?_
  -- the ratios are known by position, and every model has one
  obtain ⟨i, hi, rfl⟩ := List.mem_map.mp (horder.mem_along.mpr (hlength ▸ hmodel))
  have hi := List.mem_range.mp hi
  rw [← List.getD_eq_getElem _ 0 hmodel, getD_toRatios_of_peaks hmax horder hpeaks hi,
    hnested.peak_eq horder hi, List.getElem_map, List.getD_eq_getElem]

/-- Increments in the range of the search are found again. -/
theorem toIncrements_toRatios {xs : List ℝ} (horder : order.Valid xs.length)
    (h : ∀ x ∈ xs, 0 ≤ x ∧ x ≤ limit) :
    search.toIncrements order (toRatios order (xs.map real)) = xs.map real := by
  have hlength : ((suffixSums (xs.map real)).map Scalar.exp).length = xs.length := by simp
  have hgather : order.gather xs.length (toRatios order (xs.map real)) =
      (suffixSums (xs.map real)).map Scalar.exp := by
    rw [toRatios, ← hlength]
    exact ModelOrder.Valid.gather_scatter (by rwa [hlength])
  rw [toIncrements, length_toRatios, List.length_map, hgather, hmax, incrementsAlong_exp h]

/-- The increments of ratios are an exact parametrization. Increments between zero and the limit are
found again from their ratios. The ratios of increments that are not negative are nested. Any ratios
become their peaks along the order if no peak falls by more than the limit allows, so that nested
ratios are found again. -/
theorem parametrization_exact {numApprox : ℕ} (horder : order.Valid numApprox) :
    (∀ xs : List ℝ, xs.length = numApprox → (∀ x ∈ xs, 0 ≤ x ∧ x ≤ limit) →
      search.toIncrements order (toRatios order (xs.map real)) = xs.map real) ∧
    (∀ xs : List ℝ, xs.length = numApprox → (∀ x ∈ xs, 0 ≤ x) →
      order.Nested numApprox (toRatios order (xs.map real))) ∧
    ∀ rs : List ℝ, rs.length = numApprox →
      (∀ i < numApprox, order.peak rs i / order.peak rs (i + 1) ≤ Real.exp limit) →
      (∀ i < numApprox, (toRatios order (search.toIncrements order (rs.map real))).getD
        (order.model i) 0 = real (order.peak rs i)) ∧
      (order.Nested numApprox (rs.map real) →
        toRatios order (search.toIncrements order (rs.map real)) = rs.map real) := by
  refine ⟨?_, ?_, ?_⟩
  · rintro xs rfl hxs
    exact toIncrements_toRatios hmax horder hxs
  · rintro xs rfl hxs
    have hrising : Rising (xs.map real) := by
      intro increment hincrement
      obtain ⟨x, hx, rfl⟩ := List.mem_map.mp hincrement
      exact ⟨x, hxs x hx, rfl⟩
    have hnested := hrising.nested_toRatios (by rwa [List.length_map])
    rwa [List.length_map] at hnested
  · rintro rs rfl hpeaks
    exact ⟨fun i hi => getD_toRatios_of_peaks hmax horder hpeaks hi,
      fun hnested => toRatios_toIncrements hmax horder hnested hpeaks⟩

omit hmax

theorem maxLogRatio_default :
    (default : CompassSearch ExactReal).maxLogRatio = real (Real.log 1e6) :=
  log_real (by norm_num)

/-- Along the order `1`, `0` the ratios two and three are nested, and three and two become three and
three. The increments of these are zero and the logarithm of three. -/
theorem parametrization_exact_default :
    let order : ModelOrder := [1, 0]
    default.toIncrements order (toRatios order ([0, Real.log 3].map real)) =
        [0, Real.log 3].map real ∧
      toRatios order (default.toIncrements order ([2, 3].map real)) = [2, 3].map real ∧
      ∀ i < 2, (toRatios order (default.toIncrements order ([3, 2].map real))).getD
        (order.model i) 0 = real 3 := by
  intro order
  have horder : order.Valid 2 := Or.inr (.swap 0 1 [])
  obtain ⟨hback, -, hthere⟩ := parametrization_exact maxLogRatio_default horder
  have hexp : Real.exp (Real.log 1e6) = 1e6 := Real.exp_log (by norm_num)
  have hnested : order.listed [2, 3] = [3, 2] := rfl
  have hunordered : order.listed [3, 2] = [2, 3] := rfl
  refine ⟨hback _ rfl ?_, (hthere [2, 3] rfl ?_).2 ⟨?_, ?_⟩, fun i hi => ?_⟩
  · have hle : Real.log 3 ≤ Real.log 1e6 := Real.log_le_log (by norm_num) (by norm_num)
    have hthree : 0 ≤ Real.log 3 := Real.log_nonneg (by norm_num)
    simp [hle, hthree, hthree.trans hle]
  · intro i hi
    rw [hexp]
    interval_cases i <;> norm_num [ModelOrder.peak, hnested]
  · simp
  · intro i j hij hj
    obtain ⟨rfl, rfl⟩ : i = 0 ∧ j = 1 := by omega
    norm_num [order, ModelOrder.model]
  · rw [(hthere [3, 2] rfl fun i hi => ?_).1 i hi]
    · interval_cases i <;> norm_num [ModelOrder.peak, hunordered]
    · rw [hexp]
      interval_cases i <;> norm_num [ModelOrder.peak, hunordered]

end CompassSearch

end Multifidelity
