import Multifidelity.Proofs.Allocation.SearchLoop
import Multifidelity.Proofs.Allocation.Targets

/-!
# Ratios found by compass search

A compass search keeps its increments real and not negative, wherever it starts and whatever its
objective is. The ratios of such increments are one or more, and they do not increase along the
order of the problem.

## Main definitions

* `CompassSearch.Rising`: increments that are real and not negative
* `CompassSearch.Bounded`: searches whose first step and largest increment are real

## Main results

* `CompassSearch.Rising.nested_toRatios`: the ratios of such increments
* `CompassSearch.rising_toIncrements`, `CompassSearch.rising_last`: the increments at the start and
  at the end of a search
* `CompassSearch.Bounded.ordered_optimize`: a search keeps to the constraints of its problem
-/

namespace Multifidelity

open ExactReal

namespace CompassSearch

/-! ## The ratios of increments -/

/-- Increments that are real numbers and not negative. -/
def Rising (increments : List ExactReal) : Prop :=
  ∀ increment ∈ increments, ∃ x : ℝ, 0 ≤ x ∧ increment = real x

theorem Rising.suffixSums {increments : List ExactReal} (h : Rising increments) :
    Rising (suffixSums increments) := by
  induction increments with
  | nil => exact h
  | cons increment rest ih =>
    have hrest := ih fun z hz => h z (List.mem_cons_of_mem increment hz)
    obtain ⟨x, hx, rfl⟩ := h increment List.mem_cons_self
    intro sum hsum
    rcases List.mem_cons.mp hsum with rfl | hsum
    · -- the first sum adds the first increment to the one behind it
      cases hlater : CompassSearch.suffixSums rest with
      | nil => exact ⟨x, hx, by simp⟩
      | cons y later =>
        obtain ⟨y, hy, rfl⟩ := hrest y (by simp [hlater])
        exact ⟨y + x, add_nonneg hy hx, by simp⟩
    · exact hrest sum hsum

/-- Sums of increments that are not negative do not increase. -/
theorem Rising.pairwise_suffixSums {increments : List ExactReal} (h : Rising increments) :
    (CompassSearch.suffixSums increments).Pairwise fun before after => after ≤ before := by
  induction increments with
  | nil => exact .nil
  | cons increment rest ih =>
    have hrising : Rising rest := fun z hz => h z (List.mem_cons_of_mem increment hz)
    obtain ⟨x, hx, rfl⟩ := h increment List.mem_cons_self
    have hpairwise := ih hrising
    have hsums := hrising.suffixSums
    rw [CompassSearch.suffixSums]
    refine List.pairwise_cons.mpr ⟨fun sum hsum => ?_, hpairwise⟩
    cases hlater : CompassSearch.suffixSums rest with
    | nil => simp [hlater] at hsum
    | cons first later =>
      rw [hlater] at hsum hpairwise hsums
      obtain ⟨y, -, rfl⟩ := hsums first List.mem_cons_self
      have hfirst : real y ≤ real y + real x := by
        rw [real_add, real_le_real]
        linarith
      rcases List.mem_cons.mp hsum with rfl | hsum
      · exact hfirst
      · exact ExactReal.le_trans ((List.pairwise_cons.mp hpairwise).1 sum hsum) hfirst

/-- The ratios of increments that are not negative are nested. -/
theorem Rising.nested_toRatios {increments : List ExactReal} (h : Rising increments)
    {order : ModelOrder} (horder : order.Valid increments.length) :
    order.Nested increments.length (toRatios order increments) := by
  have hlength : ((CompassSearch.suffixSums increments).map Scalar.exp).length =
      increments.length := by simp
  unfold toRatios
  rw [← hlength] at horder ⊢
  refine horder.nested_scatter (fun ratio hratio => ?_) ?_
  · obtain ⟨sum, hsum, rfl⟩ := List.mem_map.mp hratio
    obtain ⟨x, hx, rfl⟩ := h.suffixSums sum hsum
    exact real_le_real.mpr (Real.one_le_exp hx)
  · refine List.pairwise_map.mpr (h.pairwise_suffixSums.imp_of_mem fun hbefore hafter hle => ?_)
    obtain ⟨x, -, rfl⟩ := h.suffixSums _ hbefore
    obtain ⟨y, -, rfl⟩ := h.suffixSums _ hafter
    exact real_le_real.mpr (Real.exp_le_exp.mpr (real_le_real.mp hle))

/-! ## The increments of a search -/

/-- A search whose first step is real, and whose largest increment is real and not negative. -/
structure Bounded (search : CompassSearch ExactReal) : Prop where
  initialStep : ∃ step : ℝ, search.initialStep = real step
  maxLogRatio : ∃ limit : ℝ, 0 ≤ limit ∧ search.maxLogRatio = real limit

theorem bounded_default : (default : CompassSearch ExactReal).Bounded where
  initialStep := ⟨1, rfl⟩
  maxLogRatio := ⟨_, Real.log_nonneg (by norm_num), log_real (by norm_num)⟩

/-- What is not negative, or no number at all, is not negative after it has been cut off. -/
theorem exists_smaller {x : ExactReal} (hx : x = nan ∨ 0 ≤ x) {limit : ℝ} (hlimit : 0 ≤ limit) :
    ∃ y : ℝ, 0 ≤ y ∧ Scalar.smaller x (real limit) = real y := by
  rcases hx with rfl | hx
  · exact ⟨limit, hlimit, if_pos ((isNaN_iff nan).mpr rfl)⟩
  · rcases real_le_iff.mp hx with rfl | ⟨y, hy, rfl⟩
    · exact ⟨limit, hlimit, by simp [Scalar.smaller]⟩
    · exact ⟨_, le_min hy hlimit, smaller_real y limit⟩

section Limit

variable {search : CompassSearch ExactReal} {limit : ℝ} (hlimit : 0 ≤ limit)
  (hmax : search.maxLogRatio = real limit)
include hlimit hmax

/-- Whatever the ratios are, the search starts with increments that are not negative. -/
theorem rising_incrementsAlong (ratios : List ExactReal) :
    Rising (incrementsAlong search.maxLogRatio ratios).1 ∧
      0 ≤ (incrementsAlong search.maxLogRatio ratios).2 := by
  induction ratios with
  | nil => exact ⟨nofun, real_le_real.mpr le_rfl⟩
  | cons ratio rest ih =>
    obtain ⟨hrising, hupper⟩ := ih
    rw [incrementsAlong]
    generalize incrementsAlong search.maxLogRatio rest = later at hrising hupper ⊢
    obtain ⟨later, upper⟩ := later
    dsimp only at hrising hupper ⊢
    -- a ratio raised to one has a logarithm that is not negative
    have hlog : 0 ≤ Scalar.log (Scalar.larger ratio 1) := by
      rcases real_le_iff.mp (le_larger_real ratio 1) with hratio | ⟨r, hr, hratio⟩
      · rw [one_eq, hratio, log_posInf]
        exact real_le_posInf 0
      · rw [one_eq, hratio, log_real (zero_lt_one.trans_le hr)]
        exact real_le_real.mpr (Real.log_nonneg hr)
    have hle := le_larger_right (le_self_of_le hlog) (le_self_of_le hupper)
    refine ⟨fun increment hincrement => ?_, ExactReal.le_trans hupper hle⟩
    rcases List.mem_cons.mp hincrement with rfl | hincrement
    · rw [hmax]
      refine exists_smaller ?_ hlimit
      -- the logarithm is not below the one behind it, and both may be infinite
      generalize Scalar.larger (Scalar.log (Scalar.larger ratio 1)) upper = value at hle
      rcases real_le_iff.mp hupper with rfl | ⟨u, -, rfl⟩
      · obtain rfl : value = posInf := by cases value <;> first | rfl | exact hle.elim
        exact Or.inl rfl
      · rcases real_le_iff.mp hle with rfl | ⟨v, huv, rfl⟩
        · exact Or.inr (real_le_posInf 0)
        · right
          rw [real_sub]
          exact real_le_real.mpr (sub_nonneg.mpr huv)
    · exact hrising increment hincrement

theorem rising_toIncrements (order : ModelOrder) (ratios : List ExactReal) :
    Rising (search.toIncrements order ratios) :=
  (rising_incrementsAlong hlimit hmax _).1

/-- A coordinate after a step is not negative, even if the step is infinite or no number. -/
theorem exists_stepped (value step : ExactReal) :
    ∃ y : ℝ, 0 ≤ y ∧ search.stepped value step = real y := by
  unfold stepped
  rw [hmax, zero_eq]
  exact exists_smaller (Or.inr (le_larger_real _ 0)) hlimit

/-- A search keeps its increments real and not negative. -/
theorem keeps_rising (objective : List ExactReal → ExactReal) :
    search.Keeps objective fun increments _ => Rising increments := by
  intro coordinate step increments _ hrising _ increment hincrement
  rcases List.mem_or_eq_of_mem_set hincrement with hold | rfl
  · exact hrising increment hold
  · exact exists_stepped hlimit hmax _ step

theorem rising_last (problem : RatioProblem ExactReal) (initial : List ExactReal) :
    Rising (search.last problem initial).1.increments :=
  (keeps_rising hlimit hmax _).last (rising_toIncrements hlimit hmax problem.order initial)

end Limit

/-- A compass search keeps to the constraints of its problem. -/
theorem Bounded.ordered_optimize {search : CompassSearch ExactReal} (h : search.Bounded) :
    Optimizer.Ordered search.optimize := by
  intro problem initial found horder hfound hlength
  obtain ⟨limit, hlimit, hmax⟩ := h.maxLogRatio
  obtain ⟨-, rfl⟩ := optimize_eq_ok_iff.mp hfound
  rw [length_toRatios] at hlength
  rw [← hlength] at horder ⊢
  exact (rising_last hlimit hmax problem initial).nested_toRatios horder

end CompassSearch

end Multifidelity
