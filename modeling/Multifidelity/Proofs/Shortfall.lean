import Mathlib.Algebra.Order.BigOperators.Group.List
import Multifidelity.Proofs.ExactReal
import Multifidelity.Shortfall

/-!
# Sample increments over exact scalars

An increment closes the mean shortfall of the counts to their targets, rounded up. Equal counts with
one target are brought to the least number that covers it.

## Main definitions

* `coveringCounts`: the numbers of samples that cover a target

## Main results

* `increment_of_average`: the increment for a mean shortfall
* `not_lt_of_increment_eq_zero`: counts that need no increment
* `increment_mono`, `increment_mul_mono`: the increment for larger shortfalls and targets
* `increment_replicate`, `increment_le`: the increment of equal counts
* `isLeast_coveringCounts_increment`: equal counts after their increment
* `increment_averageCount_eq_zero_iff`: which counts are at their average
-/

namespace Multifidelity

open ExactReal

/-! ## Shortfalls -/

@[simp] theorem shortfall_real (count : ℕ) (x : ℝ) :
    shortfall count (real x) = real (max (x - count) 0) := by
  unfold shortfall
  by_cases h : 0 < x - count
  · simp [h, h.le]
  · simp [h, max_eq_right (not_lt.mp h)]

theorem shortfall_nan (count : ℕ) : shortfall count (nan : ExactReal) = real 0 :=
  if_neg id

/-- A shortfall is at most that of a larger target, and zero for a target that is a NaN. -/
theorem shortfall_le {count : ℕ} {target : ExactReal} {x : ℝ}
    (h : target ≤ real x ∨ target = nan) :
    ∃ s, shortfall count target = real s ∧ 0 ≤ s ∧ s ≤ max (x - count) 0 := by
  cases target with
  | real t =>
    -- a real target is at most the bound, and so is what it lacks
    have hle : t ≤ x := by simpa using h
    refine ⟨_, shortfall_real count t, le_max_right _ _, ?_⟩
    exact max_le_max_right 0 (by linarith)
  -- an infinite target is above every real bound
  | posInf => exact absurd h (by rintro (h | h); exacts [h, by cases h])
  | negInf => exact ⟨0, if_neg id, le_rfl, le_max_right _ _⟩
  | nan => exact ⟨0, shortfall_nan count, le_rfl, le_max_right _ _⟩

theorem shortfall_nonneg (count : ℕ) (target : ExactReal) : 0 ≤ shortfall count target := by
  unfold shortfall
  dsimp only
  split
  · exact ExactReal.le_of_lt ‹_›
  · exact real_le_real.mpr le_rfl

theorem zipWith_shortfall_nonneg (counts : List ℕ) (targets : List ExactReal) :
    ∀ value ∈ List.zipWith shortfall counts targets, 0 ≤ value := by
  intro value hvalue
  obtain ⟨i, hi, rfl⟩ := List.mem_iff_getElem.mp hvalue
  rw [List.getElem_zipWith]
  exact shortfall_nonneg _ _

section Mean

variable {counts : List ℕ} {targets : List ExactReal} {mean : ℝ}

theorem increment_of_average_nonpos
    (h : average (List.zipWith shortfall counts targets) = real mean) (hmean : mean ≤ 0)
    (least : ℕ) : increment counts targets least = 0 := by
  unfold increment
  rw [h]
  exact if_neg (not_lt.mpr hmean)

/-- A positive mean shortfall is rounded up and brought into the range of increments. -/
theorem increment_of_average (h : average (List.zipWith shortfall counts targets) = real mean)
    (hmean : 0 < mean) (least : ℕ) :
    increment counts targets least = max (min ⌈mean⌉₊ maxCount) least := by
  -- the mean is positive, so that its ceiling is a count unless it is out of range
  have hceil : ((⌈mean⌉ : ℤ) : ℝ) = (⌈mean⌉₊ : ℝ) := by
    rw [← natCast_ceil_eq_intCast_ceil hmean.le]
  have hcount : (Scalar.toCount? (real (⌈mean⌉₊ : ℝ))).getD maxCount = min ⌈mean⌉₊ maxCount := by
    rw [toCount?_natCast]
    split
    · rename_i hle
      exact (min_eq_left hle).symm
    · rename_i hlt
      exact (min_eq_right (not_le.mp hlt).le).symm
  unfold increment
  rw [h]
  dsimp only
  rw [if_pos (by simpa using hmean), ceil_real, hceil, hcount]

theorem increment_of_average_nan (h : average (List.zipWith shortfall counts targets) = nan)
    (least : ℕ) : increment counts targets least = 0 := by
  unfold increment
  rw [h]
  exact if_neg (not_lt_nan _)

/-- An increment of at least one is the mean shortfall rounded up, as far as counts reach. -/
theorem increment_one_of_average
    (h : average (List.zipWith shortfall counts targets) = real mean) :
    increment counts targets 1 = min ⌈mean⌉₊ maxCount := by
  rcases le_or_gt mean 0 with hmean | hmean
  · rw [increment_of_average_nonpos h hmean, Nat.ceil_eq_zero.mpr hmean, Nat.zero_min]
  · rw [increment_of_average h hmean]
    have hceil : 1 ≤ ⌈mean⌉₊ := Nat.one_le_ceil_iff.mpr hmean
    have hmax : 1 ≤ maxCount := by decide
    omega

/-- An infinite mean shortfall is cut off at the largest count. -/
theorem increment_of_average_posInf
    (h : average (List.zipWith shortfall counts targets) = posInf) :
    increment counts targets 1 = maxCount := by
  have hcount : Scalar.toCount? (Scalar.ceil posInf) = none := rfl
  unfold increment
  rw [h]
  dsimp only
  rw [if_pos (show (0 : ExactReal) < posInf from trivial), hcount]
  rfl

theorem increment_le_maxCount (counts : List ℕ) (targets : List ExactReal) :
    increment counts targets 1 ≤ maxCount := by
  cases h : average (List.zipWith shortfall counts targets) with
  | real mean =>
    rw [increment_one_of_average h]
    exact min_le_right _ _
  | posInf => rw [increment_of_average_posInf h]
  | negInf =>
    have hnone : increment counts targets 1 = 0 := by
      unfold increment
      rw [h]
      exact if_neg id
    rw [hnone]
    exact Nat.zero_le _
  | nan =>
    rw [increment_of_average_nan h]
    exact Nat.zero_le _

end Mean

theorem shortfall_mono (count : ℕ) {first second : ExactReal} (h : first ≤ second) :
    shortfall count first ≤ shortfall count second := by
  cases first with
  | real x =>
    rcases real_le_iff.mp h with rfl | ⟨y, hy, rfl⟩
    · have hposInf : shortfall count posInf = posInf := if_pos trivial
      rw [hposInf, shortfall_real]
      trivial
    · rw [shortfall_real, shortfall_real, real_le_real]
      exact max_le_max_right 0 (by linarith)
  | posInf =>
    cases second with
    | posInf => exact le_self_of_le (shortfall_nonneg count posInf)
    | real y => exact h.elim
    | negInf => exact h.elim
    | nan => exact h.elim
  | negInf =>
    have hnegInf : shortfall count negInf = real 0 := if_neg id
    rw [hnegInf]
    exact shortfall_nonneg count second
  | nan => exact absurd h (not_nan_le _)

theorem shortfall_of_not_pos (count : ℕ) {target : ExactReal} (h : ¬ 0 < target) :
    shortfall count target = 0 := by
  cases target with
  | real x =>
    have hx : x ≤ 0 := not_lt.mp h
    have hcount : (0 : ℝ) ≤ count := Nat.cast_nonneg _
    rw [shortfall_real, max_eq_right (by linarith)]
    rfl
  | posInf => exact absurd trivial h
  | negInf => exact if_neg id
  | nan => exact shortfall_nan count

/-- A larger multiple of a target lacks no less. -/
theorem shortfall_mul_mono (count : ℕ) {ratio larger : ExactReal} (hone : 1 ≤ ratio)
    (hle : ratio ≤ larger) (target : ExactReal) :
    shortfall count (ratio * target) ≤ shortfall count (larger * target) := by
  have hpos : 0 < ratio := ExactReal.lt_of_lt_of_le (real_lt_real.mpr one_pos) hone
  by_cases htarget : 0 < target
  · exact shortfall_mono count (mul_le_mul_of_pos hpos hle htarget)
  · have hproduct : ¬ 0 < ratio * target := fun h => htarget (pos_of_mul_pos hpos h)
    rw [shortfall_of_not_pos count hproduct]
    exact shortfall_nonneg count _

/-- Larger shortfalls do not make the increment smaller. -/
theorem increment_mono {more fewer : List ℕ} {first second : List ExactReal}
    (h : List.Forall₂ (· ≤ ·) (List.zipWith shortfall more first)
      (List.zipWith shortfall fewer second)) :
    increment more first 1 ≤ increment fewer second 1 := by
  have hsecond := zipWith_shortfall_nonneg fewer second
  by_cases hmem : posInf ∈ List.zipWith shortfall fewer second
  · rw [increment_of_average_posInf (average_eq_posInf hsecond hmem)]
    exact increment_le_maxCount more first
  · -- otherwise all shortfalls are real, and so are their averages
    obtain ⟨ys, hys⟩ := exists_map_real fun y hy => by
      rcases real_le_iff.mp (hsecond y hy) with rfl | ⟨y, -, rfl⟩
      · exact absurd hy hmem
      · exact isFinite_real y
    rw [hys, List.forall₂_map_right_iff] at h
    obtain ⟨xs, hxs, hle⟩ := exists_map_real_of_le (zipWith_shortfall_nonneg more first) h
    rcases eq_or_ne xs [] with rfl | hne
    · rw [increment_of_average_nan (by rw [hxs, List.map_nil, average_nil])]
      exact Nat.zero_le _
    · have hne' : ys ≠ [] := by
        rw [← List.length_pos_iff, ← hle.length_eq]
        exact List.length_pos_iff.mpr hne
      rw [increment_one_of_average (by rw [hxs, average_real hne]),
        increment_one_of_average (by rw [hys, average_real hne']), hle.length_eq]
      refine min_le_min_right _ (Nat.ceil_mono ?_)
      exact div_le_div_of_nonneg_right hle.sum_le_sum (Nat.cast_nonneg _)

/-- A larger multiple of the targets, for each count its own one, does not make the increment
smaller. -/
theorem increment_mul_mono {counts : List ℕ} {ratio larger : ℕ → ExactReal}
    (h : ∀ i < counts.length, 1 ≤ ratio i ∧ ratio i ≤ larger i) (targets : List ExactReal) :
    increment counts (targets.mapIdx fun i target => ratio i * target) 1 ≤
      increment counts (targets.mapIdx fun i target => larger i * target) 1 := by
  refine increment_mono (List.forall₂_iff_get.mpr ⟨by simp, fun i hi hi' => ?_⟩)
  rw [List.length_zipWith, lt_min_iff] at hi
  obtain ⟨hone, hle⟩ := h i hi.1
  simpa using shortfall_mul_mono counts[i] hone hle _

/-! ## Equal counts -/

theorem average_replicate {q : ℕ} (hq : q ≠ 0) (x : ℝ) :
    average (List.replicate q (real x)) = real x :=
  average_replicate_self hq (real x)

theorem ceil_max_sub (x : ℝ) (n : ℕ) : ⌈max (x - n) 0⌉₊ = ⌈x⌉₊ - n := by
  rcases le_total (x - n) 0 with h | h
  · rw [max_eq_right h, Nat.ceil_zero]
    have hx : ⌈x⌉₊ ≤ n := Nat.ceil_le.mpr (by linarith)
    omega
  · rw [max_eq_left h, Nat.ceil_sub_natCast]

/-- The increment that moves equal counts to a common target. -/
theorem increment_replicate {q : ℕ} (hq : q ≠ 0) (n : ℕ) (x : ℝ) :
    increment (List.replicate q n) (List.replicate q (real x)) 1 =
      min (⌈x⌉₊ - n) maxCount := by
  have haverage : average (List.zipWith shortfall (List.replicate q n)
      (List.replicate q (real x))) = real (max (x - n) 0) := by
    rw [List.zipWith_replicate', shortfall_real, average_replicate hq]
  rw [increment_one_of_average haverage, ceil_max_sub]

/-- The increment of equal counts does not pass a bound on all targets by more than rounding. -/
theorem increment_le {q n : ℕ} {targets : List ExactReal} {x : ℝ}
    (h : ∀ target ∈ targets, target ≤ real x ∨ target = nan) :
    increment (List.replicate q n) targets 1 ≤ ⌈x⌉₊ - n := by
  have hmem : ∀ y ∈ List.zipWith shortfall (List.replicate q n) targets,
      ∃ s, y = real s ∧ 0 ≤ s ∧ s ≤ max (x - n) 0 := by
    intro y hy
    obtain ⟨i, hi, rfl⟩ := List.mem_iff_getElem.mp hy
    rw [List.length_zipWith, lt_min_iff] at hi
    rw [List.getElem_zipWith, List.getElem_replicate]
    exact shortfall_le (h _ (List.getElem_mem hi.2))
  -- all shortfalls are real, and there is a mean unless there are no targets
  obtain ⟨ss, hss⟩ := exists_map_real fun y hy => by
    obtain ⟨s, rfl, -⟩ := hmem y hy
    exact isFinite_real s
  rcases eq_or_ne ss [] with rfl | hne
  · rw [increment_of_average_nan (by rw [hss, List.map_nil, average_nil])]
    exact Nat.zero_le _
  · rw [increment_one_of_average (by rw [hss, average_real hne]), ← ceil_max_sub]
    refine (min_le_left _ _).trans (Nat.ceil_mono ?_)
    have hbound : ∀ s ∈ ss, s ≤ max (x - n) 0 := by
      intro s hs
      obtain ⟨s', heq, -, hle⟩ := hmem (real s) (hss ▸ List.mem_map_of_mem hs)
      obtain rfl : s = s' := by simpa using heq
      exact hle
    -- the mean of numbers up to a bound is up to that bound
    have hsum := List.sum_le_card_nsmul ss _ hbound
    have hlen : (0 : ℝ) < ss.length := Nat.cast_pos.mpr (List.length_pos_iff.mpr hne)
    rw [div_le_iff₀ hlen, mul_comm]
    simpa using hsum

/-- Equal counts need no increment if their targets are no numbers above them. -/
theorem increment_replicate_of_shortfall_eq_zero {q : ℕ} (hq : q ≠ 0) {count : ℕ}
    {target : ExactReal} (h : shortfall count target = real 0) :
    increment (List.replicate q count) (List.replicate q target) 1 = 0 := by
  apply increment_of_average_nonpos _ le_rfl
  rw [List.zipWith_replicate', h, average_replicate hq]

/-- Towards an infinite target counts are increased as far as counts reach. -/
theorem increment_replicate_posInf {q : ℕ} (hq : q ≠ 0) (count : ℕ) :
    increment (List.replicate q count) (List.replicate q posInf) 1 = maxCount := by
  have hshortfall : shortfall count posInf = posInf := if_pos trivial
  refine increment_of_average_posInf (average_eq_posInf (zipWith_shortfall_nonneg _ _) ?_)
  rw [List.zipWith_replicate', hshortfall]
  exact List.mem_replicate.mpr ⟨hq, rfl⟩

/-! ## Covering counts -/

/-- The counts from `count` on that are not below a target. -/
def coveringCounts (count : ℕ) (target : ExactReal) : Set ℕ :=
  {covering | count ≤ covering ∧ ¬ real covering < target}

theorem isLeast_coveringCounts_self {count : ℕ} {target : ExactReal}
    (h : ¬ real count < target) : IsLeast (coveringCounts count target) count :=
  ⟨⟨le_rfl, h⟩, fun _ hcovering => hcovering.1⟩

theorem isLeast_coveringCounts_real (count : ℕ) (x : ℝ) :
    IsLeast (coveringCounts count (real x)) (max count ⌈x⌉₊) := by
  constructor
  · refine ⟨le_max_left _ _, fun hlt => ?_⟩
    have hceil : x ≤ (max count ⌈x⌉₊ : ℕ) :=
      (Nat.le_ceil x).trans (Nat.cast_le.mpr (le_max_right _ _))
    exact absurd (real_lt_real.mp hlt) (not_lt.mpr hceil)
  · rintro covering ⟨hle, hcovers⟩
    exact max_le hle (Nat.ceil_le.mpr (not_lt.mp hcovers))

/-- The least covering count is the larger one of the count and the target, rounded up. -/
theorem ofCount_eq_of_isLeast {count low : ℕ} {target : ExactReal}
    (h : IsLeast (coveringCounts count target) low) :
    (Scalar.ofCount low : ExactReal) =
      Scalar.larger (Scalar.ceil target) (Scalar.ofCount count) := by
  cases target with
  | real x =>
    rw [h.unique (isLeast_coveringCounts_real count x), ofCount_eq, ofCount_eq, ceil_real,
      larger_real, max_comm, Nat.cast_max]
    -- a ceiling below zero is below the count in any case
    rcases le_total 0 x with hx | hx
    · rw [natCast_ceil_eq_intCast_ceil hx]
    · have hceil : ((⌈x⌉ : ℤ) : ℝ) ≤ 0 := by exact_mod_cast Int.ceil_nonpos.mpr hx
      rw [Nat.ceil_eq_zero.mpr hx, Nat.cast_zero, max_eq_right (Nat.cast_nonneg _),
        max_eq_right (hceil.trans (Nat.cast_nonneg _))]
  | posInf => exact absurd (real_lt_posInf _) h.1.2
  | negInf =>
    have hceil : Scalar.ceil negInf = negInf := rfl
    have hbelow : negInf < (Scalar.ofCount count : ExactReal) := trivial
    rw [h.unique (isLeast_coveringCounts_self id), hceil, Scalar.larger, if_neg (by simp),
      if_pos hbelow]
  | nan =>
    have hceil : Scalar.ceil nan = nan := rfl
    rw [h.unique (isLeast_coveringCounts_self id), hceil, Scalar.larger, if_pos (by simp)]

/-- Equal counts are brought to the least one that covers a common target, if that is in range. -/
theorem isLeast_coveringCounts_increment {q : ℕ} (hq : q ≠ 0) {count : ℕ} (hcount : 0 < count)
    (target : ExactReal)
    (hrange : count + increment (List.replicate q count) (List.replicate q target) 1 ≤ maxCount) :
    IsLeast (coveringCounts count target)
      (count + increment (List.replicate q count) (List.replicate q target) 1) := by
  cases target with
  | real x =>
    rw [increment_replicate hq] at hrange ⊢
    -- the increment has not been cut off, as it leaves room for the count
    have hsum : count + min (⌈x⌉₊ - count) maxCount = max count ⌈x⌉₊ := by omega
    rw [hsum]
    exact isLeast_coveringCounts_real count x
  | posInf =>
    rw [increment_replicate_posInf hq] at hrange
    omega
  | negInf =>
    have hnone : shortfall count negInf = real 0 := if_neg id
    rw [increment_replicate_of_shortfall_eq_zero hq hnone]
    exact isLeast_coveringCounts_self id
  | nan =>
    rw [increment_replicate_of_shortfall_eq_zero hq (shortfall_nan count)]
    exact isLeast_coveringCounts_self id

/-- Counts that cover one target, and then a second one above it, cover the second one as if there
were no first. -/
theorem isLeast_coveringCounts_trans {count middle low : ℕ} {first second : ExactReal}
    (hfirst : IsLeast (coveringCounts count first) middle)
    (hsecond : IsLeast (coveringCounts middle second) low)
    (habove : ∀ k : ℕ, real k < first → real k < second) :
    IsLeast (coveringCounts count second) low := by
  obtain ⟨⟨hmiddle, -⟩, hleast⟩ := hfirst
  obtain ⟨⟨hlow, hcovers⟩, hleast'⟩ := hsecond
  refine ⟨⟨hmiddle.trans hlow, hcovers⟩, ?_⟩
  rintro covering ⟨hle, hcovering⟩
  apply hleast'
  exact ⟨hleast ⟨hle, fun hlt => hcovering (habove covering hlt)⟩, hcovering⟩

/-! ## Counts at their average -/

/-- Counts whose mean shortfall to their average is zero are equal. -/
theorem eq_of_sum_shortfall_nonpos {counts : List ℕ} {m : ℝ}
    (hm : m * counts.length = (counts.sum : ℕ))
    (hsum : (counts.map fun c : ℕ => max (m - c) 0).sum ≤ 0) : ∀ c ∈ counts, (c : ℝ) = m := by
  have hnonneg : ∀ s ∈ counts.map fun c : ℕ => max (m - c) 0, 0 ≤ s := by
    intro s hs
    obtain ⟨c, -, rfl⟩ := List.mem_map.mp hs
    exact le_max_right _ _
  -- no count is below the average, so none is above it
  have hge : ∀ c ∈ counts, m ≤ c := by
    intro c hc
    have hc0 := List.all_zero_of_le_zero_le_of_sum_eq_zero hnonneg
      (le_antisymm hsum (List.sum_nonneg hnonneg)) (List.mem_map_of_mem hc)
    have hle := le_max_left (m - c) 0
    linarith
  have hexcess : ∀ s ∈ counts.map fun c : ℕ => (c : ℝ) - m, 0 ≤ s := by
    intro s hs
    obtain ⟨c, hc, rfl⟩ := List.mem_map.mp hs
    exact sub_nonneg.mpr (hge c hc)
  have htotal : (counts.map fun c : ℕ => (c : ℝ) - m).sum = 0 := by
    simp only [sub_eq_add_neg, List.sum_map_add, List.map_const', List.sum_replicate,
      nsmul_eq_mul]
    rw [← Nat.cast_list_sum, ← hm]
    ring
  intro c hc
  exact sub_eq_zero.mp (List.all_zero_of_le_zero_le_of_sum_eq_zero hexcess htotal
    (List.mem_map_of_mem hc))

/-- Only equal counts need no increment to reach their average. -/
theorem increment_averageCount_eq_zero_iff {counts : List ℕ} :
    increment counts (List.replicate counts.length (averageCount counts : ExactReal)) 1 = 0 ↔
      ∀ a ∈ counts, ∀ b ∈ counts, a = b := by
  rcases eq_or_ne counts [] with rfl | hne
  · have hnil : average (List.zipWith shortfall [] ([] : List ExactReal)) = nan := average_nil
    rw [List.length_nil, List.replicate_zero, increment_of_average_nan hnil]
    simp
  have hlen : (0 : ℝ) < counts.length := Nat.cast_pos.mpr (List.length_pos_iff.mpr hne)
  constructor
  · intro hzero a ha b hb
    rw [averageCount_of_ne_nil hne] at hzero
    -- an increment of zero means a mean shortfall of zero to the average
    obtain ⟨m, hm⟩ : ∃ m : ℝ, m = (counts.sum : ℕ) / counts.length := ⟨_, rfl⟩
    rw [← hm] at hzero
    have hlist : List.zipWith shortfall counts (List.replicate counts.length (real m)) =
        (counts.map fun c : ℕ => max (m - c) 0).map real := by
      rw [← List.map_const', List.zipWith_map_right, List.zipWith_self, List.map_map]
      simp [Function.comp_def]
    have hmap : counts.map (fun c : ℕ => max (m - c) 0) ≠ [] := by simpa using hne
    rw [increment_one_of_average (by rw [hlist, average_real hmap])] at hzero
    have hceil : ∀ k : ℕ, min k maxCount = 0 → k = 0 := by
      intro k hk
      have hmax : 0 < maxCount := by decide
      omega
    have hmean := Nat.ceil_eq_zero.mp (hceil _ hzero)
    rw [List.length_map, div_le_iff₀ hlen, zero_mul] at hmean
    have heq := eq_of_sum_shortfall_nonpos (by rw [hm, div_mul_cancel₀ _ hlen.ne']) hmean
    exact_mod_cast (heq a ha).trans (heq b hb).symm
  · intro hequal
    -- equal counts are their own average
    obtain ⟨a, ha⟩ := List.exists_mem_of_ne_nil counts hne
    have hcounts : counts = List.replicate counts.length a :=
      List.eq_replicate_iff.mpr ⟨rfl, fun b hb => (hequal a ha b hb).symm⟩
    have hq : counts.length ≠ 0 := by simpa using hne
    generalize counts.length = q at hcounts hq
    rw [hcounts, averageCount_replicate hq, increment_replicate hq, Nat.ceil_natCast,
      Nat.sub_self, Nat.zero_min]

end Multifidelity
