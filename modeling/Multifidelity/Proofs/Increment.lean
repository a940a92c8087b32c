import Mathlib.Data.Finset.Max
import Mathlib.Logic.Function.Iterate
import Multifidelity.Proofs.Shortfall

/-!
# The least sufficient increment

One increment serves all QoI, so that it makes up for what they lack on average and not for what any
one of them lacks. Towards real targets it is the least integer that does so. It takes the QoI that
lacks most less than one sample past its target, and so does each of the increments that follow,
until none is needed.

## Main definitions

* `lacks`: what counts lack to targets that are real numbers
* `sufficientIncrements`: the integers that make up for it on average
* `topUp`: the counts after an increment

## Main results

* `isLeast_ceil_mean`: the mean of what is lacking, rounded up, is the least sufficient integer
* `increment_map_real_eq_zero_iff`, `increment_map_real`: the increment towards real targets
* `increment_anti`: more samples and nearer targets do not need a larger increment
* `exists_lt_of_topUp`: an increment does not take all counts past their targets
* `exists_rounds`: repeated increments come to an end
* `increment_isLeast`: the increment is the least sufficient one, and repeated increments end
* `increment_of_target_above_maxCount`: an increment that is cut off at the largest count
-/

namespace Multifidelity

open ExactReal

/-! ## What counts lack -/

/-- What each count lacks to its target. -/
noncomputable def lacks (counts : List ℕ) (targets : List ℝ) : List ℝ :=
  List.zipWith (fun (count : ℕ) target => max (target - count) 0) counts targets

theorem zipWith_shortfall_map_real (counts : List ℕ) (targets : List ℝ) :
    List.zipWith shortfall counts (targets.map real) = (lacks counts targets).map real := by
  simp only [lacks, List.zipWith_map_right, List.map_zipWith, shortfall_real]

theorem length_lacks {counts : List ℕ} {targets : List ℝ}
    (hlength : targets.length = counts.length) :
    (lacks counts targets).length = counts.length := by
  rw [lacks, List.length_zipWith, hlength, min_self]

theorem lacks_ne_nil {counts : List ℕ} (hcounts : counts ≠ []) {targets : List ℝ}
    (hlength : targets.length = counts.length) : lacks counts targets ≠ [] := by
  rw [← List.length_pos_iff, length_lacks hlength]
  exact List.length_pos_iff.mpr hcounts

theorem mem_lacks_iff {counts : List ℕ} {targets : List ℝ} {lack : ℝ} :
    lack ∈ lacks counts targets ↔ ∃ (qoi count : ℕ) (target : ℝ), counts[qoi]? = some count ∧
      targets[qoi]? = some target ∧ max (target - count) 0 = lack := by
  simp only [lacks, List.mem_iff_getElem?, List.getElem?_zipWith_eq_some]

theorem lacks_nonneg (counts : List ℕ) (targets : List ℝ) :
    ∀ lack ∈ lacks counts targets, 0 ≤ lack := by
  intro lack hlack
  obtain ⟨qoi, count, target, -, -, rfl⟩ := mem_lacks_iff.mp hlack
  exact le_max_right _ _

theorem exists_isGreatest_lacks {counts : List ℕ} (hcounts : counts ≠ []) {targets : List ℝ}
    (hlength : targets.length = counts.length) :
    ∃ most, IsGreatest {lack | lack ∈ lacks counts targets} most := by
  have hne := List.toFinset_nonempty_iff _ |>.mpr (lacks_ne_nil hcounts hlength)
  obtain ⟨most, hmost, hgreatest⟩ := Finset.exists_max_image _ id hne
  exact ⟨most, List.mem_toFinset.mp hmost,
    fun lack hlack => hgreatest lack (List.mem_toFinset.mpr hlack)⟩

/-! ## Sufficient increments -/

/-- The integers that amount to what all counts lack together if every count is raised by them. -/
def sufficientIncrements (counts : List ℕ) (targets : List ℝ) : Set ℤ :=
  {d | (lacks counts targets).sum ≤ d * counts.length}

theorem cast_length_pos {counts : List ℕ} (hcounts : counts ≠ []) : (0 : ℝ) < counts.length :=
  Nat.cast_pos.mpr (List.length_pos_iff.mpr hcounts)

theorem isLeast_ceil_mean {counts : List ℕ} (hcounts : counts ≠ []) (targets : List ℝ) :
    IsLeast (sufficientIncrements counts targets)
      ⌈(lacks counts targets).sum / counts.length⌉ := by
  have hlen := cast_length_pos hcounts
  constructor
  · exact (div_le_iff₀ hlen).mp (Int.le_ceil _)
  · intro d hd
    exact Int.ceil_le.mpr ((div_le_iff₀ hlen).mpr hd)

/-- The share of one QoI in what it lacks is to be made up for in any case. -/
theorem div_length_le_ceil_mean {counts : List ℕ} {targets : List ℝ} {lack : ℝ}
    (hlack : lack ∈ lacks counts targets) :
    lack / counts.length ≤ ⌈(lacks counts targets).sum / counts.length⌉ := by
  have hsum := List.single_le_sum (lacks_nonneg counts targets) lack hlack
  exact (div_le_div_of_nonneg_right hsum (Nat.cast_nonneg _)).trans (Int.le_ceil _)

theorem mean_lacks_pos {counts : List ℕ} (hcounts : counts ≠ []) {targets : List ℝ}
    (hlacks : ∃ lack ∈ lacks counts targets, lack ≠ 0) :
    0 < (lacks counts targets).sum / counts.length := by
  obtain ⟨lack, hlack, hne⟩ := hlacks
  have hpos := (lacks_nonneg counts targets lack hlack).lt_of_ne' hne
  have hsum := List.single_le_sum (lacks_nonneg counts targets) lack hlack
  exact div_pos (hpos.trans_le hsum) (cast_length_pos hcounts)

section Mean

variable {counts : List ℕ} (hcounts : counts ≠ []) {targets : List ℝ}
  (hlength : targets.length = counts.length)
include hcounts hlength

/-- The mean is at most a bound on all that it is the mean of. -/
theorem mean_lacks_le {bound : ℝ} (hbound : ∀ lack ∈ lacks counts targets, lack ≤ bound) :
    (lacks counts targets).sum / counts.length ≤ bound := by
  have hsum := List.sum_le_card_nsmul _ _ hbound
  rw [length_lacks hlength, nsmul_eq_mul, mul_comm] at hsum
  exact (div_le_iff₀ (cast_length_pos hcounts)).mpr hsum

theorem ceil_mean_le_maxCount (hrange : ∀ target ∈ targets, target ≤ maxCount) :
    ⌈(lacks counts targets).sum / counts.length⌉ ≤ maxCount := by
  refine Int.ceil_le.mpr (mean_lacks_le hcounts hlength fun lack hlack => ?_)
  obtain ⟨qoi, count, target, -, htarget, rfl⟩ := mem_lacks_iff.mp hlack
  have hcount : (0 : ℝ) ≤ count := Nat.cast_nonneg _
  have hle := hrange target (List.mem_of_getElem? htarget)
  rw [Int.cast_natCast]
  exact max_le (by linarith) (Nat.cast_nonneg _)

theorem average_shortfall_map_real :
    average (List.zipWith shortfall counts (targets.map real)) =
      real ((lacks counts targets).sum / counts.length) := by
  rw [zipWith_shortfall_map_real, average_real (lacks_ne_nil hcounts hlength),
    length_lacks hlength]

theorem increment_map_real_eq_zero_iff (least : ℕ) :
    increment counts (targets.map real) least = 0 ↔ ∀ lack ∈ lacks counts targets, lack = 0 := by
  have haverage := average_shortfall_map_real hcounts hlength
  constructor
  · intro hzero
    by_contra hlacks
    -- a positive mean is at least one when it is rounded up
    have hmean := mean_lacks_pos hcounts (by simpa using hlacks)
    rw [increment_of_average haverage hmean] at hzero
    have hceil := Nat.one_le_ceil_iff.mpr hmean
    have hmax : 1 ≤ maxCount := by decide
    omega
  · intro hlacks
    exact increment_of_average_nonpos haverage (by rw [List.sum_eq_zero hlacks, zero_div]) least

/-- Where something is lacking the increment is the least sufficient integer, brought into the range
of increments. -/
theorem increment_map_real (hlacks : ∃ lack ∈ lacks counts targets, lack ≠ 0) {d : ℤ}
    (hd : IsLeast (sufficientIncrements counts targets) d) (least : ℕ) :
    (increment counts (targets.map real) least : ℤ) = max (min d maxCount) least := by
  have hmean := mean_lacks_pos hcounts hlacks
  rw [increment_of_average (average_shortfall_map_real hcounts hlength) hmean, Nat.cast_max,
    Nat.cast_min, Int.natCast_ceil_eq_ceil hmean.le, hd.unique (isLeast_ceil_mean hcounts targets)]

/-- An increment of at least one is less than a sample above the largest of what is lacking. -/
theorem increment_one_lt {most : ℝ} (hmost : IsGreatest {lack | lack ∈ lacks counts targets} most) :
    increment counts (targets.map real) 1 < most + 1 := by
  have hmean := mean_lacks_le hcounts hlength hmost.2
  have hnonneg := lacks_nonneg counts targets most hmost.1
  have hle : ((increment counts (targets.map real) 1 : ℕ) : ℝ) ≤ ⌈most⌉₊ := by
    rw [increment_one_of_average (average_shortfall_map_real hcounts hlength)]
    exact_mod_cast (min_le_left _ _).trans (Nat.ceil_mono hmean)
  exact hle.trans_lt (Nat.ceil_lt_add_one hnonneg)

end Mean

/-- Larger counts and nearer targets do not need a larger increment. -/
theorem increment_anti {fewer more : List ℕ} {nearer further : List ℝ}
    (hcounts : List.Forall₂ (· ≤ ·) fewer more) (htargets : List.Forall₂ (· ≤ ·) nearer further) :
    increment more (nearer.map real) 1 ≤ increment fewer (further.map real) 1 := by
  obtain ⟨hcountsLength, hcounts⟩ := List.forall₂_iff_get.mp hcounts
  obtain ⟨htargetsLength, htargets⟩ := List.forall₂_iff_get.mp htargets
  refine increment_mono (List.forall₂_iff_get.mpr ⟨?_, fun qoi hqoi hqoi' => ?_⟩)
  · simp only [List.length_zipWith, List.length_map, hcountsLength, htargetsLength]
  · simp only [List.length_zipWith, List.length_map, lt_min_iff] at hqoi hqoi'
    have hcount : ((fewer[qoi] : ℕ) : ℝ) ≤ more[qoi] :=
      Nat.cast_le.mpr (hcounts qoi hqoi'.1 hqoi.1)
    have htarget : nearer[qoi] ≤ further[qoi] := htargets qoi hqoi.2 hqoi'.2
    simp only [List.get_eq_getElem, List.getElem_zipWith, List.getElem_map, shortfall_real,
      real_le_real]
    exact max_le_max_right 0 (by linarith)

/-! ## Repeated increments -/

/-- The counts after an increment towards targets that stay as they are. -/
def topUp {α : Type} [Scalar α] (targets : List α) (counts : List ℕ) : List ℕ :=
  counts.map (· + increment counts targets 1)

theorem length_topUp {α : Type} [Scalar α] (targets : List α) (counts : List ℕ) :
    (topUp targets counts).length = counts.length :=
  List.length_map _

theorem getElem?_topUp {α : Type} [Scalar α] {targets : List α} {counts : List ℕ} {qoi raised : ℕ} :
    (topUp targets counts)[qoi]? = some raised ↔
      ∃ count, counts[qoi]? = some count ∧ count + increment counts targets 1 = raised := by
  rw [topUp, List.getElem?_map, Option.map_eq_some_iff]

section Rounds

variable {counts : List ℕ} {targets : List ℝ}

/-- An increment takes the QoI that lacks most less than one sample past its target. -/
theorem exists_lt_of_topUp (hcounts : counts ≠ []) (hlength : targets.length = counts.length)
    (hincrement : increment counts (targets.map real) 1 ≠ 0) :
    ∃ (qoi count : ℕ) (target : ℝ), (topUp (targets.map real) counts)[qoi]? = some count ∧
      targets[qoi]? = some target ∧ count < target + 1 := by
  obtain ⟨most, hmost⟩ := exists_isGreatest_lacks hcounts hlength
  have hlt := increment_one_lt hcounts hlength hmost
  have hone : (1 : ℝ) ≤ increment counts (targets.map real) 1 :=
    Nat.one_le_cast.mpr (Nat.one_le_iff_ne_zero.mpr hincrement)
  obtain ⟨qoi, count, target, hcount, htarget, rfl⟩ := mem_lacks_iff.mp hmost.1
  refine ⟨qoi, _, target, getElem?_topUp.mpr ⟨count, hcount, rfl⟩, htarget, ?_⟩
  -- the increment is positive, so that this QoI does lack something
  have hlack : 0 < target - count := by
    by_contra hle
    rw [max_eq_right (not_lt.mp hle)] at hlt
    linarith
  rw [max_eq_left hlack.le] at hlt
  push_cast
  linarith

/-- An increment lowers what the counts lack by one at least. -/
theorem lacks_topUp_le (hincrement : increment counts (targets.map real) 1 ≠ 0) {bound : ℕ}
    (hbound : ∀ lack ∈ lacks counts targets, lack ≤ (bound + 1 : ℕ)) :
    ∀ lack ∈ lacks (topUp (targets.map real) counts) targets, lack ≤ bound := by
  have hone : (1 : ℝ) ≤ increment counts (targets.map real) 1 :=
    Nat.one_le_cast.mpr (Nat.one_le_iff_ne_zero.mpr hincrement)
  intro lack hlack
  obtain ⟨qoi, raised, target, hraised, htarget, rfl⟩ := mem_lacks_iff.mp hlack
  obtain ⟨count, hcount, rfl⟩ := getElem?_topUp.mp hraised
  -- the same QoI lacked one more before
  have hbefore := hbound _ (mem_lacks_iff.mpr ⟨qoi, count, target, hcount, htarget, rfl⟩)
  have hle := (le_max_left _ _).trans hbefore
  push_cast at hle ⊢
  exact max_le (by linarith) (Nat.cast_nonneg _)

/-- Increments are repeated at most as often as a bound on what each count lacks says until none is
needed, and none of them takes all counts as far as one past their targets. -/
theorem exists_rounds (hcounts : counts ≠ []) (hlength : targets.length = counts.length)
    {bound : ℕ} (hbound : ∀ lack ∈ lacks counts targets, lack ≤ bound) :
    ∃ rounds ≤ bound,
      increment ((topUp (targets.map real))^[rounds] counts) (targets.map real) 1 = 0 ∧
      ∀ round < rounds, ∃ (qoi count : ℕ) (target : ℝ),
        ((topUp (targets.map real))^[round + 1] counts)[qoi]? = some count ∧
        targets[qoi]? = some target ∧ count < target + 1 := by
  induction bound generalizing counts with
  | zero =>
    refine ⟨0, le_rfl, ?_, fun round hround => absurd hround (Nat.not_lt_zero round)⟩
    refine (increment_map_real_eq_zero_iff hcounts hlength 1).mpr fun lack hlack => ?_
    exact le_antisymm (by simpa using hbound lack hlack) (lacks_nonneg counts targets lack hlack)
  | succ bound ih =>
    by_cases hincrement : increment counts (targets.map real) 1 = 0
    · exact ⟨0, Nat.zero_le _, hincrement,
        fun round hround => absurd hround (Nat.not_lt_zero round)⟩
    · -- the rounds that follow the first one are those of the counts after it
      have hlength' := length_topUp (targets.map real) counts
      have hcounts' : topUp (targets.map real) counts ≠ [] := by
        rwa [← List.length_pos_iff, hlength', List.length_pos_iff]
      obtain ⟨rounds, hle, hzero, hpast⟩ :=
        ih hcounts' (hlength.trans hlength'.symm) (lacks_topUp_le hincrement hbound)
      refine ⟨rounds + 1, Nat.succ_le_succ hle, hzero, fun round hround => ?_⟩
      cases round with
      | zero => exact exists_lt_of_topUp hcounts hlength hincrement
      | succ round => exact hpast round (Nat.lt_of_succ_lt_succ hround)

end Rounds

/-! ## The least sufficient increment -/

/-- The increment of counts towards real targets is zero if none of them lacks anything. Otherwise
it is the least sufficient integer, cut off at the largest count, or `least` if that is larger.
Nothing is cut off unless a target is above the largest count. The least sufficient integer is
between the share of one QoI in the largest lack and less than one above that lack.

Increments of at least one do not grow with the counts and do not shrink with the targets. They are
repeated no more often than the largest lack says until none is needed, and none of them takes all
counts as far as one past their targets. -/
theorem increment_isLeast {counts : List ℕ} (hcounts : counts ≠ []) {targets : List ℝ}
    (hlength : targets.length = counts.length) :
    ∃ (d : ℤ) (most : ℝ), IsLeast (sufficientIncrements counts targets) d ∧
      IsGreatest {lack | lack ∈ lacks counts targets} most ∧
      (∀ least : ℕ,
        (increment counts (targets.map real) least = 0 ↔
          ∀ lack ∈ lacks counts targets, lack = 0) ∧
        ((∃ lack ∈ lacks counts targets, lack ≠ 0) →
          (increment counts (targets.map real) least : ℤ) = max (min d maxCount) least)) ∧
      ((∀ target ∈ targets, target ≤ maxCount) → d ≤ maxCount) ∧
      most / counts.length ≤ d ∧ d < most + 1 ∧
      (∀ (more : List ℕ) (nearer : List ℝ), List.Forall₂ (· ≤ ·) counts more →
        List.Forall₂ (· ≤ ·) nearer targets →
        increment more (nearer.map real) 1 ≤ increment counts (targets.map real) 1) ∧
      ∃ rounds ≤ ⌈most⌉₊,
        increment ((topUp (targets.map real))^[rounds] counts) (targets.map real) 1 = 0 ∧
        ∀ round < rounds, ∃ (qoi count : ℕ) (target : ℝ),
          ((topUp (targets.map real))^[round + 1] counts)[qoi]? = some count ∧
          targets[qoi]? = some target ∧ count < target + 1 := by
  obtain ⟨most, hmost⟩ := exists_isGreatest_lacks hcounts hlength
  have hleast := isLeast_ceil_mean hcounts targets
  have hmean := mean_lacks_le hcounts hlength hmost.2
  have hbound : ∀ lack ∈ lacks counts targets, lack ≤ ⌈most⌉₊ :=
    fun lack hlack => (hmost.2 hlack).trans (Nat.le_ceil most)
  refine ⟨_, most, hleast, hmost, fun least => ⟨?zero, fun hlacks => ?value⟩,
    fun hrange => ?range, ?lower, ?upper, fun more nearer hmore hnearer => ?anti, ?rounds⟩
  case zero => exact increment_map_real_eq_zero_iff hcounts hlength least
  case value => exact increment_map_real hcounts hlength hlacks hleast least
  case range => exact ceil_mean_le_maxCount hcounts hlength hrange
  case lower => exact div_length_le_ceil_mean hmost.1
  case upper => exact (Int.ceil_lt_add_one _).trans_le (by linarith)
  case anti => exact increment_anti hmore hnearer
  case rounds => exact exists_rounds hcounts hlength hbound

/-- Of two QoI the first lacks six samples and a half, and the second has more than it needs. They
get four samples, or five if these are the fewest to be drawn. -/
theorem increment_isLeast_pair :
    ([4, 20] : List ℕ) ≠ [] ∧ ([21 / 2, 15] : List ℝ).length = ([4, 20] : List ℕ).length ∧
      increment [4, 20] [real (21 / 2), real 15] 1 = 4 ∧
      increment [4, 20] [real (21 / 2), real 15] 5 = 5 ∧
      ∃ rounds ≤ 7, increment ((topUp [real (21 / 2), real 15])^[rounds] [4, 20])
        [real (21 / 2), real 15] 1 = 0 := by
  have hcounts : ([4, 20] : List ℕ) ≠ [] := by decide
  have hlength : ([21 / 2, 15] : List ℝ).length = ([4, 20] : List ℕ).length := rfl
  have hlacks : lacks [4, 20] [21 / 2, 15] = [13 / 2, 0] := by norm_num [lacks]
  obtain ⟨d, most, hd, hmost, hvalue, -, -, -, -, rounds, hle, hzero, -⟩ :=
    increment_isLeast hcounts hlength
  have hfour : IsLeast (sufficientIncrements [4, 20] [21 / 2, 15]) 4 := by
    refine ⟨by norm_num [sufficientIncrements, hlacks], fun k hk => ?_⟩
    have hreal : (13 / 2 : ℝ) ≤ k * 2 := by simpa [sufficientIncrements, hlacks] using hk
    have hint : (13 : ℤ) ≤ k * 4 := by exact_mod_cast show (13 : ℝ) ≤ k * 4 by linarith
    omega
  have hsix : IsGreatest {lack | lack ∈ lacks [4, 20] [21 / 2, 15]} (13 / 2) := by
    refine ⟨by simp [hlacks], fun lack hlack => ?_⟩
    obtain rfl | rfl : lack = 13 / 2 ∨ lack = 0 := by simpa [hlacks] using hlack
    · exact le_rfl
    · norm_num
  obtain rfl := hd.unique hfour
  obtain rfl := hmost.unique hsix
  have hlacking : ∃ lack ∈ lacks [4, 20] [21 / 2, 15], lack ≠ 0 :=
    ⟨13 / 2, hsix.1, by norm_num⟩
  have hone : (increment [4, 20] [real (21 / 2), real 15] 1 : ℤ) = 4 := (hvalue 1).2 hlacking
  have hfive : (increment [4, 20] [real (21 / 2), real 15] 5 : ℤ) = 5 := (hvalue 5).2 hlacking
  have hceil : ⌈(13 / 2 : ℝ)⌉₊ = 7 := by
    rw [Nat.ceil_eq_iff] <;> norm_num
  rw [hceil] at hle
  exact ⟨hcounts, hlength, by exact_mod_cast hone, by exact_mod_cast hfive, rounds, hle, hzero⟩

/-- A target less than one above the largest count takes one sample more than an increment can
have. -/
theorem increment_of_target_above_maxCount :
    ([0] : List ℕ) ≠ [] ∧ ([2 ^ 64 - 1 / 2] : List ℝ).length = ([0] : List ℕ).length ∧
      (∀ target ∈ ([2 ^ 64 - 1 / 2] : List ℝ), target < 2 ^ 64) ∧
      (∃ lack ∈ lacks [0] [2 ^ 64 - 1 / 2], lack ≠ 0) ∧
      IsLeast (sufficientIncrements [0] [2 ^ 64 - 1 / 2]) (2 ^ 64) ∧
      increment [0] [real (2 ^ 64 - 1 / 2)] 1 = 2 ^ 64 - 1 ∧
      (increment [0] [real (2 ^ 64 - 1 / 2)] 1 : ℤ) ≠ max 1 (2 ^ 64) := by
  have hlacks : lacks [0] [2 ^ 64 - 1 / 2] = [2 ^ 64 - 1 / 2] := by norm_num [lacks]
  have hlacking : ∃ lack ∈ lacks [0] [2 ^ 64 - 1 / 2], lack ≠ 0 :=
    ⟨2 ^ 64 - 1 / 2, by rw [hlacks]; exact List.mem_singleton_self _, by norm_num⟩
  have hsufficient : ∀ k : ℤ, k ∈ sufficientIncrements [0] [2 ^ 64 - 1 / 2] ↔
      (2 ^ 64 - 1 / 2 : ℝ) ≤ k := by
    intro k
    change (lacks [0] [2 ^ 64 - 1 / 2]).sum ≤ k * (1 : ℕ) ↔ _
    rw [hlacks, List.sum_singleton, Nat.cast_one, mul_one]
  have hleast : IsLeast (sufficientIncrements [0] [2 ^ 64 - 1 / 2]) (2 ^ 64) := by
    refine ⟨(hsufficient _).mpr (by norm_num), fun k hk => ?_⟩
    have hreal : (2 ^ 64 - 1 : ℝ) < k := by linarith [(hsufficient k).mp hk]
    have hint : (2 ^ 64 - 1 : ℤ) < k := by exact_mod_cast hreal
    omega
  have hvalue : (increment [0] [real (2 ^ 64 - 1 / 2)] 1 : ℤ) = 2 ^ 64 - 1 :=
    (increment_map_real (by decide) rfl hlacking hleast 1).trans (by norm_num [maxCount])
  refine ⟨by decide, rfl, by norm_num, hlacking, hleast, ?_, ?_⟩
  · omega
  · rw [hvalue]
    norm_num

end Multifidelity
