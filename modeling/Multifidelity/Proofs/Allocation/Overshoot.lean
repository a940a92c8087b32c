import Multifidelity.Proofs.Allocation.RealizedVariance

/-!
# Overshooting the target

If the high-fidelity samples of some QoI exceed the rounded target, the ratios of all QoI are spread
over the samples they have. A QoI that has fewer samples than the target is then given larger ratios
than the solution has, because of samples that are not its own, and its variance counts as smaller
than it does on its own. This happens whenever the low-fidelity models contribute to the variance
at all.

## Main definitions

* `RealProfile`: real data of an allocation and of the samples that were drawn
* `spreadRatios`: ratios spread over a number of samples
* `ownRatios`: ratios that are spread if the samples of the QoI itself exceed the target
* `lowFidelityPart`: what the low-fidelity models contribute to the variance that remains

## Main results

* `one_sub_rSquared_eq`: the variance that remains, with the part that depends on the ratios
* `realizedVarianceRatios_eq_own_iff`: where a QoI counts as it does on its own, and by how much too
  small its variance is elsewhere
-/

namespace Multifidelity

open ExactReal

/-! ## The part of the low-fidelity models -/

/-- What the low-fidelity models contribute to the variance that remains: their gains divided by
their ratios. -/
noncomputable def lowFidelityPart (order : ModelOrder) (rhos rs : List ℝ) : ℝ :=
  ∑ i ∈ Finset.range rhos.length,
    gain 0 (fun i => rhos.getD (order.model i) 0) i / rs.getD (order.model i) 0

/-- Apart from what the low-fidelity models contribute, the variance that remains does not depend on
the ratios. -/
theorem one_sub_rSquared_eq {order : ModelOrder} {rhos rs : List ℝ}
    (horder : order.Valid rhos.length) (hlength : rs.length = rhos.length)
    (hne : ∀ r ∈ rs, r ≠ 0) :
    1 - rSquared (rhos.map real) (rs.map real) order =
      real (lowFidelityPart order rhos rs +
        gain 0 (order.ladder rhos.length (rhos.getD · 0) 1) rhos.length) := by
  rw [one_sub_rSquared_real horder hlength hne, Finset.sum_range_succ, ModelOrder.ladder_self,
    div_one]
  congr 2
  refine Finset.sum_congr rfl fun i hi => ?_
  have hi := Finset.mem_range.mp hi
  rw [gain_ladder hi, ModelOrder.ladder_of_lt hi]

theorem lowFidelityPart_map_mul {order : ModelOrder} {rhos rs : List ℝ}
    (horder : order.Valid rhos.length) (hlength : rs.length = rhos.length) (factor : ℝ) :
    lowFidelityPart order rhos (rs.map (· * factor)) = lowFidelityPart order rhos rs / factor := by
  unfold lowFidelityPart
  rw [Finset.sum_div]
  refine Finset.sum_congr rfl fun i hi => ?_
  have hmodel := horder.model_lt (Finset.mem_range.mp hi)
  rw [List.getD_eq_getElem _ _ (by simpa [hlength] using hmodel), List.getElem_map,
    List.getD_eq_getElem _ _ (by omega), div_div]

/-! ## Ratios of one QoI -/

/-- Ratios that are spread over `count` samples instead of `target` ones, and never below one. -/
noncomputable def spreadRatios (target : ℝ) (count : ℕ) (rs : List ℝ) : List ℝ :=
  rs.map fun r => max 1 (r * (target / count))

/-- The ratios of a QoI with `count` samples, which are spread if these exceed the rounded
target. -/
noncomputable def ownRatios (target : ℝ) (count : ℕ) (rs : List ℝ) : List ℝ :=
  if nearest target < count then spreadRatios target count rs else rs

theorem length_spreadRatios (target : ℝ) (count : ℕ) (rs : List ℝ) :
    (spreadRatios target count rs).length = rs.length :=
  List.length_map _

theorem spreadRatios_ne_zero {target : ℝ} {count : ℕ} {rs : List ℝ} :
    ∀ r ∈ spreadRatios target count rs, r ≠ 0 := by
  intro r hr
  obtain ⟨r, -, rfl⟩ := List.mem_map.mp hr
  exact (one_pos.trans_le (le_max_left _ _)).ne'

/-- Spread over fewer samples than the target, ratios are large enough. -/
theorem spreadRatios_of_le {target : ℝ} {count : ℕ} {rs : List ℝ} (hcount : 0 < count)
    (hle : count ≤ target) (hone : ∀ r ∈ rs, 1 ≤ r) :
    spreadRatios target count rs = rs.map (· * (target / count)) := by
  have hpos : (0 : ℝ) < count := Nat.cast_pos.mpr hcount
  refine List.map_congr_left fun r hr => max_eq_right ?_
  exact one_le_mul_of_one_le_of_one_le (hone r hr) ((one_le_div hpos).mpr hle)

/-- A count up to a target is up to the rounded target. -/
theorem natCast_le_nearest {count : ℕ} {target : ℝ} (h : count ≤ target) :
    (count : ℝ) ≤ nearest target := by
  have hnonneg : 0 ≤ target := count.cast_nonneg.trans h
  have hfloor : (count : ℤ) ≤ ⌊target + 1 / 2⌋ := by
    rw [Int.le_floor]
    push_cast
    linarith
  rw [nearest, if_pos hnonneg]
  exact_mod_cast hfloor

/-! ## All QoI -/

/-- Real squared correlations and real ratios of one or more for every QoI and model, and a positive
number of samples for every QoI. -/
structure RealProfile (rhoSq : QoiMatrix ExactReal) (solution : RatioSolution ExactReal)
    (counts : List ℕ) (rhos rs : ℕ → List ℝ) : Prop where
  order : solution.order.Valid rhoSq.cols
  rows : solution.ratios.rows = rhoSq.rows
  cols : solution.ratios.cols = rhoSq.cols
  row_rhoSq : ∀ qoi < rhoSq.rows, rhoSq.row qoi = (rhos qoi).map real
  row_ratios : ∀ qoi < rhoSq.rows, solution.ratios.row qoi = (rs qoi).map real
  length_rhos : ∀ qoi < rhoSq.rows, (rhos qoi).length = rhoSq.cols
  length_ratios : ∀ qoi < rhoSq.rows, (rs qoi).length = rhoSq.cols
  one_le : ∀ qoi < rhoSq.rows, ∀ r ∈ rs qoi, 1 ≤ r
  length_counts : counts.length = rhoSq.rows
  counts_pos : ∀ count ∈ counts, 0 < count

namespace RealProfile

variable {rhoSq : QoiMatrix ExactReal} {solution : RatioSolution ExactReal} {counts : List ℕ}
  {rhos rs : ℕ → List ℝ} (h : RealProfile rhoSq solution counts rhos rs)
  {qoi count : ℕ} (hcount : counts[qoi]? = some count)
include h hcount

theorem lt_rows : qoi < rhoSq.rows := by
  rw [← h.length_counts]
  exact (List.getElem?_eq_some_iff.mp hcount).1

theorem count_pos : 0 < count :=
  h.counts_pos count (List.mem_of_getElem? hcount)

theorem ratios_ne_zero : ∀ r ∈ rs qoi, r ≠ 0 := fun r hr =>
  (one_pos.trans_le (h.one_le qoi (h.lt_rows hcount) r hr)).ne'

/-- What remains of the variance of a QoI with any ratios other than zero. -/
theorem one_sub_rSquared_row {xs : List ℝ} (hlength : xs.length = (rs qoi).length)
    (hne : ∀ x ∈ xs, x ≠ 0) :
    1 - rSquared (rhoSq.row qoi) (xs.map real) solution.order =
      real (lowFidelityPart solution.order (rhos qoi) xs + gain 0
        (solution.order.ladder (rhos qoi).length ((rhos qoi).getD · 0) 1) (rhos qoi).length) := by
  have hqoi := h.lt_rows hcount
  rw [h.row_rhoSq qoi hqoi]
  apply one_sub_rSquared_eq
  · rw [h.length_rhos qoi hqoi]
    exact h.order
  · rw [hlength, h.length_ratios qoi hqoi, h.length_rhos qoi hqoi]
  · exact hne

variable {highTargets : List ExactReal} {target : ℝ} (htarget : average highTargets = real target)
include htarget

/-- The ratios of all QoI are spread as soon as the samples of one of them exceed the target. -/
theorem getElem?_realizedVarianceRatios :
    (realizedVarianceRatios rhoSq solution highTargets counts)[qoi]? =
      some (1 - rSquared (rhoSq.row qoi)
        ((if ∃ other ∈ counts, nearest target < other then spreadRatios target count (rs qoi)
          else rs qoi).map real) solution.order) := by
  have hqoi := h.lt_rows hcount
  have hovershot : (counts.any fun count => decide
      (Scalar.round (average highTargets) < Scalar.ofCount count)) = true ↔
        ∃ other ∈ counts, nearest target < other := by
    rw [htarget, List.any_eq_true]
    simp only [decide_eq_true_iff, ofCount_eq]
    rfl
  unfold realizedVarianceRatios varianceRatios
  dsimp only
  rw [List.getElem?_map, List.getElem?_range hqoi, Option.map_some]
  congr 3
  by_cases hany : ∃ other ∈ counts, nearest target < other
  · have hlength : (solution.ratios.row qoi).length = solution.ratios.cols := by
      rw [h.row_ratios qoi hqoi, List.length_map, h.length_ratios qoi hqoi, h.cols]
    have hpos : (count : ℝ) ≠ 0 := Nat.cast_ne_zero.mpr (h.count_pos hcount).ne'
    rw [if_pos (hovershot.mpr hany), if_pos hany,
      row_realizedRatios _ _ _ (h.rows.symm ▸ hqoi) hlength, h.row_ratios qoi hqoi, hcount,
      htarget, List.map_map, spreadRatios, List.map_map]
    refine List.map_congr_left fun r _ => ?_
    simp only [Function.comp_apply]
    rw [ofCount_eq, real_div hpos, real_mul, one_eq, larger_real, max_comm]
  · rw [if_neg (mt hovershot.mp hany), if_neg hany, h.row_ratios qoi hqoi]

/-- Spreading the ratios of a QoI because of another one makes no difference if the low-fidelity
models contribute the same. -/
theorem realized_eq_own_iff :
    (realizedVarianceRatios rhoSq solution highTargets counts)[qoi]? =
        some (1 - rSquared (rhoSq.row qoi) ((ownRatios target count (rs qoi)).map real)
          solution.order) ↔
      (∀ other ∈ counts, (other : ℝ) ≤ nearest target) ∨ nearest target < count ∨
        lowFidelityPart solution.order (rhos qoi) (spreadRatios target count (rs qoi)) =
          lowFidelityPart solution.order (rhos qoi) (rs qoi) := by
  rw [h.getElem?_realizedVarianceRatios hcount htarget]
  by_cases hany : ∃ other ∈ counts, nearest target < other
  · have hall : ¬ ∀ other ∈ counts, (other : ℝ) ≤ nearest target := by
      obtain ⟨other, hmem, hlt⟩ := hany
      exact fun hle => (hle other hmem).not_gt hlt
    rw [if_pos hany]
    by_cases hlt : nearest target < count
    · rw [ownRatios, if_pos hlt]
      exact ⟨fun _ => Or.inr (Or.inl hlt), fun _ => rfl⟩
    · -- the ratios are spread, but they would not be for the samples of this QoI alone
      rw [ownRatios, if_neg hlt,
        h.one_sub_rSquared_row hcount (length_spreadRatios _ _ _) spreadRatios_ne_zero,
        h.one_sub_rSquared_row hcount rfl (h.ratios_ne_zero hcount)]
      simp [hall, hlt]
  · have hall : ∀ other ∈ counts, (other : ℝ) ≤ nearest target :=
      fun other hmem => not_lt.mp fun hlt => hany ⟨other, hmem, hlt⟩
    have hlt : ¬ nearest target < count := (hall count (List.mem_of_getElem? hcount)).not_gt
    rw [if_neg hany, ownRatios, if_neg hlt]
    exact ⟨fun _ => Or.inl hall, fun _ => rfl⟩

/-- With no more samples than the target, the low-fidelity models are left with the share that the
samples have in it. -/
theorem realized_eq_own_sub (hany : ∃ other ∈ counts, nearest target < other)
    (hle : (count : ℝ) ≤ target) :
    ∃ own : ℝ, 1 - rSquared (rhoSq.row qoi) ((ownRatios target count (rs qoi)).map real)
        solution.order = real own ∧
      (realizedVarianceRatios rhoSq solution highTargets counts)[qoi]? =
        some (real (own - (1 - count / target) *
          lowFidelityPart solution.order (rhos qoi) (rs qoi))) := by
  have hqoi := h.lt_rows hcount
  have hlt : ¬ nearest target < count := (natCast_le_nearest hle).not_gt
  have hlength : (rs qoi).length = (rhos qoi).length := by
    rw [h.length_ratios qoi hqoi, h.length_rhos qoi hqoi]
  have horder : solution.order.Valid (rhos qoi).length := by
    rw [h.length_rhos qoi hqoi]
    exact h.order
  have hshare : lowFidelityPart solution.order (rhos qoi) (spreadRatios target count (rs qoi)) =
      count / target * lowFidelityPart solution.order (rhos qoi) (rs qoi) := by
    rw [spreadRatios_of_le (h.count_pos hcount) hle (h.one_le qoi hqoi),
      lowFidelityPart_map_mul horder hlength, div_div_eq_mul_div]
    ring
  rw [ownRatios, if_neg hlt]
  refine ⟨_, h.one_sub_rSquared_row hcount rfl (h.ratios_ne_zero hcount), ?_⟩
  rw [h.getElem?_realizedVarianceRatios hcount htarget, if_pos hany,
    h.one_sub_rSquared_row hcount (length_spreadRatios _ _ _) spreadRatios_ne_zero, hshare]
  congr 2
  ring

end RealProfile

/-- The variance of a QoI counts as it does with the samples of this QoI alone if no QoI exceeds the
rounded target, if this one does, or if the low-fidelity models contribute the same with the ratios
that are spread. Otherwise, with no more samples than the target, it counts as smaller: of what the
low-fidelity models contribute only the share that the samples have in the target is left. -/
theorem realizedVarianceRatios_eq_own_iff {rhoSq : QoiMatrix ExactReal}
    {solution : RatioSolution ExactReal} {counts : List ℕ} {rhos rs : ℕ → List ℝ}
    (h : RealProfile rhoSq solution counts rhos rs) {targets : List ℝ} (htargets : targets ≠ [])
    {qoi count : ℕ} (hcount : counts[qoi]? = some count) :
    let target := targets.sum / targets.length
    let realized := (realizedVarianceRatios rhoSq solution (targets.map real) counts)[qoi]?
    let ownPart := 1 - rSquared (rhoSq.row qoi) ((ownRatios target count (rs qoi)).map real)
      solution.order
    let lowPart := lowFidelityPart solution.order (rhos qoi)
    (realized = some ownPart ↔
      (∀ other ∈ counts, (other : ℝ) ≤ nearest target) ∨ nearest target < count ∨
        lowPart (spreadRatios target count (rs qoi)) = lowPart (rs qoi)) ∧
    ((∃ other ∈ counts, nearest target < other) → (count : ℝ) ≤ target →
      ∃ own : ℝ, ownPart = real own ∧
        realized = some (real (own - (1 - count / target) * lowPart (rs qoi)))) := by
  intro target realized ownPart lowPart
  have htarget : average (targets.map real) = real target := average_real htargets
  constructor
  · exact h.realized_eq_own_iff hcount htarget
  · exact h.realized_eq_own_sub hcount htarget

/-- Two QoI with equal correlations and ratios. With four samples each the variance of the second
one counts as three quarters. If it has two, while the first one has eight, it counts as less. -/
theorem realizedVarianceRatios_of_other_overshoot :
    let rhoSq : QoiMatrix ExactReal := .ofRow 2 [real (1 / 2)]
    let solution : RatioSolution ExactReal := .analytic (.ofRow 2 [real 2])
    RealProfile rhoSq solution [8, 2] (fun _ => [1 / 2]) (fun _ => [2]) ∧
      1 - rSquared (rhoSq.row 1) ((ownRatios 4 2 [2]).map real) solution.order = real (3 / 4) ∧
      (realizedVarianceRatios rhoSq solution ([4, 4].map real) [4, 2])[1]? = some (real (3 / 4)) ∧
      (realizedVarianceRatios rhoSq solution ([4, 4].map real) [8, 2])[1]? =
        some (real (5 / 8)) := by
  intro rhoSq solution
  have hprofile : ∀ first : ℕ, 0 < first →
      RealProfile rhoSq solution [first, 2] (fun _ => [1 / 2]) (fun _ => [2]) := by
    intro first hfirst
    constructor
    case order => exact ModelOrder.valid_nil 1
    case row_rhoSq => exact fun qoi hqoi => QoiMatrix.row_ofRow hqoi _
    case row_ratios => exact fun qoi hqoi => QoiMatrix.row_ofRow hqoi _
    case one_le => simp
    case counts_pos => simpa using hfirst
    all_goals first | rfl | exact fun _ _ => rfl
  have htarget : ([4, 4] : List ℝ).sum / ([4, 4] : List ℝ).length = 4 := by norm_num
  have hnearest : nearest 4 = 4 := by norm_num [nearest, Int.floor_eq_iff]
  have hlow : lowFidelityPart solution.order [1 / 2] [2] = 1 / 4 := by
    norm_num [lowFidelityPart, gain, solution, RatioSolution.order]
  have hown : 1 - rSquared (rhoSq.row 1) ((ownRatios 4 2 [2]).map real) solution.order =
      real (3 / 4) := by
    rw [ownRatios, hnearest, if_neg (by norm_num), (hprofile 4 (by norm_num)).one_sub_rSquared_row
      (show [4, 2][1]? = some 2 from rfl) rfl (by simp), hlow]
    norm_num [gain, ModelOrder.ladder, solution, RatioSolution.order]
  have hne : ([4, 4] : List ℝ) ≠ [] := List.cons_ne_nil _ _
  obtain ⟨-, hother⟩ := realizedVarianceRatios_eq_own_iff (hprofile 8 (by norm_num)) hne
    (show [8, 2][1]? = some 2 from rfl)
  obtain ⟨halone, -⟩ := realizedVarianceRatios_eq_own_iff (hprofile 4 (by norm_num)) hne
    (show [4, 2][1]? = some 2 from rfl)
  rw [htarget, hnearest, hown] at halone hother
  obtain ⟨own, heq, hrealized⟩ := hother ⟨8, by simp, by norm_num⟩ (by norm_num)
  obtain rfl : 3 / 4 = own := ExactReal.real.inj heq
  refine ⟨hprofile 8 (by norm_num), hown, halone.mpr (Or.inl (by norm_num)), ?_⟩
  rw [hrealized, hlow]
  norm_num

end Multifidelity
