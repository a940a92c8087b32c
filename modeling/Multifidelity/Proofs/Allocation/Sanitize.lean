import Multifidelity.Allocation.Sanitize
import Multifidelity.Proofs.ExactReal
import Multifidelity.Proofs.QoiMatrix

/-!
# Usable correlations over exact scalars

Whatever has been estimated, squared correlations that have been made usable are real numbers from
zero to a limit below one, provided that the thresholds are proper.

## Main definitions

* `InRange`: usable squared correlations
* `Tolerances.Proper`: thresholds that make squared correlations usable

## Main results

* `exists_row_of_inRange`: the rows of usable squared correlations are lists of real numbers
* `Tolerances.Proper.exists_limit`: what becomes of any squared correlation
* `Tolerances.clamp_real`: what becomes of a real squared correlation
* `toRows_sanitize`: the rows of a sanitized matrix
* `selectForm_perfect_then_none`: models that are not ordered
-/

namespace Multifidelity

open ExactReal

/-! ## Squared correlations in range -/

/-- A squared correlation from zero to the largest usable one. -/
def InRange (limit : ℝ) (value : ExactReal) : Prop :=
  ∃ x, 0 ≤ x ∧ x ≤ limit ∧ value = real x

theorem inRange_zero {limit : ℝ} (h : 0 ≤ limit) : InRange limit 0 :=
  ⟨0, le_rfl, h, rfl⟩

/-- Finitely many values below one have a limit below one. -/
theorem exists_limit_of_lt_one {values : List ExactReal}
    (h : ∀ value ∈ values, 0 ≤ value ∧ value < 1) :
    ∃ limit, 0 ≤ limit ∧ limit < 1 ∧ ∀ value ∈ values, InRange limit value := by
  induction values with
  | nil => exact ⟨0, le_rfl, one_pos, nofun⟩
  | cons value rest ih =>
    obtain ⟨hnonneg, hlt⟩ := h value List.mem_cons_self
    obtain ⟨limit, hlimit, hone, hrest⟩ := ih fun other hother => h other (.tail _ hother)
    -- a value below one is no infinity, and the limit is raised to it
    obtain rfl | ⟨x, hx, rfl⟩ := real_le_iff.mp hnonneg
    · exact hlt.elim
    · refine ⟨max x limit, le_max_of_le_right hlimit, max_lt (real_lt_real.mp hlt) hone, ?_⟩
      intro other hother
      rcases List.mem_cons.mp hother with rfl | hother
      · exact ⟨x, hx, le_max_left x limit, rfl⟩
      · obtain ⟨y, hy, hle, rfl⟩ := hrest other hother
        exact ⟨y, hy, le_max_of_le_right hle, rfl⟩

theorem inRange_getD {limit : ℝ} (h : 0 ≤ limit) {values : List ExactReal}
    (hvalues : ∀ value ∈ values, InRange limit value) (i : ℕ) :
    InRange limit (values.getD i 0) := by
  rcases lt_or_ge i values.length with hlt | hge
  · rw [List.getD_eq_getElem _ _ hlt]
    exact hvalues _ (List.getElem_mem hlt)
  · rw [List.getD_eq_default _ _ hge]
    exact inRange_zero h

theorem exists_map_of_inRange {limit : ℝ} {values : List ExactReal}
    (h : ∀ value ∈ values, InRange limit value) :
    ∃ xs : List ℝ, values = xs.map real ∧ ∀ x ∈ xs, 0 ≤ x ∧ x ≤ limit := by
  obtain ⟨xs, rfl⟩ := exists_map_real fun value hvalue => by
    obtain ⟨x, -, -, rfl⟩ := h value hvalue
    exact isFinite_real x
  refine ⟨xs, rfl, fun x hx => ?_⟩
  obtain ⟨y, hy, hle, heq⟩ := h (real x) (List.mem_map_of_mem hx)
  cases heq
  exact ⟨hy, hle⟩

/-- The rows of a matrix whose entries are in range. -/
theorem exists_row_of_inRange {limit : ℝ} {matrix : QoiMatrix ExactReal} (hfull : matrix.Full)
    (h : ∀ value ∈ matrix.entries, InRange limit value) {qoi : ℕ} (hqoi : qoi < matrix.rows) :
    ∃ rhos : List ℝ, rhos.length = matrix.cols ∧ (∀ rho ∈ rhos, 0 ≤ rho ∧ rho ≤ limit) ∧
      matrix.row qoi = rhos.map real := by
  have hrange : ∀ value ∈ matrix.row qoi, InRange limit value := fun value hvalue =>
    h value (QoiMatrix.mem_entries_of_mem_row hvalue)
  obtain ⟨rhos, hrow, hrhos⟩ := exists_map_of_inRange hrange
  refine ⟨rhos, ?_, hrhos, hrow⟩
  rw [← hfull.length_row hqoi, hrow, List.length_map]

/-- The average of values in a range is in that range. -/
theorem inRange_average {limit : ℝ} {values : List ExactReal} (hne : values ≠ [])
    (h : ∀ value ∈ values, InRange limit value) : InRange limit (average values) := by
  obtain ⟨xs, rfl, hbounds⟩ := exists_map_of_inRange h
  have hne' : xs ≠ [] := by simpa using hne
  have hlength : (0 : ℝ) < xs.length := by
    exact_mod_cast List.length_pos_iff.mpr hne'
  have hsum := List.sum_le_card_nsmul xs limit fun x hx => (hbounds x hx).2
  rw [nsmul_eq_mul] at hsum
  refine ⟨_, div_nonneg (List.sum_nonneg fun x hx => (hbounds x hx).1) hlength.le, ?_,
    average_real hne'⟩
  rwa [div_le_iff₀' hlength]

/-! ## Thresholds -/

/-- Squared correlations count as zero up to a threshold that is not negative, and they are kept
below one by a positive threshold. -/
structure Tolerances.Proper (tolerances : Tolerances ExactReal) : Prop where
  floor : 0 ≤ tolerances.floor
  ceiling_pos : 0 < tolerances.ceiling
  ceiling_le : tolerances.ceiling ≤ 1

/-- The usual thresholds are proper. -/
theorem Tolerances.proper_default : (Tolerances.default : Tolerances ExactReal).Proper := by
  have hdefault : (Tolerances.default : Tolerances ExactReal) =
      ⟨real 1e-10, real 1e-10, real 1e-10⟩ := rfl
  rw [hdefault]
  constructor
  case floor => exact real_le_real.mpr (by norm_num)
  case ceiling_pos => exact real_lt_real.mpr (by norm_num)
  case ceiling_le => exact real_le_real.mpr (by norm_num)

/-- A squared correlation that does not count as zero is above the floor. -/
theorem Tolerances.floor_lt_of_not_isNegligible {tolerances : Tolerances ExactReal}
    (hfloor : 0 ≤ tolerances.floor) {value : ExactReal}
    (h : tolerances.isNegligible value = false) : value = posInf ∨ ∃ x, 0 < x ∧ value = real x := by
  simp only [isNegligible, Bool.or_eq_false_iff, decide_eq_false_iff_not] at h
  obtain ⟨hnan, hle⟩ := h
  -- nothing that is at most zero is above the floor
  cases value with
  | real x =>
    refine Or.inr ⟨x, not_le.mp fun hx => hle ?_, rfl⟩
    exact ExactReal.le_trans (real_le_real.mpr hx) hfloor
  | posInf => exact Or.inl rfl
  | negInf => exact absurd (ExactReal.le_trans (show negInf ≤ 0 from trivial) hfloor) hle
  | nan => simp [(isNaN_iff nan).mpr] at hnan

/-- Any squared correlation is moved into a range below one, a NaN and infinities included. -/
theorem Tolerances.Proper.exists_limit {tolerances : Tolerances ExactReal}
    (h : tolerances.Proper) :
    ∃ limit, 0 ≤ limit ∧ limit < 1 ∧ ∀ value, InRange limit (tolerances.clamp value) := by
  obtain ⟨ceiling, hpos, hceiling⟩ : ∃ x, 0 < x ∧ tolerances.ceiling = real x := by
    have hpos := h.ceiling_pos
    have hle := h.ceiling_le
    rcases real_le_iff.mp (ExactReal.le_of_lt hpos) with hinf | ⟨x, -, hx⟩
    · rw [hinf] at hle
      exact hle.elim
    · rw [hx] at hpos
      exact ⟨x, hpos, hx⟩
  have hle : ceiling ≤ 1 := by
    have hle := h.ceiling_le
    rwa [hceiling, one_eq, real_le_real] at hle
  have hlimit : tolerances.limit = real (1 - ceiling) := by
    rw [limit, hceiling, one_eq, real_sub]
  refine ⟨1 - ceiling, by linarith, by linarith, fun value => ?_⟩
  unfold clamp isPerfect
  rw [hlimit]
  cases hnegligible : tolerances.isNegligible value with
  | true => exact inRange_zero (by linarith)
  | false =>
    -- what is left is positive, and it is cut off at the limit
    rcases floor_lt_of_not_isNegligible h.floor hnegligible with rfl | ⟨x, hx, rfl⟩
    · simpa using ⟨1 - ceiling, by linarith, le_rfl, rfl⟩
    · rcases lt_or_ge (1 - ceiling) x with hlt | hge
      · simpa [hlt] using ⟨1 - ceiling, by linarith, le_rfl, rfl⟩
      · simpa [not_lt.mpr hge] using ⟨x, hx.le, hge, rfl⟩

/-- Nothing is moved above one that was not there. -/
theorem Tolerances.not_one_lt_clamp (tolerances : Tolerances ExactReal) {value : ExactReal}
    (h : ¬ 1 < value) : ¬ 1 < tolerances.clamp value := by
  unfold clamp
  split
  · exact not_lt_of_le (real_le_real.mpr zero_le_one)
  · split
    · rename_i hperfect
      -- a squared correlation is cut off at a limit below it
      have hlt : tolerances.limit < value :=
        of_decide_eq_true (Bool.and_eq_true_iff.mp hperfect).2
      exact fun hlimit => h (ExactReal.lt_of_lt_of_le hlimit (ExactReal.le_of_lt hlt))
    · exact h

/-- What is in a sanitized matrix has been in the matrix before it was moved into range. -/
theorem exists_clamp_of_mem_sanitize {rhoSq : QoiMatrix ExactReal}
    {tolerances : Tolerances ExactReal} :
    ∀ value ∈ (sanitize rhoSq tolerances).1.entries,
      ∃ rho ∈ rhoSq.entries, value = tolerances.clamp rho := by
  intro value hvalue
  obtain ⟨row, hrow, hmem⟩ := List.mem_flatten.mp hvalue
  obtain ⟨before, hbefore, rfl⟩ := List.mem_map.mp hrow
  obtain ⟨rho, hrho, rfl⟩ := List.mem_map.mp hmem
  obtain ⟨qoi, -, rfl⟩ := List.mem_map.mp hbefore
  exact ⟨rho, QoiMatrix.mem_entries_of_mem_row hrho, rfl⟩

theorem inRange_of_mem_sanitize {limit : ℝ} {tolerances : Tolerances ExactReal}
    (h : ∀ value, InRange limit (tolerances.clamp value)) (rhoSq : QoiMatrix ExactReal) :
    ∀ value ∈ (sanitize rhoSq tolerances).1.entries, InRange limit value := by
  intro value hvalue
  obtain ⟨rho, -, rfl⟩ := exists_clamp_of_mem_sanitize value hvalue
  exact h rho

/-- Real squared correlations up to the floor count as zero, and the others are cut off at the
limit. -/
theorem Tolerances.clamp_real (ordering : ExactReal) (floor ceiling x : ℝ) :
    (⟨ordering, real floor, real ceiling⟩ : Tolerances ExactReal).clamp (real x) =
      real (if x ≤ floor then 0 else min x (1 - ceiling)) := by
  unfold clamp isPerfect isNegligible limit
  by_cases hfloor : x ≤ floor
  · simp [hfloor]
  · rcases lt_or_ge (1 - ceiling) x with hlimit | hlimit
    · simp [hfloor, hlimit, min_eq_right hlimit.le]
    · simp [hfloor, not_lt.mpr hlimit, min_eq_left hlimit]

/-- The rows of a sanitized matrix are those of the matrix, moved into range. -/
theorem toRows_sanitize {α : Type} [Scalar α] {cols : ℕ} {rows : List (List α)}
    (hrows : ∀ row ∈ rows, row.length = cols) (tolerances : Tolerances α) :
    (sanitize (.ofRows cols rows) tolerances).1.toRows = rows.map (·.map tolerances.clamp) := by
  rw [sanitize, QoiMatrix.toRows_ofRows hrows]
  refine QoiMatrix.toRows_ofRows fun row hrow => ?_
  obtain ⟨row, hmem, rfl⟩ := List.mem_map.mp hrow
  rw [List.length_map]
  exact hrows row hmem

section Sanitize

variable {α : Type} [Scalar α] (rhoSq : QoiMatrix α) (tolerances : Tolerances α)

@[simp] theorem rows_sanitize : (sanitize rhoSq tolerances).1.rows = rhoSq.rows := by
  simp [sanitize, QoiMatrix.ofRows]

@[simp] theorem cols_sanitize : (sanitize rhoSq tolerances).1.cols = rhoSq.cols := rfl

theorem full_sanitize {rhoSq : QoiMatrix α} (hfull : rhoSq.Full) :
    (sanitize rhoSq tolerances).1.Full := by
  refine QoiMatrix.full_ofRows fun row hrow => ?_
  obtain ⟨row, hmem, rfl⟩ := List.mem_map.mp hrow
  rw [List.length_map]
  exact hfull.length_of_mem_toRows hmem

end Sanitize

/-- An empty matrix counts as ordered. -/
theorem rows_pos_of_isOrdered_eq_false {α : Type} [Scalar α] {rhoSq : QoiMatrix α} {tolerance : α}
    (h : isOrdered rhoSq tolerance = false) : 0 < rhoSq.rows := by
  apply Nat.pos_of_ne_zero
  intro hzero
  rw [isOrdered, QoiMatrix.toRows, hzero] at h
  cases h

/-- A perfect correlation is cut off, but it stays above that of a model that is not correlated. -/
theorem toRows_perfect_then_none (rows : ℕ) :
    (sanitize (.ofRows 2 (List.replicate rows [real 1, real 0])) .default).1.toRows =
      List.replicate rows [real (1 - 1e-10), real 0] := by
  have hclamp : [real 1, real 0].map (Tolerances.default : Tolerances ExactReal).clamp =
      [real (1 - 1e-10), real 0] := by
    have hdefault : (Tolerances.default : Tolerances ExactReal) =
        ⟨real 1e-10, real 1e-10, real 1e-10⟩ := rfl
    rw [hdefault]
    norm_num [Tolerances.clamp_real]
  rw [toRows_sanitize (by simp +contextual [List.mem_replicate]), List.map_replicate, hclamp]

/-- Models are not ordered if the first one is perfectly correlated and the second one not at
all. -/
theorem selectForm_perfect_then_none {rows : ℕ} (hrows : rows ≠ 0) :
    selectForm (sanitize (.ofRows 2 (List.replicate rows [real 1, real 0])) .default).1
      (Tolerances.default : Tolerances ExactReal).ordering false = .numerical := by
  have hordered : isOrdered
      (sanitize (.ofRows 2 (List.replicate rows [real 1, real 0])) .default).1
      (Tolerances.default : Tolerances ExactReal).ordering = false := by
    rw [isOrdered, toRows_perfect_then_none, List.all_replicate, if_neg hrows]
    norm_num [Tolerances.default]
  rw [selectForm, hordered]
  rfl

end Multifidelity
