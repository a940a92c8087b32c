import Multifidelity.Proofs.Allocation.Sanitize
import Multifidelity.Proofs.OrderedScalar

/-!
# Sanitizing as a clamp

Thresholds keep an interval of squared correlations as they are. Everything below it, and every NaN,
becomes zero, and everything above it becomes its upper end. Nothing about this rounds, so that it
holds for binary64 numbers as well as for exact ones: the clamp is monotone, a second one changes
nothing, and the warnings tell which entries have been lost.

## Main definitions

* `Tolerances.Proportionate`: thresholds that leave something between them
* `Tolerances.Keeps`: the interval that stays as it is
* `Tolerances.lossWarnings`: what is to be said about the squared correlations of one QoI
* `Sanitizes`: a clamped matrix and its warnings

## Main results

* `Tolerances.clamp_cases`: what becomes of a squared correlation
* `Tolerances.clamp_mono`, `Tolerances.clamp_clamp`: the clamp is monotone and idempotent
* `Tolerances.rowWarnings_eq`: the warnings about one QoI
* `isOrdered_sanitize`: ordered models stay ordered
* `sanitize_idempotent`: all of this about a whole matrix, for any scalars in order
-/

namespace Multifidelity

open OrderedScalar

variable {α : Type} [Scalar α]

namespace Tolerances

/-- Thresholds that are not negative and leave something between them. -/
structure Proportionate (tolerances : Tolerances α) : Prop where
  floor : 0 ≤ tolerances.floor
  floor_lt : tolerances.floor < 1 - tolerances.ceiling

/-- The squared correlations between the thresholds. -/
def Keeps (tolerances : Tolerances α) (value : α) : Prop :=
  tolerances.floor < value ∧ value ≤ 1 - tolerances.ceiling

/-- What is to be said about the squared correlations of one QoI: that they are perfect, model by
model, and then that there are none. -/
def lossWarnings (tolerances : Tolerances α) (rhoSq : QoiMatrix α) (qoi : ℕ) : List Warning :=
  ((List.range rhoSq.cols).filter fun model => 1 - tolerances.ceiling < rhoSq.entry qoi model).map
      (.perfectCorrelation qoi) ++
    if ∀ model < rhoSq.cols, Scalar.isNaN (rhoSq.entry qoi model) = true ∨
      rhoSq.entry qoi model ≤ tolerances.floor then [.degenerateCorrelation qoi] else []

end Tolerances

/-! ## One squared correlation -/

namespace Tolerances

variable {tolerances : Tolerances α}

theorem isNegligible_iff {value : α} : tolerances.isNegligible value = true ↔
    Scalar.isNaN value = true ∨ value ≤ tolerances.floor := by
  rw [isNegligible, Bool.or_eq_true, decide_eq_true_iff]

theorem clamp_of_isNegligible {value : α} (h : tolerances.isNegligible value = true) :
    tolerances.clamp value = 0 := by
  unfold clamp
  rw [if_pos h]

theorem Proportionate.isNegligible_zero (h : tolerances.Proportionate) :
    tolerances.isNegligible 0 = true :=
  isNegligible_iff.mpr (Or.inr h.floor)

namespace Proportionate

variable [OrderedScalar α] (h : tolerances.Proportionate)
include h

theorem isNegligible_eq_false_iff {value : α} :
    tolerances.isNegligible value = false ↔ tolerances.floor < value := by
  rw [← Bool.not_eq_true, isNegligible_iff, not_or, Bool.not_eq_true]
  constructor
  · rintro ⟨hnan, hle⟩
    exact lt_of_not_le (isNaN_right h.floor) hnan hle
  · intro hlt
    exact ⟨isNaN_right (le_of_lt hlt), not_le_of_lt hlt⟩

/-- What is above the limit does not count as zero. -/
theorem isPerfect_iff {value : α} :
    tolerances.isPerfect value = true ↔ 1 - tolerances.ceiling < value := by
  rw [isPerfect, Bool.and_eq_true, Bool.not_eq_true', h.isNegligible_eq_false_iff,
    decide_eq_true_iff]
  constructor
  · exact And.right
  · intro hlt
    exact ⟨lt_of_lt_of_le h.floor_lt (le_of_lt hlt), hlt⟩

/-- A squared correlation counts as zero, stays as it is, or is cut off. -/
theorem clamp_cases (value : α) :
    (tolerances.isNegligible value = true ∧ tolerances.clamp value = 0) ∨
      (tolerances.Keeps value ∧ tolerances.clamp value = value) ∨
      (1 - tolerances.ceiling < value ∧ tolerances.clamp value = 1 - tolerances.ceiling) := by
  unfold clamp
  cases hnegligible : tolerances.isNegligible value with
  | true => exact Or.inl ⟨rfl, if_pos rfl⟩
  | false =>
    have hfloor := h.isNegligible_eq_false_iff.mp hnegligible
    right
    cases hperfect : tolerances.isPerfect value with
    | true => exact Or.inr ⟨h.isPerfect_iff.mp hperfect, by simp [limit]⟩
    | false =>
      rw [← Bool.not_eq_true, h.isPerfect_iff] at hperfect
      refine Or.inl ⟨⟨hfloor, ?_⟩, by simp⟩
      exact le_of_not_lt (isNaN_right (le_of_lt hfloor)) (isNaN_right (le_of_lt h.floor_lt))
        hperfect

/-- The upper end of the interval stays as it is. -/
theorem keeps_limit : tolerances.Keeps (1 - tolerances.ceiling) :=
  ⟨h.floor_lt, le_self (isNaN_right (le_of_lt h.floor_lt))⟩

theorem clamp_of_keeps {value : α} (hkeeps : tolerances.Keeps value) :
    tolerances.clamp value = value := by
  rcases h.clamp_cases value with ⟨hnegligible, -⟩ | ⟨-, heq⟩ | ⟨hlt, -⟩
  · rw [h.isNegligible_eq_false_iff.mpr hkeeps.1] at hnegligible
    cases hnegligible
  · exact heq
  · exact absurd hkeeps.2 (not_le_of_lt hlt)

theorem clamp_eq_zero_or_keeps (value : α) :
    tolerances.clamp value = 0 ∨ tolerances.Keeps (tolerances.clamp value) := by
  rcases h.clamp_cases value with ⟨-, heq⟩ | ⟨hkeeps, heq⟩ | ⟨-, heq⟩
  · exact Or.inl heq
  · exact Or.inr (heq.symm ▸ hkeeps)
  · exact Or.inr (heq.symm ▸ h.keeps_limit)

theorem clamp_clamp (value : α) :
    tolerances.clamp (tolerances.clamp value) = tolerances.clamp value := by
  rcases h.clamp_eq_zero_or_keeps value with hzero | hkeeps
  · rw [hzero]
    exact clamp_of_isNegligible h.isNegligible_zero
  · exact h.clamp_of_keeps hkeeps

theorem zero_le_clamp (value : α) : 0 ≤ tolerances.clamp value := by
  rcases h.clamp_eq_zero_or_keeps value with hzero | hkeeps
  · rw [hzero]
    exact le_self (isNaN_left h.floor)
  · exact le_trans h.floor (le_of_lt hkeeps.1)

/-- Of two squared correlations the larger one is not moved below the smaller one. -/
theorem clamp_mono {x y : α} (hxy : x ≤ y) : tolerances.clamp x ≤ tolerances.clamp y := by
  rcases h.clamp_cases x with ⟨-, hx⟩ | ⟨hkeeps, hx⟩ | ⟨hlt, hx⟩
  · rw [hx]
    exact h.zero_le_clamp y
  · rw [hx]
    rcases h.clamp_cases y with ⟨hnegligible, -⟩ | ⟨-, hy⟩ | ⟨-, hy⟩
    · -- what is above a kept value does not count as zero
      rw [h.isNegligible_eq_false_iff.mpr (lt_of_lt_of_le hkeeps.1 hxy)] at hnegligible
      cases hnegligible
    · rwa [hy]
    · rw [hy]
      exact hkeeps.2
  · have hlimit := h.keeps_limit.2
    rcases h.clamp_cases y with ⟨hnegligible, -⟩ | ⟨hkeeps, -⟩ | ⟨-, hy⟩
    · have hfloor := lt_of_lt_of_le (lt_of_lt_of_le h.floor_lt (le_of_lt hlt)) hxy
      rw [h.isNegligible_eq_false_iff.mpr hfloor] at hnegligible
      cases hnegligible
    · exact absurd hkeeps.2 (not_le_of_lt (lt_of_lt_of_le hlt hxy))
    · rwa [hx, hy]

/-- Nothing but what counts as zero becomes zero. -/
theorem clamp_beq_zero (value : α) :
    (tolerances.clamp value == 0) = tolerances.isNegligible value := by
  have hzero : (0 : α) ≤ 0 := le_self (isNaN_left h.floor)
  cases hnegligible : tolerances.isNegligible value with
  | true =>
    rw [clamp_of_isNegligible hnegligible]
    exact beq_iff.mpr ⟨hzero, hzero⟩
  | false =>
    rw [← Bool.not_eq_true, beq_iff]
    rintro ⟨hle, -⟩
    rcases h.clamp_cases value with ⟨htrue, -⟩ | ⟨hkeeps, heq⟩ | ⟨-, heq⟩
    · rw [hnegligible] at htrue
      cases htrue
    · exact not_le_of_lt hkeeps.1 (le_trans (heq ▸ hle) h.floor)
    · exact not_le_of_lt h.floor_lt (le_trans (heq ▸ hle) h.floor)

theorem isPerfect_clamp (value : α) : tolerances.isPerfect (tolerances.clamp value) = false := by
  rcases h.clamp_eq_zero_or_keeps value with hzero | hkeeps
  · rw [hzero, isPerfect, h.isNegligible_zero]
    rfl
  · rw [← Bool.not_eq_true, h.isPerfect_iff]
    exact fun hlt => not_le_of_lt hlt hkeeps.2

end Proportionate

end Tolerances

/-! ## Matrices -/

/-- The rows of a sanitized matrix are the clamped ones. -/
theorem QoiMatrix.Full.toRows_sanitize {rhoSq : QoiMatrix α} (hfull : rhoSq.Full)
    (tolerances : Tolerances α) :
    (sanitize rhoSq tolerances).1.toRows = rhoSq.toRows.map (·.map tolerances.clamp) := by
  refine QoiMatrix.toRows_ofRows fun row hrow => ?_
  obtain ⟨before, hmem, rfl⟩ := List.mem_map.mp hrow
  rw [List.length_map, hfull.length_of_mem_toRows hmem]

section Matrix

variable {rhoSq : QoiMatrix α} (hfull : rhoSq.Full) {tolerances : Tolerances α}
include hfull

theorem row_sanitize {qoi : ℕ} (hqoi : qoi < rhoSq.rows) :
    (sanitize rhoSq tolerances).1.row qoi = (rhoSq.row qoi).map tolerances.clamp := by
  have hrows := congrArg (·[qoi]?) (hfull.toRows_sanitize tolerances)
  simpa [QoiMatrix.toRows, hqoi] using hrows

theorem entry_sanitize {qoi model : ℕ} (hqoi : qoi < rhoSq.rows) (hmodel : model < rhoSq.cols) :
    (sanitize rhoSq tolerances).1.entry qoi model = tolerances.clamp (rhoSq.entry qoi model) := by
  have hlength := hfull.length_row hqoi
  rw [QoiMatrix.entry_eq_getD_row _ _ (show model < (sanitize rhoSq tolerances).1.cols from hmodel),
    row_sanitize hfull hqoi, QoiMatrix.entry_eq_getD_row _ _ hmodel,
    List.getD_eq_getElem _ _ (by simpa [hlength] using hmodel),
    List.getD_eq_getElem _ _ (by simpa [hlength] using hmodel), List.getElem_map]

variable [OrderedScalar α] (h : tolerances.Proportionate)
include h

/-- The warnings about one QoI, by model. -/
theorem rowWarnings_eq {qoi : ℕ} (hqoi : qoi < rhoSq.rows) :
    tolerances.rowWarnings qoi (rhoSq.row qoi) = tolerances.lossWarnings rhoSq qoi := by
  unfold Tolerances.rowWarnings Tolerances.lossWarnings
  dsimp only
  rw [← rhoSq.map_entry_eq_row (hfull.length_row hqoi)]
  congr 1
  · rw [zipIdx_map_range, List.filterMap_map, ← List.filterMap_eq_map, List.filterMap_filter]
    refine List.filterMap_congr fun model _ => ?_
    simp only [Function.comp_apply, h.isPerfect_iff, decide_eq_true_iff]
  · refine if_congr ?_ rfl rfl
    simp only [List.all_map, List.all_eq_true, List.mem_range, Function.comp_apply,
      h.clamp_beq_zero, Tolerances.isNegligible_iff]

theorem warnings_sanitize :
    (sanitize rhoSq tolerances).2 =
      (List.range rhoSq.rows).flatMap (tolerances.lossWarnings rhoSq) := by
  rw [sanitize, QoiMatrix.toRows, mapIdx_map_range, List.flatMap_def]
  refine congrArg List.flatten (List.map_congr_left fun qoi hqoi => ?_)
  exact rowWarnings_eq hfull h (List.mem_range.mp hqoi)

/-- A second time nothing changes. -/
theorem sanitize_sanitize :
    (sanitize (sanitize rhoSq tolerances).1 tolerances).1 = (sanitize rhoSq tolerances).1 := by
  have hclamp : tolerances.clamp ∘ tolerances.clamp = tolerances.clamp :=
    funext h.clamp_clamp
  have hrows : (sanitize rhoSq tolerances).1.toRows.map (·.map tolerances.clamp) =
      rhoSq.toRows.map (·.map tolerances.clamp) := by
    rw [hfull.toRows_sanitize, List.map_map]
    refine List.map_congr_left fun row _ => ?_
    rw [Function.comp_apply, List.map_map, hclamp]
  exact congrArg (QoiMatrix.ofRows rhoSq.cols) hrows

/-- A second time there is nothing to cut off. -/
theorem eq_degenerateCorrelation_of_mem_sanitize {warning : Warning}
    (hwarning : warning ∈ (sanitize (sanitize rhoSq tolerances).1 tolerances).2) :
    ∃ qoi, warning = .degenerateCorrelation qoi := by
  rw [warnings_sanitize (full_sanitize tolerances hfull) h] at hwarning
  obtain ⟨qoi, hqoi, hmem⟩ := List.mem_flatMap.mp hwarning
  have hqoi : qoi < rhoSq.rows := by simpa using hqoi
  rcases List.mem_append.mp hmem with hperfect | hdegenerate
  · obtain ⟨model, hmodel, -⟩ := List.mem_map.mp hperfect
    obtain ⟨hmodel, hlt⟩ := List.mem_filter.mp hmodel
    rw [entry_sanitize hfull hqoi (List.mem_range.mp hmodel), decide_eq_true_iff,
      ← h.isPerfect_iff, h.isPerfect_clamp] at hlt
    cases hlt
  · split at hdegenerate
    · exact ⟨qoi, List.mem_singleton.mp hdegenerate⟩
    · cases hdegenerate

/-- Models that are ordered stay ordered, since no neighbours change places. -/
theorem isOrdered_sanitize (hordered : isOrdered rhoSq 0 = true) :
    isOrdered (sanitize rhoSq tolerances).1 0 = true := by
  unfold isOrdered at hordered ⊢
  rw [hfull.toRows_sanitize, List.all_map]
  rw [List.all_eq_true] at hordered ⊢
  intro row hrow
  have hneighbours := hordered row hrow
  rw [Function.comp_apply, ← List.map_drop, List.zip_map, List.all_map]
  rw [List.all_eq_true] at hneighbours ⊢
  rintro ⟨before, after⟩ hmem
  have hle := of_decide_eq_true (hneighbours (before, after) hmem)
  rw [OrderedScalar.sub_zero] at hle
  refine decide_eq_true ?_
  rw [OrderedScalar.sub_zero]
  exact h.clamp_mono hle

end Matrix

/-- A clamped matrix and the warnings about what it has lost. -/
structure Sanitizes (tolerances : Tolerances α) (rhoSq result : QoiMatrix α)
    (warnings : List Warning) : Prop where
  rows : result.rows = rhoSq.rows
  cols : result.cols = rhoSq.cols
  /-- Every entry is zero or between the thresholds. -/
  image : ∀ qoi < rhoSq.rows, ∀ model < rhoSq.cols,
    result.entry qoi model = 0 ∨ tolerances.Keeps (result.entry qoi model)
  /-- What is between the thresholds stays as it is. -/
  kept : ∀ qoi < rhoSq.rows, ∀ model < rhoSq.cols, tolerances.Keeps (rhoSq.entry qoi model) →
    result.entry qoi model = rhoSq.entry qoi model
  /-- Of any two entries the larger one does not come below the smaller one. -/
  mono : ∀ qoi < rhoSq.rows, ∀ model < rhoSq.cols, ∀ otherQoi < rhoSq.rows,
    ∀ otherModel < rhoSq.cols, rhoSq.entry qoi model ≤ rhoSq.entry otherQoi otherModel →
      result.entry qoi model ≤ result.entry otherQoi otherModel
  warnings : warnings = (List.range rhoSq.rows).flatMap (tolerances.lossWarnings rhoSq)
  /-- Ordered models stay ordered. -/
  ordered : isOrdered rhoSq 0 = true → isOrdered result 0 = true

/-- Whatever a matrix has in it, a NaN included, sanitizing clamps its entries monotonically and
warns about exactly those that are lost. Sanitizing the result changes nothing any more, and all
that is left to warn about are QoI without any correlated model. -/
theorem sanitize_idempotent [OrderedScalar α] {rhoSq : QoiMatrix α} (hfull : rhoSq.Full)
    {tolerances : Tolerances α} (h : tolerances.Proportionate) :
    let result := (sanitize rhoSq tolerances).1
    Sanitizes tolerances rhoSq result (sanitize rhoSq tolerances).2 ∧
      (sanitize result tolerances).1 = result ∧
      ∀ warning ∈ (sanitize result tolerances).2, ∃ qoi, warning = .degenerateCorrelation qoi := by
  intro result
  refine ⟨?_, sanitize_sanitize hfull h, fun warning hwarning =>
    eq_degenerateCorrelation_of_mem_sanitize hfull h hwarning⟩
  constructor
  case rows => exact rows_sanitize rhoSq tolerances
  case cols => exact cols_sanitize rhoSq tolerances
  case image =>
    intro qoi hqoi model hmodel
    rw [entry_sanitize hfull hqoi hmodel]
    exact h.clamp_eq_zero_or_keeps _
  case kept =>
    intro qoi hqoi model hmodel hkeeps
    rw [entry_sanitize hfull hqoi hmodel]
    exact h.clamp_of_keeps hkeeps
  case mono =>
    intro qoi hqoi model hmodel otherQoi hotherQoi otherModel hotherModel hle
    rw [entry_sanitize hfull hqoi hmodel, entry_sanitize hfull hotherQoi hotherModel]
    exact h.clamp_mono hle
  case warnings => exact warnings_sanitize hfull h
  case ordered => exact isOrdered_sanitize hfull h

/-- Among the binary64 numbers a NaN, two, minus one and one half are moved into range, with one
warning. -/
theorem sanitize_idempotent_mixed :
    let rhoSq : QoiMatrix Float := ⟨2, 2, [0 / 0, 2, -1, 1 / 2]⟩
    let result := (sanitize rhoSq .default).1
    rhoSq.Full ∧ (Tolerances.default : Tolerances Float).Proportionate ∧
      Sanitizes .default rhoSq result (sanitize rhoSq .default).2 ∧
      (sanitize result .default).1 = result ∧
      (result.entries == [0, 1 - 1e-10, 0, 1 / 2]) = true ∧
      (sanitize rhoSq .default).2 = [.perfectCorrelation 0 1] := by
  intro rhoSq result
  have hfull : rhoSq.Full := rfl
  have hdefault : (Tolerances.default : Tolerances Float).Proportionate := by
    constructor
    case floor => decide
    case floor_lt => decide
  obtain ⟨hsanitizes, hagain, -⟩ := sanitize_idempotent hfull hdefault
  exact ⟨hfull, hdefault, hsanitizes, hagain, by decide, by decide⟩

end Multifidelity
