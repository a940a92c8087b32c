import Multifidelity.Proofs.Allocation.ClosedForm
import Multifidelity.Proofs.Allocation.Variance

/-!
# The ratios as a majorant of the closed form

The closed form gives every model along an order a value, which may be below one and may increase.
Nested samples need ratios of one or more that do not increase. The ratios of one QoI are the least
ones of this kind that are nowhere below the closed form: at each position the largest value from
there on, or one. Whether correlations increase along the order does not matter.

## Main definitions

* `gainRatio`: the closed form, where a correlation that falls counts as no gain
* `Majorizes`: ratios of nested samples that are nowhere below given values
* `suffixMaximum`: the largest value at or after a position, or one

## Main results

* `isLeast_suffixMaximum`: the largest values from each position on are the least majorant
* `unorderedRatios_real`: what is computed on the way forward
* `exists_suffixMaxima_real`: what is computed on the way back
* `getElem?_sequenceRatios`: the ratio of the model at each position
* `sequenceRatios_isLeast`: the ratios are the least majorant of the closed form
-/

namespace Multifidelity

open ExactReal

/-! ## Least majorants -/

section Majorant

variable {n : ℕ}

/-- Ratios of one or more that do not increase and are nowhere below the values. -/
structure Majorizes (value ratios : Fin n → ℝ) : Prop where
  one_le : ∀ i, 1 ≤ ratios i
  antitone : Antitone ratios
  le : value ≤ ratios

/-- The largest of the values from a position on, one if they are all below. -/
noncomputable def suffixMaximum (value : Fin n → ℝ) (i : Fin n) : ℝ :=
  max 1 ((Finset.Ici i).sup' Finset.nonempty_Ici value)

theorem le_suffixMaximum (value : Fin n → ℝ) {i j : Fin n} (hij : i ≤ j) :
    value j ≤ suffixMaximum value i :=
  (Finset.le_sup' value (Finset.mem_Ici.mpr hij)).trans (le_max_right _ _)

theorem suffixMaximum_le_iff {value : Fin n → ℝ} {i : Fin n} {bound : ℝ} :
    suffixMaximum value i ≤ bound ↔ 1 ≤ bound ∧ ∀ j, i ≤ j → value j ≤ bound := by
  unfold suffixMaximum
  rw [max_le_iff, Finset.sup'_le_iff]
  simp only [Finset.mem_Ici]

theorem majorizes_suffixMaximum (value : Fin n → ℝ) : Majorizes value (suffixMaximum value) where
  one_le _ := le_max_left _ _
  antitone i j hij := by
    rw [suffixMaximum_le_iff]
    constructor
    · exact le_max_left _ _
    · intro k hk
      exact le_suffixMaximum value (hij.trans hk)
  le _ := le_suffixMaximum value le_rfl

/-- Nothing smaller is a majorant, since it may not increase towards a larger value. -/
theorem isLeast_suffixMaximum (value : Fin n → ℝ) :
    IsLeast {ratios | Majorizes value ratios} (suffixMaximum value) := by
  refine ⟨majorizes_suffixMaximum value, fun ratios hratios i => ?_⟩
  rw [suffixMaximum_le_iff]
  constructor
  · exact hratios.one_le i
  · intro j hij
    exact (hratios.le j).trans (hratios.antitone hij)

/-- Values that are a majorant of themselves stay as they are. -/
theorem suffixMaximum_eq_self {value : Fin n → ℝ} (hone : ∀ i, 1 ≤ value i)
    (hanti : Antitone value) : suffixMaximum value = value :=
  (isLeast_suffixMaximum value).unique
    ⟨⟨hone, hanti, le_rfl⟩, fun _ hratios => hratios.le⟩

end Majorant

/-! ## The way forward -/

/-- The values of the closed form, kept at one or more. A correlation below the one before it has no
gain. -/
theorem unorderedRatios_real {high last : ℝ} {cost : ℕ → ℝ} {n : ℕ} (hhigh : 0 < high)
    (hlast : last < 1) (hcost : ∀ i < n, 0 < cost i) (before : ℝ) (rho : ℕ → ℝ) :
    unorderedRatios (real high) (real last) (real before)
        ((List.range n).map fun i => real (rho i)) ((List.range n).map fun i => real (cost i)) =
      (List.range n).map fun i =>
        real (max 1 √(high / cost i * max 0 (gain before rho i) / (1 - last))) := by
  induction n generalizing before rho cost with
  | zero => rfl
  | succ n ih =>
    have hfirst := hcost 0 n.succ_pos
    have hgap : 0 < 1 - last := sub_pos.mpr hlast
    have hnonneg : 0 ≤ high / cost 0 * max 0 (rho 0 - before) / (1 - last) :=
      div_nonneg (mul_nonneg (div_pos hhigh hfirst).le (le_max_left _ _)) hgap.le
    -- the gains of the other models start from the first one
    have hshift : ∀ i, gain (rho 0) (fun i => rho (i + 1)) i = gain before rho (i + 1) := by
      rintro (_ | i) <;> rfl
    have hrest := @ih (fun i => cost (i + 1)) (fun i hi => hcost (i + 1) (by omega)) (rho 0)
      fun i => rho (i + 1)
    simp only [hshift] at hrest
    rw [List.range_succ_eq_map]
    simp only [List.map_cons, List.map_map, Function.comp_def, unorderedRatios, Nat.succ_eq_add_one]
    rw [hrest, zero_eq, one_eq, real_sub, real_sub, larger_real, max_comm _ (0 : ℝ),
      real_div hfirst.ne', real_mul, real_div hgap.ne', sqrt_real hnonneg, larger_real,
      max_comm _ (1 : ℝ)]
    rfl

/-! ## The way back -/

/-- The value at a position is replaced by the greatest one that is left. -/
theorem exists_suffixMaxima_real (xs : List ℝ) :
    ∃ maxima : List ℝ, maxima.length = xs.length ∧
      suffixMaxima (xs.map real) = maxima.map real ∧
      ∀ i greatest, maxima[i]? = some greatest → IsGreatest {x | x ∈ xs.drop i} greatest := by
  induction xs with
  | nil => exact ⟨[], rfl, rfl, fun i greatest h => by simp at h⟩
  | cons x rest ih =>
    obtain ⟨maxima, hlength, hmaxima, hgreatest⟩ := ih
    cases maxima with
    | nil =>
      obtain rfl : rest = [] := List.length_eq_zero_iff.mp hlength.symm
      refine ⟨[x], rfl, rfl, fun i greatest h => ?_⟩
      obtain ⟨rfl, rfl⟩ : i = 0 ∧ x = greatest := by simpa [List.getElem?_singleton] using h
      simp
    | cons next later =>
      refine ⟨max x next :: next :: later, by simpa using hlength, ?_, ?_⟩
      · rw [List.map_cons, suffixMaxima, hmaxima, List.map_cons]
        dsimp only
        rw [larger_real]
        rfl
      · intro i greatest h
        cases i with
        | zero =>
          obtain rfl : max x next = greatest := by simpa using h
          -- only the first value is new
          have hinsert := (hgreatest 0 next rfl).insert x
          simpa [Set.insert_def] using hinsert
        | succ i => exact hgreatest i greatest h

/-! ## The ratios along an order -/

/-- The ratio that the closed form has at a position, where no gain is negative. -/
noncomputable def gainRatio (order : ModelOrder) (rhos cs : List ℝ) (i : ℕ) : ℝ :=
  √(cs.getD rhos.length 0 / cs.getD (order.model i) 0 *
      max 0 (gain 0 (fun i => rhos.getD (order.model i) 0) i) /
    (1 - rhos.getD (order.model (rhos.length - 1)) 0))

theorem getLastD_gather {order : ModelOrder} {count : ℕ} (hcount : 0 < count) (xs : List ℝ) :
    (order.gather count (xs.map real)).getLastD 0 =
      real (xs.getD (order.model (count - 1)) 0) := by
  obtain ⟨k, rfl⟩ := Nat.exists_eq_succ_of_ne_zero hcount.ne'
  rw [gather_map_real order _ xs 1, List.range_succ, List.map_append, List.map_singleton,
    List.getLastD_concat, ModelOrder.ladder_of_lt k.lt_succ_self, Nat.succ_sub_one]

section Sequence

variable {order : ModelOrder} {rhos cs : List ℝ} (horder : order.Valid rhos.length)
  (hlength : cs.length = rhos.length + 1) (hcosts : ∀ c ∈ cs, 0 < c)
  (hlast : rhos.getD (order.model (rhos.length - 1)) 0 < 1)
include horder hlength hcosts hlast

theorem unorderedRatios_gather :
    unorderedRatios ((⟨cs.map real⟩ : Costs ExactReal).ofModel rhos.length)
        ((order.gather rhos.length (rhos.map real)).getLastD 0) 0
        (order.gather rhos.length (rhos.map real)) (order.gather rhos.length (cs.map real)) =
      ((List.range rhos.length).map fun i => max 1 (gainRatio order rhos cs i)).map real := by
  have hcost : ∀ i < rhos.length, 0 < order.ladder rhos.length (cs.getD · 0) 1 i := by
    intro i hi
    rw [ModelOrder.ladder_of_lt hi]
    exact getD_pos hlength hcosts (horder.model_lt hi).le
  have hhigh : 0 < cs.getD rhos.length 0 := getD_pos hlength hcosts le_rfl
  rcases rhos.length.eq_zero_or_pos with hzero | hpos
  · rw [hzero]
    rfl
  · have hunordered := unorderedRatios_real hhigh hlast hcost 0
      (order.ladder rhos.length (rhos.getD · 0) 1)
    rw [← gather_map_real, ← gather_map_real] at hunordered
    rw [Costs.ofModel_real, getLastD_gather hpos, zero_eq, hunordered, List.map_map]
    refine List.map_congr_left fun i hi => ?_
    have hi := List.mem_range.mp hi
    rw [gain_ladder hi, ModelOrder.ladder_of_lt hi]
    rfl

/-- The model at a position has the largest value of the closed form from there on. -/
theorem getElem?_sequenceRatios (i : Fin rhos.length) :
    (sequenceRatios (rhos.map real) ⟨cs.map real⟩ order)[order.model i]? =
      some (real (suffixMaximum (fun j : Fin rhos.length => gainRatio order rhos cs j) i)) := by
  let clamped := (List.range rhos.length).map fun i => max 1 (gainRatio order rhos cs i)
  have hclamped : clamped.length = rhos.length := by simp [clamped]
  obtain ⟨maxima, hcount, hmaxima, hgreatest⟩ := exists_suffixMaxima_real clamped
  have hratios : sequenceRatios (rhos.map real) ⟨cs.map real⟩ order =
      order.scatter (maxima.map real) := by
    rw [sequenceRatios_eq_scatter (by rwa [List.length_map]), List.length_map]
    dsimp only
    rw [unorderedRatios_gather horder hlength hcosts hlast, hmaxima]
  have hi : (i : ℕ) < (maxima.map real).length := by
    rw [List.length_map, hcount, hclamped]
    exact i.isLt
  have hmodel : order.model i < (maxima.map real).length := by
    rw [List.length_map, hcount, hclamped]
    exact horder.model_lt i.isLt
  have hi' : (i : ℕ) < maxima.length := by rwa [List.length_map] at hi
  rw [hratios, ModelOrder.getElem?_scatter order hmodel, horder.position_model i.isLt,
    List.getD_eq_getElem _ _ hi, List.getElem_map]
  -- both are the greatest of the values from the position on
  have hcomputed := hgreatest i maxima[i] (List.getElem?_eq_getElem hi')
  refine congrArg (some ∘ real) (hcomputed.unique ⟨?_, ?_⟩)
  · obtain ⟨j, hj, hvalue⟩ := Finset.exists_mem_eq_sup' Finset.nonempty_Ici
      fun j : Fin rhos.length => gainRatio order rhos cs j
    have hij : i ≤ j := Finset.mem_Ici.mp hj
    refine List.mem_drop_iff_getElem.mpr ⟨j - i, ?_, ?_⟩
    · rw [hclamped]
      omega
    · simp only [clamped, List.getElem_map, List.getElem_range]
      rw [suffixMaximum, hvalue, Nat.add_sub_cancel' hij]
  · intro x hx
    obtain ⟨k, hk, rfl⟩ := List.mem_drop_iff_getElem.mp hx
    rw [hclamped, add_comm] at hk
    have hle := le_suffixMaximum (fun j : Fin rhos.length => gainRatio order rhos cs j)
      (show i ≤ ⟨i + k, hk⟩ from Nat.le_add_right _ _)
    simp only [clamped, List.getElem_map, List.getElem_range]
    exact max_le (le_max_left _ _) hle

/-- A bound on the closed form is one on the ratios. -/
theorem sequenceRatios_le {bound : ℝ} (hone : 1 ≤ bound)
    (hbound : ∀ i < rhos.length, gainRatio order rhos cs i ≤ bound) :
    ∀ ratio ∈ sequenceRatios (rhos.map real) ⟨cs.map real⟩ order, ratio ≤ real bound := by
  intro ratio hratio
  obtain ⟨model, hmodel, rfl⟩ := List.mem_iff_getElem.mp hratio
  have hlt : model < rhos.length := by simpa [length_sequenceRatios] using hmodel
  obtain ⟨i, hi, rfl⟩ := List.mem_map.mp (horder.mem_along.mpr hlt)
  have hvalue := getElem?_sequenceRatios horder hlength hcosts hlast ⟨i, List.mem_range.mp hi⟩
  rw [List.getElem?_eq_getElem hmodel, Option.some_inj] at hvalue
  rw [hvalue, real_le_real, suffixMaximum_le_iff]
  exact ⟨hone, fun j _ => hbound j j.isLt⟩

end Sequence

/-- The ratios of one QoI are nested whatever its squared correlations and the costs are. Over real
numbers, with a last squared correlation below one and positive costs, the model at each position
has the largest value of the closed form from there on, or one, and no other ratios of one or more
that do not increase and are nowhere below the closed form are smaller anywhere. -/
theorem sequenceRatios_isLeast {numApprox : ℕ} {order : ModelOrder}
    (horder : order.Valid numApprox) :
    (∀ (rhoSq : List ExactReal) (costs : Costs ExactReal), rhoSq.length = numApprox →
      order.Nested numApprox (sequenceRatios rhoSq costs order)) ∧
    ∀ rhos cs : List ℝ, rhos.length = numApprox → cs.length = numApprox + 1 →
      (∀ c ∈ cs, 0 < c) → rhos.getD (order.model (numApprox - 1)) 0 < 1 →
      let closed : Fin numApprox → ℝ := fun i => gainRatio order rhos cs i
      (∀ i : Fin numApprox,
        (sequenceRatios (rhos.map real) ⟨cs.map real⟩ order)[order.model i]? =
          some (real (suffixMaximum closed i))) ∧
        IsLeast {ratios | Majorizes closed ratios} (suffixMaximum closed) := by
  constructor
  · rintro rhoSq costs rfl
    exact nested_sequenceRatios horder costs
  · rintro rhos cs rfl hlength hcosts hlast closed
    constructor
    · exact getElem?_sequenceRatios horder hlength hcosts hlast
    · exact isLeast_suffixMaximum closed

/-- Along an order that starts with the second model the closed form has the values one and two, and
both models get the ratio two. -/
theorem sequenceRatios_isLeast_pair :
    ModelOrder.Valid [1, 0] 2 ∧
      sequenceRatios ([1 / 2, 1 / 4].map real) ⟨[1, 4, 8].map real⟩ [1, 0] = [real 2, real 2] ∧
      suffixMaximum (fun i : Fin 2 => gainRatio [1, 0] [1 / 2, 1 / 4] [1, 4, 8] i) 0 = 2 := by
  have horder : ModelOrder.Valid [1, 0] 2 := Or.inr (by decide)
  have hlength :
      (sequenceRatios ([1 / 2, 1 / 4].map real) ⟨[1, 4, 8].map real⟩ [1, 0]).length = 2 :=
    length_sequenceRatios _ _ _
  have hzero : gainRatio [1, 0] [1 / 2, 1 / 4] [1, 4, 8] 0 = 1 := by
    rw [gainRatio, Real.sqrt_eq_one]
    norm_num [ModelOrder.model, gain]
  have hone : gainRatio [1, 0] [1 / 2, 1 / 4] [1, 4, 8] 1 = 2 := by
    rw [gainRatio, Real.sqrt_eq_iff_eq_sq _ zero_le_two] <;>
      norm_num [ModelOrder.model, gain]
  obtain ⟨hvalue, -⟩ := (sequenceRatios_isLeast horder).2 [1 / 2, 1 / 4] [1, 4, 8] rfl rfl
    (by norm_num) (by norm_num [ModelOrder.model])
  -- the value of the second position is the largest one from the first position on as well
  have hmaximum : ∀ i : Fin 2,
      suffixMaximum (fun i : Fin 2 => gainRatio [1, 0] [1 / 2, 1 / 4] [1, 4, 8] i) i = 2 := by
    intro i
    apply le_antisymm
    · rw [suffixMaximum_le_iff]
      refine ⟨one_le_two, fun j _ => ?_⟩
      fin_cases j
      · exact hzero.trans_le one_le_two
      · exact hone.le
    · have hle := le_suffixMaximum (fun i : Fin 2 => gainRatio [1, 0] [1 / 2, 1 / 4] [1, 4, 8] i)
        (Fin.le_last i)
      exact hone.symm.trans_le hle
  have hratio : ∀ i : Fin 2, (sequenceRatios ([1 / 2, 1 / 4].map real) ⟨[1, 4, 8].map real⟩
      [1, 0])[ModelOrder.model [1, 0] i]? = some (real 2) := by
    intro i
    rw [hvalue i, hmaximum i]
  refine ⟨horder, ?_, hmaximum 0⟩
  refine List.ext_getElem? fun model => ?_
  rcases model with _ | _ | model
  · exact hratio 1
  · exact hratio 0
  · exact List.getElem?_eq_none (hlength.trans_le (Nat.le_add_left 2 model))

end Multifidelity
