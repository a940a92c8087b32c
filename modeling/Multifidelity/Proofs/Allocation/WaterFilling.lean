import Multifidelity.Proofs.Allocation.ProfileCost

/-!
# Scaling a profile to a budget

The rounds of `scaleToBudget` fix ratios at one and scale the others to the budget left. Over exact
scalars they end with a single factor: every ratio is multiplied by it and raised to one. If the
budget has room for unit ratios it is used up exactly.

## Main definitions

* `Slot.view`: a slot of the rounds, from its original ratio
* `factorOf`: the factor of a round
* `Fits`: what every round keeps
* `freeSlots`: the slots before the first round

## Main results

* `Fits.pin`: a round keeps `Fits` and does not raise the factor
* `rounds_eq`: the rounds raise the scaled ratios to one and use up the budget
* `scaleToBudget_eq`: so does the scaling
-/

namespace Multifidelity

namespace BudgetScaling

open ExactReal

/-! ## Slots with their original ratios -/

/-- The slot of the rounds that belongs to an original ratio: a fixed ratio is one. -/
noncomputable def Slot.view (slot : Slot ℝ) : Slot ExactReal :=
  ⟨real (if slot.isFixed then 1 else slot.ratio), real slot.cost, slot.isFixed⟩

/-- The slot, fixed if its ratio is not above one after the multiplication by `factor`. -/
noncomputable def Slot.pin (factor : ℝ) (slot : Slot ℝ) : Slot ℝ :=
  { slot with isFixed := slot.isFixed || decide (slot.ratio * factor ≤ 1) }

/-- The cost of the fixed slots per high-fidelity sample. -/
noncomputable def fixedSum (costHigh : ℝ) (slots : List (Slot ℝ)) : ℝ :=
  (slots.map fun slot => if slot.isFixed then slot.cost / costHigh else 0).sum

/-- The cost of the free slots per high-fidelity sample. -/
noncomputable def freeSum (costHigh : ℝ) (slots : List (Slot ℝ)) : ℝ :=
  (slots.map fun slot => if slot.isFixed then 0 else slot.cost * slot.ratio / costHigh).sum

/-- The cost of all slots per high-fidelity sample if every ratio is one. -/
noncomputable def unitSum (costHigh : ℝ) (slots : List (Slot ℝ)) : ℝ :=
  (slots.map fun slot => slot.cost / costHigh).sum

/-- The factor of a round. -/
noncomputable def factorOf (costHigh share : ℝ) (slots : List (Slot ℝ)) : ℝ :=
  (share - 1 - fixedSum costHigh slots) / freeSum costHigh slots

variable {costHigh share : ℝ} {slots : List (Slot ℝ)} {fuel : ℕ}

@[simp] theorem Slot.isFixed_view (slot : Slot ℝ) : slot.view.isFixed = slot.isFixed := rfl

@[simp] theorem Slot.isFixed_pin (factor : ℝ) (slot : Slot ℝ) :
    (slot.pin factor).isFixed = (slot.isFixed || decide (slot.ratio * factor ≤ 1)) := rfl

@[simp] theorem Slot.ratio_pin (factor : ℝ) (slot : Slot ℝ) :
    (slot.pin factor).ratio = slot.ratio := rfl

@[simp] theorem Slot.cost_pin (factor : ℝ) (slot : Slot ℝ) :
    (slot.pin factor).cost = slot.cost := rfl

theorem fixedCost_view (hhigh : costHigh ≠ 0) :
    fixedCost (real costHigh) (slots.map Slot.view) = real (fixedSum costHigh slots) := by
  have hmap : ((slots.map Slot.view).filter Slot.isFixed).map
      (fun slot => slot.cost / real costHigh) =
        ((slots.filter Slot.isFixed).map fun slot => slot.cost / costHigh).map real := by
    simp [List.filter_map, Function.comp_def, Slot.view, hhigh]
  rw [fixedCost, hmap, total_real, fixedSum, List.sum_map_ite]
  simp

theorem freeCost_view (hhigh : costHigh ≠ 0) :
    freeCost (real costHigh) (slots.map Slot.view) = real (freeSum costHigh slots) := by
  have hmap : ((slots.map Slot.view).filter fun slot => !slot.isFixed).map
      (fun slot => slot.cost * slot.ratio / real costHigh) =
        ((slots.filter fun slot => !slot.isFixed).map
          fun slot => slot.cost * slot.ratio / costHigh).map real := by
    rw [List.filter_map, List.map_map, List.map_map]
    refine List.map_congr_left fun slot hslot => ?_
    have hfree : slot.isFixed = false := by simpa using (List.mem_filter.mp hslot).2
    simp [Slot.view, hfree, hhigh]
  rw [freeCost, hmap, total_real, freeSum, List.sum_map_ite]
  simp

theorem Slot.scale_view (factor : ℝ) (slot : Slot ℝ) :
    slot.view.scale (real factor) =
      ⟨real (if (slot.pin factor).isFixed then 1 else slot.ratio * factor), real slot.cost,
        (slot.pin factor).isFixed⟩ := by
  by_cases hfixed : slot.isFixed
  · simp [Slot.scale, Slot.view, Slot.pin, hfixed]
  · by_cases hle : slot.ratio * factor ≤ 1 <;>
      simp [Slot.scale, Slot.view, Slot.pin, hfixed, hle]

/-- A slot that is still free gets its old ratio back. A factor of zero leaves no slot free. -/
theorem Slot.unscale_scale_view (factor : ℝ) (slot : Slot ℝ) :
    (slot.view.scale (real factor)).unscale (real factor) = (slot.pin factor).view := by
  rw [Slot.scale_view]
  cases hfixed : (slot.pin factor).isFixed
  · have hfactor : factor ≠ 0 := by
      rintro rfl
      simp at hfixed
    simp [-Slot.isFixed_pin, Slot.unscale, Slot.view, hfixed, hfactor]
  · simp [-Slot.isFixed_pin, Slot.unscale, Slot.view, hfixed]

/-! ## What a round keeps -/

/-- What every round keeps: the budget has room for unit ratios, the free slots cost something, and
every fixed ratio would not exceed one after the next multiplication. -/
structure Fits (costHigh share : ℝ) (slots : List (Slot ℝ)) : Prop where
  high_pos : 0 < costHigh
  cost_pos : ∀ slot ∈ slots, 0 < slot.cost
  room : unitSum costHigh slots < share - 1
  free_pos : 0 < freeSum costHigh slots
  pinned : ∀ slot ∈ slots, slot.isFixed → slot.ratio * factorOf costHigh share slots ≤ 1

theorem unitSum_pin (factor : ℝ) :
    unitSum costHigh (slots.map (Slot.pin factor)) = unitSum costHigh slots := by
  simp [unitSum, Function.comp_def]

theorem fixedSum_le_unitSum (hhigh : 0 < costHigh) (hcost : ∀ slot ∈ slots, 0 < slot.cost) :
    fixedSum costHigh slots ≤ unitSum costHigh slots := by
  refine List.sum_le_sum fun slot hslot => ?_
  have hunit : 0 ≤ slot.cost / costHigh := (div_pos (hcost slot hslot) hhigh).le
  split <;> simp [hunit]

theorem Fits.factor_pos (h : Fits costHigh share slots) : 0 < factorOf costHigh share slots := by
  have hfixed := fixedSum_le_unitSum h.high_pos h.cost_pos
  have hroom := h.room
  exact div_pos (by linarith) h.free_pos

/-- What the slots that a round fixes are charged covers at least what their scaled ratios would
cost. -/
theorem mul_freeSum_le (hhigh : 0 < costHigh) (hcost : ∀ slot ∈ slots, 0 < slot.cost)
    (factor : ℝ) :
    factor * freeSum costHigh slots + fixedSum costHigh slots ≤
      factor * freeSum costHigh (slots.map (Slot.pin factor)) +
        fixedSum costHigh (slots.map (Slot.pin factor)) := by
  simp only [freeSum, fixedSum, ← List.sum_map_mul_left, ← List.sum_map_add, List.map_map]
  refine List.sum_le_sum fun slot hslot => ?_
  have hunit : 0 < slot.cost / costHigh := div_pos (hcost slot hslot) hhigh
  cases hfixed : slot.isFixed
  · by_cases hle : slot.ratio * factor ≤ 1
    · have hcharge : factor * (slot.cost * slot.ratio / costHigh) =
          slot.cost / costHigh * (slot.ratio * factor) := by ring
      simpa [hfixed, hle, hcharge] using mul_le_of_le_one_right hunit.le hle
    · simp [hfixed, hle]
  · simp [hfixed]

/-- A round keeps what it relies on, and the factor of the next round is not larger. -/
theorem Fits.pin (h : Fits costHigh share slots) :
    Fits costHigh share (slots.map (Slot.pin (factorOf costHigh share slots))) ∧
      factorOf costHigh share (slots.map (Slot.pin (factorOf costHigh share slots))) ≤
        factorOf costHigh share slots := by
  have hpos := h.factor_pos
  have hfactor : factorOf costHigh share slots * freeSum costHigh slots =
      share - 1 - fixedSum costHigh slots := div_mul_cancel₀ _ h.free_pos.ne'
  have hcover := mul_freeSum_le h.high_pos h.cost_pos (factorOf costHigh share slots)
  have hpinned := h.pinned
  -- from here on the old factor is only known by these facts
  generalize factorOf costHigh share slots = factor at *
  have hcost : ∀ slot ∈ slots.map (Slot.pin factor), 0 < slot.cost := by
    simpa using h.cost_pos
  have hfixed := fixedSum_le_unitSum h.high_pos hcost
  have hroom : unitSum costHigh (slots.map (Slot.pin factor)) < share - 1 := by
    simpa [unitSum_pin] using h.room
  -- the budget left is positive, and the free slots would use more of it with the old factor
  have hleft : 0 < share - 1 - fixedSum costHigh (slots.map (Slot.pin factor)) := by linarith
  have hfree : 0 < freeSum costHigh (slots.map (Slot.pin factor)) := by
    have hmul : 0 < factor * freeSum costHigh (slots.map (Slot.pin factor)) := by linarith
    exact (mul_pos_iff_of_pos_left hpos).mp hmul
  have hnext : factorOf costHigh share (slots.map (Slot.pin factor)) ≤ factor := by
    rw [factorOf, div_le_iff₀ hfree]
    linarith
  refine ⟨⟨h.high_pos, hcost, hroom, hfree, ?_⟩, hnext⟩
  -- a slot that is fixed now had a ratio of at most one after the multiplication by the old factor
  have hnext_pos : 0 < factorOf costHigh share (slots.map (Slot.pin factor)) :=
    div_pos hleft hfree
  intro slot hslot hfixedNow
  obtain ⟨old, hold, rfl⟩ := List.mem_map.mp hslot
  have hle : old.ratio * factor ≤ 1 := by
    cases hfree : old.isFixed
    · simpa [hfree] using hfixedNow
    · exact hpinned old hold hfree
  rcases le_or_gt old.ratio 0 with hneg | hratio
  · exact (mul_nonpos_of_nonpos_of_nonneg hneg hnext_pos.le).trans zero_le_one
  · exact (mul_le_mul_of_nonneg_left hnext hratio.le).trans hle

/-! ## The rounds -/

theorem round_view (hhigh : 0 < costHigh) (hfree : 0 < freeSum costHigh slots) (share : ℝ) :
    round (real costHigh) (real share) (slots.map Slot.view) =
      if (slots.map (Slot.pin (factorOf costHigh share slots))).countP Slot.isFixed =
          slots.countP Slot.isFixed then
        (slots.map fun slot => slot.view.scale (real (factorOf costHigh share slots)), false)
      else ((slots.map (Slot.pin (factorOf costHigh share slots))).map Slot.view, true) := by
  -- the views have the factor and the numbers of fixed slots of the slots themselves
  have hf : factor (real costHigh) (real share) (slots.map Slot.view) =
      real (factorOf costHigh share slots) := by
    simp [factor, fixedCost_view hhigh.ne', freeCost_view hhigh.ne', hfree.ne', factorOf]
  have hscaled : ((slots.map Slot.view).map (Slot.scale (real (factorOf costHigh share slots)))
      ).countP Slot.isFixed =
        (slots.map (Slot.pin (factorOf costHigh share slots))).countP Slot.isFixed := by
    simp only [List.countP_map]
    refine List.countP_congr fun slot _ => ?_
    simp only [Function.comp_apply, Slot.scale_view]
  have hviews : (slots.map Slot.view).countP Slot.isFixed = slots.countP Slot.isFixed := by
    rw [List.countP_map]
    rfl
  rw [round, freeCost_view hhigh.ne', if_pos (by simpa using hfree)]
  simp only [hf]
  rw [hscaled, hviews]
  split
  · rw [List.map_map]
    rfl
  · simp only [List.map_map, Function.comp_def, Slot.unscale_scale_view]

theorem countP_le_countP_pin (factor : ℝ) (slots : List (Slot ℝ)) :
    slots.countP Slot.isFixed ≤ (slots.map (Slot.pin factor)).countP Slot.isFixed := by
  rw [List.countP_map]
  exact List.countP_mono_left fun slot _ hslot => by simp [hslot]

/-- A round that fixes no further slot finds every free ratio above one. -/
theorem lt_mul_of_countP_eq {factor : ℝ}
    (h : (slots.map (Slot.pin factor)).countP Slot.isFixed = slots.countP Slot.isFixed) :
    ∀ slot ∈ slots, slot.isFixed = false → 1 < slot.ratio * factor := by
  induction slots with
  | nil => simp
  | cons first slots ih =>
    have hmono := countP_le_countP_pin factor slots
    rw [List.map_cons, List.countP_cons, List.countP_cons, Slot.isFixed_pin] at h
    cases hfixed : first.isFixed
    · -- a first slot that is fixed now would raise the number of fixed ones
      by_cases hle : first.ratio * factor ≤ 1
      · simp only [hfixed, hle, decide_true, Bool.or_true, if_true, Bool.false_eq_true,
          if_false] at h
        omega
      · simp only [hfixed, hle, decide_false, Bool.or_false, Bool.false_eq_true, if_false,
          add_zero] at h
        simpa [hfixed, not_le.mp hle] using ih h
    · simp only [hfixed, Bool.true_or, if_true, Nat.add_right_cancel_iff] at h
      simpa [hfixed] using ih h

/-- The last round multiplies every ratio by its factor and raises it to one. The slots then cost
what the budget leaves for them. -/
theorem Fits.scale_eq (h : Fits costHigh share slots)
    (hlast : ∀ slot ∈ slots, slot.isFixed = false →
      1 < slot.ratio * factorOf costHigh share slots) :
    (slots.map fun slot => (slot.view.scale (real (factorOf costHigh share slots))).ratio) =
        slots.map (fun slot => real (max 1 (slot.ratio * factorOf costHigh share slots))) ∧
      (slots.map fun slot => slot.cost * max 1 (slot.ratio * factorOf costHigh share slots) /
        costHigh).sum = share - 1 := by
  constructor
  · refine List.map_congr_left fun slot hslot => ?_
    rw [Slot.scale_view]
    -- a free slot that is fixed now is charged one sample, which covers its scaled ratio
    cases hfixed : slot.isFixed
    · have hlt := hlast slot hslot hfixed
      simp [hfixed, not_le.mpr hlt, max_eq_right hlt.le]
    · simp [hfixed, max_eq_left (h.pinned slot hslot hfixed)]
  · have hfactor : factorOf costHigh share slots * freeSum costHigh slots =
        share - 1 - fixedSum costHigh slots := div_mul_cancel₀ _ h.free_pos.ne'
    have hsum : (slots.map fun slot => slot.cost *
        max 1 (slot.ratio * factorOf costHigh share slots) / costHigh).sum =
          factorOf costHigh share slots * freeSum costHigh slots + fixedSum costHigh slots := by
      rw [freeSum, fixedSum, ← List.sum_map_mul_left, ← List.sum_map_add]
      refine congrArg List.sum (List.map_congr_left fun slot hslot => ?_)
      cases hfixed : slot.isFixed
      · rw [max_eq_right (hlast slot hslot hfixed).le]
        simp
        ring
      · rw [max_eq_left (h.pinned slot hslot hfixed)]
        simp
    linarith

/-- The rounds multiply every ratio by one factor and raise it to one, and use up the budget. There
are enough of them, since each but the last fixes a slot. -/
theorem rounds_eq (h : Fits costHigh share slots)
    (hfuel : slots.length < fuel + slots.countP Slot.isFixed) :
    ∃ factor > 0, (rounds (real costHigh) (real share) fuel (slots.map Slot.view)).map Slot.ratio =
        slots.map (fun slot => real (max 1 (slot.ratio * factor))) ∧
      (slots.map fun slot => slot.cost * max 1 (slot.ratio * factor) / costHigh).sum =
        share - 1 := by
  induction fuel generalizing slots with
  | zero =>
    -- without a round left all slots would have to be fixed, and more
    have hle := List.countP_le_length (p := Slot.isFixed) (l := slots)
    omega
  | succ fuel ih =>
    have hround := round_view h.high_pos h.free_pos share
    by_cases hcount : (slots.map (Slot.pin (factorOf costHigh share slots))).countP Slot.isFixed =
        slots.countP Slot.isFixed
    · rw [if_pos hcount] at hround
      -- the last round: every free ratio is above one
      refine ⟨factorOf costHigh share slots, h.factor_pos, ?_⟩
      simp only [rounds, hround, List.map_map]
      exact h.scale_eq (lt_mul_of_countP_eq hcount)
    · rw [if_neg hcount] at hround
      -- a further slot is fixed, and the others start again from their original ratios
      have hmore := countP_le_countP_pin (factorOf costHigh share slots) slots
      obtain ⟨factor, hpos, hratios, hsum⟩ := ih h.pin.1 (by rw [List.length_map]; omega)
      refine ⟨factor, hpos, ?_, ?_⟩
      · simpa only [rounds, hround, List.map_map, Function.comp_def, Slot.ratio_pin] using hratios
      · simpa only [List.map_map, Function.comp_def, Slot.ratio_pin, Slot.cost_pin] using hsum

/-! ## The slots of a profile -/

/-- The slots before the first round, all free. -/
def freeSlots {α : Type} (ratios costs : List α) : List (Slot α) :=
  List.zipWith (fun ratio cost => ⟨ratio, cost, false⟩) ratios costs

section FreeSlots

variable {rs cs : List ℝ}

theorem mem_freeSlots {slot : Slot ℝ} (h : slot ∈ freeSlots rs cs) :
    slot.isFixed = false ∧ slot.ratio ∈ rs ∧ slot.cost ∈ cs := by
  obtain ⟨i, hi, rfl⟩ := List.mem_iff_getElem.mp h
  simp [freeSlots]

theorem length_freeSlots {α : Type} (ratios costs : List α) :
    (freeSlots ratios costs).length = min ratios.length costs.length :=
  List.length_zipWith

theorem countP_freeSlots {α : Type} (ratios costs : List α) :
    (freeSlots ratios costs).countP Slot.isFixed = 0 := by
  refine List.countP_eq_zero.mpr fun slot hslot => ?_
  obtain ⟨i, hi, rfl⟩ := List.mem_iff_getElem.mp hslot
  simp [freeSlots]

theorem map_view_freeSlots :
    (freeSlots rs cs).map Slot.view = freeSlots (rs.map real) (cs.map real) := by
  simp [freeSlots, List.map_zipWith, List.zipWith_map, Slot.view]

theorem unitSum_freeSlots :
    1 + unitSum costHigh (freeSlots rs cs) =
      profileCost costHigh (List.replicate rs.length 1) cs := by
  simp only [profileCost, unitSum, freeSlots, List.map_zipWith, ← List.map_const', mul_one,
    List.zipWith_map_left]

theorem freeSum_freeSlots :
    1 + freeSum costHigh (freeSlots rs cs) = profileCost costHigh rs cs := by
  simp [profileCost, freeSum, freeSlots, List.map_zipWith]

theorem map_freeSlots {β : Type} (hlen : rs.length ≤ cs.length) (f : ℝ → β) :
    (freeSlots rs cs).map (fun slot => f slot.ratio) = rs.map f := by
  apply List.ext_getElem <;> simp [freeSlots, hlen]

end FreeSlots

end BudgetScaling

open ExactReal BudgetScaling

/-- The scaling of real ratios is what the rounds make of their slots. -/
theorem scaleToBudget_real {rs : List ℝ} {high : ℝ} (hhigh : high ≠ 0) (cs : List ℝ)
    (budget : ℝ) :
    scaleToBudget (rs.map real) ⟨cs.map real⟩ (real high) (real budget) =
      (rounds (real (cs.getD rs.length 0)) (real (budget / high)) (rs.length + 1)
        ((freeSlots rs cs).map Slot.view)).map Slot.ratio := by
  rw [map_view_freeSlots, ← real_div hhigh, ← Costs.ofModel_real]
  unfold scaleToBudget freeSlots
  rw [List.length_map]

/-- Ratios that cost something are scaled to a budget with room for unit ratios by one factor and
raised to one. The samples with these companions then cost exactly the budget. -/
theorem scaleToBudget_eq {rs cs : List ℝ} {high budget : ℝ} (hlen : cs.length = rs.length + 1)
    (hcost : ∀ c ∈ cs, 0 < c) (hhigh : 0 < high)
    (hfree : 1 < profileCost (cs.getD rs.length 0) rs cs)
    (hroom : profileCost (cs.getD rs.length 0) (List.replicate rs.length 1) cs < budget / high) :
    ∃ factor > 0, scaleToBudget (rs.map real) ⟨cs.map real⟩ (real high) (real budget) =
        (rs.map fun r => max 1 (r * factor)).map real ∧
      profileCost (cs.getD rs.length 0) (rs.map fun r => max 1 (r * factor)) cs =
        budget / high := by
  have hcostHigh : 0 < cs.getD rs.length 0 := getD_pos hlen hcost le_rfl
  rw [scaleToBudget_real hhigh.ne']
  generalize cs.getD rs.length 0 = costHigh at *
  rw [← unitSum_freeSlots] at hroom
  rw [← freeSum_freeSlots] at hfree
  -- at the start no slot is fixed, so that there is nothing to ask of the fixed ones
  have hfits : Fits costHigh (budget / high) (freeSlots rs cs) :=
    { high_pos := hcostHigh
      cost_pos := fun slot hmem => hcost _ (mem_freeSlots hmem).2.2
      room := by linarith
      free_pos := by linarith
      pinned := fun slot hmem hfixed => by simp [(mem_freeSlots hmem).1] at hfixed }
  have hfuel : (freeSlots rs cs).length <
      rs.length + 1 + (freeSlots rs cs).countP Slot.isFixed := by
    rw [countP_freeSlots, length_freeSlots]
    omega
  obtain ⟨factor, hpos, hratios, hsum⟩ := rounds_eq hfits hfuel
  refine ⟨factor, hpos, ?_, ?_⟩
  · rw [hratios, map_freeSlots (by omega) fun r => real (max 1 (r * factor)), List.map_map,
      Function.comp_def]
  · rw [profileCost, List.zipWith_map_left]
    simp only [freeSlots, List.map_zipWith] at hsum
    linarith

end Multifidelity
