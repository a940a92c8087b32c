import Multifidelity.Proofs.Allocation.WaterFilling

/-!
# The rounds of a scaling

Nothing in the rounds of `scaleToBudget` bounds their number but that each of them fixes a slot or
is the last one. The loop ends for every budget: with the one factor that uses up the budget if unit
ratios fit into it, and with unit ratios otherwise.

## Main definitions

* `Loops`: the loop of the rounds, without a bound on their number

## Main results

* `loops_rounds`: the loop ends in the rounds that `scaleToBudget` allows
* `rounds_eq_one`: without room for more than unit ratios it ends with them
* `scaleToBudget_isWaterFilling`: what the scaling computes for positive ratios
-/

namespace Multifidelity

namespace BudgetScaling

/-! ## The loop -/

section Loop

variable {α : Type} [Scalar α]

/-- Rounds that start with the slots end in round `n` with the slots `final`. -/
inductive Loops (costHigh share : α) : List (Slot α) → ℕ → List (Slot α) → Prop
  /-- A round that fixes nothing is the last one. -/
  | last {slots final : List (Slot α)} (hround : round costHigh share slots = (final, false)) :
      Loops costHigh share slots 1 final
  /-- A round that fixes a slot is followed by another one. -/
  | again {slots next final : List (Slot α)} {n : ℕ}
      (hround : round costHigh share slots = (next, true))
      (hrest : Loops costHigh share next n final) : Loops costHigh share slots (n + 1) final

variable {costHigh share : α} {slots next : List (Slot α)} {fuel : ℕ}

theorem Slot.isFixed_scale {slot : Slot α} (factor : α) (h : slot.isFixed = true) :
    (slot.scale factor).isFixed = true := by
  simp [Slot.scale, h]

@[simp] theorem Slot.isFixed_unscale (slot : Slot α) (factor : α) :
    (slot.unscale factor).isFixed = slot.isFixed := by
  unfold Slot.unscale
  split <;> rfl

/-- A round that is not the last one keeps the slots and fixes more of them. -/
theorem countP_lt_of_round (h : round costHigh share slots = (next, true)) :
    next.length = slots.length ∧ slots.countP Slot.isFixed < next.countP Slot.isFixed := by
  have hmono : slots.countP Slot.isFixed ≤
      (slots.map (Slot.scale (factor costHigh share slots))).countP Slot.isFixed := by
    rw [List.countP_map]
    exact List.countP_mono_left fun slot _ hfixed => Slot.isFixed_scale _ hfixed
  unfold round at h
  split at h
  · dsimp only at h
    split at h
    · simp at h
    · rename_i hne
      obtain ⟨rfl, -⟩ := Prod.mk.inj h
      refine ⟨by simp, ?_⟩
      -- the slots that get their ratio back are those that are not fixed
      rw [List.countP_map, show Slot.isFixed ∘ Slot.unscale (factor costHigh share slots) =
        Slot.isFixed from funext fun slot => Slot.isFixed_unscale slot _]
      omega
  · simp at h

/-- The bound on the number of rounds cuts nothing off if it exceeds the number of free slots. -/
theorem loops_rounds (hfuel : slots.length < fuel + slots.countP Slot.isFixed) :
    ∃ n ≤ fuel, Loops costHigh share slots n (rounds costHigh share fuel slots) := by
  induction fuel generalizing slots with
  | zero =>
    have hle := List.countP_le_length (p := Slot.isFixed) (l := slots)
    omega
  | succ fuel ih =>
    rcases hround : round costHigh share slots with ⟨next, goesOn⟩
    cases goesOn with
    | false =>
      refine ⟨1, by omega, ?_⟩
      simp only [rounds, hround]
      exact Loops.last hround
    | true =>
      obtain ⟨hlength, hcount⟩ := countP_lt_of_round hround
      have hrest : next.length < fuel + next.countP Slot.isFixed := by omega
      obtain ⟨n, hn, hloops⟩ := ih hrest
      refine ⟨n + 1, by omega, ?_⟩
      simp only [rounds, hround]
      exact Loops.again hround hloops

end Loop

/-! ## Budgets without room for more than unit ratios -/

open ExactReal

variable {costHigh share : ℝ} {slots : List (Slot ℝ)} {fuel : ℕ}

/-- Free slots whose ratios exceed one after the scaling use more than unit ratios would. -/
theorem unitSum_lt (hhigh : 0 < costHigh) (hcost : ∀ slot ∈ slots, 0 < slot.cost) {factor : ℝ}
    (hfree : ∃ slot ∈ slots, slot.isFixed = false)
    (hlt : ∀ slot ∈ slots, slot.isFixed = false → 1 < slot.ratio * factor) :
    unitSum costHigh slots < factor * freeSum costHigh slots + fixedSum costHigh slots := by
  rw [freeSum, fixedSum, ← List.sum_map_mul_left, ← List.sum_map_add]
  have hcharge : ∀ slot ∈ slots, slot.isFixed = false →
      slot.cost / costHigh < factor * (slot.cost * slot.ratio / costHigh) := by
    intro slot hslot hfixed
    have hunit : 0 < slot.cost / costHigh := div_pos (hcost slot hslot) hhigh
    calc slot.cost / costHigh
        < slot.cost / costHigh * (slot.ratio * factor) :=
          lt_mul_of_one_lt_right hunit (hlt slot hslot hfixed)
      _ = factor * (slot.cost * slot.ratio / costHigh) := by ring
  refine List.sum_lt_sum _ _ (fun slot hslot => ?_) ?_
  · cases hfixed : slot.isFixed
    · simpa using (hcharge slot hslot hfixed).le
    · simp
  · obtain ⟨slot, hslot, hfixed⟩ := hfree
    exact ⟨slot, hslot, by simpa [hfixed] using hcharge slot hslot hfixed⟩

/-- Without a free slot the free ones cost nothing, and otherwise something. -/
theorem freeSum_pos_iff (hhigh : 0 < costHigh) (hcost : ∀ slot ∈ slots, 0 < slot.cost)
    (hratio : ∀ slot ∈ slots, 0 < slot.ratio) :
    0 < freeSum costHigh slots ↔ ∃ slot ∈ slots, slot.isFixed = false := by
  constructor
  · intro hpos
    by_contra hnone
    refine hpos.ne' (List.sum_eq_zero fun x hx => ?_)
    obtain ⟨slot, hslot, rfl⟩ := List.mem_map.mp hx
    exact if_pos (by simpa using fun hfixed => hnone ⟨slot, hslot, hfixed⟩)
  · rintro ⟨slot, hslot, hfixed⟩
    have hnonneg : ∀ x ∈ slots.map
        (fun slot => if slot.isFixed then 0 else slot.cost * slot.ratio / costHigh), 0 ≤ x := by
      intro x hx
      obtain ⟨slot, hslot, rfl⟩ := List.mem_map.mp hx
      have hc := hcost slot hslot
      have hr := hratio slot hslot
      split <;> positivity
    have hc := hcost slot hslot
    have hr := hratio slot hslot
    calc 0 < slot.cost * slot.ratio / costHigh := by positivity
      _ = if slot.isFixed then 0 else slot.cost * slot.ratio / costHigh := by simp [hfixed]
      _ ≤ freeSum costHigh slots := List.single_le_sum hnonneg _ (List.mem_map_of_mem hslot)

/-- Without room for more than unit ratios no round is the last one while a slot is free. -/
theorem rounds_eq_one (hhigh : 0 < costHigh) (hcost : ∀ slot ∈ slots, 0 < slot.cost)
    (hratio : ∀ slot ∈ slots, 0 < slot.ratio) (htight : share - 1 ≤ unitSum costHigh slots)
    (hfuel : slots.length < fuel + slots.countP Slot.isFixed) :
    (rounds (real costHigh) (real share) fuel (slots.map Slot.view)).map Slot.ratio =
      slots.map fun _ => real 1 := by
  induction fuel generalizing slots with
  | zero =>
    have hle := List.countP_le_length (p := Slot.isFixed) (l := slots)
    omega
  | succ fuel ih =>
    by_cases hfree : 0 < freeSum costHigh slots
    · have hround := round_view hhigh hfree share
      have hfactor : factorOf costHigh share slots * freeSum costHigh slots =
          share - 1 - fixedSum costHigh slots := div_mul_cancel₀ _ hfree.ne'
      generalize factorOf costHigh share slots = factor at *
      -- ratios above one for all free slots would need more budget than there is
      have hcount : (slots.map (Slot.pin factor)).countP Slot.isFixed ≠
          slots.countP Slot.isFixed := by
        intro hcount
        have hmore := unitSum_lt hhigh hcost ((freeSum_pos_iff hhigh hcost hratio).mp hfree)
          (lt_mul_of_countP_eq hcount)
        linarith
      have hmore := countP_le_countP_pin factor slots
      rw [if_neg hcount] at hround
      simp only [rounds, hround]
      rw [ih (by simpa using hcost) (by simpa using hratio) (by rwa [unitSum_pin])
        (by rw [List.length_map]; omega), List.map_map]
      rfl
    · -- all slots are fixed, and the loop returns them as they are
      have hround : round (real costHigh) (real share) (slots.map Slot.view) =
          (slots.map Slot.view, false) := by
        rw [round, freeCost_view hhigh.ne', if_neg (by simpa using hfree)]
      simp only [rounds, hround, List.map_map]
      refine List.map_congr_left fun slot hslot => ?_
      have hfixed : slot.isFixed = true := by
        by_contra hnot
        exact hfree ((freeSum_pos_iff hhigh hcost hratio).mpr ⟨slot, hslot, by simpa using hnot⟩)
      simp [Slot.view, hfixed]

end BudgetScaling

open ExactReal BudgetScaling

section Scaling

variable {rs cs : List ℝ} {high budget : ℝ}

/-- Positive ratios cost something. -/
theorem one_lt_profileCost (hne : rs ≠ []) (hratio : ∀ r ∈ rs, 0 < r)
    (hlen : cs.length = rs.length + 1) (hcost : ∀ c ∈ cs, 0 < c) :
    1 < profileCost (cs.getD rs.length 0) rs cs := by
  have hslots : freeSlots rs cs ≠ [] := by
    rw [← List.length_pos_iff, length_freeSlots, hlen]
    have hpos := List.length_pos_iff.mpr hne
    omega
  obtain ⟨slot, hslot⟩ := List.exists_mem_of_ne_nil _ hslots
  rw [← freeSum_freeSlots, lt_add_iff_pos_right]
  exact (freeSum_pos_iff (getD_pos hlen hcost le_rfl)
    (fun slot hmem => hcost _ (mem_freeSlots hmem).2.2)
    (fun slot hmem => hratio _ (mem_freeSlots hmem).2.1)).mpr
      ⟨slot, hslot, (mem_freeSlots hslot).1⟩

/-- A budget that does not exceed the cost of unit ratios turns all ratios into unit ratios. -/
theorem scaleToBudget_eq_one (hratio : ∀ r ∈ rs, 0 < r) (hlen : cs.length = rs.length + 1)
    (hcost : ∀ c ∈ cs, 0 < c) (hhigh : 0 < high)
    (htight : budget / high ≤
      profileCost (cs.getD rs.length 0) (List.replicate rs.length 1) cs) :
    scaleToBudget (rs.map real) ⟨cs.map real⟩ (real high) (real budget) =
      (List.replicate rs.length 1).map real := by
  rw [← unitSum_freeSlots] at htight
  have hfuel : (freeSlots rs cs).length <
      rs.length + 1 + (freeSlots rs cs).countP Slot.isFixed := by
    rw [countP_freeSlots, length_freeSlots]
    omega
  rw [scaleToBudget_real hhigh.ne',
    rounds_eq_one (getD_pos hlen hcost le_rfl) (fun slot hmem => hcost _ (mem_freeSlots hmem).2.2)
      (fun slot hmem => hratio _ (mem_freeSlots hmem).2.1) (by linarith) hfuel,
    map_freeSlots (by omega) fun _ => real 1, List.map_const', List.map_replicate]

/-- One factor multiplies all ratios before they are raised to one. The budget is used up exactly if
unit ratios fit into it, and otherwise they are what is left. -/
theorem exists_factor_scaleToBudget (hne : rs ≠ []) (hratio : ∀ r ∈ rs, 0 < r)
    (hlen : cs.length = rs.length + 1) (hcost : ∀ c ∈ cs, 0 < c) (hhigh : 0 < high)
    (budget : ℝ) :
    ∃ factor ≥ 0, scaleToBudget (rs.map real) ⟨cs.map real⟩ (real high) (real budget) =
        (rs.map fun r => max 1 (factor * r)).map real ∧
      if high * profileCost (cs.getD rs.length 0) (List.replicate rs.length 1) cs ≤ budget then
        high * profileCost (cs.getD rs.length 0) (rs.map fun r => max 1 (factor * r)) cs = budget
      else rs.map (fun r => max 1 (factor * r)) = List.replicate rs.length 1 := by
  have hones : (rs.map fun r => max 1 (0 * r)) = List.replicate rs.length 1 := by
    simp
  rcases lt_or_ge (profileCost (cs.getD rs.length 0) (List.replicate rs.length 1) cs)
    (budget / high) with hroom | htight
  · have hfree : 1 < profileCost (cs.getD rs.length 0) rs cs :=
      one_lt_profileCost hne hratio hlen hcost
    obtain ⟨factor, hpos, hscaled, hcost⟩ := scaleToBudget_eq hlen hcost hhigh hfree hroom
    simp only [mul_comm _ factor] at hscaled hcost
    refine ⟨factor, hpos.le, hscaled, ?_⟩
    rw [if_pos ((lt_div_iff₀' hhigh).mp hroom).le, hcost, mul_div_cancel₀ _ hhigh.ne']
  · refine ⟨0, le_rfl, ?_, ?_⟩
    · rw [scaleToBudget_eq_one hratio hlen hcost hhigh htight, hones]
    · rw [hones]
      split
      · exact le_antisymm ‹_› ((div_le_iff₀' hhigh).mp htight)
      · rfl

/-- Positive ratios are scaled to a budget as water fills a basin: the loop of the rounds ends, one
factor multiplies every ratio before it is raised to one, and the budget is used up exactly if
unit ratios fit into it. Otherwise they are what is left. The order of the ratios is kept. -/
theorem scaleToBudget_isWaterFilling (hne : rs ≠ []) (hratio : ∀ r ∈ rs, 0 < r)
    (hlen : cs.length = rs.length + 1) (hcost : ∀ c ∈ cs, 0 < c) (hhigh : 0 < high)
    (budget : ℝ) :
    ∃ scaled : List ℝ,
      scaleToBudget (rs.map real) ⟨cs.map real⟩ (real high) (real budget) = scaled.map real ∧
      (∃ n ≤ rs.length + 1, ∃ final, Loops (real (cs.getD rs.length 0)) (real budget / real high)
        (freeSlots (rs.map real) (cs.map real)) n final ∧
          final.map Slot.ratio = scaled.map real) ∧
      (∃ factor ≥ 0, scaled = rs.map fun r => max 1 (factor * r)) ∧
      (if high * profileCost (cs.getD rs.length 0) (List.replicate rs.length 1) cs ≤ budget then
        high * profileCost (cs.getD rs.length 0) scaled cs = budget
      else scaled = List.replicate rs.length 1) ∧
      ∀ i j, i < rs.length → j < rs.length → rs.getD i 0 ≤ rs.getD j 0 →
        scaled.getD i 0 ≤ scaled.getD j 0 := by
  obtain ⟨factor, hfactor, hscaled, hexact⟩ :=
    exists_factor_scaleToBudget hne hratio hlen hcost hhigh budget
  refine ⟨_, hscaled, ?_, ⟨factor, hfactor, rfl⟩, hexact, fun i j hi hj hle => ?_⟩
  · have hfuel : (freeSlots (rs.map real) (cs.map real)).length <
        rs.length + 1 + (freeSlots (rs.map real) (cs.map real)).countP Slot.isFixed := by
      rw [countP_freeSlots, length_freeSlots, List.length_map]
      omega
    obtain ⟨n, hn, hloops⟩ := loops_rounds hfuel
    refine ⟨n, hn, _, hloops, ?_⟩
    rw [← hscaled, scaleToBudget_real hhigh.ne', map_view_freeSlots, real_div hhigh.ne']
  · -- the factor is not negative, so that a larger ratio stays the larger one
    simp only [List.getD_eq_getElem _ 0 hi, List.getD_eq_getElem _ 0 hj] at hle
    rw [List.getD_eq_getElem _ 0 (by simpa using hi), List.getD_eq_getElem _ 0 (by simpa using hj),
      List.getElem_map, List.getElem_map]
    exact max_le_max le_rfl (mul_le_mul_of_nonneg_left hle hfactor)

/-- With a ratio of four and one of one the scaling to a budget of four has to fix the second. -/
theorem scaleToBudget_isWaterFilling_pair :
    ∃ scaled : List ℝ,
      scaleToBudget ([4, 1].map real) ⟨[1, 1, 1].map real⟩ (real 1) (real 4) = scaled.map real ∧
      (∃ factor ≥ 0, scaled = [4, 1].map fun r => max 1 (factor * r)) ∧
      profileCost 1 scaled [1, 1, 1] = 4 := by
  have hne : ([4, 1] : List ℝ) ≠ [] := by simp
  have hcost : ∀ c ∈ ([1, 1, 1] : List ℝ), 0 < c := by simp
  obtain ⟨scaled, hscaled, -, hfactor, hexact, -⟩ :=
    scaleToBudget_isWaterFilling hne (by simp) rfl hcost one_pos 4
  refine ⟨scaled, hscaled, hfactor, ?_⟩
  -- unit ratios cost three
  rw [if_pos (by norm_num [profileCost, List.replicate])] at hexact
  simpa using hexact

end Scaling

end Multifidelity
