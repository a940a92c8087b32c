import Multifidelity.Proofs.ExactReal
import Multifidelity.Proofs.Sums.Pyramid

/-!
# Draws on the first positions of an order

A pyramid grows by batches of responses, each on the models of a prefix of the model order. Whatever
the batches are, and in whatever order they come, a model has tallied its joint values, then every
value that a draw has for it. All of these are shared, but for those of the draws that end with the
model.

## Main definitions

* `Draw`: a batch of responses on the models at the first positions
* `PyramidSums.offer`: the state of a pyramid after a draw, which may be refused
* `Draw.valuesBeyond`: the values that a draw adds to the models which it reaches
* `PyramidSums.NestedOver`: values on top of joint samples
* `PyramidSums.ChainedAt`: how the values of neighbouring models relate

## Main results

* `PyramidSums.tally?_offer`: what one draw adds to a model
* `PyramidSums.tally?_foldl_offer`: what any draws add
* `PyramidSums.foldl_offer_filter`: draws that are refused change nothing
* `nestedOver_of_draws`: draws keep the samples of the models nested
-/

namespace Multifidelity

variable {α : Type} [Scalar α]

/-! ## Tallies -/

namespace Tally

/-- The tally with more values. -/
def addAll (tally : Tally α) (values : List α) : Tally α :=
  values.foldl add tally

@[simp] theorem addAll_nil (tally : Tally α) : tally.addAll [] = tally :=
  rfl

theorem addAll_append (tally : Tally α) (first second : List α) :
    tally.addAll (first ++ second) = (tally.addAll first).addAll second :=
  List.foldl_append

@[simp] theorem count_addAll (tally : Tally α) (values : List α) :
    (tally.addAll values).count = tally.count + values.length := by
  induction values generalizing tally with
  | nil => rfl
  | cons value values ih =>
    show ((tally.add value).addAll values).count = _
    rw [ih, List.length_cons]
    show tally.count + 1 + values.length = tally.count + (values.length + 1)
    omega

end Tally

/-- The tally of a low-fidelity model at the joint samples of a QoI. -/
def JointSums.tally? (sums : JointSums α 4) (qoi model : ℕ) : Option (Tally α) :=
  sums.qois[qoi]?.bind fun qoiSums =>
    qoiSums.pairs[model]?.map fun pairs => ⟨qoiSums.count, pairs.map PairSums.low⟩

/-- The tallies of a model at a QoI. -/
def PyramidSums.tally? (sums : PyramidSums α) (qoi model : ℕ) : Option (NestedTally α) :=
  sums.qois[qoi]?.bind (·[model]?)

/-! ## Draws -/

/-- A batch of responses on the models at the positions before `stop`. -/
structure Draw (α : Type) where
  /-- The first position that is left out. -/
  stop : ℕ
  /-- The responses. -/
  batch : Batch α

namespace Draw

/-- Whether all responses have the right length. -/
def Accepted (dims : Dimensions) (draw : Draw α) : Prop :=
  ∀ response ∈ draw.batch, response.length = dims.responseLength

instance (dims : Dimensions) (draw : Draw α) : Decidable (draw.Accepted dims) :=
  inferInstanceAs (Decidable (∀ response ∈ draw.batch, _))

/-- The values of a model in a draw that is accepted and goes on beyond a position. -/
def valuesBeyond (dims : Dimensions) (position model qoi : ℕ) (draw : Draw α) : List α :=
  if draw.Accepted dims ∧ position < draw.stop then
    draw.batch.filterMap (dims.value? · model qoi)
  else []

/-- The number of values of a model in the draws that go on beyond a position. -/
def countBeyond (dims : Dimensions) (draws : List (Draw α)) (position model qoi : ℕ) : ℕ :=
  (draws.flatMap (valuesBeyond dims position model qoi)).length

/-- Whatever goes on beyond a position goes on beyond the one before it. -/
theorem countBeyond_succ_le (dims : Dimensions) (draws : List (Draw α)) (position model qoi : ℕ) :
    countBeyond dims draws (position + 1) model qoi ≤
      countBeyond dims draws position model qoi := by
  unfold countBeyond
  rw [List.length_flatMap, List.length_flatMap]
  refine List.sum_le_sum fun draw _ => ?_
  unfold valuesBeyond
  by_cases hbeyond : draw.Accepted dims ∧ position + 1 < draw.stop
  · rw [if_pos hbeyond, if_pos ⟨hbeyond.1, by omega⟩]
  · rw [if_neg hbeyond]
    exact Nat.zero_le _

/-- A draw in which no evaluation failed at a QoI. -/
def FiniteAt (dims : Dimensions) (order : ModelOrder) (qoi : ℕ) (draw : Draw α) : Prop :=
  ∀ response ∈ draw.batch, ∀ position < draw.stop,
    (dims.value? response (order.model position) qoi).isSome

/-- The number of responses in the accepted draws that go on beyond a position. -/
def responsesBeyond (dims : Dimensions) (draws : List (Draw α)) (position : ℕ) : ℕ :=
  (draws.map fun draw =>
    if draw.Accepted dims ∧ position < draw.stop then draw.batch.length else 0).sum

omit [Scalar α] in
theorem responsesBeyond_antitone (dims : Dimensions) (draws : List (Draw α)) :
    Antitone (responsesBeyond dims draws) := by
  intro i j hij
  refine List.sum_le_sum fun draw _ => ?_
  by_cases hbeyond : draw.Accepted dims ∧ j < draw.stop
  · rw [if_pos hbeyond, if_pos ⟨hbeyond.1, by omega⟩]
  · rw [if_neg hbeyond]
    exact Nat.zero_le _

/-- If no evaluation failed there is a value per response for every model up to the position. -/
theorem countBeyond_eq_responsesBeyond {dims : Dimensions} {order : ModelOrder} {qoi : ℕ}
    {draws : List (Draw α)}
    (h : ∀ draw ∈ draws, draw.Accepted dims → draw.FiniteAt dims order qoi) {i position : ℕ}
    (hi : i ≤ position) :
    countBeyond dims draws position (order.model i) qoi = responsesBeyond dims draws position := by
  unfold countBeyond responsesBeyond
  rw [List.length_flatMap]
  refine congrArg List.sum (List.map_congr_left fun draw hdraw => ?_)
  unfold valuesBeyond
  split
  · rename_i hbeyond
    rw [List.length_filterMap_eq_countP, List.countP_eq_length]
    exact fun response hresponse => h draw hdraw hbeyond.1 response hresponse i (by omega)
  · rfl

end Draw

namespace PyramidSums

variable {dims : Dimensions} {sums : PyramidSums α} {order : ModelOrder} {stop i qoi model : ℕ}

/-- The state of a pyramid after a draw, whether it has been accepted or refused. -/
def offer (order : ModelOrder) (sums : PyramidSums α) (draw : Draw α) : PyramidSums α :=
  ((absorb order 0 draw.stop draw.batch).on sums).2

theorem offer_eq (order : ModelOrder) (sums : PyramidSums α) (draw : Draw α) :
    sums.offer order draw = if draw.Accepted sums.dims then
      draw.batch.foldl (addResponse order 0 draw.stop) sums else sums := by
  rw [offer, on_absorb]
  cases hcheck : sums.dims.check draw.batch with
  | ok => exact (if_pos (sums.dims.check_eq_ok_iff.mp hcheck)).symm
  | error failure =>
    refine (if_neg fun haccepted => ?_).symm
    rw [sums.dims.check_eq_ok_iff.mpr haccepted] at hcheck
    cases hcheck

theorem Sized.offer (h : sums.Sized dims) (draw : Draw α) : (sums.offer order draw).Sized dims := by
  rw [offer_eq]
  split
  · rename_i haccepted
    exact h.refine (refine_eq_ok_iff.mpr ⟨haccepted, rfl⟩)
  · exact h

omit [Scalar α] in
theorem getElem?_countsOf {part : NestedTally α → Tally α} {tally : NestedTally α}
    (h : sums.tally? qoi model = some tally) :
    (sums.countsOf part model)[qoi]? = some (part tally).count := by
  obtain ⟨models, hmodels, hmodel⟩ := Option.bind_eq_some_iff.mp h
  simp [countsOf, hmodels, hmodel]

omit [Scalar α] in
/-- Before any draw all values are those of the joint samples. -/
theorem tally?_ofJoint (baseline : JointSums α 4) (qoi model : ℕ) :
    (ofJoint baseline).tally? qoi model =
      (baseline.tally? qoi model).map fun tally => ⟨tally, tally⟩ := by
  unfold tally? JointSums.tally? ofJoint
  rw [List.getElem?_map]
  cases baseline.qois[qoi]? with
  | none => rfl
  | some qoiSums => simp [Function.comp_def]

/-! ## One draw -/

/-- The value of a response counts for the models that it is drawn for, and as a shared one for all
of them but the last. -/
theorem tally?_addResponse (h : sums.Sized dims) (horder : order.Valid dims.numApprox)
    (hstop : stop ≤ dims.numApprox) (hi : i < dims.numApprox) (response : Response α) :
    (sums.addResponse order 0 stop response).tally? qoi (order.model i) =
      (sums.tally? qoi (order.model i)).map fun tally =>
        let values := (dims.value? response (order.model i) qoi).toList
        ⟨tally.shared.addAll (if i + 1 < stop then values else []),
          tally.refined.addAll (if i < stop then values else [])⟩ := by
  unfold tally? addResponse
  rw [List.getElem?_mapIdx]
  cases sums.qois[qoi]? with
  | none => rfl
  | some models =>
    rw [Option.map_some, Option.bind_some, Option.bind_some, List.getElem?_mapIdx, h.dims_eq]
    congr 1
    funext tally
    cases dims.value? response (order.model i) qoi with
    | none => simp
    | some value =>
      by_cases hlt : i < stop
      · -- the model has one position in the range
        simp only [horder.filter_model hstop hlt]
        by_cases hshared : i + 1 < stop <;> simp [NestedTally.add, Tally.addAll, hlt, hshared]
      · have hshared : ¬ i + 1 < stop := by omega
        simp only [horder.filter_model_of_le hi (not_lt.mp hlt)]
        simp [hlt, hshared]

/-- The values of responses count for the models that they are drawn for, and as shared ones for all
of them but the last. -/
theorem tally?_foldl_addResponse (h : sums.Sized dims) (horder : order.Valid dims.numApprox)
    (hstop : stop ≤ dims.numApprox) (hi : i < dims.numApprox) (batch : Batch α) :
    (batch.foldl (addResponse order 0 stop) sums).tally? qoi (order.model i) =
      (sums.tally? qoi (order.model i)).map fun tally =>
        let values := batch.filterMap (dims.value? · (order.model i) qoi)
        ⟨tally.shared.addAll (if i + 1 < stop then values else []),
          tally.refined.addAll (if i < stop then values else [])⟩ := by
  induction batch generalizing sums with
  | nil => simp
  | cons response batch ih =>
    rw [List.foldl_cons, ih (h.addResponse response), tally?_addResponse h horder hstop hi,
      Option.map_map]
    congr 1
    funext tally
    -- the value of the first response comes before those of the others
    have hvalues : (response :: batch).filterMap (dims.value? · (order.model i) qoi) =
        (dims.value? response (order.model i) qoi).toList ++
          batch.filterMap (dims.value? · (order.model i) qoi) := by
      rw [List.filterMap_cons]
      cases dims.value? response (order.model i) qoi <;> rfl
    simp only [Function.comp_apply, ← Tally.addAll_append, hvalues]
    split <;> split <;> simp

/-- A draw adds its values to the models that it reaches, and to the shared values of those behind
which there is another one. -/
theorem tally?_offer (h : sums.Sized dims) (horder : order.Valid dims.numApprox) (draw : Draw α)
    (hstop : draw.stop ≤ dims.numApprox) (hi : i < dims.numApprox) :
    (sums.offer order draw).tally? qoi (order.model i) =
      (sums.tally? qoi (order.model i)).map fun tally =>
        ⟨tally.shared.addAll (draw.valuesBeyond dims (i + 1) (order.model i) qoi),
          tally.refined.addAll (draw.valuesBeyond dims i (order.model i) qoi)⟩ := by
  rw [offer_eq, h.dims_eq]
  by_cases haccepted : draw.Accepted dims
  · rw [if_pos haccepted, tally?_foldl_addResponse h horder hstop hi]
    simp [Draw.valuesBeyond, haccepted]
  · rw [if_neg haccepted]
    simp [Draw.valuesBeyond, haccepted]

/-! ## All draws -/

variable {draws : List (Draw α)}

/-- A model has tallied the values of all draws that reach it, and as shared ones those of the draws
that go on beyond it. -/
theorem tally?_foldl_offer (h : sums.Sized dims) (horder : order.Valid dims.numApprox)
    (hstop : ∀ draw ∈ draws, draw.stop ≤ dims.numApprox) (hi : i < dims.numApprox) (qoi : ℕ) :
    (draws.foldl (offer order) sums).tally? qoi (order.model i) =
      (sums.tally? qoi (order.model i)).map fun tally =>
        ⟨tally.shared.addAll (draws.flatMap (·.valuesBeyond dims (i + 1) (order.model i) qoi)),
          tally.refined.addAll (draws.flatMap (·.valuesBeyond dims i (order.model i) qoi))⟩ := by
  induction draws generalizing sums with
  | nil => simp
  | cons draw draws ih =>
    obtain ⟨hfirst, hrest⟩ := List.forall_mem_cons.mp hstop
    rw [List.foldl_cons, ih (h.offer draw) hrest, tally?_offer h horder draw hfirst hi,
      Option.map_map]
    simp [Function.comp_def, Tally.addAll_append]

/-- Draws that are refused might as well not have been made. -/
theorem foldl_offer_filter (h : sums.Sized dims) (draws : List (Draw α)) :
    (draws.filter fun draw => draw.Accepted dims).foldl (offer order) sums =
      draws.foldl (offer order) sums := by
  induction draws generalizing sums with
  | nil => rfl
  | cons draw draws ih =>
    rw [List.filter_cons, List.foldl_cons, ← ih (h.offer draw)]
    by_cases haccepted : draw.Accepted dims
    · rw [if_pos (decide_eq_true haccepted), List.foldl_cons]
    · rw [if_neg (by simpa using haccepted), offer_eq, h.dims_eq, if_neg haccepted]

/-! ## Nested samples -/

/-- The values in a pyramid on top of the joint samples of a baseline, nested along an order. -/
structure NestedOver (dims : Dimensions) (baseline : JointSums α 4) (order : ModelOrder)
    (sums : PyramidSums α) : Prop where
  /-- No model has lost a joint sample, and its shared values are among its values. -/
  counts : ∀ model < dims.numApprox, ∀ qoi < dims.numFunctions, ∃ joint shared refined,
    baseline.counts[qoi]? = some joint ∧ (sums.sharedCounts model)[qoi]? = some shared ∧
      (sums.refinedCounts model)[qoi]? = some refined ∧ joint ≤ shared ∧ shared ≤ refined
  /-- The last model shares nothing but the joint samples, with the same number and sums. -/
  last : ∀ position, position + 1 = dims.numApprox → ∀ qoi < dims.numFunctions, ∃ tally,
    sums.tally? qoi (order.model position) = some tally ∧
      baseline.tally? qoi (order.model position) = some tally.shared

/-- A pyramid without failed evaluations at a QoI: a model shares all values of the model behind
it. -/
structure ChainedAt (dims : Dimensions) (order : ModelOrder) (qoi : ℕ) (sums : PyramidSums α) :
    Prop where
  /-- The shared values of a model are as many as all values of the next one. -/
  shared_eq : ∀ position, position + 1 < dims.numApprox → ∃ count,
    (sums.sharedCounts (order.model position))[qoi]? = some count ∧
      (sums.refinedCounts (order.model (position + 1)))[qoi]? = some count
  /-- A model does not have more values than one before it. -/
  antitone : ∀ i j, i ≤ j → j < dims.numApprox → ∃ countAt countBehind,
    (sums.refinedCounts (order.model i))[qoi]? = some countAt ∧
      (sums.refinedCounts (order.model j))[qoi]? = some countBehind ∧ countBehind ≤ countAt

omit [Scalar α] in
/-- The shared tally at the start is the one of the joint samples, which all models have in
common. -/
theorem exists_joint_count {baseline : JointSums α 4} (hbaseline : baseline.Sized dims)
    (horder : order.Valid dims.numApprox) (hqoi : qoi < dims.numFunctions) :
    ∃ joint, baseline.counts[qoi]? = some joint ∧ ∀ i < dims.numApprox, ∃ powers,
      baseline.tally? qoi (order.model i) = some ⟨joint, powers⟩ := by
  have hqoi' : qoi < baseline.qois.length := hbaseline.length_qois ▸ hqoi
  refine ⟨baseline.qois[qoi].count, by simp [JointSums.counts, hqoi'], fun i hi => ?_⟩
  have hmodel : order.model i < baseline.qois[qoi].pairs.length := by
    rw [hbaseline.length_pairs _ (List.getElem_mem hqoi')]
    exact horder.model_lt hi
  exact ⟨baseline.qois[qoi].pairs[order.model i].map PairSums.low,
    by simp [JointSums.tally?, hqoi', hmodel]⟩

/-- After any draws on a baseline a model has the values of these draws besides the joint
samples. -/
theorem exists_counts_foldl_offer {baseline : JointSums α 4} (hbaseline : baseline.Sized dims)
    (horder : order.Valid dims.numApprox) (hstop : ∀ draw ∈ draws, draw.stop ≤ dims.numApprox)
    (hqoi : qoi < dims.numFunctions) :
    let last := draws.foldl (offer order) (ofJoint baseline)
    ∃ joint, baseline.counts[qoi]? = some joint ∧ ∀ i < dims.numApprox,
      (last.sharedCounts (order.model i))[qoi]? =
        some (joint + Draw.countBeyond dims draws (i + 1) (order.model i) qoi) ∧
      (last.refinedCounts (order.model i))[qoi]? =
        some (joint + Draw.countBeyond dims draws i (order.model i) qoi) := by
  intro last
  obtain ⟨joint, hjoint, htallies⟩ := exists_joint_count hbaseline horder hqoi
  refine ⟨joint, hjoint, fun i hi => ?_⟩
  obtain ⟨powers, htally⟩ := htallies i hi
  have hlast := tally?_foldl_offer (sized_ofJoint hbaseline) horder hstop hi qoi
  rw [tally?_ofJoint, htally, Option.map_some, Option.map_some] at hlast
  constructor
  · rw [sharedCounts, getElem?_countsOf hlast, Tally.count_addAll]
    rfl
  · rw [refinedCounts, getElem?_countsOf hlast, Tally.count_addAll]
    rfl

theorem nestedOver_foldl_offer {baseline : JointSums α 4} (hbaseline : baseline.Sized dims)
    (horder : order.Valid dims.numApprox) (hstop : ∀ draw ∈ draws, draw.stop ≤ dims.numApprox) :
    (draws.foldl (offer order) (ofJoint baseline)).NestedOver dims baseline order := by
  constructor
  case counts =>
    intro model hmodel qoi hqoi
    obtain ⟨i, hi, rfl⟩ := List.mem_map.mp (horder.mem_along.mpr hmodel)
    obtain ⟨joint, hjoint, hcounts⟩ := exists_counts_foldl_offer hbaseline horder hstop hqoi
    obtain ⟨hshared, hrefined⟩ := hcounts i (List.mem_range.mp hi)
    refine ⟨_, _, _, hjoint, hshared, hrefined, Nat.le_add_right _ _, ?_⟩
    apply Nat.add_le_add_left
    exact Draw.countBeyond_succ_le dims draws i _ qoi
  case last =>
    intro position hposition qoi hqoi
    have hi : position < dims.numApprox := by omega
    obtain ⟨joint, -, htallies⟩ := exists_joint_count hbaseline horder hqoi
    obtain ⟨powers, htally⟩ := htallies position hi
    have hlast := tally?_foldl_offer (sized_ofJoint hbaseline) horder hstop hi qoi
    rw [tally?_ofJoint, htally, Option.map_some, Option.map_some] at hlast
    -- no draw goes on beyond the last position
    have hnone : draws.flatMap (·.valuesBeyond dims (position + 1) (order.model position) qoi) =
        [] := by
      refine List.flatMap_eq_nil_iff.mpr fun draw hdraw => if_neg ?_
      rintro ⟨-, hlt⟩
      have hle := hstop draw hdraw
      omega
    refine ⟨_, hlast, ?_⟩
    rw [hnone]
    exact htally

theorem chainedAt_foldl_offer {baseline : JointSums α 4} (hbaseline : baseline.Sized dims)
    (horder : order.Valid dims.numApprox) (hstop : ∀ draw ∈ draws, draw.stop ≤ dims.numApprox)
    (hqoi : qoi < dims.numFunctions)
    (hfinite : ∀ draw ∈ draws, draw.Accepted dims → draw.FiniteAt dims order qoi) :
    (draws.foldl (offer order) (ofJoint baseline)).ChainedAt dims order qoi := by
  obtain ⟨joint, -, hcounts⟩ := exists_counts_foldl_offer hbaseline horder hstop hqoi
  constructor
  case shared_eq =>
    intro position hposition
    obtain ⟨hshared, -⟩ := hcounts position (by omega)
    obtain ⟨-, hrefined⟩ := hcounts (position + 1) hposition
    rw [Draw.countBeyond_eq_responsesBeyond hfinite (Nat.le_succ _)] at hshared
    rw [Draw.countBeyond_eq_responsesBeyond hfinite le_rfl] at hrefined
    exact ⟨_, hshared, hrefined⟩
  case antitone =>
    intro i j hij hj
    obtain ⟨-, hat⟩ := hcounts i (hij.trans_lt hj)
    obtain ⟨-, hbehind⟩ := hcounts j hj
    rw [Draw.countBeyond_eq_responsesBeyond hfinite le_rfl] at hat hbehind
    refine ⟨_, _, hat, hbehind, ?_⟩
    apply Nat.add_le_add_left
    exact Draw.responsesBeyond_antitone dims draws hij

end PyramidSums

/-- Draws on prefixes of an order, in any sequence, keep the samples of the models nested on top of
a baseline, and a draw that is refused changes nothing. At a QoI where no evaluation of an accepted
draw failed, every model shares all values of the model behind it. -/
theorem nestedOver_of_draws {dims : Dimensions} {baseline : JointSums α 4} {order : ModelOrder}
    {draws : List (Draw α)} (hbaseline : baseline.Sized dims) (horder : order.Valid dims.numApprox)
    (hstop : ∀ draw ∈ draws, draw.stop ≤ dims.numApprox) :
    let last := draws.foldl (PyramidSums.offer order) (.ofJoint baseline)
    last.NestedOver dims baseline order ∧
      last = (draws.filter fun draw => draw.Accepted dims).foldl (PyramidSums.offer order)
        (.ofJoint baseline) ∧
      ∀ qoi < dims.numFunctions,
        (∀ draw ∈ draws, draw.Accepted dims → draw.FiniteAt dims order qoi) →
          last.ChainedAt dims order qoi :=
  ⟨PyramidSums.nestedOver_foldl_offer hbaseline horder hstop,
    (PyramidSums.foldl_offer_filter (PyramidSums.sized_ofJoint hbaseline) draws).symm,
    fun _ hqoi hfinite =>
      PyramidSums.chainedAt_foldl_offer hbaseline horder hstop hqoi hfinite⟩

/-! ## An example -/

open ExactReal

/-- The sums of one joint sample of two low-fidelity models. -/
noncomputable def pairBaseline : JointSums ExactReal 4 :=
  (JointSums.empty ⟨2, 1⟩).addResponse [1, 0, 1]

/-- A draw on both models, one that is refused, and one on the first model of the order only. -/
noncomputable def pairDraws : List (Draw ExactReal) :=
  [⟨2, [[0, 1, nan]]⟩, ⟨2, [[1]]⟩, ⟨1, [[nan, 1, nan], [nan, 0, nan]]⟩]

/-- Three draws on two models in reversed order. -/
theorem nestedOver_pairDraws :
    pairBaseline.Sized ⟨2, 1⟩ ∧ ModelOrder.Valid [1, 0] 2 ∧ (∀ draw ∈ pairDraws, draw.stop ≤ 2) ∧
      let last := pairDraws.foldl (PyramidSums.offer [1, 0]) (.ofJoint pairBaseline)
      last.NestedOver ⟨2, 1⟩ pairBaseline [1, 0] ∧ last.ChainedAt ⟨2, 1⟩ [1, 0] 0 := by
  have hbaseline : pairBaseline.Sized ⟨2, 1⟩ := (JointSums.sized_empty _).addResponse _
  have horder : ModelOrder.Valid [1, 0] 2 := Or.inr (by decide)
  have hstop : ∀ draw ∈ pairDraws, draw.stop ≤ 2 := by simp [pairDraws]
  have hfinite : ∀ draw ∈ pairDraws, draw.Accepted ⟨2, 1⟩ → draw.FiniteAt ⟨2, 1⟩ [1, 0] 0 := by
    simp [pairDraws, Draw.Accepted, Draw.FiniteAt, Dimensions.responseLength, Dimensions.value?,
      ModelOrder.model, Scalar.isFinite]
    intro position hposition
    interval_cases position <;> simp
  obtain ⟨hnested, -, hchained⟩ := nestedOver_of_draws hbaseline horder hstop
  exact ⟨hbaseline, horder, hstop, hnested, hchained 0 Nat.zero_lt_one hfinite⟩

end Multifidelity
