import Multifidelity.Proofs.Estimate.Moments
import Multifidelity.Proofs.Sums.Pyramid
import Multifidelity.Proofs.Transcript

/-!
# Real values of responses

The power sums of a run are those of the real values in its responses. Joint samples are the
responses at which every model has a value, and the values of a low-fidelity model go on, one by
one, with those of its refinements.

## Main definitions

* `Dimensions.values`, `Dimensions.jointSamples`: the real values in responses
* `PyramidSums.Tallies`: a pyramid that has the tallies of given values
* `addValues`: the values after a refinement

## Main results

* `JointSums.measuresPowers_foldl_addResponse`: the sums of the responses on all models
* `PyramidSums.tallies_ofJoint`: the tallies before any refinement
* `rawMoments_of_tallies`: the moments that are estimated with given tallies
* `PyramidSums.Tallies.refine`: the tallies after a refinement
-/

namespace Multifidelity

open ExactReal

/-! ## Values -/

namespace Dimensions

variable {dims : Dimensions} {response : Response ExactReal} {model qoi : ℕ}

/-- The value of a model at a QoI as a real number, none if the evaluation failed. -/
noncomputable def real? (dims : Dimensions) (response : Response ExactReal) (model qoi : ℕ) :
    Option ℝ :=
  (dims.value? response model qoi).map toReal

/-- The values of a model at a QoI, without failed evaluations. -/
noncomputable def values (dims : Dimensions) (responses : List (Response ExactReal))
    (model qoi : ℕ) : List ℝ :=
  responses.filterMap (dims.real? · model qoi)

/-- The values of all models at a QoI, zero for a failed evaluation. -/
noncomputable def sample (dims : Dimensions) (qoi : ℕ) (response : Response ExactReal) :
    RealSample where
  low := (List.range dims.numApprox).map fun model => (dims.real? response model qoi).getD 0
  high := (dims.real? response dims.numApprox qoi).getD 0

/-- The values of all models at a QoI, for the responses at which all of them have one. -/
noncomputable def jointSamples (dims : Dimensions) (responses : List (Response ExactReal))
    (qoi : ℕ) : List RealSample :=
  (responses.filter fun response => dims.IsJoint response qoi).map (dims.sample qoi)

theorem value?_eq_map_real? :
    dims.value? response model qoi = (dims.real? response model qoi).map real := by
  unfold real?
  cases hvalue : dims.value? response model qoi with
  | none => rfl
  | some value =>
    obtain ⟨x, rfl⟩ := (isFinite_iff value).mp ((value?_eq_some_iff dims).mp hvalue).2
    rfl

theorem values_append (first second : List (Response ExactReal)) :
    dims.values (first ++ second) model qoi =
      dims.values first model qoi ++ dims.values second model qoi :=
  List.filterMap_append

theorem length_jointSamples (responses : List (Response ExactReal)) :
    (dims.jointSamples responses qoi).length =
      responses.countP fun response => dims.IsJoint response qoi := by
  rw [jointSamples, List.length_map, ← List.countP_eq_length_filter]

/-- A response at which all models have values is a joint sample of these values. -/
theorem joint?_of_isJoint (h : dims.IsJoint response qoi) :
    dims.joint? response qoi = some (dims.sample qoi response).toJoint := by
  -- no value is missing, so that none is replaced by zero
  have hvalue : ∀ model ≤ dims.numApprox, dims.value? response model qoi =
      some (real ((dims.real? response model qoi).getD 0)) := by
    intro model hmodel
    obtain ⟨value, hvalue⟩ := Option.isSome_iff_exists.mp (h model hmodel)
    rw [value?_eq_map_real?] at hvalue ⊢
    obtain ⟨x, hx, -⟩ := Option.map_eq_some_iff.mp hvalue
    rw [hx]
    rfl
  refine joint?_eq_some_iff.mpr ⟨?_, hvalue _ le_rfl⟩
  rw [RealSample.toJoint, sample, List.map_map, List.map_map]
  exact List.map_congr_left fun model hmodel => hvalue model (List.mem_range.mp hmodel).le

theorem filterMap_joint? (responses : List (Response ExactReal)) :
    responses.filterMap (dims.joint? · qoi) =
      (dims.jointSamples responses qoi).map RealSample.toJoint := by
  rw [jointSamples, List.map_map]
  exact filterMap_joint?_eq_map (fun _ => joint?_of_isJoint) responses

end Dimensions

/-! ## Sums over responses -/

namespace JointSums

/-- The sums of responses on all models measure the joint samples of each QoI. -/
theorem exists_measuresPowers {m : ℕ} (dims : Dimensions) (responses : List (Response ExactReal)) :
    ∃ sums : ℕ → QoiSums ExactReal (m + 1),
      (responses.foldl addResponse (empty dims)).qois =
        (List.range dims.numFunctions).map sums ∧
      ∀ qoi, (sums qoi).MeasuresPowers dims.numApprox (dims.jointSamples responses qoi) := by
  refine ⟨_, qois_foldl_addResponse_empty fun qoi _ =>
    dims.filterMap_joint? responses, fun qoi => ?_⟩
  refine QoiSums.measuresPowers_empty.foldl_add fun sample hsample => ?_
  obtain ⟨response, -, rfl⟩ := List.mem_map.mp hsample
  simp [Dimensions.sample]

end JointSums

/-! ## Tallies of a pyramid -/

/-- Values by QoI and model, with those of a batch added for some models. -/
noncomputable def addValues (dims : Dimensions) (isAdded : ℕ → Bool)
    (values : ℕ → ℕ → List ℝ) (batch : Batch ExactReal) (qoi model : ℕ) : List ℝ :=
  values qoi model ++ if isAdded model then dims.values batch model qoi else []

theorem addValues_cons (dims : Dimensions) (isAdded : ℕ → Bool) (values : ℕ → ℕ → List ℝ)
    (response : Response ExactReal) (batch : Batch ExactReal) :
    addValues dims isAdded values (response :: batch) =
      addValues dims isAdded (addValues dims isAdded values [response]) batch := by
  funext qoi model
  unfold addValues
  split
  · rw [List.append_assoc, ← Dimensions.values_append, List.singleton_append]
  · simp

namespace PyramidSums

/-- A pyramid that has the tallies of given values by QoI and model. -/
structure Tallies (dims : Dimensions) (sharedValues refinedValues : ℕ → ℕ → List ℝ)
    (pyramid : PyramidSums ExactReal) : Prop where
  dims_eq : pyramid.dims = dims
  qois : pyramid.qois = (List.range dims.numFunctions).map fun qoi =>
    (List.range dims.numApprox).map fun model =>
      ⟨.ofValues (sharedValues qoi model), .ofValues (refinedValues qoi model)⟩

variable {dims : Dimensions} {sharedValues refinedValues : ℕ → ℕ → List ℝ}
  {pyramid : PyramidSums ExactReal}

/-- Before any refinement the values are those of the joint samples. -/
theorem tallies_ofJoint (dims : Dimensions) (responses : List (Response ExactReal)) :
    let jointValues := fun qoi model => (dims.jointSamples responses qoi).map (·.value model)
    (ofJoint (responses.foldl JointSums.addResponse (.empty dims))).Tallies dims jointValues
      jointValues where
  dims_eq := JointSums.dims_foldl_addResponse _ _
  qois := by
    obtain ⟨sums, hsums, hmeasures⟩ := JointSums.exists_measuresPowers (m := 3) dims responses
    rw [ofJoint, hsums, List.map_map]
    refine List.map_congr_left fun qoi _ => ?_
    rw [Function.comp_apply, (hmeasures qoi).pairs, List.map_map]
    refine List.map_congr_left fun model _ => ?_
    -- the sums of the joint samples are power sums of the values of each model
    have htally : (⟨(sums qoi).count, (Vector.ofFn fun order : Fin 4 =>
        powerPair (dims.jointSamples responses qoi) (order + 1) model).map PairSums.low⟩ :
          Tally ExactReal) = .ofValues ((dims.jointSamples responses qoi).map (·.value model)) := by
      rw [Tally.ofValues, (hmeasures qoi).count, List.length_map]
      congr 1
      ext order horder
      simp [powerPair, Function.comp_def]
    exact congrArg (fun tally => (⟨tally, tally⟩ : NestedTally ExactReal)) htally

/-- The counts of a model are the numbers of its values. -/
theorem Tallies.refinedCounts (h : pyramid.Tallies dims sharedValues refinedValues) {model : ℕ}
    (hmodel : model < dims.numApprox) :
    pyramid.refinedCounts model =
      (List.range dims.numFunctions).map fun qoi => (refinedValues qoi model).length := by
  rw [PyramidSums.refinedCounts, countsOf, h.qois, List.map_map]
  refine List.map_congr_left fun qoi _ => ?_
  simp [hmodel, Tally.ofValues]

end PyramidSums

/-- The moments of joint samples, corrected by the values that a pyramid has tallied. No tally has
fewer values than there are joint samples. -/
theorem rawMoments_of_tallies {dims : Dimensions} {sharedValues refinedValues : ℕ → ℕ → List ℝ}
    {pyramid : PyramidSums ExactReal} (h : pyramid.Tallies dims sharedValues refinedValues)
    {responses : List (Response ExactReal)}
    (hshared : ∀ qoi model,
      (dims.jointSamples responses qoi).length ≤ (sharedValues qoi model).length)
    (hrefined : ∀ qoi model,
      (dims.jointSamples responses qoi).length ≤ (refinedValues qoi model).length)
    {moments : List (Vector ExactReal 4)}
    (hmoments : (rawMoments (responses.foldl JointSums.addResponse (.empty dims))
      pyramid).outcome = .ok moments) :
    moments = (List.range dims.numFunctions).map fun qoi => .ofFn fun order =>
      real (estimatedMoment dims.numApprox (dims.jointSamples responses qoi) (sharedValues qoi)
        (refinedValues qoi) (order + 1)) := by
  obtain ⟨sums, hsums, hmeasures⟩ := JointSums.exists_measuresPowers (m := 3) dims responses
  obtain ⟨hcounts, hmoments⟩ := rawMoments_eq_ok hmoments
  rw [hsums, h.qois, List.zip_map'] at hcounts hmoments
  rw [hmoments, List.map_map]
  refine List.map_congr_left fun qoi hqoi => congrArg Vector.ofFn (funext fun order => ?_)
  -- every QoI has a joint sample, so that no mean is empty
  have hpos : 0 < (dims.jointSamples responses qoi).length := by
    have hcount := hcounts _ (List.mem_map_of_mem hqoi)
    rw [(hmeasures qoi).count] at hcount
    exact Nat.pos_of_ne_zero hcount
  apply (hmeasures qoi).moment_eq (List.ne_nil_of_length_pos hpos)
  · intro model _
    exact List.ne_nil_of_length_pos (hpos.trans_le (hshared qoi model))
  · intro model _
    exact List.ne_nil_of_length_pos (hpos.trans_le (hrefined qoi model))

/-! ## Refinements -/

/-- The positions of a model among the first ones: there is one if the model is listed there, and
it is the last of them if the model is listed last. -/
theorem ModelOrder.Valid.positions {order : ModelOrder} {numApprox stop : ℕ}
    (h : order.Valid numApprox) (hstop : stop ≤ numApprox) (model : ℕ) :
    if model ∈ order.along stop then
      ∃ i, (List.range' 0 (stop - 0)).filter (order.model · == model) = [i] ∧
        (i + 1 < stop ↔ (order.along stop).getLast? ≠ some model)
    else (List.range' 0 (stop - 0)).filter (order.model · == model) = [] := by
  split
  · rename_i hmem
    obtain ⟨i, hi, rfl⟩ := List.mem_map.mp hmem
    have hi := List.mem_range.mp hi
    refine ⟨i, h.filter_model hstop hi, ?_⟩
    -- the last model is the one at the last position
    obtain ⟨last, rfl⟩ : ∃ last, stop = last + 1 := ⟨stop - 1, by omega⟩
    rw [along, List.range_succ, List.map_append, List.map_singleton, List.getLast?_concat,
      ne_eq, Option.some_inj]
    constructor
    · intro hlt heq
      have hsame := h.model_injective (by omega) (by omega) heq
      omega
    · intro hne
      have : i ≠ last := fun heq => hne (congrArg order.model heq.symm)
      omega
  · rename_i hmem
    refine List.filter_eq_nil_iff.mpr fun position hposition heq => hmem ?_
    rw [Nat.sub_zero, ← List.range_eq_range'] at hposition
    rw [← beq_iff_eq.mp heq]
    exact List.mem_map_of_mem hposition

namespace PyramidSums

variable {dims : Dimensions} {sharedValues refinedValues : ℕ → ℕ → List ℝ}
  {pyramid : PyramidSums ExactReal} {order : ModelOrder} {stop : ℕ}

/-- A response adds its values to the models that are listed, and to the shared ones of those that
are not listed last. -/
theorem Tallies.addResponse (h : pyramid.Tallies dims sharedValues refinedValues)
    (horder : order.Valid dims.numApprox) (hstop : stop ≤ dims.numApprox)
    (response : Response ExactReal) {call : Call} {iteration samples : ℕ}
    (hcall : call = .approx iteration (order.along stop) samples) :
    (pyramid.addResponse order 0 stop response).Tallies dims
      (addValues dims (Call.listsBeforeLast · call) sharedValues [response])
      (addValues dims (Call.lists · call) refinedValues [response]) where
  dims_eq := h.dims_eq
  qois := by
    rw [PyramidSums.addResponse, h.qois, mapIdx_map_range]
    refine List.map_congr_left fun qoi _ => ?_
    rw [mapIdx_map_range]
    refine List.map_congr_left fun model _ => ?_
    rw [h.dims_eq, Dimensions.value?_eq_map_real?]
    cases hreal : dims.real? response model qoi with
    | none => simp [addValues, Dimensions.values, hreal]
    | some x =>
      -- the value counts once, at the only position of the model, if it has one
      have hpositions := horder.positions hstop model
      rw [Option.map_some]
      dsimp only
      split at hpositions
      · rename_i hmem
        obtain ⟨i, hposition, hlast⟩ := hpositions
        rw [hposition, List.foldl_cons, List.foldl_nil, NestedTally.add, hcall]
        by_cases hlt : i + 1 < stop
        · have hne := hlast.mp hlt
          simp [addValues, Dimensions.values, hreal, hlt, Call.lists, Call.listsBeforeLast, hmem,
            hne, Tally.add_ofValues]
        · have heq := not_not.mp (hlast.not.mp hlt)
          simp [addValues, Dimensions.values, hreal, hlt, Call.lists, Call.listsBeforeLast, hmem,
            heq, Tally.add_ofValues]
      · rename_i hmem
        rw [hpositions, hcall]
        simp [addValues, Call.lists, Call.listsBeforeLast, hmem]

/-- A batch adds its values to the models that are listed, and to the shared ones of those that are
not listed last. -/
theorem Tallies.refine (h : pyramid.Tallies dims sharedValues refinedValues)
    (horder : order.Valid dims.numApprox) (hstop : stop ≤ dims.numApprox)
    {batch : Batch ExactReal} {call : Call} {iteration samples : ℕ}
    (hcall : call = .approx iteration (order.along stop) samples)
    {result : PyramidSums ExactReal} (hresult : pyramid.refine order 0 stop batch = .ok result) :
    result.Tallies dims (addValues dims (Call.listsBeforeLast · call) sharedValues batch)
      (addValues dims (Call.lists · call) refinedValues batch) := by
  obtain ⟨-, rfl⟩ := refine_eq_ok_iff.mp hresult
  clear hresult
  induction batch generalizing pyramid sharedValues refinedValues with
  | nil =>
    have hnone : ∀ isAdded values, addValues dims isAdded values [] = values := by
      intro isAdded values
      funext qoi model
      simp [addValues, Dimensions.values]
    rwa [hnone, hnone]
  | cons response batch ih =>
    rw [addValues_cons dims (Call.listsBeforeLast · call), addValues_cons dims (Call.lists · call)]
    exact ih (h.addResponse horder hstop response hcall)

end PyramidSums

end Multifidelity
