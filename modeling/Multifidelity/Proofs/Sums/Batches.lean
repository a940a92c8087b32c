import Multifidelity.Proofs.Sums.FirstOrder

/-!
# Batch after batch

Sums take in batch after batch. A batch with a response of the wrong length is refused as a whole,
and the sums go on from where they were. In the end they run over the responses of all other
batches, from the first to the last, and at each QoI over those at which every model has a value
there.

## Main definitions

* `JointSums.offer`: the state of sums after a batch, which may be refused
* `Dimensions.accepted`: the responses of the batches that are not refused
* `JointSums.SumsOver`: sums over the responses that are joint samples
* `Dimensions.AgreeAt`: responses that agree at a QoI

## Main results

* `JointSums.on_absorb_eq_error_iff`: the response for which a batch is refused
* `JointSums.foldl_offer_eq`: the sums after any batches
* `JointSums.sumsOver_foldl_addResponse`: the sums of any responses
* `JointSums.sumsOver_batches`: what a list of batches comes to
-/

namespace Multifidelity

variable {α : Type}

/-! ## Responses -/

namespace Dimensions

variable {dims : Dimensions} {qoi : ℕ}

/-- Whether all responses of a batch have the right length. -/
def Accepts (dims : Dimensions) (batch : Batch α) : Prop :=
  ∀ response ∈ batch, response.length = dims.responseLength

instance (dims : Dimensions) (batch : Batch α) : Decidable (dims.Accepts batch) :=
  inferInstanceAs (Decidable (∀ response ∈ batch, _))

/-- The responses of the batches that are not refused. -/
def accepted (dims : Dimensions) (batches : List (Batch α)) : List (Response α) :=
  (batches.filter fun batch => dims.Accepts batch).flatten

theorem accepts_accepted (batches : List (Batch α)) : dims.Accepts (dims.accepted batches) := by
  intro response hresponse
  obtain ⟨batch, hbatch, hmem⟩ := List.mem_flatten.mp hresponse
  exact of_decide_eq_true (List.mem_filter.mp hbatch).2 response hmem

/-- Responses of the same length with the same values of all models at a QoI. -/
def AgreeAt (dims : Dimensions) (qoi : ℕ) (first second : Response α) : Prop :=
  first.length = second.length ∧ ∀ model ≤ dims.numApprox,
    first[model * dims.numFunctions + qoi]? = second[model * dims.numFunctions + qoi]?

/-- Batches of responses that agree at a QoI are accepted or refused alike. -/
theorem accepts_iff_of_agreeAt {first second : Batch α}
    (h : List.Forall₂ (dims.AgreeAt qoi) first second) :
    dims.Accepts first ↔ dims.Accepts second := by
  unfold Accepts
  induction h with
  | nil => rfl
  | cons hagree _ ih => rw [List.forall_mem_cons, List.forall_mem_cons, hagree.1, ih]

/-- What is accepted of batches that agree at a QoI agrees there. -/
theorem accepted_agreeAt {batches others : List (Batch α)}
    (h : List.Forall₂ (List.Forall₂ (dims.AgreeAt qoi)) batches others) :
    List.Forall₂ (dims.AgreeAt qoi) (dims.accepted batches) (dims.accepted others) := by
  refine List.rel_flatten (List.rel_filter (fun first second hagree => ?_) h)
  simpa using accepts_iff_of_agreeAt hagree

variable [Scalar α]

/-- The entry of a response for a model at a QoI. -/
def entry (dims : Dimensions) (response : Response α) (model qoi : ℕ) : α :=
  response.getD (model * dims.numFunctions + qoi) 0

/-- The entries of a response for all models at a QoI. -/
def entries (dims : Dimensions) (qoi : ℕ) (response : Response α) : JointSample α where
  low := (List.range dims.numApprox).map fun model => dims.entry response model qoi
  high := dims.entry response dims.numApprox qoi

theorem value?_eq_entry {response : Response α} {model : ℕ}
    (h : (dims.value? response model qoi).isSome) :
    dims.value? response model qoi = some (dims.entry response model qoi) := by
  obtain ⟨value, hvalue⟩ := Option.isSome_iff_exists.mp h
  have hget := ((value?_eq_some_iff dims).mp hvalue).1
  rw [hvalue, entry, List.getD_eq_getElem?_getD, hget, Option.getD_some]

/-- The joint samples consist of the entries of the responses at which no model failed. -/
theorem filterMap_joint?_eq_entries (responses : List (Response α)) :
    responses.filterMap (dims.joint? · qoi) =
      (responses.filter fun response => dims.IsJoint response qoi).map (dims.entries qoi) := by
  refine filterMap_joint?_eq_map (fun response hjoint => ?_) responses
  have hvalue := fun model hmodel => value?_eq_entry (hjoint model hmodel)
  refine joint?_eq_some_iff.mpr ⟨?_, hvalue _ le_rfl⟩
  rw [entries, List.map_map]
  exact List.map_congr_left fun model hmodel => hvalue model (List.mem_range.mp hmodel).le

/-- Responses that agree at a QoI are the same joint samples there. -/
theorem filterMap_joint?_of_agreeAt {first second : List (Response α)}
    (h : List.Forall₂ (dims.AgreeAt qoi) first second) :
    first.filterMap (dims.joint? · qoi) = second.filterMap (dims.joint? · qoi) := by
  induction h with
  | nil => rfl
  | cons hagree _ ih =>
    -- whether a model has a value at a QoI, and which one, is read off one entry
    rw [List.filterMap_cons, List.filterMap_cons, ih, joint?_congr fun model hmodel => ?_]
    rw [value?, hagree.2 model hmodel, ← value?]

end Dimensions

/-! ## Sums of one QoI -/

variable [Scalar α]

theorem total_concat (values : List α) (value : α) :
    total (values ++ [value]) = total values + value :=
  List.foldl_concat ..

/-- The sums over responses of the powers of a low-fidelity model at a QoI. The power of index
`order` has the exponent `order + 1`. -/
def powerTotals (dims : Dimensions) (qoi : ℕ) (responses : List (Response α)) (model order : ℕ) :
    PairSums α where
  low := total (responses.map fun response => power (dims.entry response model qoi) order)
  lowLow := total (responses.map fun response =>
    power (dims.entry response model qoi) order * power (dims.entry response model qoi) order)
  lowHigh := total (responses.map fun response =>
    power (dims.entry response model qoi) order *
      power (dims.entry response dims.numApprox qoi) order)

theorem powerTotals_concat (dims : Dimensions) (qoi : ℕ) (responses : List (Response α))
    (response : Response α) (model order : ℕ) :
    powerTotals dims qoi (responses ++ [response]) model order =
      (powerTotals dims qoi responses model order).add
        (power (dims.entry response model qoi) order)
        (power (dims.entry response dims.numApprox qoi) order) := by
  simp only [powerTotals, List.map_append, List.map_singleton, total_concat, PairSums.add]

namespace QoiSums

variable {M : ℕ} {dims : Dimensions} {qoi : ℕ} {responses : List (Response α)}
  {sums : QoiSums α M}

/-- The sums of one QoI over responses, added up from the first to the last. -/
structure SumsOver (dims : Dimensions) (qoi : ℕ) (responses : List (Response α))
    (sums : QoiSums α M) : Prop where
  count : sums.count = responses.length
  highSquared : sums.highSquared = total (responses.map fun response =>
    dims.entry response dims.numApprox qoi * dims.entry response dims.numApprox qoi)
  high : ∀ order : Fin M, sums.high.get order = total (responses.map fun response =>
    power (dims.entry response dims.numApprox qoi) order)
  pairs : sums.pairs = (List.range dims.numApprox).map fun model =>
    .ofFn fun order => powerTotals dims qoi responses model order

theorem sumsOver_empty : (empty dims.numApprox : QoiSums α M).SumsOver dims qoi [] where
  count := rfl
  highSquared := rfl
  high order := by
    simp [empty, total, Vector.get]
  pairs := by
    refine List.ext_getElem (by simp [empty]) fun model _ _ => ?_
    ext order horder
    simp [empty, PairSums.empty, powerTotals, total]

theorem SumsOver.add (h : sums.SumsOver dims qoi responses) (response : Response α) :
    (sums.add (dims.entries qoi response)).SumsOver dims qoi (responses ++ [response]) where
  count := by
    simp [QoiSums.add, h.count]
  highSquared := by
    rw [List.map_append, List.map_singleton, total_concat, ← h.highSquared]
    rfl
  high order := by
    rw [List.map_append, List.map_singleton, total_concat, ← h.high, QoiSums.add, Vector.get_ofFn]
    rfl
  pairs := by
    simp only [QoiSums.add, h.pairs, Dimensions.entries, List.zipWith_map, List.zipWith_self,
      Vector.get_ofFn, powerTotals_concat]

/-- Sums go on running over what is added. -/
theorem SumsOver.foldl_add (h : sums.SumsOver dims qoi responses) (later : List (Response α)) :
    ((later.map (dims.entries qoi)).foldl QoiSums.add sums).SumsOver dims qoi
      (responses ++ later) := by
  induction later generalizing sums responses with
  | nil => simpa using h
  | cons response later ih => simpa using ih (h.add response)

end QoiSums

/-! ## Sums of all QoI -/

namespace JointSums

variable {M : ℕ} {dims : Dimensions} {sums : JointSums α M}

/-- Sums over responses. Those of a QoI run over the responses at which no model failed there. -/
structure SumsOver (dims : Dimensions) (responses : List (Response α)) (sums : JointSums α M) :
    Prop where
  dims_eq : sums.dims = dims
  length_qois : sums.qois.length = dims.numFunctions
  qois : ∀ qoi < dims.numFunctions, ∃ qoiSums, sums.qois[qoi]? = some qoiSums ∧
    qoiSums.SumsOver dims qoi (responses.filter fun response => dims.IsJoint response qoi)

theorem sumsOver_foldl_addResponse (dims : Dimensions) (responses : List (Response α)) :
    (responses.foldl addResponse (empty dims : JointSums α M)).SumsOver dims responses where
  dims_eq := dims_foldl_addResponse _ _
  length_qois := ((sized_empty dims).foldl_addResponse responses).length_qois
  qois := by
    intro qoi hqoi
    refine ⟨_, ?_, QoiSums.sumsOver_empty.foldl_add _⟩
    rw [getElem?_qois_foldl_addResponse, ← Dimensions.filterMap_joint?_eq_entries]
    simp [empty, hqoi]

variable {batch : Batch α} {failure : Failure α} {next : JointSums α M}

theorem on_absorb_eq_ok_iff :
    (absorb batch).on sums = (.ok (), next) ↔
      sums.dims.Accepts batch ∧ next = batch.foldl addResponse sums := by
  rw [on_absorb, Dimensions.Accepts, ← Dimensions.check_eq_ok_iff]
  cases sums.dims.check batch with
  | ok => simp [eq_comm]
  | error other => simp

/-- A batch is refused for its first response of the wrong length, and then nothing of it has been
added to the sums. -/
theorem on_absorb_eq_error_iff :
    (absorb batch).on sums = (.error failure, next) ↔ next = sums ∧
      ∃ before response after, batch = before ++ response :: after ∧ sums.dims.Accepts before ∧
        response.length ≠ sums.dims.responseLength ∧
        failure = .responseLength sums.dims.responseLength response.length := by
  have hcheck : (absorb batch).on sums = (.error failure, next) ↔
      next = sums ∧ sums.dims.check batch = .error failure := by
    rw [on_absorb]
    cases sums.dims.check batch with
    | ok => simp
    | error other => simp [eq_comm, and_comm]
  rw [hcheck, Dimensions.check_eq_error_iff]
  refine and_congr_right fun _ => ⟨?_, ?_⟩
  · rintro ⟨response, hfind, rfl⟩
    obtain ⟨hlength, before, after, rfl, hbefore⟩ := List.find?_eq_some_iff_append.mp hfind
    exact ⟨before, response, after, rfl, fun earlier hmem => by simpa using hbefore earlier hmem,
      by simpa using hlength, rfl⟩
  · rintro ⟨before, response, after, rfl, hbefore, hlength, rfl⟩
    refine ⟨response, List.find?_eq_some_iff_append.mpr ⟨by simpa using hlength, before, after, rfl,
      fun earlier hmem => ?_⟩, rfl⟩
    simpa using hbefore earlier hmem

/-- The state of sums after a batch, whether it has been accepted or refused. -/
def offer (sums : JointSums α M) (batch : Batch α) : JointSums α M :=
  ((absorb batch).on sums).2

theorem offer_eq (sums : JointSums α M) (batch : Batch α) :
    sums.offer batch = if sums.dims.Accepts batch then batch.foldl addResponse sums else sums := by
  rw [offer, on_absorb]
  cases hcheck : sums.dims.check batch with
  | ok => exact (if_pos (sums.dims.check_eq_ok_iff.mp hcheck)).symm
  | error failure =>
    refine (if_neg fun haccepts => ?_).symm
    rw [sums.dims.check_eq_ok_iff.mpr haccepts] at hcheck
    cases hcheck

/-- The sums after any batches are those of the accepted responses. -/
theorem foldl_offer_eq (sums : JointSums α M) (batches : List (Batch α)) :
    batches.foldl offer sums = (sums.dims.accepted batches).foldl addResponse sums := by
  induction batches generalizing sums with
  | nil => rfl
  | cons batch batches ih =>
    rw [List.foldl_cons, ih, offer_eq, Dimensions.accepted, Dimensions.accepted, List.filter_cons]
    -- an accepted batch comes first among the accepted responses, and a refused one is not there
    by_cases haccepts : sums.dims.Accepts batch
    · simp only [if_pos haccepts, dims_foldl_addResponse, decide_eq_true haccepts, if_true,
        List.flatten_cons, List.foldl_append]
    · simp only [if_neg haccepts, decide_eq_false haccepts, Bool.false_eq_true, if_false]

@[simp] theorem dims_foldl_offer (sums : JointSums α M) (batches : List (Batch α)) :
    (batches.foldl offer sums).dims = sums.dims := by
  rw [foldl_offer_eq, dims_foldl_addResponse]

/-- The sums of a QoI only depend on the values there. -/
theorem getElem?_qois_foldl_offer {qoi : ℕ} {batches others : List (Batch α)}
    (h : List.Forall₂ (List.Forall₂ (sums.dims.AgreeAt qoi)) batches others) :
    (batches.foldl offer sums).qois[qoi]? = (others.foldl offer sums).qois[qoi]? := by
  rw [foldl_offer_eq, foldl_offer_eq, getElem?_qois_foldl_addResponse,
    getElem?_qois_foldl_addResponse,
    Dimensions.filterMap_joint?_of_agreeAt (Dimensions.accepted_agreeAt h)]

/-- Whatever the batches are, the sums after them are those of a single batch with the accepted
responses. A further batch is refused exactly if it has a response of the wrong length, for the
first such response, and leaves the sums as they are. At each QoI the sums run over the responses
at which no model failed there, from the first to the last, so that they depend neither on the
values at other QoI nor, those of first order, on the highest order. -/
theorem sumsOver_batches (dims : Dimensions) (batches : List (Batch α)) :
    let sums := batches.foldl offer (empty dims : JointSums α M)
    (absorb (dims.accepted batches)).on (empty dims) = (.ok (), sums) ∧
      sums.SumsOver dims (dims.accepted batches) ∧
      (∀ batch, (∃ failure next, (absorb batch).on sums = (.error failure, next)) ↔
        ∃ response ∈ batch, response.length ≠ (dims.numApprox + 1) * dims.numFunctions) ∧
      (∀ batch failure next, (absorb batch).on sums = (.error failure, next) → next = sums ∧
        ∃ before response after, batch = before ++ response :: after ∧ dims.Accepts before ∧
          response.length ≠ dims.responseLength ∧
          failure = .responseLength dims.responseLength response.length) ∧
      (∀ qoi others, List.Forall₂ (List.Forall₂ (dims.AgreeAt qoi)) batches others →
        (others.foldl offer (empty dims : JointSums α M)).qois[qoi]? = sums.qois[qoi]?) ∧
      ∀ m, (batches.foldl offer (empty dims : JointSums α (m + 1))).first =
        batches.foldl offer (empty dims) := by
  intro sums
  have hsums : sums = (dims.accepted batches).foldl addResponse (empty dims) :=
    foldl_offer_eq _ batches
  have hdims : sums.dims = dims := dims_foldl_offer _ batches
  refine ⟨?whole, ?sums, fun batch => ?refused, fun batch failure next hrefused => ?failure,
    fun qoi others hothers => ?independent, fun m => ?first⟩
  case whole =>
    exact on_absorb_eq_ok_iff.mpr ⟨dims.accepts_accepted batches, hsums⟩
  case sums =>
    rw [hsums]
    exact sumsOver_foldl_addResponse dims _
  case refused =>
    constructor
    · rintro ⟨failure, next, hrefused⟩
      obtain ⟨-, _, response, _, rfl, -, hlength, -⟩ := on_absorb_eq_error_iff.mp hrefused
      exact ⟨response, by simp, hdims ▸ hlength⟩
    · rintro ⟨response, hmem, hlength⟩
      obtain ⟨⟨outcome, next⟩, hrun⟩ : ∃ run, (absorb batch).on sums = run := ⟨_, rfl⟩
      cases outcome with
      | error failure => exact ⟨failure, next, hrun⟩
      | ok =>
        have hlengths := (on_absorb_eq_ok_iff.mp hrun).1 response hmem
        rw [hdims] at hlengths
        exact absurd hlengths hlength
  case failure =>
    rw [← hdims]
    exact on_absorb_eq_error_iff.mp hrefused
  case independent =>
    exact (getElem?_qois_foldl_offer hothers).symm
  case first =>
    rw [foldl_offer_eq, foldl_offer_eq, first_foldl_addResponse, first_empty]
    rfl

end JointSums

end Multifidelity
