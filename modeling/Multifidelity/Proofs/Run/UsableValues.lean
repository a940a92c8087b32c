import Multifidelity.Proofs.Run.Coupling
import Multifidelity.Proofs.Run.OnlineBudget

/-!
# Usable values

Responses enter a run only through their usable values. At a QoI of a shared response these are the
values of all models, if all of them are finite. In a response to a refinement they are the finite
values of the requested models. Ensembles whose answers agree on these values lead to the same run.

## Main definitions

* `Ensemble.after`: the state after a history of calls
* `Ensemble.AnswersLike`: ensembles whose answers are related after each history
* `Dimensions.Agree`: responses with the same usable values

## Main results

* `JointSums.accumulate_of_agree`, `PyramidSums.refine_of_agree`: sums only see usable values
* `Plan.coupled_of_answersLike`: plans for ensembles that answer alike are coupled
* `sampleWith_of_agree`: a run only depends on the usable values
-/

namespace Multifidelity

open Recorder

variable {σ τ α : Type}

/-! ## Histories -/

/-- The state after a history of calls. -/
def Ensemble.after (ensemble : Ensemble σ α) (state : σ) (history : List Call) : σ :=
  history.foldl (fun state call => (ensemble.respond call state).2) state

/-- Ensembles of the same size and with the same costs whose answers are related, whatever they
have been called for before. -/
structure Ensemble.AnswersLike (batches : Call → Batch α → Batch α → Prop)
    (first : Ensemble σ α) (s : σ) (second : Ensemble τ α) (t : τ) : Prop where
  dims : first.dims = second.dims
  costs : first.costs = second.costs
  answers : ∀ history call, batches call (first.respond call (first.after s history)).1
    (second.respond call (second.after t history)).1

namespace Ensemble.AnswersLike

variable {batches : Call → Batch α → Batch α → Prop} {first : Ensemble σ α} {s : σ}
  {second : Ensemble τ α} {t : τ} (h : first.AnswersLike batches s second t)
include h

theorem answer (call : Call) : batches call (first.respond call s).1 (second.respond call t).1 :=
  h.answers [] call

/-- A call leads to states after which the ensembles still answer alike. -/
theorem next (call : Call) :
    first.AnswersLike batches (first.respond call s).2 second (second.respond call t).2 where
  dims := h.dims
  costs := h.costs
  answers history := h.answers (call :: history)

variable [Scalar α]

theorem alike_costs :
    Alike Eq (Costs.check first.dims.numApprox first.costs : Except (Failure α) (Costs α))
      (Costs.check first.dims.numApprox second.costs) :=
  .of_eq (by rw [h.costs])

end Ensemble.AnswersLike

variable [Scalar α]

/-- Plans for ensembles that answer alike are coupled if the answers have the same effect on all
sums. -/
theorem Plan.coupled_of_answersLike {dims : Dimensions}
    {batches : Call → Batch α → Batch α → Prop} {coupling : Coupling α dims}
    (hbatches : coupling.batches = batches) (hcorrelations : coupling.correlations = Eq)
    {first : Ensemble σ α} (hfirst : first.dims = dims) {second : Ensemble τ α}
    (hsecond : second.dims = dims) (settings : Settings α) (optimizer : Optimizer α)
    (target : Target α) (costs : Costs α) :
    Plan.Coupled coupling (first.AnswersLike batches · second ·)
      ⟨first, settings, optimizer, target, costs⟩
      ⟨second, settings, optimizer, target, costs⟩ where
  dims_first := hfirst
  dims_second := hsecond
  settings := rfl
  batch call s t h := hbatches ▸ h.answer call
  state call s t h := h.next call
  equivalents _ _ := rfl
  evalRatios := by
    intro x y counts spent pilotVariance previous previous' hxy hprevious
    rw [hcorrelations] at hxy
    subst hxy
    unfold Plan.ratioInputs
    rw [hprevious]

/-! ## Responses that agree -/

/-- Responses of the same length with the same usable values. At each QoI of a shared response
either both have a value that is not finite, or all values agree. In the response to a refinement
each requested low-fidelity model has the same value in both, or a finite value in neither. -/
def Dimensions.Agree (dims : Dimensions) : Call → Response α → Response α → Prop
  | .shared .., first, second => first.length = second.length ∧ ∀ qoi < dims.numFunctions,
      (¬ dims.IsJoint first qoi ∧ ¬ dims.IsJoint second qoi) ∨
        ∀ model ≤ dims.numApprox, dims.value? first model qoi = dims.value? second model qoi
  | .approx _ models _, first, second => first.length = second.length ∧
      ∀ qoi < dims.numFunctions, ∀ model < dims.numApprox, model ∈ models →
        dims.value? first model qoi = dims.value? second model qoi

section Agree

variable {dims : Dimensions} {first second : Response α}

theorem Dimensions.Agree.refl (call : Call) (response : Response α) :
    dims.Agree call response response := by
  cases call with
  | shared => exact ⟨rfl, fun _ _ => Or.inr fun _ _ => rfl⟩
  | approx => exact ⟨rfl, fun _ _ _ _ _ => rfl⟩

theorem Dimensions.Agree.length_eq {call : Call} (h : dims.Agree call first second) :
    first.length = second.length := by
  cases call with
  | shared => exact h.1
  | approx => exact h.1

/-- Shared responses that agree are the same joint samples. -/
theorem Dimensions.Agree.joint?_eq {iteration samples : ℕ}
    (h : dims.Agree (.shared iteration samples) first second) {qoi : ℕ}
    (hqoi : qoi < dims.numFunctions) : dims.joint? first qoi = dims.joint? second qoi := by
  rcases h.2 qoi hqoi with ⟨hfirst, hsecond⟩ | hvalues
  · rw [← isSome_joint?_iff, Option.not_isSome_iff_eq_none] at hfirst hsecond
    rw [hfirst, hsecond]
  · exact joint?_congr hvalues

/-- Batches that agree are accepted or refused alike. -/
theorem Dimensions.check_of_agree {call : Call} {first second : Batch α}
    (h : List.Forall₂ (dims.Agree call) first second) : dims.check first = dims.check second := by
  induction h with
  | nil => rfl
  | @cons response response' _ _ hagree _ ih =>
    unfold check at ih ⊢
    rw [List.find?_cons, List.find?_cons, hagree.length_eq]
    cases response'.length != dims.responseLength with
    | true => exact congrArg (Except.error ∘ Failure.responseLength _) hagree.length_eq
    | false => exact ih

end Agree

/-! ## Sums -/

section Sums

variable {dims : Dimensions} {first second : Batch α}

/-- Sums over joint samples only see usable values. -/
theorem JointSums.accumulate_of_agree {M : ℕ} {sums : JointSums α M} (hsized : sums.Sized dims)
    {iteration samples : ℕ}
    (h : List.Forall₂ (dims.Agree (.shared iteration samples)) first second) :
    sums.accumulate first = sums.accumulate second := by
  have hfold : first.foldl addResponse sums = second.foldl addResponse sums := by
    induction h generalizing sums with
    | nil => rfl
    | @cons response response' _ _ hagree _ ih =>
      have hresponse : sums.addResponse response = sums.addResponse response' := by
        unfold addResponse
        congr 1
        refine List.mapIdx_eq_mapIdx_iff.mpr fun qoi hqoi => ?_
        rw [hsized.dims_eq, hagree.joint?_eq (hsized.length_qois ▸ hqoi)]
      rw [List.foldl_cons, List.foldl_cons, ← hresponse, ih (hsized.addResponse response)]
  rw [accumulate_eq, accumulate_eq, hsized.dims_eq, Dimensions.check_of_agree h, hfold]

/-- Sums over low-fidelity samples only see the usable values of the requested models. -/
theorem PyramidSums.refine_of_agree {sums : PyramidSums α} (hsized : sums.Sized dims)
    {order : ModelOrder} {iteration stop samples : ℕ}
    (h : List.Forall₂ (dims.Agree (.approx iteration (order.along stop) samples)) first second) :
    sums.refine order 0 stop first = sums.refine order 0 stop second := by
  have hfold : first.foldl (addResponse order 0 stop) sums =
      second.foldl (addResponse order 0 stop) sums := by
    induction h generalizing sums with
    | nil => rfl
    | @cons response response' _ _ hagree _ ih =>
      have hresponse : sums.addResponse order 0 stop response =
          sums.addResponse order 0 stop response' := by
        unfold addResponse
        congr 1
        refine List.mapIdx_eq_mapIdx_iff.mpr fun qoi hqoi => ?_
        refine List.mapIdx_eq_mapIdx_iff.mpr fun model hlt => ?_
        rw [hsized.length_models _ (List.getElem_mem hqoi)] at hlt
        rw [hsized.dims_eq]
        by_cases hmodel : model ∈ order.along stop
        · rw [hagree.2 qoi (hsized.length_qois ▸ hqoi) model hlt hmodel]
        · -- a model that is not requested has no position, and its value is not used
          have hnone : (List.range' 0 (stop - 0)).filter (order.model · == model) = [] := by
            refine List.filter_eq_nil_iff.mpr fun position hposition heq => hmodel ?_
            rw [Nat.sub_zero, ← List.range_eq_range'] at hposition
            exact List.mem_map.mpr ⟨position, hposition, beq_iff_eq.mp heq⟩
          rw [hnone]
          cases dims.value? response model qoi <;> cases dims.value? response' model qoi <;> rfl
      rw [List.foldl_cons, List.foldl_cons, ← hresponse, ih (hsized.addResponse response)]
  rw [refine_eq, refine_eq, hsized.dims_eq, Dimensions.check_of_agree h, hfold]

end Sums

/-! ## Runs -/

/-- Two runs that are given responses with the same usable values. -/
def Coupling.agree (dims : Dimensions) : Coupling α dims :=
  .ofBatches (fun call => List.Forall₂ (dims.Agree call)) List.Forall₂.length_eq
    (fun hsized h => JointSums.accumulate_of_agree hsized h)
    (fun hsized h => PyramidSums.refine_of_agree hsized h)

/-- Runs of ensembles whose answers to each history have the same usable values make the same calls,
tell the listener the same, and end with the same report or the same failure. -/
theorem sampleWith_of_agree (optimizer : Optimizer α) (settings : Settings α)
    {first : Ensemble σ α} {s : σ} {second : Ensemble τ α} {t : τ}
    (h : first.AnswersLike (fun call => List.Forall₂ (first.dims.Agree call)) s second t) :
    moves (sampleWith optimizer first settings s).journal =
        moves (sampleWith optimizer second settings t).journal ∧
      (sampleWith optimizer first settings s).outcome =
        (sampleWith optimizer second settings t).outcome := by
  have hlockstep : Lockstep (Report.Agrees Eq) (sampleWith optimizer first settings s)
      (sampleWith optimizer second settings t) := by
    refine sampleWith_lockstep (.agree first.dims) (first.AnswersLike _ · second ·) optimizer
      settings h h.dims h.alike_costs ?_
    rintro target costs _ rfl
    exact Plan.coupled_of_answersLike rfl rfl rfl h.dims.symm settings optimizer target costs
  exact ⟨hlockstep.moves, (hlockstep.mono fun _ _ hagrees => hagrees.eq).outcome.eq⟩

/-! ## Values that are not used -/

/-- An ensemble with an additional shared sample at which the high-fidelity model fails. The value
of the first model there is a mark, and so are the high-fidelity values of a refinement. -/
noncomputable def markedEnsemble (mark : ExactReal) : Ensemble Unit ExactReal where
  dims := ⟨2, 1⟩
  costs := [1, 1, 1]
  respond
    | .shared _ samples, _ => ((List.range samples).map spikeRow ++ [[mark, 0, .posInf]], ())
    | .approx _ _ samples, _ => ((List.range samples).map fun i => (spikeRow i).set 2 mark, ())

/-- The marks are not used. -/
theorem answersLike_markedEnsemble (mark mark' : ExactReal) :
    (markedEnsemble mark).AnswersLike
      (fun call => List.Forall₂ ((markedEnsemble mark).dims.Agree call)) ()
      (markedEnsemble mark') () where
  dims := rfl
  costs := rfl
  answers history call := by
    cases call with
    | shared iteration samples =>
      have hfailed : ∀ (x : ExactReal) (qoi : ℕ), qoi < 1 →
          ¬ (⟨2, 1⟩ : Dimensions).IsJoint [x, 0, .posInf] qoi := by
        intro x qoi hqoi hjoint
        interval_cases qoi
        simpa [Dimensions.value?] using hjoint 2 le_rfl
      refine List.rel_append (List.forall₂_same.mpr fun _ _ => .refl _ _) (.cons ?_ .nil)
      exact ⟨rfl, fun qoi hqoi => Or.inl ⟨hfailed _ qoi hqoi, hfailed _ qoi hqoi⟩⟩
    | approx iteration models samples =>
      refine List.forall₂_map_left_iff.mpr (List.forall₂_map_right_iff.mpr ?_)
      refine List.forall₂_same.mpr fun i _ => ⟨by simp, fun qoi hqoi model hmodel _ => ?_⟩
      have hne : 2 ≠ model * 1 + qoi := by
        have hmodel : model < 2 := hmodel
        have hqoi : qoi < 1 := hqoi
        omega
      exact congrArg (Option.filter _)
        ((List.getElem?_set_ne hne).trans (List.getElem?_set_ne hne).symm)

/-- A run with marks that are not finite, and one with marks that are. -/
theorem sampleWith_of_marks :
    (markedEnsemble .nan).AnswersLike
        (fun call => List.Forall₂ ((markedEnsemble .nan).dims.Agree call)) ()
        (markedEnsemble (.real 7)) () ∧
      moves (sampleWith unitOptimizer (markedEnsemble .nan) (.withBudget 2 (.real 1)) ()).journal =
        moves (sampleWith unitOptimizer (markedEnsemble (.real 7)) (.withBudget 2 (.real 1))
          ()).journal ∧
      (sampleWith unitOptimizer (markedEnsemble .nan) (.withBudget 2 (.real 1)) ()).outcome =
        (sampleWith unitOptimizer (markedEnsemble (.real 7)) (.withBudget 2 (.real 1))
          ()).outcome :=
  ⟨answersLike_markedEnsemble _ _,
    sampleWith_of_agree unitOptimizer (.withBudget 2 (.real 1)) (answersLike_markedEnsemble _ _)⟩

end Multifidelity
