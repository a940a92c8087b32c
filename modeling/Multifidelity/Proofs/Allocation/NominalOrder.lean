import Multifidelity.Allocation.Variance
import Multifidelity.Proofs.Allocation.ClosedForm

/-!
# Models that are in order already

The nominal order is written as an empty list, and sorting the models yields an explicit one. Where
all QoI agree that the correlations do not decrease from one model to the next, sorting leaves the
models where they are, ties included. The two ways of writing the nominal order then lead to the
same ratios, variances and targets.

## Main results

* `foldl_insertByKey_range`: models whose keys do not decrease are not moved
* `ModelOrder.gather_range`, `ModelOrder.scatter_range`: the explicit nominal order
* `reorderedRatios_of_sorted`: the shared closed form extends the one by QoI
-/

namespace Multifidelity

open ExactReal

/-! ## The nominal order as an explicit one -/

section Explicit

variable {α : Type} [Scalar α]

namespace ModelOrder

@[simp] theorem along_range (count : ℕ) : along (List.range count) count = List.range count :=
  along_of_perm (.refl _)

theorem gather_range (count : ℕ) (values : List α) :
    gather (List.range count) count values = gather [] count values := by
  rw [gather, gather, along_range, along_nil]

theorem position_range {count model : ℕ} (h : model < count) :
    position (List.range count) model = model := by
  have hvalid : Valid (List.range count) count := Or.inr (.refl _)
  -- the model at a position is the position itself
  have hmodel : ModelOrder.model (List.range count) model = model := by
    have halong := congrArg (·[model]?) (along_range count)
    simpa [along, h] using halong
  have hposition := hvalid.position_model h
  rwa [hmodel] at hposition

theorem scatter_range (values : List α) : scatter (List.range values.length) values = values := by
  conv_rhs => rw [← scatter_nil values]
  refine List.map_congr_left fun model hmodel => ?_
  rw [position_range (List.mem_range.mp hmodel), position_nil]

end ModelOrder

/-- The explicit nominal order leads to the ratios of the nominal order. -/
theorem sequenceRatios_range (rhoSq : List α) (costs : Costs α) :
    sequenceRatios rhoSq costs (List.range rhoSq.length) = sequenceRatios rhoSq costs [] := by
  let unordered := unorderedRatios (costs.ofModel rhoSq.length) (rhoSq.getLastD 0) 0 rhoSq
    (ModelOrder.gather [] rhoSq.length costs.perModel)
  have hlength : (suffixMaxima unordered).length = rhoSq.length := by simp [unordered]
  have hvalid : ModelOrder.Valid (List.range rhoSq.length) unordered.length :=
    Or.inr (by simp [unordered])
  unfold sequenceRatios
  simp only [ModelOrder.gather_range, ModelOrder.gather_nil, ModelOrder.latest_nil,
    ModelOrder.scatter_nil]
  change ModelOrder.scatter _ (suffixMaxima (ModelOrder.latest _ unordered)) =
    suffixMaxima unordered
  have hscatter := ModelOrder.scatter_range (suffixMaxima unordered)
  rw [hlength] at hscatter
  rw [hvalid.latest_eq_self, hscatter]

/-- The explicit nominal order leads to the variance of the nominal order. -/
theorem rSquared_range (rhoSq ratios : List α) :
    rSquared rhoSq ratios (List.range rhoSq.length) = rSquared rhoSq ratios [] := by
  rw [rSquared, rSquared, ModelOrder.gather_range, ModelOrder.gather_range]

/-! ## Sorting what is sorted -/

/-- Models whose keys do not decrease are not moved. Each is put in front of those before it, and
the result is reversed. -/
theorem foldl_insertByKey_range {key : ℕ → α} {count : ℕ}
    (h : ∀ model, model + 1 < count → ¬ key (model + 1) < key model) :
    (List.range count).foldl (fun sorted model => insertByKey key model sorted) [] =
      (List.range count).reverse := by
  induction count with
  | zero => rfl
  | succ count ih =>
    have hsorted := ih fun model hmodel => h model (Nat.lt_succ_of_lt hmodel)
    rw [List.range_succ, List.foldl_append, hsorted, List.foldl_cons, List.foldl_nil,
      List.reverse_append]
    -- only the last model before can be in the way
    cases count with
    | zero => rfl
    | succ last =>
      rw [List.range_succ, List.reverse_append]
      exact if_neg (h last (Nat.lt_succ_self _))

theorem correlationOrder_eq_range {rhoSq : QoiMatrix α}
    (h : ∀ model, model + 1 < rhoSq.cols →
      ¬ rhoSq.columnMeans.getD (model + 1) 0 < rhoSq.columnMeans.getD model 0) :
    correlationOrder rhoSq = List.range rhoSq.cols := by
  have hlength : rhoSq.columnMeans.length = rhoSq.cols := by simp [QoiMatrix.columnMeans]
  unfold correlationOrder
  dsimp only
  rw [hlength, foldl_insertByKey_range h, List.reverse_reverse]

end Explicit

/-! ## Equal rows that do not decrease -/

/-- Where all QoI have the same correlations, which do not decrease from one model to the next, the
closed form that the QoI share has the nominal order and the ratios of the one by QoI. Hence it
leads to the same variances and targets. -/
theorem reorderedRatios_of_sorted {rhoSq : QoiMatrix ExactReal} (hfull : rhoSq.Full)
    (hrows : 0 < rhoSq.rows) (hequal : ∀ qoi < rhoSq.rows, rhoSq.row qoi = rhoSq.row 0)
    (hsorted : (rhoSq.row 0).Pairwise (· ≤ ·)) (costs : Costs ExactReal) :
    reorderedRatios rhoSq costs = (List.range rhoSq.cols, analyticRatios rhoSq costs) ∧
      varianceRatios rhoSq (reorderedRatios rhoSq costs).2 (reorderedRatios rhoSq costs).1 =
        varianceRatios rhoSq (analyticRatios rhoSq costs) [] ∧
      ∀ budget, budgetTargets (reorderedRatios rhoSq costs).2 costs budget =
        budgetTargets (analyticRatios rhoSq costs) costs budget := by
  have hlength := hfull.length_row hrows
  have hmeans : rhoSq.columnMeans = rhoSq.row 0 := columnMeans_eq_row hrows hlength hequal
  have horder : correlationOrder rhoSq = List.range rhoSq.cols := by
    apply correlationOrder_eq_range
    intro model hmodel
    rw [hmeans, List.getD_eq_getElem _ _ (by omega), List.getD_eq_getElem _ _ (by omega)]
    exact not_lt_of_le (List.pairwise_iff_getElem.mp hsorted model (model + 1) (by omega)
      (by omega) (Nat.lt_succ_self model))
  have htoRows : rhoSq.toRows = List.replicate rhoSq.rows (rhoSq.row 0) := by
    refine List.eq_replicate_iff.mpr ⟨rhoSq.length_toRows, fun row hrow => ?_⟩
    obtain ⟨qoi, hqoi, rfl⟩ := List.mem_map.mp hrow
    exact hequal qoi (List.mem_range.mp hqoi)
  have hreordered :
      reorderedRatios rhoSq costs = (List.range rhoSq.cols, analyticRatios rhoSq costs) := by
    have hratios := sequenceRatios_range (rhoSq.row 0) costs
    rw [hlength] at hratios
    rw [reorderedRatios, analyticRatios, horder, hmeans, htoRows, List.map_replicate, hratios,
      QoiMatrix.ofRow, length_sequenceRatios, hlength]
  refine ⟨hreordered, ?_, fun budget => by rw [hreordered]⟩
  rw [hreordered]
  refine List.map_congr_left fun qoi hqoi => ?_
  have hrow := rSquared_range (rhoSq.row qoi) ((analyticRatios rhoSq costs).row qoi)
  rw [hfull.length_row (List.mem_range.mp hqoi)] at hrow
  dsimp only
  rw [hrow]

/-- The squared correlations of three models, of which the last two are equally correlated. -/
noncomputable def tiedCorrelations : QoiMatrix ExactReal :=
  .ofRow 2 [real 0.3, real 0.5, real 0.5]

theorem row_tiedCorrelations {qoi : ℕ} (hqoi : qoi < 2) :
    tiedCorrelations.row qoi = [real 0.3, real 0.5, real 0.5] :=
  QoiMatrix.row_ofRow hqoi _

/-- Equally correlated models stay in order. -/
theorem reorderedRatios_of_tiedCorrelations :
    reorderedRatios tiedCorrelations ⟨[1, 1, 1, 1]⟩ =
      ([0, 1, 2], analyticRatios tiedCorrelations ⟨[1, 1, 1, 1]⟩) := by
  have hsorted : (tiedCorrelations.row 0).Pairwise (· ≤ ·) := by
    rw [row_tiedCorrelations two_pos]
    norm_num
  have hequal : ∀ qoi < 2, tiedCorrelations.row qoi = tiedCorrelations.row 0 := by
    intro qoi hqoi
    rw [row_tiedCorrelations hqoi, row_tiedCorrelations two_pos]
  have hfull : tiedCorrelations.Full := QoiMatrix.full_ofRows (by simp)
  exact (reorderedRatios_of_sorted hfull two_pos hequal hsorted _).1

end Multifidelity
