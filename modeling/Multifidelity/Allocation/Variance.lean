import Multifidelity.Allocation.Solution

/-!
# Variance of the multifidelity estimator

With `K` models along an order, evaluation ratios `r` and `r K = 1` for the high-fidelity model, the
control variates remove the fraction `R² = ∑ k < K, (1 / r (k + 1) - 1 / r k) * ρ² k` of the
variance of the Monte Carlo estimator.

## Main definitions

* `rSquared`: the fraction `R²` for one QoI.
* `varianceRatios`: the remaining fraction `1 - R²` by QoI.
* `realizedVarianceRatios`: the same for the samples that were drawn.
-/

namespace Multifidelity

variable {α : Type} [Scalar α]

/-- The fraction of the Monte Carlo variance that the control variates remove. -/
def rSquared (rhoSq ratios : List α) (order : ModelOrder) : α :=
  let along := order.gather rhoSq.length ratios
  let gains := List.zipWith (fun next ratio => 1 / next - 1 / ratio) (along.drop 1 ++ [1]) along
  total (List.zipWith (· * ·) gains (order.gather rhoSq.length rhoSq))

/-- The fraction of the Monte Carlo variance that remains, by QoI. -/
def varianceRatios (rhoSq ratios : QoiMatrix α) (order : ModelOrder) : List α :=
  (List.range rhoSq.rows).map fun qoi => 1 - rSquared (rhoSq.row qoi) (ratios.row qoi) order

/-- The ratios of low-fidelity targets to the high-fidelity samples that were drawn.  They are never
below one, since every low-fidelity model is evaluated on all shared samples. -/
def realizedRatios (ratios : QoiMatrix α) (averageTarget : α) (counts : List Nat) : QoiMatrix α :=
  .ofFn ratios.rows ratios.cols fun qoi model =>
    let ratio := ratios.entry qoi model
    match counts[qoi]? with
    | some count => Scalar.larger (ratio * (averageTarget / Scalar.ofCount count)) 1
    | none => ratio

/-- The fraction of the Monte Carlo variance that remains with the samples that were drawn.  The
ratios are those of the solution unless some QoI has more high-fidelity samples than the rounded
average target. -/
def realizedVarianceRatios (rhoSq : QoiMatrix α) (solution : RatioSolution α) (highTargets : List α)
    (counts : List Nat) : List α :=
  let target := average highTargets
  let overshot := counts.any fun count => decide (Scalar.round target < Scalar.ofCount count)
  let ratios := if overshot then realizedRatios solution.ratios target counts else solution.ratios
  varianceRatios rhoSq ratios solution.order

end Multifidelity
