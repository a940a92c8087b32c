import Multifidelity.QoiMatrix
import Multifidelity.Sums.Joint

/-!
# Sample variances and correlations

## Main definitions

* `Correlations`: variances of all models and their squared correlations with the high-fidelity one.
* `sampleCovariance`: the unbiased covariance from power sums.
* `JointSums.correlations`: the correlations of the joint samples.
* `covariances`: covariances recovered from squared correlations and variances.
* `monteCarloVariance`: the variance of the plain Monte Carlo mean.
-/

namespace Multifidelity

/-- Second moments of the responses. -/
structure Correlations (α : Type) where
  /-- The variances of the low-fidelity models. -/
  varLow : QoiMatrix α
  /-- The variances of the high-fidelity model by QoI. -/
  varHigh : List α
  /-- The squared correlations of the low-fidelity models with the high-fidelity one. -/
  rhoSq : QoiMatrix α
  deriving BEq

variable {α : Type} [Scalar α]

/-- The unbiased covariance of `n` pairs, from the sums of both components and of their product. -/
def sampleCovariance (n sumX sumY sumXY : α) : α :=
  (sumXY - n * (sumX / n) * (sumY / n)) / (n - 1)

/-- The squared correlation, zero if a variance vanishes: a constant carries no information. -/
def squaredCorrelation (varX varY cov : α) : α :=
  if 0 < varX * varY then cov * cov / (varX * varY) else 0

/-- Covariances up to their sign, from squared correlations and variances. -/
def covariances (rhoSq varLow : QoiMatrix α) (varHigh : List α) : QoiMatrix α :=
  .ofFn rhoSq.rows rhoSq.cols fun qoi model =>
    Scalar.sqrt (rhoSq.entry qoi model * varLow.entry qoi model * varHigh.getD qoi 0)

/-- Covariances of the low-fidelity models with the high-fidelity one, up to their sign. -/
def Correlations.cov (correlations : Correlations α) : QoiMatrix α :=
  covariances correlations.rhoSq correlations.varLow correlations.varHigh

namespace QoiSums

variable {m : Nat} (sums : QoiSums α (m + 1))

/-- The sum of the high-fidelity values. -/
def highSum : α :=
  sums.high.get ⟨0, m.succ_pos⟩

/-- The first-order sums that involve a low-fidelity model, by model. -/
def firstPairs : List (PairSums α) :=
  sums.pairs.map fun pairs => pairs.get ⟨0, m.succ_pos⟩

/-- The variance of the high-fidelity model. -/
def varHigh : α :=
  sampleCovariance (Scalar.ofCount sums.count) sums.highSum sums.highSum sums.highSquared

/-- The variances of the low-fidelity models. -/
def varLow : List α :=
  sums.firstPairs.map fun pairs =>
    sampleCovariance (Scalar.ofCount sums.count) pairs.low pairs.low pairs.lowLow

/-- The covariances of the low-fidelity models with the high-fidelity one. -/
def cov : List α :=
  sums.firstPairs.map fun pairs =>
    sampleCovariance (Scalar.ofCount sums.count) pairs.low sums.highSum pairs.lowHigh

/-- The squared correlations of the low-fidelity models with the high-fidelity one. -/
def rhoSq : List α :=
  List.zipWith (fun varLow cov => squaredCorrelation varLow sums.varHigh cov) sums.varLow sums.cov

end QoiSums

/-- The correlations of the joint samples.  Every QoI needs two of them. -/
def JointSums.correlations {m : Nat} (sums : JointSums α (m + 1)) :
    Except (Failure α) (Correlations α) :=
  match sums.counts.findIdx? (· < 2) with
  | some qoi => .error (.insufficientSamples qoi (sums.counts.getD qoi 0))
  | none => .ok {
      varLow := .ofRows sums.dims.numApprox (sums.qois.map QoiSums.varLow)
      varHigh := sums.qois.map QoiSums.varHigh
      rhoSq := .ofRows sums.dims.numApprox (sums.qois.map QoiSums.rhoSq) }

/-- The variance of the Monte Carlo mean over `counts` samples, by QoI. -/
def monteCarloVariance (varHigh : List α) (counts : List Nat) : List α :=
  List.zipWith (fun var count => var / Scalar.ofCount count) varHigh counts

end Multifidelity
