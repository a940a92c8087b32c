import Multifidelity.Journal.Event
import Multifidelity.Sums.Pyramid

/-!
# Moments of the high-fidelity model

The mean of a power of the high-fidelity values is corrected by one control variate per low-fidelity
model: the difference of the means over its shared and over all its values, with the weight that
minimises the variance.

## Main definitions

* `controlVariateWeight`: the weight of a control variate.
* `QoiSums.moment`: the estimate of a raw moment of one QoI.
* `rawMoments`: the first four raw moments of every QoI.
-/

namespace Multifidelity

variable {α : Type} [Scalar α]

/-- The covariance of `count` pairs over the variance of their first components, from the sums of
both components and of the products.  It is zero if the first component does not vary. -/
def controlVariateWeight (sumX sumY sumXX sumXY : α) (count : Nat) : α :=
  let mean := sumX / Scalar.ofCount count
  let variance := sumXX - mean * sumX
  if 0 < variance then (sumXY - mean * sumY) / variance else 0

/-- The mean of a power of the values of a tally. -/
def Tally.mean (tally : Tally α) (order : Fin 4) : α :=
  tally.powers.get order / Scalar.ofCount tally.count

namespace QoiSums

variable (sums : QoiSums α 4)

/-- The weights of the control variates for a moment, by model. -/
def weights (order : Fin 4) : List α :=
  sums.pairs.map fun pairs =>
    controlVariateWeight (pairs.get order).low (sums.high.get order) (pairs.get order).lowLow
      (pairs.get order).lowHigh sums.count

/-- The estimate of a raw moment. -/
def moment (tallies : List (NestedTally α)) (order : Fin 4) : α :=
  ((sums.weights order).zip tallies).foldl
    (fun estimate (weight, tally) =>
      estimate - weight * (tally.shared.mean order - tally.refined.mean order))
    (sums.high.get order / Scalar.ofCount sums.count)

/-- What is reported about the control variates of a QoI. -/
def controlVariateRecords (qoi : Nat) : List (LogRecord α) :=
  (List.finRange 4).flatMap fun order =>
    (sums.weights order).mapIdx fun model weight =>
      .controlVariate (order + 1) qoi model weight

/-- The first four raw moments of a QoI, which needs a joint sample. -/
def rawMoments (qoi : Nat) (tallies : List (NestedTally α)) : Recorded α (Vector α 4) := do
  if sums.count = 0 then
    Recorder.fail (.insufficientSamples qoi 0)
  logAll (sums.controlVariateRecords qoi)
  return .ofFn (sums.moment tallies)

end QoiSums

/-- The first four raw moments of every QoI. -/
def rawMoments (sums : JointSums α 4) (pyramid : PyramidSums α) :
    Recorded α (List (Vector α 4)) :=
  (sums.qois.zip pyramid.qois).zipIdx.mapM fun ((qoiSums, tallies), qoi) =>
    qoiSums.rawMoments qoi tallies

end Multifidelity
