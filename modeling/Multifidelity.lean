import Multifidelity.Scalar.Binary64
import Multifidelity.QoiMatrix
import Multifidelity.ModelOrder
import Multifidelity.Failure
import Multifidelity.Costs
import Multifidelity.Shortfall
import Multifidelity.Decimal.Layout
import Multifidelity.Sums.Pyramid
import Multifidelity.Allocation.Sanitize
import Multifidelity.Allocation.ClosedForm
import Multifidelity.Allocation.Problem
import Multifidelity.Allocation.Compass
import Multifidelity.Allocation.Ratios
import Multifidelity.Estimate.Moments
import Multifidelity.Run.Sample
import Multifidelity.Message.Log
import Multifidelity.Message.Summary
import Multifidelity.Json.Reader
import Multifidelity.Json.Report
import Multifidelity.Listener
import Multifidelity.Proofs.ExactReal
import Multifidelity.Proofs.OrderedScalar
import Multifidelity.Proofs.Allocation.ProfileCost
import Multifidelity.Proofs.Allocation.WaterFilling
import Multifidelity.Proofs.QoiMatrix
import Multifidelity.Proofs.ModelOrder
import Multifidelity.Proofs.Recorder
import Multifidelity.Proofs.Transcript
import Multifidelity.Proofs.Lockstep
import Multifidelity.Proofs.Shortfall
import Multifidelity.Proofs.Increment
import Multifidelity.Proofs.Sums.Joint
import Multifidelity.Proofs.Estimate.Correlation
import Multifidelity.Proofs.Estimate.Moments
import Multifidelity.Proofs.Estimate.Nested
import Multifidelity.Proofs.Allocation.ClosedForm
import Multifidelity.Proofs.Allocation.Profile
import Multifidelity.Proofs.Allocation.Sanitize
import Multifidelity.Proofs.Allocation.Clamp
import Multifidelity.Proofs.Allocation.Compass
import Multifidelity.Proofs.Allocation.Pyramid
import Multifidelity.Proofs.Allocation.NumericalSolution
import Multifidelity.Proofs.Allocation.BudgetSafety
import Multifidelity.Proofs.Allocation.EvalRatios
import Multifidelity.Proofs.Allocation.Targets
import Multifidelity.Proofs.Run.Plan
import Multifidelity.Proofs.Sums.Pyramid
import Multifidelity.Proofs.Run.Step
import Multifidelity.Proofs.Run.Refinement
import Multifidelity.Proofs.Run.OnlineBudget
import Multifidelity.Proofs.Run.OfflineBudget
import Multifidelity.Proofs.Run.Exhaustion
import Multifidelity.Proofs.Run.Modes
import Multifidelity.Proofs.Run.Pyramid
import Multifidelity.Proofs.Run.Transcript
import Multifidelity.Proofs.Run.Completion
import Multifidelity.Proofs.Run.Rounds
import Multifidelity.Proofs.Run.Ledger
import Multifidelity.Proofs.Run.Protocol
import Multifidelity.Proofs.Run.Estimates
import Multifidelity.Proofs.Allocation.Majorant
import Multifidelity.Proofs.Allocation.Optimum
import Multifidelity.Proofs.Sums.Draws
import Multifidelity.Proofs.Allocation.RealizedVariance
import Multifidelity.Proofs.Allocation.Overshoot
import Multifidelity.Proofs.Run.VarianceReduction
import Multifidelity.Proofs.Allocation.Uniform
import Multifidelity.Proofs.Run.LowCounts
import Multifidelity.Proofs.Allocation.Units
import Multifidelity.Proofs.Run.Coupling
import Multifidelity.Proofs.Run.CostUnits
import Multifidelity.Proofs.Run.UsableValues
import Multifidelity.Proofs.Estimate.Rescaling
import Multifidelity.Proofs.Estimate.SampleCorrelations
import Multifidelity.Proofs.Estimate.LinearModels
import Multifidelity.Proofs.Run.ModelUnits
import Multifidelity.Proofs.Sums.FirstOrder
import Multifidelity.Proofs.Sums.Batches
import Multifidelity.Proofs.Run.Prediction
import Multifidelity.Proofs.Run.ProjectedProfile
import Multifidelity.Proofs.Allocation.Scaling
import Multifidelity.Proofs.Allocation.SearchOrder
import Multifidelity.Proofs.Allocation.SearchStart
import Multifidelity.Proofs.Allocation.FeasibleStart
import Multifidelity.Proofs.Allocation.SearchEffort
import Multifidelity.Proofs.Run.Failures
import Multifidelity.Proofs.Json.Format
import Multifidelity.Proofs.Json.RoundTrip
import Multifidelity.Proofs.Allocation.Descent
import Multifidelity.Proofs.Relabelling
import Multifidelity.Proofs.Allocation.Saturation
import Multifidelity.Proofs.Allocation.IdleSearch
import Multifidelity.Proofs.Allocation.NominalOrder
import Multifidelity.Proofs.Allocation.Relabelling
