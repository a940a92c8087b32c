import Multifidelity.Allocation.Problem
import Multifidelity.Journal.LogRecord
import Multifidelity.Journal.Recorder

/-!
# Optimizers

## Main definitions

* `Optimizer`: a search for evaluation ratios.
-/

namespace Multifidelity

/-- A search for evaluation ratios that solve a problem, starting from feasible ratios.  It may
report about its progress.  Its result should be at least one and not increase along the order of
the problem, but nothing relies on it. -/
abbrev Optimizer (α : Type) :=
  RatioProblem α → List α → Recorder (LogRecord α) (Failure α) (List α)

end Multifidelity
