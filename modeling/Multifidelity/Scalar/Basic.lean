/-!
# Scalars

Everything in this library is generic in the numbers it computes with.  A `Scalar` has the
arithmetic of a floating-point format: the operations are total, an operation without a value gives
a NaN, and a value that is not finite marks a failed model evaluation.  Binary64 numbers are one
instance; the extended real line with a NaN, on which the arithmetic is exact, is another.

## Main definitions

* `Scalar`: the operations the library needs.
* `maxCount`: the largest count.
* `Scalar.larger`, `Scalar.smaller`: maximum and minimum that ignore a NaN.
* `average`, `averageCount`: arithmetic means, a NaN for an empty list.
-/

namespace Multifidelity

/-- The largest count, `2 ^ 64 - 1`. -/
def maxCount : Nat := 18446744073709551615

/-- Numbers with total arithmetic, a NaN and infinities. -/
class Scalar (α : Type) extends Zero α, One α, Add α, Sub α, Mul α, Div α, Neg α, LT α, LE α, BEq α,
    OfScientific α where
  /-- Comparison is decided; it fails whenever a NaN takes part. -/
  decLt : DecidableLT α
  /-- Comparison is decided; it fails whenever a NaN takes part. -/
  decLe : DecidableLE α
  /-- The scalar nearest to a count. -/
  ofCount : Nat → α
  /-- The integral part of a scalar, if that is a count from zero to `maxCount`. -/
  toCount? : α → Option Nat
  /-- Whether the scalar is a NaN. -/
  isNaN : α → Bool
  /-- Whether the scalar is a number, neither a NaN nor infinite. -/
  isFinite : α → Bool
  /-- Positive infinity. -/
  infinity : α
  /-- The square root. -/
  sqrt : α → α
  /-- The exponential function. -/
  exp : α → α
  /-- The natural logarithm. -/
  log : α → α
  /-- The least integral scalar that is not smaller. -/
  ceil : α → α
  /-- The nearest integral scalar, a half goes away from zero. -/
  round : α → α
  /-- A number of halvings that takes a finite first argument below a positive second one. -/
  halvings : α → α → Nat

attribute [reducible, instance] Scalar.decLt Scalar.decLe

namespace Scalar

variable {α : Type} [Scalar α]

/-- The larger of two scalars; a NaN gives way to the other one. -/
def larger (x y : α) : α :=
  if isNaN x then y else if x < y then y else x

/-- The smaller of two scalars; a NaN gives way to the other one. -/
def smaller (x y : α) : α :=
  if isNaN x then y else if y < x then y else x

/-- Whether the scalar is finite and positive, as budgets, tolerances and costs have to be. -/
def isPositiveFinite (x : α) : Bool :=
  isFinite x && decide (0 < x)

end Scalar

variable {α : Type} [Scalar α]

/-- The sum of a list, added up from the left. -/
def total (values : List α) : α :=
  values.foldl (· + ·) 0

/-- The arithmetic mean, a NaN for the empty list. -/
def average (values : List α) : α :=
  total values / Scalar.ofCount values.length

/-- The arithmetic mean of counts. -/
def averageCount (counts : List Nat) : α :=
  average (counts.map Scalar.ofCount)

end Multifidelity
