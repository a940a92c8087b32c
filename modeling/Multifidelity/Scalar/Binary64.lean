import Multifidelity.Scalar.Basic

/-!
# Binary64 scalars

The instance of `Scalar` that programs compute with.

## Main definitions

* `instScalarFloat`: floating-point numbers of 64 bits with IEEE arithmetic.
-/

namespace Multifidelity

/-- The integral part of a number in the range of a count. -/
def Binary64.toCount? (x : Float) : Option Nat :=
  if -1 < x ∧ x < 18446744073709551616 then some x.toUInt64.toNat else none

/-- Binary64 numbers are scalars.  Between the largest finite one and the least positive one lie
fewer than 2200 halvings. -/
instance instScalarFloat : Scalar Float where
  zero := 0
  one := 1
  decLt := inferInstance
  decLe := inferInstance
  ofCount := Float.ofNat
  toCount? := Binary64.toCount?
  isNaN := Float.isNaN
  isFinite := Float.isFinite
  infinity := 1 / 0
  sqrt := Float.sqrt
  exp := Float.exp
  log := Float.log
  ceil := Float.ceil
  round := Float.round
  halvings _ _ := 2200

end Multifidelity
