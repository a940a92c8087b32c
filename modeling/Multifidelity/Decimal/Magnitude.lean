/-!
# Binary magnitudes on decimal grids

A finite binary64 number is a sign and a magnitude `m * 2 ^ q`.  To write it in decimal one looks at
it on the grid of the multiples of `10 ^ k`, where everything is exact arithmetic of natural
numbers.

## Main definitions

* `Decimal.Magnitude`: a positive magnitude with its distance to the next smaller one.
* `Decimal.Magnitude.ofFloat?`: the magnitude of a finite number other than zero.
* `Decimal.Magnitude.leading`: the power of ten of its first decimal digit.
* `Decimal.Scientific`: decimal digits with the power of ten of the first one.
-/

namespace Multifidelity.Decimal

/-- A positive magnitude `significand * 2 ^ exponent`. -/
structure Magnitude where
  /-- The significand, below `2 ^ 53`. -/
  significand : Nat
  /-- The power of two that the significand counts. -/
  exponent : Int
  /-- Whether the next smaller magnitude is only half a unit away. -/
  binadeStart : Bool

/-- Decimal digits `d₀ d₁ d₂ …` that stand for `d₀.d₁d₂… * 10 ^ leading`. -/
structure Scientific where
  /-- The digits, the first of which is not zero. -/
  digits : List Char
  /-- The power of ten of the first digit. -/
  leading : Int

/-- The digits of a number of units of `10 ^ unit`. -/
def Scientific.ofUnits (units : Nat) (unit : Int) : Scientific :=
  let digits := Nat.toDigits 10 units
  ⟨digits, unit + (digits.length - 1 : Nat)⟩

/-- The number without the zeros at its end. -/
def Scientific.stripped (decimal : Scientific) : Scientific :=
  { decimal with digits := (decimal.digits.reverse.dropWhile (· == '0')).reverse }

namespace Magnitude

/-- The magnitude of a finite number, none for zero. -/
def ofFloat? (x : Float) : Option Magnitude :=
  let bits := x.toBits.toNat
  let biased := bits / Nat.pow 2 52 % 2048
  let fraction := bits % Nat.pow 2 52
  let significand := if biased = 0 then fraction else fraction + Nat.pow 2 52
  if biased = 2047 ∨ significand = 0 then
    none
  else
    some ⟨significand, (max biased 1 : Nat) - 1075, fraction == 0 && decide (1 < biased)⟩

/-- A quarter of the unit of the significand, counted in `10 ^ unit`, as a fraction. -/
def quarter (magnitude : Magnitude) (unit : Int) : Nat × Nat :=
  let exponent := magnitude.exponent - 2
  (Nat.pow 2 exponent.toNat * Nat.pow 10 (-unit).toNat,
    Nat.pow 2 (-exponent).toNat * Nat.pow 10 unit.toNat)

/-- The magnitude counted in `10 ^ unit`, as a fraction. -/
def inUnits (magnitude : Magnitude) (unit : Int) : Nat × Nat :=
  let (num, den) := magnitude.quarter unit
  (4 * magnitude.significand * num, den)

/-- The power of ten of the first decimal digit.  The binary logarithm leaves two candidates. -/
def leading (magnitude : Magnitude) : Int :=
  let candidate := (magnitude.significand.log2 + magnitude.exponent) * 30103 / 100000
  let (num, den) := magnitude.inUnits (candidate + 1)
  if den ≤ num then candidate + 1 else candidate

end Magnitude

/-- Whether the sign of a number is negative, also for a zero. -/
def isNegative (x : Float) : Bool :=
  decide (Nat.pow 2 63 ≤ x.toBits.toNat)

end Multifidelity.Decimal
