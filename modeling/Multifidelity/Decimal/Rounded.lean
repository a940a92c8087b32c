import Multifidelity.Decimal.Magnitude

/-!
# Decimals with a given number of digits

## Main definitions

* `Decimal.Magnitude.rounded`: the nearest decimal with a given number of digits.
* `Decimal.scientific`: its text.
-/

namespace Multifidelity.Decimal

/-- The integer nearest to a fraction, a half goes to the even neighbour. -/
def nearest (num den : Nat) : Nat :=
  let quotient := num / den
  let twice := 2 * (num % den)
  if twice < den ∨ (twice = den ∧ quotient % 2 = 0) then quotient else quotient + 1

/-- The nearest decimal with `count` digits, for a positive `count`. -/
def Magnitude.rounded (magnitude : Magnitude) (count : Nat) : Scientific :=
  let unit := magnitude.leading + 1 - (count : Int)
  let (num, den) := magnitude.inUnits unit
  let decimal := Scientific.ofUnits (nearest num den) unit
  { decimal with digits := decimal.digits.take count }

/-- The digits with a point after the first one and the power of ten after an `e`. -/
def Scientific.text (decimal : Scientific) : String :=
  let mantissa := match decimal.digits with
    | first :: second :: rest => first :: '.' :: second :: rest
    | short => short
  String.ofList mantissa ++ "e" ++ toString decimal.leading

/-- The text of a number with `count` significant digits, for a positive `count`. -/
def scientific (count : Nat) (x : Float) : String :=
  let sign := if isNegative x then "-" else ""
  if x.isNaN then
    "NaN"
  else if x.isInf then
    sign ++ "inf"
  else
    let decimal := match Magnitude.ofFloat? x with
      | some magnitude => magnitude.rounded count
      | none => ⟨List.replicate count '0', 0⟩
    sign ++ decimal.text

end Multifidelity.Decimal
