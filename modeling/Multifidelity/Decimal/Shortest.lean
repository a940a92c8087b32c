import Multifidelity.Decimal.Magnitude

/-!
# Shortest decimals

The fewest decimal digits that read back as the same binary64 number, and of those the nearest.

## Main definitions

* `Decimal.Magnitude.admits`: whether a decimal reads back as the magnitude.
* `Decimal.Magnitude.shortest`: the shortest decimal.
-/

namespace Multifidelity.Decimal.Magnitude

/-- Whether `units * 10 ^ unit` reads back as the magnitude: it lies between the middles to the two
neighbours, which themselves go to the even significand. -/
def admits (magnitude : Magnitude) (unit : Int) (units : Nat) : Bool :=
  let (num, den) := magnitude.quarter unit
  let below := (4 * magnitude.significand - if magnitude.binadeStart then 1 else 2) * num
  let above := (4 * magnitude.significand + 2) * num
  if magnitude.significand % 2 = 0 then
    decide (below ≤ units * den ∧ units * den ≤ above)
  else
    decide (below < units * den ∧ units * den < above)

/-- The neighbour of the magnitude among the multiples of `10 ^ unit` that reads back, the nearer
one if both do and the larger one if they are equally near. -/
def neighbour? (magnitude : Magnitude) (unit : Int) : Option Nat :=
  let (num, den) := magnitude.inUnits unit
  let lower := num / den
  let upper := lower + 1
  match magnitude.admits unit lower, magnitude.admits unit upper with
  | true, true => some (if num - lower * den < upper * den - num then lower else upper)
  | true, false => some lower
  | false, true => some upper
  | false, false => none

/-- The shortest decimal: the coarsest grid on which a neighbour reads back.  Seventeen digits
always do. -/
def shortest (magnitude : Magnitude) : Scientific :=
  let leading := magnitude.leading
  let found := (List.range 17).findSome? fun (extra : Nat) =>
    let unit := leading - extra
    (magnitude.neighbour? unit).map fun units => Scientific.ofUnits units unit
  (found.getD ⟨['0'], leading⟩).stripped

end Multifidelity.Decimal.Magnitude
