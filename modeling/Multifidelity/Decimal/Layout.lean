import Multifidelity.Decimal.Rounded
import Multifidelity.Decimal.Shortest

/-!
# Texts of numbers in messages and on the console

Both write the shortest decimal.  Messages switch to powers of ten for very large and very small
numbers and show that a whole number is not a count; the console does neither.

## Main definitions

* `Decimal.Layout`: where powers of ten begin, and how whole numbers end.
* `Decimal.Layout.message`, `Decimal.Layout.console`: the two layouts in use.
* `Decimal.Layout.text`: the text of a number.
-/

namespace Multifidelity.Decimal

/-- How the shortest decimal of a number is laid out. -/
structure Layout where
  /-- Whether a number whose first digit counts `10 ^ leading` is written without a power of ten. -/
  positional : Int → Bool
  /-- Whether a whole number without a power of ten ends in a zero fraction. -/
  zeroFraction : Bool

namespace Layout

/-- Positional notation from `10 ^ (-4)` to below `10 ^ 16`, with at least one fractional digit. -/
def message : Layout :=
  ⟨fun leading => decide (-4 ≤ leading ∧ leading < 16), true⟩

/-- Positional notation always, and no fraction for a whole number. -/
def console : Layout :=
  ⟨fun _ => true, false⟩

/-- The digits of a whole number, followed by a zero fraction if the layout asks for it. -/
def whole (layout : Layout) (digits : List Char) : String :=
  String.ofList digits ++ if layout.zeroFraction then ".0" else ""

/-- The text of a decimal without trailing zeros. -/
def decimal (layout : Layout) (value : Scientific) : String :=
  let digits := value.digits
  if !layout.positional value.leading then
    value.text
  else if value.leading < 0 then
    "0." ++ String.ofList (List.replicate (-value.leading - 1).toNat '0' ++ digits)
  else
    let integral := value.leading.toNat + 1
    if digits.length ≤ integral then
      layout.whole (digits ++ List.replicate (integral - digits.length) '0')
    else
      String.ofList (digits.take integral) ++ "." ++ String.ofList (digits.drop integral)

/-- The text of a number. -/
def text (layout : Layout) (x : Float) : String :=
  let sign := if isNegative x then "-" else ""
  if x.isNaN then
    "NaN"
  else if x.isInf then
    sign ++ "inf"
  else
    sign ++ match Magnitude.ofFloat? x with
      | some magnitude => layout.decimal magnitude.shortest
      | none => layout.whole ['0']

end Layout

end Multifidelity.Decimal
