import Multifidelity.Decimal.Layout

/-!
# Numbers in messages

## Main definitions

* `Message.number`, `Message.numbers`, `Message.counts`: numbers and lists in messages.
* `Message.padded`: texts aligned to the right.
-/

namespace Multifidelity.Message

/-- A number. -/
def number (x : Float) : String :=
  Decimal.Layout.message.text x

/-- Texts in brackets. -/
def list (texts : List String) : String :=
  "[" ++ String.intercalate ", " texts ++ "]"

/-- A list of numbers. -/
def numbers (xs : List Float) : String :=
  list (xs.map number)

/-- A list of counts. -/
def counts (ns : List Nat) : String :=
  list (ns.map fun n => toString n)

/-- A text aligned to the right of a column. -/
def padded (width : Nat) (text : String) : String :=
  String.ofList (List.replicate (width - text.length) ' ') ++ text

end Multifidelity.Message
