import Multifidelity.Json.Tree
import Multifidelity.Scalar.Basic

/-!
# Reading JSON texts

The reader accepts the JSON grammar and nothing else.  A number that is too large for a binary64
number and a string with half of a surrogate pair are well-formed: they only have no value.

## Main definitions

* `Json.Reader.number`, `Json.Reader.string`, `Json.Reader.value`: readers for a part of the text.
* `Json.read?`: the value of a whole text.
-/

namespace Multifidelity.Json.Reader

/-- The text without blanks at its start. -/
def skipBlanks (text : List Char) : List Char :=
  text.dropWhile fun c => c == ' ' || c == '\n' || c == '\t' || c == '\r'

/-- The value of a list of digits. -/
def digitsValue (digits : List Char) : Nat :=
  digits.foldl (fun value digit => 10 * value + (digit.toNat - '0'.toNat)) 0

/-- At least one digit, with the rest of the text. -/
def digits (text : List Char) : Option (List Char × List Char) :=
  match text.takeWhile Char.isDigit with
  | [] => none
  | found => some (found, text.dropWhile Char.isDigit)

/-- The digits after a point, none at all if there is no point. -/
def fraction : List Char → Option (List Char × List Char)
  | '.' :: text => digits text
  | text => some ([], text)

/-- The power of ten after an `e`, none at all if there is no `e`. -/
def exponent : List Char → Option (Option Int × List Char)
  | first :: text =>
    if first == 'e' || first == 'E' then
      let (sign, text) : Int × List Char := match text with
        | '-' :: text => (-1, text)
        | '+' :: text => (1, text)
        | text => (1, text)
      (digits text).map fun (found, text) => (some (sign * digitsValue found), text)
    else some (none, first :: text)
  | [] => some (none, [])

/-- The number `mantissa * 10 ^ power`.  Powers far outside of the range are not computed. -/
def scaled (mantissa : Nat) (power : Int) : Float :=
  let leading := (Nat.toDigits 10 mantissa).length + power
  if mantissa = 0 ∨ leading < -400 then 0
  else if 400 < leading then 1 / 0
  else if power < 0 then Float.ofScientific mantissa true (-power).toNat
  else Float.ofScientific mantissa false power.toNat

/-- A number that is not whole or not in the range of a count. -/
def ofFloat (isNegative : Bool) (x : Float) : Json Float :=
  if x.isFinite then .real (if isNegative then -x else x) else .unreadable

/-- A whole number.  The negative zero is not a count. -/
def ofInteger (isNegative : Bool) (value : Nat) : Json Float :=
  if isNegative then
    if value = 0 ∨ Nat.pow 2 63 < value then ofFloat true (scaled value 0) else .negative value
  else
    if value ≤ maxCount then .count value else ofFloat false (scaled value 0)

/-- A number without its sign. -/
def unsigned (isNegative : Bool) (text : List Char) : Option (Json Float × List Char) := do
  let (whole, text) ← digits text
  if whole.head? == some '0' && whole.length != 1 then none
  let (places, text') ← fraction text
  let (power, text') ← exponent text'
  let value := match places, power with
    | [], none => ofInteger isNegative (digitsValue whole)
    | _, _ => ofFloat isNegative
      (scaled (digitsValue (whole ++ places)) (power.getD 0 - (places.length : Int)))
  return (value, text')

/-- A number. -/
def number : List Char → Option (Json Float × List Char)
  | '-' :: text => unsigned true text
  | text => unsigned false text

/-- The value of a hexadecimal digit. -/
def hexDigit (c : Char) : Option Nat :=
  if c.isDigit then some (c.toNat - '0'.toNat)
  else if 'a' ≤ c ∧ c ≤ 'f' then some (c.toNat - 'a'.toNat + 10)
  else if 'A' ≤ c ∧ c ≤ 'F' then some (c.toNat - 'A'.toNat + 10)
  else none

/-- The value of four hexadecimal digits. -/
def hexUnit (a b c d : Char) : Option Nat := do
  return (((← hexDigit a) * 16 + (← hexDigit b)) * 16 + (← hexDigit c)) * 16 + (← hexDigit d)

/-- The character of an escape with one letter. -/
def escaped : Char → Option Char
  | '"' => some '"'
  | '\\' => some '\\'
  | '/' => some '/'
  | 'b' => some '\x08'
  | 'f' => some '\x0c'
  | 'n' => some '\n'
  | 'r' => some '\r'
  | 't' => some '\t'
  | _ => none

/-- The units of a string up to its closing quote, with the rest of the text.  A character escaped
by its code is one unit of 16 bits, any other one is a unit by itself. -/
def units : List Char → Option (List (Char ⊕ Nat) × List Char)
  | '"' :: text => some ([], text)
  | '\\' :: 'u' :: a :: b :: c :: d :: text => do
    let unit ← hexUnit a b c d
    let (rest, text) ← units text
    return (.inr unit :: rest, text)
  | '\\' :: c :: text => do
    let unit ← escaped c
    let (rest, text) ← units text
    return (.inl unit :: rest, text)
  | c :: text =>
    if c == '\\' || c.toNat < 32 then none
    else do
      let (rest, text) ← units text
      return (.inl c :: rest, text)
  | [] => none

/-- The characters of units.  The two halves of a surrogate pair make one character, a half by
itself makes none. -/
def characters : List (Char ⊕ Nat) → Option (List Char)
  | [] => some []
  | .inl c :: rest => (characters rest).map (c :: ·)
  | .inr unit :: rest =>
    if 0xDC00 ≤ unit ∧ unit < 0xE000 then none
    else if 0xD800 ≤ unit ∧ unit < 0xDC00 then
      match rest with
      | .inr low :: rest =>
        if 0xDC00 ≤ low ∧ low < 0xE000 then
          (characters rest).map
            (Char.ofNat (0x10000 + (unit - 0xD800) * 0x400 + (low - 0xDC00)) :: ·)
        else none
      | _ => none
    else (characters rest).map (Char.ofNat unit :: ·)

/-- A string after its opening quote, none inside if it has no value. -/
def string (text : List Char) : Option (Option String × List Char) := do
  let (found, text) ← units text
  return ((characters found).map String.ofList, text)

mutual

/-- A value, with at most `fuel` readers inside of each other. -/
def value : Nat → List Char → Option (Json Float × List Char)
  | 0, _ => none
  | fuel + 1, text =>
    match skipBlanks text with
    | 'n' :: 'u' :: 'l' :: 'l' :: text => some (.null, text)
    | 't' :: 'r' :: 'u' :: 'e' :: text => some (.bool true, text)
    | 'f' :: 'a' :: 'l' :: 's' :: 'e' :: text => some (.bool false, text)
    | '"' :: text => (string text).map fun (found, text) =>
      ((found.map Json.string).getD .unreadable, text)
    | '[' :: text =>
      match skipBlanks text with
      | ']' :: text => some (.list [], text)
      | text => (items fuel text).map fun (found, text) => (.list found, text)
    | '{' :: text =>
      match skipBlanks text with
      | '}' :: text => some (.object [], text)
      | text => (fields fuel text).map fun (found, text) => (.object found, text)
    | text => number text

/-- The items of a list up to its closing bracket. -/
def items : Nat → List Char → Option (List (Json Float) × List Char)
  | 0, _ => none
  | fuel + 1, text => do
    let (first, text) ← value fuel text
    match skipBlanks text with
    | ']' :: text => return ([first], text)
    | ',' :: text =>
      let (rest, text) ← items fuel text
      return (first :: rest, text)
    | _ => none

/-- The fields of an object up to its closing brace. -/
def fields : Nat → List Char → Option (List (Option String × Json Float) × List Char)
  | 0, _ => none
  | fuel + 1, text => do
    let '"' :: text := skipBlanks text | none
    let (name, text) ← string text
    let ':' :: text := skipBlanks text | none
    let (first, text) ← value fuel text
    match skipBlanks text with
    | '}' :: text => return ([(name, first)], text)
    | ',' :: text =>
      let (rest, text) ← fields fuel text
      return ((name, first) :: rest, text)
    | _ => none

end

end Multifidelity.Json.Reader

namespace Multifidelity.Json

/-- The value of a text.  No reader starts more than two others per character. -/
def read? (text : String) : Option (Json Float) :=
  let characters := text.toList
  match Reader.value (2 * characters.length + 2) characters with
  | some (found, rest) => if (Reader.skipBlanks rest).isEmpty then some found else none
  | none => none

end Multifidelity.Json
