import Mathlib.Data.List.Forall2
import Rbo.Foundation.Json
import Rbo.Foundation.Utf16

/-!
# JavaScript values and their JSON texts

The values a program builds from literals, with the text `JSON.stringify`
gives them and the value `JSON.parse` makes of a text.

A finite number is the shortest decimal that denotes it, which is what
`Number::toString` prints.  `JSON.parse` rounds only a literal with more
digits than that, so it is exact on the texts that were printed.  Strings
are sequences of UTF-16 code units.
-/

namespace Rbo.Foundation

open Json

/-! ## Numbers -/

/-- A positive number `digits * 10 ^ exponent`, with the fewest digits. -/
structure Decimal where
  digits : Nat
  exponent : Int
  normal : digits % 10 ≠ 0
deriving DecidableEq

/-- A number of the language. -/
inductive JsNumber where
  | nan
  | infinity (negative : Bool)
  | zero (negative : Bool)
  | finite (negative : Bool) (magnitude : Decimal)
deriving DecidableEq

/-- `Number::toString` of a positive number, by the place of its point. -/
def Decimal.text (number : Decimal) : List Char :=
  let digits := Nat.toDigits 10 number.digits
  let place := number.exponent + digits.length
  if (digits.length : Int) ≤ place ∧ place ≤ 21 then
    digits ++ List.replicate number.exponent.toNat '0'
  else if 0 < place ∧ place ≤ 21 then
    digits.take place.toNat ++ '.' :: digits.drop place.toNat
  else if -6 < place ∧ place ≤ 0 then
    '0' :: '.' :: (List.replicate (-place).toNat '0' ++ digits)
  else
    let power := place - 1
    digits.take 1 ++
      (if digits.drop 1 = [] then [] else '.' :: digits.drop 1) ++
      'e' :: (if power < 0 then '-' else '+') ::
        Nat.toDigits 10 power.natAbs

/-- `JSON.stringify` of a number; one that is not finite is `null`. -/
def JsNumber.text : JsNumber → List Char
  | .nan => "null".toList
  | .infinity _ => "null".toList
  | .zero _ => ['0']
  | .finite negative magnitude =>
    (if negative then ['-'] else []) ++ magnitude.text

/-- The decimal with a coefficient, its last zeros moved to the exponent. -/
def Decimal.ofCoefficient (coefficient : Nat) (exponent : Int)
    (positive : 0 < coefficient) : Decimal :=
  if ends : coefficient % 10 = 0 then
    Decimal.ofCoefficient (coefficient / 10) (exponent + 1) (by omega)
  else
    { digits := coefficient, exponent, normal := ends }
termination_by coefficient

def JsNumber.ofLiteral (literal : Json.Number) : JsNumber :=
  if some : 0 < literal.coefficient then
    .finite literal.negative
      (Decimal.ofCoefficient literal.coefficient literal.exponent some)
  else
    .zero literal.negative

/-! ## Values -/

/-- A string, as its code units. -/
abbrev JsString := List UInt16

/-- A value; the members of an object are in some order. -/
inductive JsValue where
  | undefined
  | null
  | bool (value : Bool)
  | number (value : JsNumber)
  | string (value : JsString)
  | array (items : List JsValue)
  | object (members : List (JsString × JsValue))

/-- A name or a text of the program. -/
def jsText (text : String) : JsString :=
  Utf16.encode text.toList

/-- A member of an object. -/
def memberOf (name : JsString) : List (JsString × JsValue) → JsValue
  | [] => .undefined
  | (key, value) :: members =>
    if key = name then value else memberOf name members

/-- A property of a value that is not `null`. -/
def propertyOf (name : String) : JsValue → JsValue
  | .object members => memberOf (jsText name) members
  | _ => .undefined

/-! ## `JSON.stringify` -/

/-- A digit of a `\u` escape. -/
def hexDigit (value : Nat) : Char :=
  Nat.digitChar (value % 16)

/-- A code unit that is not written as it is. -/
def escapeUnit (unit : UInt16) : List Char :=
  if unit = 0x08 then ['\\', 'b']
  else if unit = 0x09 then ['\\', 't']
  else if unit = 0x0A then ['\\', 'n']
  else if unit = 0x0C then ['\\', 'f']
  else if unit = 0x0D then ['\\', 'r']
  else if unit = 0x22 then ['\\', '"']
  else if unit = 0x5C then ['\\', '\\']
  else if unit < 0x20 ∨ Utf16.isHigh unit ∨ Utf16.isLow unit then
    ['\\', 'u', hexDigit (unit.toNat / 4096), hexDigit (unit.toNat / 256),
      hexDigit (unit.toNat / 16), hexDigit unit.toNat]
  else
    [Utf16.single unit]

/-- The inside of a quoted string; a surrogate pair is one character. -/
def quoteBody : JsString → List Char
  | [] => []
  | [unit] => escapeUnit unit
  | first :: second :: rest =>
    if Utf16.isHigh first && Utf16.isLow second then
      Utf16.pair first second :: quoteBody rest
    else
      escapeUnit first ++ quoteBody (second :: rest)

/-- `QuoteJSONString`. -/
def quote (value : JsString) : List Char :=
  '"' :: quoteBody value ++ ['"']

/-- Texts with commas between them, in brackets. -/
def bracketed (opening closing : Char) (texts : List (List Char)) :
    List Char :=
  opening :: ([','].intercalate texts ++ [closing])

mutual

/-- `JSON.stringify`; `undefined` has no text. -/
def jsonStringify : JsValue → Option (List Char)
  | .undefined => none
  | .null => some "null".toList
  | .bool value => some (if value then "true".toList else "false".toList)
  | .number value => some value.text
  | .string value => some (quote value)
  | .array items => some (bracketed '[' ']' (itemTexts items))
  | .object members => some (bracketed '{' '}' (memberTexts members))

/-- The texts of items; one without a text is `null`. -/
def itemTexts : List JsValue → List (List Char)
  | [] => []
  | item :: items =>
    (jsonStringify item).getD "null".toList :: itemTexts items

/-- The texts of members; one without a text is left out. -/
def memberTexts : List (JsString × JsValue) → List (List Char)
  | [] => []
  | (key, value) :: members =>
    match jsonStringify value with
    | none => memberTexts members
    | some text => (quote key ++ ':' :: text) :: memberTexts members

end

/-! ## `JSON.parse` -/

/-- Set a property; a name that is there keeps its place. -/
def setProperty (key : JsString) (value : JsValue) :
    List (JsString × JsValue) → List (JsString × JsValue)
  | [] => [(key, value)]
  | (other, old) :: members =>
    if other = key then
      (key, value) :: members
    else
      (other, old) :: setProperty key value members

mutual

/-- The value of a parsed text. -/
def ofJson : Json.Value → JsValue
  | .null => .null
  | .bool value => .bool value
  | .number literal => .number (JsNumber.ofLiteral literal)
  | .string units => .string (units.map UInt16.ofNat)
  | .array items => .array (ofItems items)
  | .object members => .object (ofMembers [] members)

/-- The values of parsed items. -/
def ofItems : List Json.Value → List JsValue
  | [] => []
  | item :: items => ofJson item :: ofItems items

/-- The members of a parsed object, on top of those already set. -/
def ofMembers (done : List (JsString × JsValue)) :
    List (List Nat × Json.Value) → List (JsString × JsValue)
  | [] => done
  | (key, value) :: members =>
    ofMembers (setProperty (key.map UInt16.ofNat) (ofJson value) done)
      members

end

/-- `JSON.parse`. -/
def jsonParse (text : List Char) : Option JsValue :=
  (Json.parse text).map ofJson

end Rbo.Foundation
