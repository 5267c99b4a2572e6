import Mathlib.Data.Int.Log
import Mathlib.Data.Rat.Floor
import Rbo.Foundation.Texts

/-!
# The number that a text denotes

`Number` reads a text as a double: a decimal with an optional sign, fraction
and exponent, or digits of another base behind a prefix.  The value is rounded
to the nearest double, to the even one of two that are as near.
-/

namespace Rbo.Foundation

/-! ## Doubles -/

/-- The nearest integer, the even one of two. -/
def roundHalfEven (value : ℚ) : ℤ :=
  let below := ⌊value⌋
  let rest := value - below
  if rest < 1 / 2 then below
  else if 1 / 2 < rest then below + 1
  else if below % 2 = 0 then below
  else below + 1

/-- The double next to a magnitude; there is none for a magnitude that is too
large. -/
def roundMagnitude (magnitude : ℚ) : Option ℚ :=
  if magnitude = 0 then some 0
  else
    let unit : ℚ := 2 ^ max (Int.log 2 magnitude - 52) (-1074)
    let rounded := roundHalfEven (magnitude / unit) * unit
    if rounded < 2 ^ (1024 : ℤ) then some rounded else none

/-! ## Digits -/

def digitValue (base : Nat) (char : Char) : Option Nat :=
  let code := char.toNat
  let value :=
    if 0x30 ≤ code ∧ code ≤ 0x39 then some (code - 0x30)
    else if 0x41 ≤ code ∧ code ≤ 0x5A then some (code - 0x41 + 10)
    else if 0x61 ≤ code ∧ code ≤ 0x7A then some (code - 0x61 + 10)
    else none
  value.filter (· < base)

/-- The digits that a text starts with, as a number behind another one. -/
def readDigits (base : Nat) : Nat → List Char → Nat × List Char
  | value, [] => (value, [])
  | value, char :: text =>
    match digitValue base char with
    | some digit => readDigits base (value * base + digit) text
    | none => (value, char :: text)

/-- A text that is all digits, with at least one. -/
def readInteger (base : Nat) (text : List Char) : Option Nat :=
  match text, readDigits base 0 text with
  | _ :: _, (value, []) => some value
  | _, _ => none

/-- The exponent that ends a decimal. -/
def readExponent : List Char → Option ℤ
  | [] => some 0
  | mark :: text =>
    if mark = 'e' ∨ mark = 'E' then
      match text with
      | '+' :: digits => (readInteger 10 digits).map Int.ofNat
      | '-' :: digits => (readInteger 10 digits).map fun value => -value
      | digits => (readInteger 10 digits).map Int.ofNat
    else none

/-- A decimal without a sign: digits, a fraction and an exponent. -/
def readDecimal (text : List Char) : Option ℚ :=
  let (whole, rest) := readDigits 10 0 text
  let wholeCount := text.length - rest.length
  match rest with
  | '.' :: fraction =>
    let (digits, tail) := readDigits 10 whole fraction
    let count := fraction.length - tail.length
    if wholeCount + count = 0 then none
    else
      (readExponent tail).map fun exponent : ℤ =>
        (digits : ℚ) * 10 ^ (exponent - (count : ℤ))
  | tail =>
    if wholeCount = 0 then none
    else
      (readExponent tail).map fun exponent : ℤ => (whole : ℚ) * 10 ^ exponent

/-! ## Texts -/

/-- `Number`, of a text; nothing when it is no finite number. -/
def Number (text : List Char) : Option ℚ :=
  match trim text with
  | [] => some 0
  | '0' :: 'x' :: digits | '0' :: 'X' :: digits =>
    (readInteger 16 digits).bind fun value => roundMagnitude value
  | '0' :: 'o' :: digits | '0' :: 'O' :: digits =>
    (readInteger 8 digits).bind fun value => roundMagnitude value
  | '0' :: 'b' :: digits | '0' :: 'B' :: digits =>
    (readInteger 2 digits).bind fun value => roundMagnitude value
  | '+' :: text => (readDecimal text).bind roundMagnitude
  | '-' :: text =>
    ((readDecimal text).bind roundMagnitude).map fun value => -value
  | text => (readDecimal text).bind roundMagnitude

example : Number ['1', '0'] = some 10 := by decide +kernel

example : Number ['1', 'a'] = none := by decide +kernel

end Rbo.Foundation
