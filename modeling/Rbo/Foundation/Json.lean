import Mathlib.Data.List.Basic
import Mathlib.Data.Nat.Digits.Defs
import Mathlib.Tactic.IntervalCases

/-!
# `JSON.parse` on one line of text

A recursive-descent reader for JSON texts, with the behaviour of the
`JSON.parse` function of ECMAScript: the grammar is the one of RFC 8259, a
repeated member name keeps its last value, and a number is the double
nearest to its literal.  Strings are lists of UTF-16 code units, so that an
escaped lone surrogate has a value.

The laws at the end are the ones a reader of line-delimited records needs: a
text that denotes an object starts with an opening brace and contains a
closing one, and a plain decimal literal denotes its natural number.
-/

namespace Rbo.Foundation.Json

/-! ## Values -/

/-- A number literal: `(-1)^negative * coefficient * 10^exponent`. -/
structure Number where
  negative : Bool
  coefficient : Nat
  exponent : Int
  deriving DecidableEq

/-- The value denoted by a JSON text. -/
inductive Value where
  | null
  | bool (value : Bool)
  | number (value : Number)
  | string (units : List Nat)
  | array (items : List Value)
  | object (members : List (List Nat × Value))

/-- `Number.MAX_SAFE_INTEGER`. -/
def maxSafeInteger : Nat := 2 ^ 53 - 1

/-- Divide and round to the nearest natural number, ties to even. -/
def divideToEven (numerator denominator : Nat) : Nat :=
  let quotient := numerator / denominator
  let remainder := numerator % denominator
  if 2 * remainder < denominator then quotient
  else if denominator < 2 * remainder then quotient + 1
  else if quotient % 2 = 0 then quotient else quotient + 1

/--
The double nearest to a positive fraction, as a mantissa of at most 53 bits
and a binary exponent not below that of the subnormal doubles.
-/
def nearestDouble (numerator denominator : Nat) : Nat × Int :=
  let floorAt (exponent : Int) : Nat :=
    (numerator * 2 ^ (-exponent).toNat) /
      (denominator * 2 ^ exponent.toNat)
  let guess : Int :=
    (Nat.log2 numerator : Int) - (Nat.log2 denominator : Int) - 52
  let normal := if floorAt guess < 2 ^ 52 then guess - 1 else guess
  let exponent := max normal (-1074)
  (divideToEven (numerator * 2 ^ (-exponent).toNat)
    (denominator * 2 ^ exponent.toNat), exponent)

/-- The magnitude of a double, when it is an integer. -/
def doubleToNat (double : Nat × Int) : Option Nat :=
  let scale := 2 ^ (-double.2).toNat
  if double.1 % scale = 0 then
    some (double.1 / scale * 2 ^ double.2.toNat)
  else
    none

/--
The value of a number literal as a double, when that is an integer.  A
literal with a nonnegative exponent is an integer, which is exact as a double
up to `2 ^ 53`.
-/
def Number.integer? (literal : Number) : Option Int :=
  let magnitude :=
    if 0 ≤ literal.exponent then
      let value := literal.coefficient * 10 ^ literal.exponent.toNat
      if value ≤ 2 ^ 53 then some value
      else doubleToNat (nearestDouble value 1)
    else if literal.coefficient = 0 then
      some 0
    else
      doubleToNat
        (nearestDouble literal.coefficient
          (10 ^ (-literal.exponent).toNat))
  magnitude.map fun value =>
    if literal.negative then -(value : Int) else (value : Int)

/-- The integer of a value, when it is a number with an integer value. -/
def Value.integer? : Value → Option Int
  | .number literal => literal.integer?
  | _ => none

/-- `Number.isSafeInteger`, on the integers. -/
def IsSafe (value : Int) : Prop :=
  value.natAbs ≤ maxSafeInteger

instance (value : Int) : Decidable (IsSafe value) :=
  inferInstanceAs (Decidable (value.natAbs ≤ maxSafeInteger))

/-- The number of a value, when it is a safe integer. -/
def Value.safeInteger? (value : Value) : Option Int :=
  value.integer?.filter fun integer => decide (IsSafe integer)

/-- The UTF-16 code units of one character. -/
def charUnits (char : Char) : List Nat :=
  if char.toNat < 0x10000 then
    [char.toNat]
  else
    [0xD800 + (char.toNat - 0x10000) / 0x400,
      0xDC00 + (char.toNat - 0x10000) % 0x400]

/-- The UTF-16 code units of a text. -/
def textUnits (text : List Char) : List Nat :=
  text.flatMap charUnits

/-- The last member of that name, which is the one `JSON.parse` keeps. -/
def lookup (name : List Nat) : List (List Nat × Value) → Option Value
  | [] => none
  | (key, value) :: members =>
    match lookup name members with
    | some later => some later
    | none => if key = name then some value else none

/--
Read the property `name` of a parsed value.  The outer option is the
`TypeError` of a property access on `null`; the inner one is `undefined`.
-/
def Value.property (name : List Char) : Value → Option (Option Value)
  | .null => none
  | .object members => some (lookup (textUnits name) members)
  | _ => some none

/-! ## The reader -/

/-- The four characters JSON allows between tokens. -/
def isWhitespace (char : Char) : Bool :=
  char = ' ' || char = '\t' || char = '\n' || char = '\r'

/-- Drop the leading whitespace of a text. -/
def skipWhitespace (text : List Char) : List Char :=
  text.dropWhile isWhitespace

/-- The value of a hexadecimal digit. -/
def hexDigit? (char : Char) : Option Nat :=
  if '0' ≤ char ∧ char ≤ '9' then some (char.toNat - '0'.toNat)
  else if 'a' ≤ char ∧ char ≤ 'f' then some (char.toNat - 'a'.toNat + 10)
  else if 'A' ≤ char ∧ char ≤ 'F' then some (char.toNat - 'A'.toNat + 10)
  else none

/-- The code unit of a one-character escape. -/
def simpleEscape? (char : Char) : Option Nat :=
  if char = '"' ∨ char = '\\' ∨ char = '/' then some char.toNat
  else if char = 'b' then some 0x08
  else if char = 'f' then some 0x0C
  else if char = 'n' then some 0x0A
  else if char = 'r' then some 0x0D
  else if char = 't' then some 0x09
  else none

/-- Read the characters of a string, from after its opening quote. -/
def parseString : List Char → Option (List Nat × List Char)
  | '"' :: rest => some ([], rest)
  | '\\' :: 'u' :: first :: second :: third :: fourth :: rest => do
    let a ← hexDigit? first
    let b ← hexDigit? second
    let c ← hexDigit? third
    let d ← hexDigit? fourth
    let (units, after) ← parseString rest
    some ((((a * 16 + b) * 16 + c) * 16 + d) :: units, after)
  | '\\' :: escape :: rest => do
    let unit ← simpleEscape? escape
    let (units, after) ← parseString rest
    some (unit :: units, after)
  | char :: rest =>
    if char.toNat < 0x20 ∨ char = '\\' then
      none
    else do
      let (units, after) ← parseString rest
      some (charUnits char ++ units, after)
  | [] => none

/-- The leading decimal digits of a text, and the text after them. -/
def spanDigits (text : List Char) : List Char × List Char :=
  (text.takeWhile Char.isDigit, text.dropWhile Char.isDigit)

/-- The integer part of a number: `0`, or digits without a leading zero. -/
def parseInteger (text : List Char) : Option (List Char × List Char) :=
  match text with
  | '0' :: rest => some (['0'], rest)
  | _ =>
    let digits := spanDigits text
    if digits.1 = [] then none else some digits

/-- The optional fraction of a number. -/
def parseFraction (text : List Char) : Option (List Char × List Char) :=
  match text with
  | '.' :: rest =>
    let digits := spanDigits rest
    if digits.1 = [] then none else some digits
  | _ => some ([], text)

def exponentSign (text : List Char) : Int × List Char :=
  match text with
  | '+' :: digits => (1, digits)
  | '-' :: digits => (-1, digits)
  | _ => (1, text)

/-- The optional exponent of a number. -/
def parseExponent (text : List Char) : Option (Int × List Char) :=
  match text with
  | marker :: rest =>
    if marker = 'e' ∨ marker = 'E' then
      let digits := spanDigits (exponentSign rest).2
      if digits.1 = [] then
        none
      else
        some ((exponentSign rest).1 *
          (Nat.ofDigitChars 10 digits.1 0 : Int), digits.2)
    else
      some (0, text)
  | [] => some (0, [])

/-- Read a number literal without its sign. -/
def parseUnsigned (negative : Bool) (text : List Char) :
    Option (Number × List Char) := do
  let (integer, afterInteger) ← parseInteger text
  let (fraction, afterFraction) ← parseFraction afterInteger
  let (exponent, rest) ← parseExponent afterFraction
  some
    ({ negative := negative
       coefficient := Nat.ofDigitChars 10 (integer ++ fraction) 0
       exponent := exponent - fraction.length }, rest)

/-- Read a number literal. -/
def parseNumber (text : List Char) : Option (Number × List Char) :=
  match text with
  | '-' :: rest => parseUnsigned true rest
  | _ => parseUnsigned false text

/-- Read one of the three literal names. -/
def parseLiteral (text : List Char) : Option (Value × List Char) :=
  match text with
  | 't' :: 'r' :: 'u' :: 'e' :: rest => some (.bool true, rest)
  | 'f' :: 'a' :: 'l' :: 's' :: 'e' :: rest => some (.bool false, rest)
  | 'n' :: 'u' :: 'l' :: 'l' :: rest => some (.null, rest)
  | _ => none

mutual

/-- Read one value from a text without leading whitespace. -/
def parseValue : Nat → List Char → Option (Value × List Char)
  | 0, _ => none
  | fuel + 1, text =>
    match text with
    | '{' :: rest =>
      match skipWhitespace rest with
      | '}' :: after => some (.object [], after)
      | inner =>
        (parseMembers fuel inner).map fun parsed =>
          (.object parsed.1, parsed.2)
    | '[' :: rest =>
      match skipWhitespace rest with
      | ']' :: after => some (.array [], after)
      | inner =>
        (parseElements fuel inner).map fun parsed =>
          (.array parsed.1, parsed.2)
    | '"' :: rest =>
      (parseString rest).map fun parsed => (.string parsed.1, parsed.2)
    | _ =>
      match parseLiteral text with
      | some parsed => some parsed
      | none =>
        (parseNumber text).map fun parsed => (.number parsed.1, parsed.2)

/-- Read the members of an object, from its first member name. -/
def parseMembers :
    Nat → List Char → Option (List (List Nat × Value) × List Char)
  | 0, _ => none
  | fuel + 1, text =>
    match text with
    | '"' :: rest =>
      match parseString rest with
      | none => none
      | some (key, afterKey) =>
        match skipWhitespace afterKey with
        | ':' :: afterColon =>
          match parseValue fuel (skipWhitespace afterColon) with
          | none => none
          | some (value, afterValue) =>
            match skipWhitespace afterValue with
            | '}' :: after => some ([(key, value)], after)
            | ',' :: afterComma =>
              (parseMembers fuel (skipWhitespace afterComma)).map
                fun parsed =>
                  ((key, value) :: parsed.1, parsed.2)
            | _ => none
        | _ => none
    | _ => none

/-- Read the items of an array, from its first item. -/
def parseElements : Nat → List Char → Option (List Value × List Char)
  | 0, _ => none
  | fuel + 1, text =>
    match parseValue fuel text with
    | none => none
    | some (value, afterValue) =>
      match skipWhitespace afterValue with
      | ']' :: after => some ([value], after)
      | ',' :: afterComma =>
        (parseElements fuel (skipWhitespace afterComma)).map
          fun parsed => (value :: parsed.1, parsed.2)
      | _ => none

end

/--
`JSON.parse`: one value with whitespace around it.  Every nested value and
member is preceded by a character of its own, so the length of the text is
fuel enough.
-/
def parse (text : List Char) : Option Value :=
  match parseValue (text.length + 1) (skipWhitespace text) with
  | some (value, rest) =>
    if skipWhitespace rest = [] then some value else none
  | none => none

/-- `JSON.stringify` of a natural number below `10 ^ 21`. -/
def stringifyNat (value : Nat) : List Char :=
  Nat.toDigits 10 value

/-! ## Suffixes left by the reader -/

theorem skipWhitespace_suffix (text : List Char) :
    skipWhitespace text <:+ text :=
  List.dropWhile_suffix _

variable {text rest : List Char}

theorem parseString_suffix {units : List Nat}
    (parsed : parseString text = some (units, rest)) :
    rest <:+ text := by
  fun_induction parseString text generalizing units rest with
  | case1 after =>
    cases parsed
    exact List.suffix_cons _ _
  | case2 first second third fourth after induction =>
    simp only [Option.bind_eq_bind, Option.bind_eq_some_iff,
      Option.some.injEq, Prod.exists, Prod.mk.injEq] at parsed
    obtain ⟨_, _, _, _, _, _, _, _, _, _, inner, _, rfl⟩ := parsed
    exact (induction inner).trans
      ⟨['\\', 'u', first, second, third, fourth], rfl⟩
  | case3 escape after _ induction =>
    simp only [Option.bind_eq_bind, Option.bind_eq_some_iff,
      Option.some.injEq, Prod.exists, Prod.mk.injEq] at parsed
    obtain ⟨_, _, _, _, inner, _, rfl⟩ := parsed
    exact (induction inner).trans ⟨['\\', escape], rfl⟩
  | case4 => cases parsed
  | case5 char after _ _ _ _ induction =>
    simp only [Option.bind_eq_bind, Option.bind_eq_some_iff,
      Option.some.injEq, Prod.exists, Prod.mk.injEq] at parsed
    obtain ⟨_, _, inner, _, rfl⟩ := parsed
    exact (induction inner).trans (List.suffix_cons _ _)
  | case6 => cases parsed

theorem spanDigits_suffix (text : List Char) :
    (spanDigits text).2 <:+ text :=
  List.dropWhile_suffix _

theorem parseInteger_suffix {digits : List Char}
    (parsed : parseInteger text = some (digits, rest)) :
    rest <:+ text := by
  unfold parseInteger at parsed
  split at parsed
  · cases parsed
    exact List.suffix_cons _ _
  · dsimp only at parsed
    split at parsed
    · cases parsed
    · cases parsed
      exact spanDigits_suffix _

theorem parseFraction_suffix {digits : List Char}
    (parsed : parseFraction text = some (digits, rest)) :
    rest <:+ text := by
  unfold parseFraction at parsed
  split at parsed
  · dsimp only at parsed
    split at parsed
    · cases parsed
    · cases parsed
      exact (spanDigits_suffix _).trans (List.suffix_cons _ _)
  · cases parsed
    exact List.suffix_rfl

theorem exponentSign_suffix (text : List Char) :
    (exponentSign text).2 <:+ text := by
  unfold exponentSign
  split
  · exact List.suffix_cons _ _
  · exact List.suffix_cons _ _
  · exact List.suffix_rfl

theorem parseExponent_suffix {value : Int}
    (parsed : parseExponent text = some (value, rest)) :
    rest <:+ text := by
  unfold parseExponent at parsed
  split at parsed
  · rename_i marker after
    split at parsed
    · dsimp only at parsed
      split at parsed
      · cases parsed
      · cases parsed
        exact (spanDigits_suffix _).trans
          ((exponentSign_suffix _).trans (List.suffix_cons _ _))
    · cases parsed
      exact List.suffix_rfl
  · cases parsed
    exact List.suffix_rfl

theorem parseNumber_suffix {value : Number}
    (parsed : parseNumber text = some (value, rest)) :
    rest <:+ text := by
  have unsigned : ∀ {negative : Bool} {source : List Char},
      parseUnsigned negative source = some (value, rest) →
        rest <:+ source := by
    intro negative source read
    simp only [parseUnsigned, Option.bind_eq_bind,
      Option.bind_eq_some_iff, Option.some.injEq, Prod.exists,
      Prod.mk.injEq] at read
    obtain ⟨_, _, integer, _, _, fraction, _, _, exponent, _, rfl⟩ := read
    exact (parseExponent_suffix exponent).trans
      ((parseFraction_suffix fraction).trans (parseInteger_suffix integer))
  unfold parseNumber at parsed
  split at parsed
  · exact (unsigned parsed).trans (List.suffix_cons _ _)
  · exact unsigned parsed

theorem parseLiteral_suffix {value : Value}
    (parsed : parseLiteral text = some (value, rest)) :
    rest <:+ text := by
  unfold parseLiteral at parsed
  split at parsed
  · cases parsed
    exact ⟨['t', 'r', 'u', 'e'], rfl⟩
  · cases parsed
    exact ⟨['f', 'a', 'l', 's', 'e'], rfl⟩
  · cases parsed
    exact ⟨['n', 'u', 'l', 'l'], rfl⟩
  · cases parsed

/-- What the reader leaves after a value, a member list or an item list. -/
structure LeavesSuffix (fuel : Nat) : Prop where
  value : ∀ {text rest : List Char} {value : Value},
    parseValue fuel text = some (value, rest) → rest <:+ text
  members : ∀ {text rest : List Char} {members : List (List Nat × Value)},
    parseMembers fuel text = some (members, rest) →
      '}' :: rest <:+ text
  elements : ∀ {text rest : List Char} {items : List Value},
    parseElements fuel text = some (items, rest) → rest <:+ text

variable {char : Char}

/-- The text after whitespace, once its first character is known. -/
theorem suffix_of_skipWhitespace (found : skipWhitespace text = char :: rest) :
    char :: rest <:+ text := by
  rw [← found]
  exact skipWhitespace_suffix text

theorem suffix_of_cons_suffix (suffix : char :: rest <:+ text) :
    rest <:+ text :=
  (List.suffix_cons _ _).trans suffix

theorem leavesSuffix_value {fuel : Nat} (previous : LeavesSuffix fuel)
    {value : Value} (parsed : parseValue (fuel + 1) text = some (value, rest)) :
    rest <:+ text := by
  unfold parseValue at parsed
  split at parsed
  · split at parsed
    · rename_i found
      cases parsed
      exact (suffix_of_cons_suffix (suffix_of_skipWhitespace found)).trans
        (List.suffix_cons _ _)
    · obtain ⟨⟨_, _⟩, inner, ⟨⟩⟩ := Option.map_eq_some_iff.mp parsed
      exact (suffix_of_cons_suffix (previous.members inner)).trans
        ((skipWhitespace_suffix _).trans (List.suffix_cons _ _))
  · split at parsed
    · rename_i found
      cases parsed
      exact (suffix_of_cons_suffix (suffix_of_skipWhitespace found)).trans
        (List.suffix_cons _ _)
    · obtain ⟨⟨_, _⟩, inner, ⟨⟩⟩ := Option.map_eq_some_iff.mp parsed
      exact (previous.elements inner).trans
        ((skipWhitespace_suffix _).trans (List.suffix_cons _ _))
  · obtain ⟨⟨_, _⟩, inner, ⟨⟩⟩ := Option.map_eq_some_iff.mp parsed
    exact (parseString_suffix inner).trans (List.suffix_cons _ _)
  · split at parsed
    · rename_i found
      cases parsed
      exact parseLiteral_suffix found
    · obtain ⟨⟨_, _⟩, inner, ⟨⟩⟩ := Option.map_eq_some_iff.mp parsed
      exact parseNumber_suffix inner

variable {members : List (List Nat × Value)}

theorem leavesSuffix_members {fuel : Nat} (previous : LeavesSuffix fuel)
    (parsed : parseMembers (fuel + 1) text = some (members, rest)) :
    '}' :: rest <:+ text := by
  unfold parseMembers at parsed
  split at parsed
  · split at parsed
    · cases parsed
    · rename_i keyRead
      split at parsed
      · rename_i colonFound
        split at parsed
        · cases parsed
        · rename_i valueRead
          -- The text after the value is a suffix of the text of the member.
          have afterValue :=
            (previous.value valueRead).trans
              ((skipWhitespace_suffix _).trans
                (suffix_of_cons_suffix
                  ((suffix_of_skipWhitespace colonFound).trans
                    ((parseString_suffix keyRead).trans
                      (List.suffix_cons '"' _)))))
          split at parsed
          · rename_i braceFound
            cases parsed
            exact (suffix_of_skipWhitespace braceFound).trans afterValue
          · rename_i commaFound
            obtain ⟨⟨_, _⟩, inner, ⟨⟩⟩ := Option.map_eq_some_iff.mp parsed
            exact (previous.members inner).trans
              ((skipWhitespace_suffix _).trans
                (suffix_of_cons_suffix
                  ((suffix_of_skipWhitespace commaFound).trans
                    afterValue)))
          · cases parsed
      · cases parsed
  · cases parsed

theorem leavesSuffix_elements {fuel : Nat} (previous : LeavesSuffix fuel)
    {items : List Value}
    (parsed : parseElements (fuel + 1) text = some (items, rest)) :
    rest <:+ text := by
  unfold parseElements at parsed
  split at parsed
  · cases parsed
  · rename_i valueRead
    have afterValue := previous.value valueRead
    split at parsed
    · rename_i bracketFound
      cases parsed
      exact (suffix_of_cons_suffix
        (suffix_of_skipWhitespace bracketFound)).trans afterValue
    · rename_i commaFound
      obtain ⟨⟨_, _⟩, inner, ⟨⟩⟩ := Option.map_eq_some_iff.mp parsed
      exact (previous.elements inner).trans
        ((skipWhitespace_suffix _).trans
          (suffix_of_cons_suffix
            ((suffix_of_skipWhitespace commaFound).trans afterValue)))
    · cases parsed

/-- The reader consumes a prefix of its text. -/
theorem leavesSuffix (fuel : Nat) : LeavesSuffix fuel := by
  induction fuel with
  | zero =>
    constructor
    · intro text rest value parsed
      unfold parseValue at parsed
      cases parsed
    · intro text rest members parsed
      unfold parseMembers at parsed
      cases parsed
    · intro text rest items parsed
      unfold parseElements at parsed
      cases parsed
  | succ fuel previous =>
    exact
      { value := leavesSuffix_value previous
        members := leavesSuffix_members previous
        elements := leavesSuffix_elements previous }

/-! ## Texts that denote an object -/

theorem parseValue_object {fuel : Nat}
    (parsed : parseValue fuel text = some (.object members, rest)) :
    ∃ inner, text = '{' :: inner ∧ '}' ∈ inner := by
  cases fuel with
  | zero =>
    unfold parseValue at parsed
    cases parsed
  | succ fuel =>
    unfold parseValue at parsed
    split at parsed
    · rename_i inner
      refine ⟨inner, rfl, ?_⟩
      split at parsed
      · rename_i found
        exact (suffix_of_skipWhitespace found).mem (by simp)
      · simp only [Option.map_eq_some_iff, Prod.exists] at parsed
        obtain ⟨_, _, read, _⟩ := parsed
        exact (skipWhitespace_suffix _).mem
          (((leavesSuffix fuel).members read).mem (by simp))
    · split at parsed
      · cases parsed
      · simp at parsed
    · simp at parsed
    · split at parsed
      · rename_i found
        cases parsed
        unfold parseLiteral at found
        split at found <;> cases found
      · simp at parsed

/-- A text that denotes an object starts with a brace and has a closing one. -/
theorem parse_object (parsed : parse text = some (.object members)) :
    ∃ inner, skipWhitespace text = '{' :: inner ∧ '}' ∈ inner := by
  unfold parse at parsed
  split at parsed
  · rename_i read
    split at parsed
    · cases parsed
      exact parseValue_object read
    · cases parsed
  · cases parsed

/-- A property other than `undefined` belongs to an object. -/
theorem object_of_property
    {value found : Value} {name : List Char}
    (property : value.property name = some (some found)) :
    ∃ members, value = .object members := by
  cases value with
  | object members => exact ⟨members, rfl⟩
  | null => simp [Value.property] at property
  | bool value => simp [Value.property] at property
  | number value => simp [Value.property] at property
  | string units => simp [Value.property] at property
  | array items => simp [Value.property] at property

/-! ## Decimal literals -/

theorem isDigit_of_mem_stringifyNat {value : Nat}
    (member : char ∈ stringifyNat value) : char.isDigit :=
  Nat.isDigit_of_mem_toDigits (by decide) (by decide) member

theorem stringifyNat_ne_nil (value : Nat) : stringifyNat value ≠ [] :=
  Nat.toDigits_ne_nil

/-- A positive number is written without a leading zero. -/
theorem stringifyNat_head_ne_zero
    {value : Nat} (positive : 0 < value) (rest : List Char) :
    stringifyNat value ≠ '0' :: rest := by
  unfold stringifyNat
  induction value using Nat.strong_induction_on generalizing rest with
  | _ value induction =>
    by_cases small : value < 10
    · rw [Nat.toDigits_of_lt_base small]
      intro equal
      have headEqual : value.digitChar = '0' :=
        (List.cons.inj equal).1
      interval_cases value <;> simp [Nat.digitChar] at headEqual
    · rw [Nat.toDigits_of_base_le (by decide) (by omega)]
      cases digits : Nat.toDigits 10 (value / 10) with
      | nil => exact absurd digits Nat.toDigits_ne_nil
      | cons head tail =>
        intro equal
        have headEqual : head = '0' := (List.cons.inj equal).1
        refine induction (value / 10) (by omega) (by omega) tail ?_
        rw [digits, headEqual]

/-- A character that can follow a plain decimal literal. -/
def EndsNumber (char : Char) : Prop :=
  char.isDigit = false ∧ char ≠ '.' ∧ char ≠ 'e' ∧ char ≠ 'E'

theorem spanDigits_append {digits : List Char}
    (allDigits : ∀ digit ∈ digits, digit.isDigit)
    (stop : char.isDigit = false) :
    spanDigits (digits ++ char :: rest) = (digits, char :: rest) := by
  have stopped : ¬ char.isDigit := by simp [stop]
  unfold spanDigits
  rw [List.takeWhile_append_of_pos allDigits,
    List.dropWhile_append_of_pos allDigits,
    List.takeWhile_cons_of_neg stopped,
    List.dropWhile_cons_of_neg stopped, List.append_nil]

theorem parseInteger_stringifyNat (value : Nat) (stop : char.isDigit = false)
    (rest : List Char) :
    parseInteger (stringifyNat value ++ char :: rest) =
      some (stringifyNat value, char :: rest) := by
  by_cases zero : value = 0
  · subst zero
    rfl
  · have span :
        spanDigits (stringifyNat value ++ char :: rest) =
          (stringifyNat value, char :: rest) :=
      spanDigits_append (fun _ => isDigit_of_mem_stringifyNat) stop
    unfold parseInteger
    split
    · rename_i after equal
      cases digits : stringifyNat value with
      | nil => exact absurd digits (stringifyNat_ne_nil value)
      | cons head tail =>
        rw [digits] at equal
        have headEqual : head = '0' := (List.cons.inj equal).1
        exact absurd (headEqual ▸ digits)
          (stringifyNat_head_ne_zero (Nat.pos_of_ne_zero zero) tail)
    · simp [span, stringifyNat_ne_nil]

/-- Reading back a written natural number. -/
theorem parseNumber_stringifyNat (value : Nat) (stop : EndsNumber char)
    (rest : List Char) :
    parseNumber (stringifyNat value ++ char :: rest) =
      some (⟨false, value, 0⟩, char :: rest) := by
  obtain ⟨notDigit, notPoint, notLower, notUpper⟩ := stop
  have unsigned :
      parseUnsigned false (stringifyNat value ++ char :: rest) =
        some (⟨false, value, 0⟩, char :: rest) := by
    have fraction : parseFraction (char :: rest) = some ([], char :: rest) := by
      unfold parseFraction
      split
      · rename_i equal
        exact absurd (List.cons.inj equal).1 notPoint
      · rfl
    have exponent : parseExponent (char :: rest) = some (0, char :: rest) := by
      simp [parseExponent, notLower, notUpper]
    have coefficient : Nat.ofDigitChars 10 (stringifyNat value) 0 = value :=
      Nat.ofDigitChars_ten_toDigits
    simp [parseUnsigned, parseInteger_stringifyNat value notDigit, fraction,
      exponent, coefficient]
  unfold parseNumber
  split
  · rename_i after equal
    cases digits : stringifyNat value with
    | nil => exact absurd digits (stringifyNat_ne_nil value)
    | cons head tail =>
      rw [digits] at equal
      have headEqual : head = '-' := (List.cons.inj equal).1
      have headDigit : head.isDigit :=
        isDigit_of_mem_stringifyNat (by rw [digits]; simp)
      rw [headEqual] at headDigit
      exact absurd headDigit (by decide)
  · exact unsigned

theorem parseLiteral_of_isDigit (digit : char.isDigit) (rest : List Char) :
    parseLiteral (char :: rest) = none := by
  unfold parseLiteral
  split
  · rename_i equal
    rw [(List.cons.inj equal).1] at digit
    exact absurd digit (by decide)
  · rename_i equal
    rw [(List.cons.inj equal).1] at digit
    exact absurd digit (by decide)
  · rename_i equal
    rw [(List.cons.inj equal).1] at digit
    exact absurd digit (by decide)
  · rfl

/-- The value of a written natural number. -/
theorem parseValue_stringifyNat (fuel value : Nat) (stop : EndsNumber char)
    (rest : List Char) :
    parseValue (fuel + 1) (stringifyNat value ++ char :: rest) =
      some (.number ⟨false, value, 0⟩, char :: rest) := by
  have read := parseNumber_stringifyNat value stop rest
  cases digits : stringifyNat value with
  | nil => exact absurd digits (stringifyNat_ne_nil value)
  | cons head tail =>
    have headDigit : head.isDigit :=
      isDigit_of_mem_stringifyNat (by rw [digits]; simp)
    have notHead : ∀ other : Char, other.isDigit = false → head ≠ other := by
      intro other notDigit equal
      rw [equal, notDigit] at headDigit
      cases headDigit
    rw [digits, List.cons_append] at read
    rw [List.cons_append]
    unfold parseValue
    split
    · rename_i equal
      exact absurd (List.cons.inj equal).1 (notHead _ (by decide))
    · rename_i equal
      exact absurd (List.cons.inj equal).1 (notHead _ (by decide))
    · rename_i equal
      exact absurd (List.cons.inj equal).1 (notHead _ (by decide))
    · rw [parseLiteral_of_isDigit headDigit, read]
      rfl

/-- A digit is not whitespace, so a written number is read where it starts. -/
theorem skipWhitespace_stringifyNat (value : Nat) (rest : List Char) :
    skipWhitespace (stringifyNat value ++ rest) =
      stringifyNat value ++ rest := by
  cases digits : stringifyNat value with
  | nil => exact absurd digits (stringifyNat_ne_nil value)
  | cons head tail =>
    have headDigit : head.isDigit :=
      isDigit_of_mem_stringifyNat (by rw [digits]; simp)
    have notWhitespace : ¬ isWhitespace head := by
      intro whitespace
      simp only [isWhitespace, Bool.or_eq_true, decide_eq_true_eq]
        at whitespace
      rcases whitespace with ((equal | equal) | equal) | equal <;>
        (rw [equal] at headDigit; exact absurd headDigit (by decide))
    rw [skipWhitespace, List.cons_append,
      List.dropWhile_cons_of_neg notWhitespace]

/-- The integer of a written natural number up to `2 ^ 53`. -/
theorem integer?_natural
    {value : Nat} (bounded : value ≤ 2 ^ 53) :
    Value.integer? (.number ⟨false, value, 0⟩) = some (value : Int) := by
  have exact : value ≤ 9007199254740992 := bounded
  simp [Value.integer?, Number.integer?, exact]

/-- A written natural number is a safe integer when it is small enough. -/
theorem safeInteger?_natural
    {value : Nat} (safe : value ≤ maxSafeInteger) :
    Value.safeInteger? (.number ⟨false, value, 0⟩) = some (value : Int) := by
  have bounded : value ≤ 2 ^ 53 :=
    safe.trans (Nat.sub_le _ _)
  rw [Value.safeInteger?, integer?_natural bounded]
  simp [IsSafe, safe]

/-- A safe number has at most sixteen digits. -/
theorem length_stringifyNat_le
    {value : Nat} (safe : value ≤ maxSafeInteger) :
    (stringifyNat value).length ≤ 16 := by
  refine Nat.toDigits_length 10 value 16 (by decide) ?_
  calc
    value ≤ maxSafeInteger := safe
    _ < 10 ^ 16 := by decide

/-! ## Members with plain names -/

theorem skipWhitespace_cons (notWhitespace : isWhitespace char = false)
    (rest : List Char) :
    skipWhitespace (char :: rest) = char :: rest := by
  rw [skipWhitespace, List.dropWhile_cons_of_neg (by simp [notWhitespace])]

/-- A character that stands for itself in a string. -/
def IsPlain (char : Char) : Prop :=
  0x20 ≤ char.toNat ∧ char ≠ '"' ∧ char ≠ '\\'

theorem parseString_plain (plain : ∀ char ∈ text, IsPlain char)
    (rest : List Char) :
    parseString (text ++ '"' :: rest) = some (textUnits text, rest) := by
  induction text with
  | nil =>
    simp [parseString, textUnits]
  | cons head tail induction =>
    rcases plain head (by simp) with ⟨printable, notQuote, notEscape⟩
    have tailRead := induction fun char member =>
      plain char (List.mem_cons_of_mem _ member)
    have notControl : ¬ (head.toNat < 0x20 ∨ head = '\\') := by
      rintro (control | escape)
      · omega
      · exact notEscape escape
    rw [List.cons_append, parseString]
    · simp [notControl, tailRead, textUnits]
    · intro equal
      exact notQuote equal
    · intro first second third fourth after equal
      exact absurd equal notEscape
    · intro escape after equal
      exact absurd equal notEscape

/-- Read a member whose value is followed by another member. -/
theorem parseMembers_cons
    (fuel : Nat) (key valueText next : List Char) {value : Value}
    (plain : ∀ char ∈ key, IsPlain char)
    (valueStart : skipWhitespace (valueText ++ ',' :: '"' :: next) =
      valueText ++ ',' :: '"' :: next)
    (valueRead :
      parseValue fuel (valueText ++ ',' :: '"' :: next) =
        some (value, ',' :: '"' :: next)) :
    parseMembers (fuel + 1)
        ('"' :: key ++ '"' :: ':' :: valueText ++ ',' :: '"' :: next) =
      (parseMembers fuel ('"' :: next)).map fun parsed =>
        ((textUnits key, value) :: parsed.1, parsed.2) := by
  have keyRead := parseString_plain plain
    (':' :: valueText ++ ',' :: '"' :: next)
  have layout :
      '"' :: key ++ '"' :: ':' :: valueText ++ ',' :: '"' :: next =
        '"' :: (key ++ '"' :: (':' :: valueText ++ ',' :: '"' :: next)) := by
    simp
  rw [layout, parseMembers, keyRead]
  simp only [List.cons_append]
  rw [skipWhitespace_cons (by decide)]
  simp only
  rw [valueStart, valueRead]
  simp only
  rw [skipWhitespace_cons (by decide)]
  simp only
  rw [skipWhitespace_cons (by decide)]

/-- Read the last member of an object. -/
theorem parseMembers_last
    {fuel : Nat} {key : List Char} {valueText rest : List Char}
    {value : Value}
    (plain : ∀ char ∈ key, IsPlain char)
    (valueStart : skipWhitespace (valueText ++ '}' :: rest) =
      valueText ++ '}' :: rest)
    (valueRead :
      parseValue fuel (valueText ++ '}' :: rest) =
        some (value, '}' :: rest)) :
    parseMembers (fuel + 1)
        ('"' :: key ++ '"' :: ':' :: valueText ++ '}' :: rest) =
      some ([(textUnits key, value)], rest) := by
  have keyRead := parseString_plain plain
    (':' :: valueText ++ '}' :: rest)
  have layout :
      '"' :: key ++ '"' :: ':' :: valueText ++ '}' :: rest =
        '"' :: (key ++ '"' :: (':' :: valueText ++ '}' :: rest)) := by
    simp
  rw [layout, parseMembers, keyRead]
  simp only [List.cons_append]
  rw [skipWhitespace_cons (by decide)]
  simp only
  rw [valueStart, valueRead]
  simp only
  rw [skipWhitespace_cons (by decide)]
  rfl

/-- The value of a quoted plain text. -/
theorem parseValue_plain (fuel : Nat) (plain : ∀ char ∈ text, IsPlain char)
    (rest : List Char) :
    parseValue (fuel + 1) ('"' :: text ++ '"' :: rest) =
      some (.string (textUnits text), rest) := by
  rw [List.cons_append, parseValue, parseString_plain plain]
  rfl

/-- Read an object with at least one member, given its members. -/
theorem parse_object_text (membersRead :
      parseMembers (text.length + 2) ('"' :: text) = some (members, [])) :
    parse ('{' :: '"' :: text) = some (.object members) := by
  have opened :
      parseValue (('{' :: '"' :: text).length + 1) ('{' :: '"' :: text) =
        some (.object members, []) := by
    rw [List.length_cons, List.length_cons, parseValue,
      skipWhitespace_cons (by decide)]
    change
      Option.map _ (parseMembers (text.length + 2) ('"' :: text)) = _
    rw [membersRead]
    rfl
  rw [parse, skipWhitespace_cons (by decide), opened]
  rfl

end Rbo.Foundation.Json
