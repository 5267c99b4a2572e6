import Mathlib.Data.List.TakeWhile
import Rbo.Foundation.JsValue

/-!
# What `JSON.parse` makes of what `JSON.stringify` wrote

`ReadsAs` is the meaning of a text inside a longer one: the parser takes
exactly the text and gives the value.  Every kind of value has one rule, and
`readsAs_stringify` puts them together: a text that was written is read as
the value that `stored` names.
-/

namespace Rbo.Foundation

open Json

/-! ## Reading a number back -/

theorem Decimal.positive (number : Decimal) : 0 < number.digits := by
  have normal := number.normal
  omega

theorem Decimal.ofCoefficient_digits (number : Decimal)
    (positive : 0 < number.digits) :
    Decimal.ofCoefficient number.digits number.exponent positive =
      number := by
  rw [Decimal.ofCoefficient, dif_neg number.normal]

theorem Decimal.ofCoefficient_zeros (number : Decimal) (zeros : Nat)
    (exponent : Int) (shifted : number.exponent = exponent + zeros)
    (positive : 0 < number.digits * 10 ^ zeros) :
    Decimal.ofCoefficient (number.digits * 10 ^ zeros) exponent positive =
      number := by
  induction zeros generalizing exponent with
  | zero =>
    have same : exponent = number.exponent := by omega
    subst same
    have whole : number.digits * 10 ^ 0 = number.digits := by
      rw [Nat.pow_zero, Nat.mul_one]
    simp only [whole]
    exact number.ofCoefficient_digits number.positive
  | succ zeros induction =>
    have ends : number.digits * 10 ^ (zeros + 1) =
        10 * (number.digits * 10 ^ zeros) := by
      rw [Nat.pow_succ, ← Nat.mul_assoc, Nat.mul_comm]
    have shorter : number.digits * 10 ^ (zeros + 1) / 10 =
        number.digits * 10 ^ zeros := by
      rw [ends, Nat.mul_div_cancel_left _ (by decide)]
    rw [Decimal.ofCoefficient,
      dif_pos (by rw [ends, Nat.mul_mod_right])]
    simp only [shorter]
    exact induction (exponent + 1) (by omega) _

/-- What may stand behind a number. -/
def Stops (rest : List Char) : Prop :=
  ∀ char ∈ rest.head?, EndsNumber char

variable {rest : List Char}

theorem spanDigits_of (digits : List Char)
    (allDigits : ∀ digit ∈ digits, digit.isDigit)
    (stops : ∀ char ∈ rest.head?, char.isDigit = false) :
    spanDigits (digits ++ rest) = (digits, rest) := by
  cases rest with
  | nil =>
    have taken := List.takeWhile_eq_self_iff.mpr allDigits
    have dropped := List.dropWhile_eq_nil_iff.mpr allDigits
    unfold spanDigits
    rw [List.append_nil, taken, dropped]
  | cons char rest =>
    exact spanDigits_append allDigits (stops char rfl)

/-- The integer part of a number that was written. -/
structure IntegerPart (digits : List Char) : Prop where
  some : digits ≠ []
  allDigits : ∀ digit ∈ digits, digit.isDigit
  leading : digits = ['0'] ∨ digits.head? ≠ .some '0'

theorem integerPart_zero : IntegerPart ['0'] where
  some := List.cons_ne_nil _ _
  allDigits := fun digit member => by
    rw [List.mem_singleton.mp member]
    rfl
  leading := Or.inl rfl

theorem parseInteger_of {digits : List Char} (integer : IntegerPart digits)
    (stops : ∀ char ∈ rest.head?, char.isDigit = false) :
    parseInteger (digits ++ rest) = some (digits, rest) := by
  rcases integer.leading with rfl | leading
  · rfl
  · have span := spanDigits_of _ integer.allDigits stops
    unfold parseInteger
    split
    · rename_i after equal
      cases digits with
      | nil => exact absurd rfl integer.some
      | cons first digits =>
        rw [List.cons_append, List.cons.injEq] at equal
        exact absurd (congrArg some equal.1) leading
    · simp [span, integer.some]

/-- The fraction of a number that was written; an empty one has no point. -/
def fractionText (digits : List Char) : List Char :=
  if digits = [] then [] else '.' :: digits

theorem parseFraction_of {digits : List Char}
    (allDigits : ∀ digit ∈ digits, digit.isDigit)
    (stops : ∀ char ∈ rest.head?, char.isDigit = false ∧ char ≠ '.') :
    parseFraction (fractionText digits ++ rest) = some (digits, rest) := by
  unfold fractionText
  split
  · rename_i none
    subst none
    unfold parseFraction
    rw [List.nil_append]
    split
    · exact absurd rfl (stops '.' rfl).2
    · rfl
  · rename_i some
    have span := spanDigits_of _ allDigits fun char first =>
      (stops char first).1
    rw [List.cons_append, parseFraction, span]
    dsimp only
    rw [if_neg some]

theorem parseExponent_none (stops : Stops rest) :
    parseExponent rest = some (0, rest) := by
  unfold parseExponent
  split
  · rename_i marker after
    have ends := stops marker rfl
    rw [if_neg (by rw [not_or]; exact ends.2.2)]
  · rfl

/-- The exponent of a number that was written. -/
def exponentText (power : Int) : List Char :=
  'e' :: (if power < 0 then '-' else '+') :: Nat.toDigits 10 power.natAbs

theorem parseExponent_of (power : Int) (stops : Stops rest) :
    parseExponent (exponentText power ++ rest) = some (power, rest) := by
  have span := spanDigits_of (Nat.toDigits 10 power.natAbs)
    (fun _ => isDigit_of_mem_stringifyNat) fun char first =>
      (stops char first).1
  have value : Nat.ofDigitChars 10 (Nat.toDigits 10 power.natAbs) 0 =
      power.natAbs := Nat.ofDigitChars_ten_toDigits
  unfold exponentText
  rw [List.cons_append, parseExponent, if_pos (Or.inl rfl)]
  dsimp only
  by_cases below : power < 0
  · rw [if_pos below, List.cons_append]
    simp only [exponentSign]
    rw [span]
    dsimp only
    rw [if_neg Nat.toDigits_ne_nil, value]
    congr 2
    omega
  · rw [if_neg below, List.cons_append]
    simp only [exponentSign]
    rw [span]
    dsimp only
    rw [if_neg Nat.toDigits_ne_nil, value]
    congr 2
    omega

theorem parseUnsigned_of (negative : Bool) {integer : List Char}
    (fraction tail : List Char) {power : Int} (whole : IntegerPart integer)
    (allDigits : ∀ digit ∈ fraction, digit.isDigit)
    (stops : ∀ char ∈ tail.head?, char.isDigit = false ∧ char ≠ '.')
    (exponent : parseExponent tail = some (power, rest)) :
    parseUnsigned negative (integer ++ (fractionText fraction ++ tail)) =
      some ({ negative
              coefficient := Nat.ofDigitChars 10 (integer ++ fraction) 0
              exponent := power - fraction.length }, rest) := by
  have starts : ∀ char ∈ (fractionText fraction ++ tail).head?,
      char.isDigit = false := by
    unfold fractionText
    split
    · exact fun char first => (stops char first).1
    · rintro char ⟨⟩
      rfl
  unfold parseUnsigned
  simp only [parseInteger_of whole starts, parseFraction_of allDigits stops,
    exponent, Option.bind_eq_bind, Option.bind_some]

def Decimal.digitText (number : Decimal) : List Char :=
  Nat.toDigits 10 number.digits

theorem Decimal.isDigit_of_mem (number : Decimal) :
    ∀ digit ∈ number.digitText, digit.isDigit :=
  fun _ => isDigit_of_mem_stringifyNat

theorem Decimal.digitText_ne_nil (number : Decimal) :
    number.digitText ≠ [] :=
  Nat.toDigits_ne_nil

theorem Decimal.head_digitText (number : Decimal) :
    number.digitText.head? ≠ some '0' := by
  unfold Decimal.digitText
  cases digits : Nat.toDigits 10 number.digits with
  | nil => exact absurd digits Nat.toDigits_ne_nil
  | cons first rest =>
    intro zero
    rw [List.head?_cons, Option.some_inj] at zero
    exact stringifyNat_head_ne_zero number.positive rest (zero ▸ digits)

theorem Decimal.value_digitText (number : Decimal) :
    Nat.ofDigitChars 10 number.digitText 0 = number.digits :=
  Nat.ofDigitChars_ten_toDigits

/-- Front digits of a decimal are the integer part of a number. -/
theorem Decimal.integerPart_take (number : Decimal) (count : Nat)
    (some : 0 < count) : IntegerPart (number.digitText.take count) where
  some := by
    rw [Ne, List.take_eq_nil_iff, not_or]
    exact ⟨by omega, number.digitText_ne_nil⟩
  allDigits := fun digit member =>
    number.isDigit_of_mem digit (List.mem_of_mem_take member)
  leading := by
    right
    rw [List.head?_take, if_neg (by omega)]
    exact number.head_digitText

theorem JsNumber.ofLiteral_coefficient (number : Decimal) (negative : Bool)
    (zeros : Nat) (exponent : Int)
    (shifted : number.exponent = exponent + zeros) :
    JsNumber.ofLiteral
        { negative, coefficient := number.digits * 10 ^ zeros, exponent } =
      .finite negative number := by
  have positive : 0 < number.digits * 10 ^ zeros :=
    Nat.mul_pos number.positive (Nat.pow_pos (by decide))
  unfold JsNumber.ofLiteral
  rw [dif_pos positive, Decimal.ofCoefficient_zeros number zeros exponent
    shifted positive]

/-- The text of a positive number is read as that number. -/
theorem Decimal.parseUnsigned_text (number : Decimal) (negative : Bool)
    (stops : Stops rest) :
    ∃ literal, parseUnsigned negative (number.text ++ rest) =
        some (literal, rest) ∧
      JsNumber.ofLiteral literal = .finite negative number := by
  have plainStops : ∀ char ∈ rest.head?, char.isDigit = false ∧ char ≠ '.' :=
    fun char first => ⟨(stops char first).1, (stops char first).2.1⟩
  have single := JsNumber.ofLiteral_coefficient number negative 0
  rw [Nat.pow_zero, Nat.mul_one] at single
  have allDigits := number.isDigit_of_mem
  have value := number.value_digitText
  unfold Decimal.text
  have folded : Nat.toDigits 10 number.digits = number.digitText := rfl
  rw [folded]
  dsimp only
  split
  · -- The point is behind the digits, and zeros fill the gap.
    rename_i whole
    have part : IntegerPart (number.digitText ++
        List.replicate number.exponent.toNat '0') := by
      refine ⟨by simp [number.digitText_ne_nil], ?_, Or.inr ?_⟩
      · intro digit member
        rcases List.mem_append.mp member with digitMember | zero
        · exact allDigits digit digitMember
        · rw [List.eq_of_mem_replicate zero]
          rfl
      · rw [List.head?_append_of_ne_nil _ number.digitText_ne_nil]
        exact number.head_digitText
    have read := parseUnsigned_of negative [] _ part (by simp)
      plainStops (parseExponent_none stops)
    refine ⟨_, read, ?_⟩
    rw [List.append_nil, Nat.ofDigitChars_append, value,
      Nat.ofDigitChars_replicate_zero, Nat.mul_comm]
    refine JsNumber.ofLiteral_coefficient number negative
      number.exponent.toNat _ ?_
    rw [List.length_nil]
    omega
  · split
    · -- The point is among the digits.
      rename_i outside inside
      generalize place : number.exponent + number.digitText.length = point
        at outside inside
      have short : point.toNat < number.digitText.length := by omega
      have some : number.digitText.drop point.toNat ≠ [] := by
        rw [Ne, List.drop_eq_nil_iff]
        omega
      have read := parseUnsigned_of negative
        (number.digitText.drop point.toNat) rest
        (number.integerPart_take point.toNat (by omega))
        (fun digit member => allDigits digit (List.mem_of_mem_drop member))
        plainStops (parseExponent_none stops)
      unfold fractionText at read
      rw [if_neg some, ← List.append_assoc, List.take_append_drop, value]
        at read
      refine ⟨_, read, ?_⟩
      rw [List.length_drop]
      exact single _ (by omega)
    · split
      · -- The point is before the digits.
        rename_i small
        generalize place : number.exponent + number.digitText.length = point
          at small
        have read := parseUnsigned_of negative
          (List.replicate (-point).toNat '0' ++ number.digitText) rest
          integerPart_zero
          (by
            intro digit member
            rcases List.mem_append.mp member with zero | digitMember
            · rw [List.eq_of_mem_replicate zero]
              rfl
            · exact allDigits digit digitMember)
          plainStops (parseExponent_none stops)
        have zero : Nat.ofDigitChars 10 ['0'] 0 = 0 := rfl
        unfold fractionText at read
        rw [if_neg (by simp [number.digitText_ne_nil]),
          Nat.ofDigitChars_append, zero, Nat.ofDigitChars_append,
          Nat.ofDigitChars_replicate_zero, Nat.mul_zero, value] at read
        refine ⟨_, read, ?_⟩
        rw [List.length_append, List.length_replicate]
        exact single _ (by omega)
      · -- The exponent is written out.
        generalize place : number.exponent + number.digitText.length = point
        have some : 0 < number.digitText.length :=
          List.length_pos_iff.mpr number.digitText_ne_nil
        have read := parseUnsigned_of negative
          (number.digitText.drop 1) (exponentText (point - 1) ++ rest)
          (number.integerPart_take 1 (by decide))
          (fun digit member =>
            allDigits digit (List.mem_of_mem_drop member))
          (by
            rintro char ⟨⟩
            decide)
          (parseExponent_of (point - 1) stops)
        rw [← List.append_assoc, ← List.append_assoc,
          List.take_append_drop, value] at read
        refine ⟨_, read, ?_⟩
        rw [List.length_drop]
        exact single _ (by omega)

/-! ## Reading a string back -/

theorem hexDigit?_hexDigit (value : Nat) :
    hexDigit? (hexDigit value) = some (value % 16) := by
  have each : ∀ digit : Fin 16,
      hexDigit? (Nat.digitChar digit.val) = some digit.val := by
    decide
  exact each ⟨value % 16, Nat.mod_lt _ (by decide)⟩

theorem toNat_ofNat {value : Nat} (valid : value.isValidChar) :
    (Char.ofNat value).toNat = value :=
  Utf8.toNat_ofNat valid

theorem toNat_single {unit : UInt16} (notHigh : ¬ Utf16.isHigh unit)
    (notLow : ¬ Utf16.isLow unit) :
    (Utf16.single unit).toNat = unit.toNat := by
  have bound := unit.toNat_lt
  unfold Utf16.single
  rw [if_neg (by simp [notHigh, notLow])]
  rw [Utf16.isHigh_iff] at notHigh
  rw [Utf16.isLow_iff] at notLow
  refine toNat_ofNat ?_
  by_cases low : unit.toNat < 0xD800
  · exact Or.inl low
  · exact Or.inr ⟨by omega, by omega⟩

theorem charUnits_single {unit : UInt16} (notHigh : ¬ Utf16.isHigh unit)
    (notLow : ¬ Utf16.isLow unit) :
    charUnits (Utf16.single unit) = [unit.toNat] := by
  have bound := unit.toNat_lt
  unfold charUnits
  rw [toNat_single notHigh notLow, if_pos (by omega)]

theorem charUnits_pair {high low : UInt16} (isHigh : Utf16.isHigh high)
    (isLow : Utf16.isLow low) :
    0x10000 ≤ (Utf16.pair high low).toNat ∧
      charUnits (Utf16.pair high low) = [high.toNat, low.toNat] := by
  rw [Utf16.isHigh_iff] at isHigh
  rw [Utf16.isLow_iff] at isLow
  have value : (Utf16.pair high low).toNat =
      0x10000 + (high.toNat - 0xD800) * 1024 + (low.toNat - 0xDC00) := by
    unfold Utf16.pair
    exact toNat_ofNat (Or.inr ⟨by omega, by omega⟩)
  have first : 0xD800 + (0x10000 + (high.toNat - 0xD800) * 1024 +
      (low.toNat - 0xDC00) - 0x10000) / 0x400 = high.toNat := by
    omega
  have second : 0xDC00 + (0x10000 + (high.toNat - 0xD800) * 1024 +
      (low.toNat - 0xDC00) - 0x10000) % 0x400 = low.toNat := by
    omega
  unfold charUnits
  rw [value, if_neg (by omega), first, second]
  exact ⟨by omega, rfl⟩

theorem parseString_char {char : Char} (plain : Json.IsPlain char) :
    parseString (char :: rest) = (parseString rest).map fun parsed =>
      (charUnits char ++ parsed.1, parsed.2) := by
  rcases plain with ⟨printable, notQuote, notEscape⟩
  have notControl : ¬ (char.toNat < 0x20 ∨ char = '\\') := by
    rintro (control | escape)
    · omega
    · exact notEscape escape
  rw [parseString]
  · rw [if_neg notControl]
    cases parseString rest <;> rfl
  · exact notQuote
  · intro first second third fourth after equal
    exact absurd equal notEscape
  · intro escape after equal
    exact absurd equal notEscape

theorem parseString_simple {escape : Char} {unit : Nat}
    (simple : simpleEscape? escape = some unit) :
    parseString ('\\' :: escape :: rest) =
      (parseString rest).map fun parsed => (unit :: parsed.1, parsed.2) := by
  rw [parseString]
  · rw [simple]
    cases parseString rest <;> rfl
  · rintro first second third fourth after rfl
    have none : simpleEscape? 'u' = .none := by decide
    rw [none] at simple
    cases simple

theorem parseString_unicode (unit : UInt16) (rest : List Char) :
    parseString ('\\' :: 'u' :: hexDigit (unit.toNat / 4096) ::
        hexDigit (unit.toNat / 256) :: hexDigit (unit.toNat / 16) ::
        hexDigit unit.toNat :: rest) =
      (parseString rest).map fun parsed =>
        (unit.toNat :: parsed.1, parsed.2) := by
  have bound := unit.toNat_lt
  have value : ((unit.toNat / 4096 % 16 * 16 + unit.toNat / 256 % 16) * 16 +
      unit.toNat / 16 % 16) * 16 + unit.toNat % 16 = unit.toNat := by
    omega
  rw [parseString, hexDigit?_hexDigit, hexDigit?_hexDigit,
    hexDigit?_hexDigit, hexDigit?_hexDigit]
  cases parseString rest with
  | none => rfl
  | some parsed =>
    show some ((((unit.toNat / 4096 % 16 * 16 + unit.toNat / 256 % 16) * 16 +
      unit.toNat / 16 % 16) * 16 + unit.toNat % 16) :: _, _) = _
    rw [value]
    rfl

theorem parseString_escapeUnit (unit : UInt16) (rest : List Char) :
    parseString (escapeUnit unit ++ rest) =
      (parseString rest).map fun parsed =>
        (unit.toNat :: parsed.1, parsed.2) := by
  unfold escapeUnit
  split
  · rename_i is
    subst is
    exact parseString_simple rfl
  split
  · rename_i is
    subst is
    exact parseString_simple rfl
  split
  · rename_i is
    subst is
    exact parseString_simple rfl
  split
  · rename_i is
    subst is
    exact parseString_simple rfl
  split
  · rename_i is
    subst is
    exact parseString_simple rfl
  split
  · rename_i is
    subst is
    exact parseString_simple rfl
  split
  · rename_i is
    subst is
    exact parseString_simple rfl
  split
  · exact parseString_unicode unit rest
  · rename_i notQuote notEscape plain
    rw [not_or, not_or] at plain
    rcases plain with ⟨printable, notHigh, notLow⟩
    have value := toNat_single notHigh notLow
    rw [List.singleton_append, parseString_char,
      charUnits_single notHigh notLow]
    · rfl
    · refine ⟨?_, ?_, ?_⟩
      · rw [value]
        exact Nat.le_of_not_lt fun less =>
          printable (UInt16.lt_iff_toNat_lt.mpr less)
      · intro same
        rw [same] at value
        exact notQuote (UInt16.toNat_inj.mp value.symm)
      · intro same
        rw [same] at value
        exact notEscape (UInt16.toNat_inj.mp value.symm)

/-- A string is read back between its quotes. -/
theorem parseString_quoteBody (value : JsString) (rest : List Char) :
    parseString (quoteBody value ++ '"' :: rest) =
      some (value.map UInt16.toNat, rest) := by
  fun_induction quoteBody value with
  | case1 => rfl
  | case2 unit =>
    rw [parseString_escapeUnit]
    rfl
  | case3 first second more both induction =>
    rw [Bool.and_eq_true] at both
    have units := charUnits_pair both.1 both.2
    rw [List.cons_append, parseString_char, induction, units.2]
    · rfl
    · refine ⟨by omega, ?_, ?_⟩
      · intro same
        rw [same] at units
        exact absurd units.1 (by decide)
      · intro same
        rw [same] at units
        exact absurd units.1 (by decide)
  | case4 first second more alone induction =>
    rw [List.append_assoc, parseString_escapeUnit, induction]
    rfl

/-! ## Texts that are read as a value -/

/-- The text is read as the value, wherever it ends. -/
structure ReadsAs (text : List Char) (value : JsValue) : Prop where
  starts : ∃ first more, text = first :: more ∧
    Json.isWhitespace first = false ∧ first ≠ ']'
  reads : ∀ (rest : List Char) (fuel : Nat), Stops rest →
    text.length < fuel →
    ∃ json, parseValue fuel (text ++ rest) = some (json, rest) ∧
      ofJson json = value

variable {text : List Char} {value : JsValue}

theorem ReadsAs.skipWhitespace (reads : ReadsAs text value) (rest : List Char) :
    skipWhitespace (text ++ rest) = text ++ rest := by
  rcases reads.starts with ⟨first, more, rfl, solid, -⟩
  exact skipWhitespace_cons solid _

theorem stops_cons {char : Char} (ends : EndsNumber char) :
    Stops (char :: rest) := by
  rintro other ⟨⟩
  exact ends

theorem ReadsAs.parse (reads : ReadsAs text value) :
    jsonParse text = some value := by
  have ends : Stops [] := fun _ first => nomatch first
  rcases reads.reads [] _ ends (Nat.lt_succ_self _) with
    ⟨json, read, is⟩
  have skip := reads.skipWhitespace []
  rw [List.append_nil] at skip read
  unfold jsonParse Json.parse
  rw [skip, read]
  dsimp only
  rw [if_pos (by rfl), Option.map_some, is]

theorem readsAs_null : ReadsAs "null".toList .null where
  starts := ⟨'n', _, rfl, rfl, by decide⟩
  reads := by
    rintro rest (_ | fuel) - enough
    · cases enough
    · exact ⟨.null, rfl, rfl⟩

theorem readsAs_bool (value : Bool) :
    ReadsAs (if value then "true".toList else "false".toList)
      (.bool value) where
  starts := by
    cases value
    · exact ⟨'f', _, rfl, rfl, by decide⟩
    · exact ⟨'t', _, rfl, rfl, by decide⟩
  reads := by
    rintro rest (_ | fuel) - enough
    · cases enough
    · cases value
      · exact ⟨.bool false, rfl, rfl⟩
      · exact ⟨.bool true, rfl, rfl⟩

theorem readsAs_string (value : JsString) :
    ReadsAs (quote value) (.string value) where
  starts := ⟨'"', _, rfl, rfl, by decide⟩
  reads := by
    rintro rest (_ | fuel) - enough
    · cases enough
    · refine ⟨.string (value.map UInt16.toNat), ?_, ?_⟩
      · unfold quote
        rw [List.append_assoc, List.cons_append, parseValue,
          List.singleton_append, parseString_quoteBody]
        rfl
      · rw [ofJson, List.map_map]
        congr 1
        exact List.map_id'' (fun unit => UInt16.ofNat_toNat) value

/-! ## Numbers -/

theorem parseValue_number {first : Char} {more : List Char} (fuel : Nat)
    (numeric : first.isDigit = true ∨ first = '-') :
    parseValue (fuel + 1) (first :: more) =
      (parseNumber (first :: more)).map fun parsed =>
        (.number parsed.1, parsed.2) := by
  have other : ∀ char : Char, char.isDigit = false → char ≠ '-' →
      first ≠ char := by
    rintro char notDigit notMinus rfl
    rcases numeric with digit | minus
    · rw [notDigit] at digit
      cases digit
    · exact notMinus minus
  have noLiteral : parseLiteral (first :: more) = none := by
    unfold parseLiteral
    split
    · rename_i equal
      exact absurd (List.cons.inj equal).1 (other 't' rfl (by decide))
    · rename_i equal
      exact absurd (List.cons.inj equal).1 (other 'f' rfl (by decide))
    · rename_i equal
      exact absurd (List.cons.inj equal).1 (other 'n' rfl (by decide))
    · rfl
  unfold parseValue
  split
  · rename_i equal
    exact absurd (List.cons.inj equal).1 (other '{' rfl (by decide))
  · rename_i equal
    exact absurd (List.cons.inj equal).1 (other '[' rfl (by decide))
  · rename_i equal
    exact absurd (List.cons.inj equal).1 (other '"' rfl (by decide))
  · rw [noLiteral]

theorem Decimal.text_starts (number : Decimal) :
    ∃ first more, number.text = first :: more ∧ first.isDigit = true := by
  have shape : ∃ first more, number.digitText = first :: more :=
    List.exists_cons_of_ne_nil number.digitText_ne_nil
  rcases shape with ⟨first, more, shape⟩
  have digit : first.isDigit = true :=
    number.isDigit_of_mem first (by rw [shape]; exact List.mem_cons_self)
  have folded : Nat.toDigits 10 number.digits = number.digitText := rfl
  unfold Decimal.text
  rw [folded, shape]
  dsimp only
  split
  · exact ⟨first, _, rfl, digit⟩
  · split
    · rename_i inside
      generalize place : number.exponent + ((first :: more).length : Int) =
        point at inside
      have some : point.toNat = (point.toNat - 1) + 1 := by omega
      rw [some, List.take_succ_cons]
      exact ⟨first, _, rfl, digit⟩
    · split
      · exact ⟨'0', _, rfl, rfl⟩
      · exact ⟨first, _, rfl, digit⟩

/-- The value a number has after it was written and read. -/
def storedNumber : JsNumber → JsValue
  | .nan => .null
  | .infinity _ => .null
  | .zero _ => .number (.zero false)
  | .finite negative magnitude => .number (.finite negative magnitude)

theorem parseNumber_unsigned {first : Char} {more : List Char}
    (digit : first.isDigit = true) :
    parseNumber (first :: more) = parseUnsigned false (first :: more) := by
  unfold parseNumber
  split
  · rename_i equal
    rw [(List.cons.inj equal).1] at digit
    exact absurd digit (by decide)
  · rfl

theorem not_isWhitespace_of_isDigit {char : Char}
    (digit : char.isDigit = true) : Json.isWhitespace char = false := by
  rw [Bool.eq_false_iff]
  intro white
  simp only [Json.isWhitespace, Bool.or_eq_true, decide_eq_true_eq] at white
  rcases white with ((equal | equal) | equal) | equal <;>
  · rw [equal] at digit
    exact absurd digit (by decide)

theorem readsAs_finite (negative : Bool) (magnitude : Decimal) :
    ReadsAs (JsNumber.finite negative magnitude).text
      (.number (.finite negative magnitude)) := by
  rcases magnitude.text_starts with ⟨first, more, shape, digit⟩
  have solid := not_isWhitespace_of_isDigit digit
  have notClosing : first ≠ ']' := by
    rintro rfl
    exact absurd digit (by decide)
  cases negative with
  | false =>
    refine ⟨⟨first, more, shape, solid, notClosing⟩, ?_⟩
    rintro rest (_ | fuel) stops enough
    · cases enough
    · rcases magnitude.parseUnsigned_text false stops with
        ⟨literal, read, is⟩
      refine ⟨.number literal, ?_, by rw [ofJson, is]⟩
      have whole : (JsNumber.finite false magnitude).text = magnitude.text :=
        rfl
      rw [whole]
      rw [shape, List.cons_append] at read ⊢
      rw [parseValue_number fuel (Or.inl digit),
        parseNumber_unsigned digit, read]
      rfl
  | true =>
    refine ⟨⟨'-', magnitude.text, rfl, rfl, by decide⟩, ?_⟩
    rintro rest (_ | fuel) stops enough
    · cases enough
    · rcases magnitude.parseUnsigned_text true stops with
        ⟨literal, read, is⟩
      refine ⟨.number literal, ?_, by rw [ofJson, is]⟩
      have whole : (JsNumber.finite true magnitude).text =
          '-' :: magnitude.text := rfl
      rw [whole, List.cons_append, parseValue_number fuel (Or.inr rfl),
        parseNumber, read]
      rfl

theorem readsAs_zero (negative : Bool) :
    ReadsAs (JsNumber.zero negative).text (.number (.zero false)) where
  starts := ⟨'0', [], rfl, rfl, by decide⟩
  reads := by
    rintro rest (_ | fuel) stops enough
    · cases enough
    · have read := parseUnsigned_of false [] rest integerPart_zero (by simp)
        (fun char first => ⟨(stops char first).1, (stops char first).2.1⟩)
        (parseExponent_none stops)
      refine ⟨.number ⟨false, 0, 0⟩, ?_, ?_⟩
      · have whole : (JsNumber.zero negative).text ++ rest = '0' :: rest :=
          rfl
        rw [whole, parseValue_number fuel (Or.inl rfl),
          parseNumber_unsigned rfl]
        exact congrArg (Option.map _) read
      · rw [ofJson]
        rfl

theorem readsAs_number (number : JsNumber) :
    ReadsAs number.text (storedNumber number) := by
  cases number with
  | nan => exact readsAs_null
  | infinity negative => exact readsAs_null
  | zero negative => exact readsAs_zero negative
  | finite negative magnitude => exact readsAs_finite negative magnitude

/-! ## Arrays and objects -/

theorem endsNumber_comma : EndsNumber ',' := by
  refine ⟨rfl, ?_, ?_, ?_⟩ <;> decide

theorem endsNumber_bracket : EndsNumber ']' := by
  refine ⟨rfl, ?_, ?_, ?_⟩ <;> decide

theorem endsNumber_brace : EndsNumber '}' := by
  refine ⟨rfl, ?_, ?_, ?_⟩ <;> decide

theorem intercalate_cons_cons (first second : List Char)
    (texts : List (List Char)) :
    [','].intercalate (first :: second :: texts) =
      first ++ ',' :: [','].intercalate (second :: texts) := by
  rw [List.intercalate_cons_cons, List.append_assoc]
  rfl

theorem ReadsAs.length_pos (reads : ReadsAs text value) : 0 < text.length := by
  rcases reads.starts with ⟨first, more, rfl, -⟩
  exact Nat.succ_pos _

variable {texts : List (List Char)}

/-- A text of items starts with one of them. -/
theorem skipWhitespace_items {items : List JsValue}
    (reads : List.Forall₂ ReadsAs texts items) (some : texts ≠ [])
    (rest : List Char) :
    skipWhitespace ([','].intercalate texts ++ rest) =
        [','].intercalate texts ++ rest ∧
      ∀ more, [','].intercalate texts ++ rest ≠ ']' :: more := by
  cases reads with
  | nil => exact absurd rfl some
  | @cons text item texts items first others =>
    have front : ∃ back, [','].intercalate (text :: texts) ++ rest =
        text ++ back := by
      cases texts with
      | nil => exact ⟨rest, by rw [List.intercalate_singleton]⟩
      | cons second texts =>
        rw [intercalate_cons_cons, List.append_assoc]
        exact ⟨_, rfl⟩
    rcases front with ⟨back, front⟩
    rw [front]
    refine ⟨first.skipWhitespace back, ?_⟩
    intro more same
    rcases first.starts with ⟨char, tail, rfl, -, notClosing⟩
    exact notClosing (List.cons.inj same).1

theorem parseElements_of {items : List JsValue}
    (reads : List.Forall₂ ReadsAs texts items) (some : texts ≠ [])
    (rest : List Char) (fuel : Nat)
    (enough : ([','].intercalate texts).length + 1 < fuel) :
    ∃ json, parseElements fuel ([','].intercalate texts ++ ']' :: rest) =
        .some (json, rest) ∧ ofItems json = items := by
  induction reads generalizing fuel with
  | nil => exact absurd rfl some
  | @cons text item texts items first others induction =>
    cases fuel with
    | zero => cases enough
    | succ fuel =>
      cases texts with
      | nil =>
        cases others
        rw [List.intercalate_singleton] at enough ⊢
        rcases first.reads (']' :: rest) fuel
          (stops_cons endsNumber_bracket)
          (Nat.lt_of_succ_lt_succ enough) with ⟨json, read, is⟩
        refine ⟨[json], ?_, by rw [ofItems, is, ofItems]⟩
        rw [parseElements, read]
        dsimp only
        rw [skipWhitespace_cons (by decide)]
        rfl
      | cons second texts =>
        rw [intercalate_cons_cons, List.length_append,
          List.length_cons] at enough
        rw [intercalate_cons_cons, List.append_assoc, List.cons_append]
        rcases first.reads
          (',' :: ([','].intercalate (second :: texts) ++ ']' :: rest))
          fuel (stops_cons endsNumber_comma) (by omega) with
          ⟨json, read, is⟩
        have positive := first.length_pos
        rcases induction (List.cons_ne_nil _ _) fuel (by omega) with
          ⟨later, readLater, areLater⟩
        have skip := skipWhitespace_items others
          (List.cons_ne_nil _ _) (']' :: rest)
        refine ⟨json :: later, ?_, by rw [ofItems, is, areLater]⟩
        rw [parseElements, read]
        dsimp only
        rw [skipWhitespace_cons (by decide)]
        show Option.map _ (parseElements fuel (skipWhitespace _)) = _
        rw [skip.1, readLater]
        rfl

theorem readsAs_array {items : List JsValue}
    (reads : List.Forall₂ ReadsAs texts items) :
    ReadsAs (bracketed '[' ']' texts) (.array items) where
  starts := ⟨'[', _, rfl, rfl, by decide⟩
  reads := by
    rintro rest (_ | fuel) - enough
    · cases enough
    · unfold bracketed at enough ⊢
      rw [List.length_cons, List.length_append, List.length_singleton]
        at enough
      rw [List.cons_append, List.append_assoc, List.singleton_append,
        parseValue]
      cases texts with
      | nil =>
        cases reads
        exact ⟨.array [], rfl, rfl⟩
      | cons text texts =>
        rcases parseElements_of reads (List.cons_ne_nil _ _) rest
          fuel (by omega) with ⟨json, read, are⟩
        have skip := skipWhitespace_items reads (List.cons_ne_nil _ _)
          (']' :: rest)
        refine ⟨.array json, ?_, by rw [ofJson, are]⟩
        rw [skip.1]
        split
        · rename_i closes
          exact absurd closes (skip.2 _)
        · rw [read]
          rfl

/-- The text is read as the member. -/
def ReadsAsMember (text : List Char) (member : JsString × JsValue) : Prop :=
  ∃ valueText, text = quote member.1 ++ ':' :: valueText ∧
    ReadsAs valueText member.2

/-- What was parsed is a list of these members. -/
def AreMembers (json : List (List Nat × Json.Value))
    (members : List (JsString × JsValue)) : Prop :=
  List.Forall₂ (fun parsed member =>
    parsed.1.map UInt16.ofNat = member.1 ∧ ofJson parsed.2 = member.2)
    json members

theorem map_ofNat_toNat (key : JsString) :
    (key.map UInt16.toNat).map UInt16.ofNat = key := by
  rw [List.map_map]
  exact List.map_id'' (fun unit => UInt16.ofNat_toNat) key

/-- What is read behind the first member of an object. -/
def membersAfter (fuel : Nat) (first : List Nat × Json.Value) :
    List Char → Option (List (List Nat × Json.Value) × List Char)
  | '}' :: after => some ([first], after)
  | ',' :: afterComma =>
    (parseMembers fuel (Json.skipWhitespace afterComma)).map fun parsed =>
      (first :: parsed.1, parsed.2)
  | _ => none

theorem parseMembers_front (key : JsString) {valueText : List Char}
    (reads : ReadsAs valueText value) (back : List Char) (fuel : Nat)
    (stops : Stops back) (enough : valueText.length < fuel) :
    ∃ json, ofJson json = value ∧
      parseMembers (fuel + 1) (quote key ++ ':' :: valueText ++ back) =
        membersAfter fuel (key.map UInt16.toNat, json)
          (Json.skipWhitespace back) := by
  rcases reads.reads back fuel stops enough with ⟨json, read, is⟩
  refine ⟨json, is, ?_⟩
  unfold quote
  rw [List.append_assoc, List.append_assoc, List.cons_append, parseMembers,
    List.singleton_append, parseString_quoteBody]
  dsimp only
  rw [List.cons_append, skipWhitespace_cons (by decide)]
  simp only [reads.skipWhitespace, read]
  rfl

variable {members : List (JsString × JsValue)}

/-- A text of members starts with a quote. -/
theorem skipWhitespace_members
    (reads : List.Forall₂ ReadsAsMember texts members) (some : texts ≠ [])
    (rest : List Char) :
    skipWhitespace ([','].intercalate texts ++ rest) =
        [','].intercalate texts ++ rest ∧
      ∀ more, [','].intercalate texts ++ rest ≠ '}' :: more := by
  cases reads with
  | nil => exact absurd rfl some
  | @cons text member texts members first others =>
    rcases first with ⟨valueText, rfl, -⟩
    have front : ∃ back, [','].intercalate
        ((quote member.1 ++ ':' :: valueText) :: texts) ++ rest =
          '"' :: back := by
      cases texts with
      | nil => exact ⟨_, by rw [List.intercalate_singleton]; rfl⟩
      | cons second texts => exact ⟨_, by rw [intercalate_cons_cons]; rfl⟩
    rcases front with ⟨back, front⟩
    rw [front]
    refine ⟨skipWhitespace_cons (by decide) _, ?_⟩
    intro more same
    exact absurd (List.cons.inj same).1 (by decide)

theorem parseMembers_of (reads : List.Forall₂ ReadsAsMember texts members)
    (some : texts ≠ []) (rest : List Char) (fuel : Nat)
    (enough : ([','].intercalate texts).length < fuel) :
    ∃ json, parseMembers fuel ([','].intercalate texts ++ '}' :: rest) =
        .some (json, rest) ∧ AreMembers json members := by
  induction reads generalizing fuel with
  | nil => exact absurd rfl some
  | @cons text member texts members first others induction =>
    cases fuel with
    | zero => cases enough
    | succ fuel =>
      rcases first with ⟨valueText, rfl, first⟩
      cases texts with
      | nil =>
        cases others
        rw [List.intercalate_singleton] at enough ⊢
        rw [List.length_append, List.length_cons] at enough
        rcases parseMembers_front member.1 first
          ('}' :: rest) fuel
          (stops_cons endsNumber_brace) (by omega) with
          ⟨json, is, read⟩
        refine ⟨[(_, json)], ?_,
          .cons ⟨map_ofNat_toNat _, is⟩ .nil⟩
        rw [read, skipWhitespace_cons (by decide)]
        rfl
      | cons second texts =>
        rw [intercalate_cons_cons, List.length_append,
          List.length_append, List.length_cons, List.length_cons]
          at enough
        rw [intercalate_cons_cons, List.append_assoc, List.cons_append]
        rcases parseMembers_front member.1 first
          (',' :: ([','].intercalate (second :: texts) ++ '}' :: rest))
          fuel
          (stops_cons endsNumber_comma) (by omega) with
          ⟨json, is, read⟩
        rcases induction (List.cons_ne_nil _ _) fuel (by omega) with
          ⟨later, readLater, areLater⟩
        refine ⟨(_, json) :: later, ?_,
          .cons ⟨map_ofNat_toNat _, is⟩ areLater⟩
        have skip : skipWhitespace ([','].intercalate
            (second :: texts) ++ '}' :: rest) =
              [','].intercalate (second :: texts) ++ '}' :: rest :=
          (skipWhitespace_members others (List.cons_ne_nil _ _) _).1
        rw [read, skipWhitespace_cons (by decide)]
        show Option.map _ (parseMembers fuel (skipWhitespace _)) = _
        rw [skip, readLater]
        rfl

theorem setProperty_new {key : JsString} (fresh : key ∉ members.map Prod.fst) :
    setProperty key value members = members ++ [(key, value)] := by
  induction members with
  | nil => rfl
  | cons member members induction =>
    rw [List.map_cons, List.mem_cons, not_or] at fresh
    rw [setProperty, if_neg (Ne.symm fresh.1), induction fresh.2,
      List.cons_append]

/-- Distinct names are kept in order. -/
theorem ofMembers_of {json : List (List Nat × Json.Value)}
    (are : AreMembers json members) {done : List (JsString × JsValue)}
    (distinct : ((done ++ members).map Prod.fst).Nodup) :
    ofMembers done json = done ++ members := by
  induction are generalizing done with
  | nil => rw [ofMembers, List.append_nil]
  | @cons parsed member json members first others induction =>
    have fresh : member.1 ∉ done.map Prod.fst := by
      rw [List.map_append, List.map_cons, List.nodup_append] at distinct
      intro inside
      exact distinct.2.2 _ inside _ List.mem_cons_self rfl
    rw [ofMembers, first.1, first.2, setProperty_new fresh, induction,
      List.append_assoc]
    · rfl
    · rwa [List.append_assoc]

theorem readsAs_object (reads : List.Forall₂ ReadsAsMember texts members)
    (distinct : (members.map Prod.fst).Nodup) :
    ReadsAs (bracketed '{' '}' texts) (.object members) where
  starts := ⟨'{', _, rfl, rfl, by decide⟩
  reads := by
    rintro rest (_ | fuel) - enough
    · cases enough
    · unfold bracketed at enough ⊢
      rw [List.length_cons, List.length_append, List.length_singleton]
        at enough
      rw [List.cons_append, List.append_assoc, List.singleton_append,
        parseValue]
      cases texts with
      | nil =>
        cases reads
        exact ⟨.object [], rfl, rfl⟩
      | cons text texts =>
        rcases parseMembers_of reads (List.cons_ne_nil _ _) rest
          fuel (by omega) with ⟨json, read, are⟩
        have skip := skipWhitespace_members reads (List.cons_ne_nil _ _)
          ('}' :: rest)
        refine ⟨.object json, ?_, ?_⟩
        · rw [skip.1]
          split
          · rename_i closes
            exact absurd closes (skip.2 _)
          · rw [read]
            rfl
        · rw [ofJson, ofMembers_of are (by rwa [List.nil_append])]
          rfl

/-! ## Values as trees -/

/-- Induction on a value, with a hypothesis for every item and member. -/
@[elab_as_elim]
theorem JsValue.induct {motive : JsValue → Prop}
    (undefined : motive .undefined) (null : motive .null)
    (bool : ∀ value, motive (.bool value))
    (number : ∀ value, motive (.number value))
    (string : ∀ value, motive (.string value))
    (array : ∀ items, (∀ item ∈ items, motive item) →
      motive (.array items))
    (object : ∀ members, (∀ member ∈ members, motive member.2) →
      motive (.object members))
    (value : JsValue) : motive value :=
  @JsValue.rec motive (fun items => ∀ item ∈ items, motive item)
    (fun members => ∀ member ∈ members, motive member.2)
    (fun member => motive member.2)
    undefined null bool number string array object
    (fun _ member => nomatch member)
    (fun _ _ first others => List.forall_mem_cons.mpr ⟨first, others⟩)
    (fun _ member => nomatch member)
    (fun _ _ first others => List.forall_mem_cons.mpr ⟨first, others⟩)
    (fun _ _ value => value) value

theorem itemTexts_eq (items : List JsValue) :
    itemTexts items =
      items.map fun item => (jsonStringify item).getD "null".toList := by
  induction items with
  | nil => rfl
  | cons item items induction => rw [itemTexts, induction, List.map_cons]

/-- The value has no text. -/
def JsValue.isUndefined : JsValue → Bool
  | .undefined => true
  | _ => false

section Everywhere

variable (property : JsValue → Prop)

mutual

/-- The property holds of a value and of all that is inside it. -/
def JsValue.Everywhere : JsValue → Prop
  | .array items => property (.array items) ∧ EverywhereIn items
  | .object members => property (.object members) ∧ EverywhereOf members
  | value => property value

/-- The property holds everywhere in these items. -/
def EverywhereIn : List JsValue → Prop
  | [] => True
  | item :: items => item.Everywhere ∧ EverywhereIn items

/-- The property holds everywhere in the values of these members. -/
def EverywhereOf : List (JsString × JsValue) → Prop
  | [] => True
  | (_, value) :: members => value.Everywhere ∧ EverywhereOf members

end

variable {property}

theorem everywhere_array (items : List JsValue) :
    (JsValue.array items).Everywhere property ↔
      property (.array items) ∧ ∀ item ∈ items, item.Everywhere property := by
  have inside : EverywhereIn property items ↔
      ∀ item ∈ items, item.Everywhere property := by
    induction items with
    | nil => simp [EverywhereIn]
    | cons item items induction =>
      rw [EverywhereIn, induction, List.forall_mem_cons]
  rw [JsValue.Everywhere, inside]

theorem everywhere_object (members : List (JsString × JsValue)) :
    (JsValue.object members).Everywhere property ↔
      property (.object members) ∧
        ∀ member ∈ members, member.2.Everywhere property := by
  have inside : EverywhereOf property members ↔
      ∀ member ∈ members, member.2.Everywhere property := by
    induction members with
    | nil => simp [EverywhereOf]
    | cons member members induction =>
      rw [EverywhereOf, induction, List.forall_mem_cons]
  rw [JsValue.Everywhere, inside]

theorem JsValue.Everywhere.here {value : JsValue}
    (everywhere : value.Everywhere property) : property value := by
  cases value with
  | array items => exact ((everywhere_array items).mp everywhere).1
  | object members => exact ((everywhere_object members).mp everywhere).1
  | _ => exact everywhere

end Everywhere

/-- An object has no two members of one name. -/
def HasDistinctNames : JsValue → Prop
  | .object members => (members.map Prod.fst).Nodup
  | _ => True

/-- An array holds no `undefined`. -/
def HasDefinedItems : JsValue → Prop
  | .array items => ∀ item ∈ items, item ≠ .undefined
  | _ => True

/-- No object of the value has two members of one name. -/
abbrev JsValue.Distinct (value : JsValue) : Prop :=
  value.Everywhere HasDistinctNames

mutual

/-- What is read where a value was written. -/
def stored : JsValue → JsValue
  | .undefined => .null
  | .null => .null
  | .bool value => .bool value
  | .number value => storedNumber value
  | .string value => .string value
  | .array items => .array (storedItems items)
  | .object members => .object (storedMembers members)

def storedItems : List JsValue → List JsValue
  | [] => []
  | item :: items => stored item :: storedItems items

def storedMembers : List (JsString × JsValue) → List (JsString × JsValue)
  | [] => []
  | (key, value) :: members =>
    if value.isUndefined then
      storedMembers members
    else
      (key, stored value) :: storedMembers members

end

theorem jsonStringify_eq_none_iff (value : JsValue) :
    jsonStringify value = none ↔ value.isUndefined = true := by
  cases value <;> simp [jsonStringify, JsValue.isUndefined]

theorem memberTexts_eq (members : List (JsString × JsValue)) :
    memberTexts members = (members.filter (!·.2.isUndefined)).map
      fun member =>
        quote member.1 ++ ':' :: (jsonStringify member.2).getD [] := by
  induction members with
  | nil => rfl
  | cons member members induction =>
    rw [memberTexts, List.filter_cons, induction]
    cases written : jsonStringify member.2 with
    | none =>
      rw [(jsonStringify_eq_none_iff member.2).mp written]
      rfl
    | some text =>
      have defined : member.2.isUndefined = false := by
        rw [Bool.eq_false_iff, Ne, ← jsonStringify_eq_none_iff, written]
        exact Option.some_ne_none text
      rw [defined, Bool.not_false, if_pos rfl, List.map_cons, written]
      rfl

theorem storedItems_eq (items : List JsValue) :
    storedItems items = items.map stored := by
  induction items with
  | nil => rfl
  | cons item items induction => rw [storedItems, induction, List.map_cons]

theorem storedMembers_eq (members : List (JsString × JsValue)) :
    storedMembers members = (members.filter (!·.2.isUndefined)).map
      fun member => (member.1, stored member.2) := by
  induction members with
  | nil => rfl
  | cons member members induction =>
    rw [storedMembers, List.filter_cons, induction]
    cases member.2.isUndefined <;> rfl

/-! ## The round trip -/

/-- A text that was written is read as the stored value. -/
theorem readsAs_stringify (distinct : value.Distinct)
    (written : jsonStringify value = some text) :
    ReadsAs text (stored value) := by
  induction value using JsValue.induct generalizing text with
  | undefined => cases written
  | null =>
    cases written
    exact readsAs_null
  | bool value =>
    cases written
    exact readsAs_bool value
  | number value =>
    cases written
    exact readsAs_number value
  | string value =>
    cases written
    exact readsAs_string value
  | array items induction =>
    cases written
    have inside := ((everywhere_array items).mp distinct).2
    rw [stored, storedItems_eq, itemTexts_eq]
    refine readsAs_array ?_
    rw [List.forall₂_map_left_iff, List.forall₂_map_right_iff,
      List.forall₂_same]
    intro item member
    cases written : jsonStringify item with
    | none =>
      rw [jsonStringify_eq_none_iff] at written
      cases item <;> first | exact readsAs_null | cases written
    | some text =>
      exact induction item member (inside item member) written
  | object members induction =>
    cases written
    rcases (everywhere_object members).mp distinct with ⟨names, values⟩
    rw [stored, storedMembers_eq, memberTexts_eq]
    refine readsAs_object ?_ ?_
    · rw [List.forall₂_map_left_iff, List.forall₂_map_right_iff,
        List.forall₂_same]
      intro member inside
      rw [List.mem_filter, Bool.not_eq_true'] at inside
      cases written : jsonStringify member.2 with
      | none =>
        rw [jsonStringify_eq_none_iff, inside.2] at written
        cases written
      | some text =>
        exact ⟨text, rfl, induction member inside.1
          (values member inside.1) written⟩
    · rw [List.map_map]
      exact names.sublist (List.filter_sublist.map Prod.fst)

/-- `JSON.parse` of a text that `JSON.stringify` wrote. -/
theorem jsonParse_stringify (distinct : value.Distinct)
    (written : jsonStringify value = some text) :
    jsonParse text = some (stored value) :=
  (readsAs_stringify distinct written).parse

end Rbo.Foundation
