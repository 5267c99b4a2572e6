import Rbo.Foundation.Utf16

/-!
# Base64url

Bytes as a text of sixty-four digits, six bits each, without padding.  The
reader takes the digits of both base64 alphabets and passes over every other
unit, so a text is canonical only when writing what was read gives it back.
-/

namespace Rbo.Foundation.Base64Url

/-! ## Digits -/

/-- The digit of a value below sixty-four. -/
def digit (value : Nat) : UInt16 :=
  if value < 26 then UInt16.ofNat (0x41 + value)
  else if value < 52 then UInt16.ofNat (0x61 + (value - 26))
  else if value < 62 then UInt16.ofNat (0x30 + (value - 52))
  else if value = 62 then 0x2D
  else 0x5F

/-- The value of a digit; the last two have a name in each alphabet. -/
def digitValue? (unit : UInt16) : Option Nat :=
  if 0x41 ≤ unit ∧ unit ≤ 0x5A then some (unit.toNat - 0x41)
  else if 0x61 ≤ unit ∧ unit ≤ 0x7A then some (unit.toNat - 0x61 + 26)
  else if 0x30 ≤ unit ∧ unit ≤ 0x39 then some (unit.toNat - 0x30 + 52)
  else if unit = 0x2D ∨ unit = 0x2B then some 62
  else if unit = 0x5F ∨ unit = 0x2F then some 63
  else none

/-! ## Writing and reading -/

/-- Write bytes, three of them as four digits. -/
def encode : List UInt8 → List UInt16
  | [] => []
  | [first] =>
    [digit (first.toNat / 4), digit (first.toNat % 4 * 16)]
  | [first, second] =>
    [digit (first.toNat / 4),
      digit (first.toNat % 4 * 16 + second.toNat / 16),
      digit (second.toNat % 16 * 4)]
  | first :: second :: third :: rest =>
    digit (first.toNat / 4) ::
      digit (first.toNat % 4 * 16 + second.toNat / 16) ::
        digit (second.toNat % 16 * 4 + third.toNat / 64) ::
          digit (third.toNat % 64) :: encode rest

/-- The bytes of some digits; bits that fill no byte are dropped. -/
def bytesOf : List Nat → List UInt8
  | first :: second :: third :: fourth :: rest =>
    UInt8.ofNat (first * 4 + second / 16) ::
      UInt8.ofNat (second % 16 * 16 + third / 4) ::
        UInt8.ofNat (third % 4 * 64 + fourth) :: bytesOf rest
  | [first, second, third] =>
    [UInt8.ofNat (first * 4 + second / 16),
      UInt8.ofNat (second % 16 * 16 + third / 4)]
  | [first, second] => [UInt8.ofNat (first * 4 + second / 16)]
  | _ => []

/-- Read a text. -/
def decode (text : List UInt16) : List UInt8 :=
  bytesOf (text.filterMap digitValue?)

/-! ## The round trip -/

@[simp] theorem digitValue?_digit {value : Nat} (small : value < 64) :
    digitValue? (digit value) = some value := by
  have every : ∀ value : Fin 64,
      digitValue? (digit value.val) = some value.val := by
    decide
  exact every ⟨value, small⟩

/-- A digit is a character of ASCII and no full stop. -/
theorem digit_plain (value : Nat) :
    digit value < 0x80 ∧ digit value ≠ 0x2E := by
  have every : ∀ value : Fin 64,
      digit value.val < 0x80 ∧ digit value.val ≠ 0x2E := by
    decide
  by_cases small : value < 64
  · exact every ⟨value, small⟩
  · have last : digit value = 0x5F := by
      rw [digit, if_neg (by omega), if_neg (by omega), if_neg (by omega),
        if_neg (by omega)]
    rw [last]
    decide

theorem byte_of_value {byte : UInt8} {value : Nat}
    (same : value = byte.toNat) : UInt8.ofNat value = byte := by
  rw [same, UInt8.ofNat_toNat]

/-- The digits of bytes are read as these bytes. -/
theorem decode_encode (bytes : List UInt8) :
    decode (encode bytes) = bytes := by
  induction bytes using encode.induct with
  | case1 => rfl
  | case2 first =>
    have firstSmall := first.toNat_lt
    rw [encode, decode]
    simp (disch := omega) only [List.filterMap_cons, List.filterMap_nil,
      digitValue?_digit, bytesOf]
    rw [@byte_of_value first _ (by omega)]
  | case3 first second =>
    have firstSmall := first.toNat_lt
    have secondSmall := second.toNat_lt
    rw [encode, decode]
    simp (disch := omega) only [List.filterMap_cons, List.filterMap_nil,
      digitValue?_digit, bytesOf]
    rw [@byte_of_value first _ (by omega),
      @byte_of_value second _ (by omega)]
  | case4 first second third rest induction =>
    have firstSmall := first.toNat_lt
    have secondSmall := second.toNat_lt
    have thirdSmall := third.toNat_lt
    rw [decode] at induction
    rw [encode, decode]
    simp (disch := omega) only [List.filterMap_cons, digitValue?_digit,
      bytesOf, induction]
    rw [@byte_of_value first _ (by omega),
      @byte_of_value second _ (by omega),
      @byte_of_value third _ (by omega)]

theorem length_encode (bytes : List UInt8) :
    (encode bytes).length = (4 * bytes.length + 2) / 3 := by
  induction bytes using encode.induct with
  | case1 => rfl
  | case2 first =>
    rw [encode]
    simp only [List.length_cons, List.length_nil]
  | case3 first second =>
    rw [encode]
    simp only [List.length_cons, List.length_nil]
  | case4 first second third rest induction =>
    rw [encode]
    simp only [List.length_cons, induction]
    omega

/-- A text that was written is made of digits. -/
theorem plain_of_mem_encode {bytes : List UInt8} {unit : UInt16}
    (member : unit ∈ encode bytes) : unit < 0x80 ∧ unit ≠ 0x2E := by
  induction bytes using encode.induct with
  | case1 => cases member
  | case2 first =>
    simp only [encode, List.mem_cons, List.not_mem_nil, or_false] at member
    rcases member with rfl | rfl <;> exact digit_plain _
  | case3 first second =>
    simp only [encode, List.mem_cons, List.not_mem_nil, or_false] at member
    rcases member with rfl | rfl | rfl <;> exact digit_plain _
  | case4 first second third rest induction =>
    simp only [encode, List.mem_cons] at member
    rcases member with rfl | rfl | rfl | rfl | later
    · exact digit_plain _
    · exact digit_plain _
    · exact digit_plain _
    · exact digit_plain _
    · exact induction later

end Rbo.Foundation.Base64Url
