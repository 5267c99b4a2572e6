import Mathlib.Data.List.Basic

/-!
# Decoding UTF-8 with replacement

A decoder never fails: a sequence that is not well formed is replaced by one
replacement character for each of its longest parts that could have begun a
character.  What the decoder makes of a whole character, or of a byte that
cannot begin one, does not depend on what follows.
-/

namespace Rbo.Foundation.Utf8

/-- The replacement character U+FFFD. -/
def replacement : Char := Char.ofNat 0xFFFD

/-- Is the byte in a range? -/
def inRange (low high : UInt8) (byte : UInt8) : Bool :=
  low ≤ byte && byte ≤ high

/-- Is the byte a continuation byte? -/
def isContinuation : UInt8 → Bool :=
  inRange 0x80 0xBF

/-- The payload of a continuation byte. -/
def payload (byte : UInt8) : Nat :=
  byte.toNat % 64

/-- The range of the byte after a lead byte of a three-byte character. -/
def isSecondOfThree (lead second : UInt8) : Bool :=
  inRange (if lead = 0xE0 then 0xA0 else 0x80)
    (if lead = 0xED then 0x9F else 0xBF) second

/-- The range of the byte after a lead byte of a four-byte character. -/
def isSecondOfFour (lead second : UInt8) : Bool :=
  inRange (if lead = 0xF0 then 0x90 else 0x80)
    (if lead = 0xF4 then 0x8F else 0xBF) second

/--
The character at the front of some bytes, and how many bytes after the lead
byte it takes.
-/
def decodeOne (lead : UInt8) (rest : List UInt8) : Char × Nat :=
  if lead < 0x80 then
    (Char.ofNat lead.toNat, 0)
  else if inRange 0xC2 0xDF lead then
    match rest with
    | second :: _ =>
      if isContinuation second then
        (Char.ofNat (lead.toNat % 32 * 64 + payload second), 1)
      else
        (replacement, 0)
    | [] => (replacement, 0)
  else if inRange 0xE0 0xEF lead then
    match rest with
    | second :: more =>
      if isSecondOfThree lead second then
        match more with
        | third :: _ =>
          if isContinuation third then
            (Char.ofNat
              ((lead.toNat % 16 * 64 + payload second) * 64 +
                payload third), 2)
          else
            (replacement, 1)
        | [] => (replacement, 1)
      else
        (replacement, 0)
    | [] => (replacement, 0)
  else if inRange 0xF0 0xF4 lead then
    match rest with
    | second :: more =>
      if isSecondOfFour lead second then
        match more with
        | third :: further =>
          if isContinuation third then
            match further with
            | fourth :: _ =>
              if isContinuation fourth then
                (Char.ofNat
                  (((lead.toNat % 8 * 64 + payload second) * 64 +
                    payload third) * 64 + payload fourth), 3)
              else
                (replacement, 2)
            | [] => (replacement, 2)
          else
            (replacement, 1)
        | [] => (replacement, 1)
      else
        (replacement, 0)
    | [] => (replacement, 0)
  else
    (replacement, 0)

/-- Decode at most that many characters. -/
def decodeFrom : Nat → List UInt8 → List Char
  | 0, _ => []
  | _ + 1, [] => []
  | fuel + 1, lead :: rest =>
    let one := decodeOne lead rest
    one.1 :: decodeFrom fuel (rest.drop one.2)

/-- `buffer.toString('utf8')`. -/
def decode (bytes : List UInt8) : List Char :=
  decodeFrom bytes.length bytes

/-! ## Laws -/

theorem decodeFrom_eq {fuel other : Nat} {bytes : List UInt8}
    (enough : bytes.length ≤ fuel) (alsoEnough : bytes.length ≤ other) :
    decodeFrom fuel bytes = decodeFrom other bytes := by
  induction fuel generalizing other bytes with
  | zero =>
    have empty : bytes = [] := List.length_eq_zero_iff.mp (by omega)
    subst empty
    cases other <;> rfl
  | succ fuel induction =>
    cases bytes with
    | nil => cases other <;> rfl
    | cons lead rest =>
      cases other with
      | zero => exact absurd alsoEnough (by simp)
      | succ other =>
        rw [List.length_cons] at enough alsoEnough
        have short :
            (rest.drop (decodeOne lead rest).2).length ≤
              rest.length := by
          rw [List.length_drop]
          omega
        rw [decodeFrom, decodeFrom, induction]
        · omega
        · omega

@[simp]
theorem decode_nil : decode [] = [] :=
  rfl

theorem decode_cons (lead : UInt8) (rest : List UInt8) :
    decode (lead :: rest) =
      (decodeOne lead rest).1 ::
        decode (rest.drop (decodeOne lead rest).2) := by
  rw [decode, List.length_cons, decodeFrom, decode, decodeFrom_eq _ (Nat.le_refl _)]
  rw [List.length_drop]
  omega

/-! ## Encoding -/

/-- `Buffer.from(text, 'utf8')`. -/
def encode (text : List Char) : List UInt8 :=
  text.flatMap String.utf8EncodeChar

variable {value : Nat}

theorem inRange_ofNat {low high : UInt8} (small : value < 256) :
    inRange low high (UInt8.ofNat value) = true ↔
      low.toNat ≤ value ∧ value ≤ high.toNat := by
  unfold inRange
  rw [Bool.and_eq_true, decide_eq_true_iff, decide_eq_true_iff,
    UInt8.le_iff_toNat_le, UInt8.le_iff_toNat_le, UInt8.toNat_ofNat',
    Nat.mod_eq_of_lt small]

theorem lt_ofNat {high : UInt8} (small : value < 256) :
    UInt8.ofNat value < high ↔ value < high.toNat := by
  rw [UInt8.lt_iff_toNat_lt, UInt8.toNat_ofNat', Nat.mod_eq_of_lt small]

theorem continuation_ofNat (value : Nat) :
    isContinuation (UInt8.ofNat (value % 0x40 + 0x80)) = true := by
  unfold isContinuation
  rw [inRange_ofNat (by omega)]
  constructor
  · show 128 ≤ _
    omega
  · show _ ≤ 191
    omega

theorem payload_ofNat (value : Nat) :
    payload (UInt8.ofNat (value % 0x40 + 0x80)) = value % 64 := by
  have small : value % 0x40 + 0x80 < 256 := by omega
  unfold payload
  rw [UInt8.toNat_ofNat', Nat.mod_eq_of_lt small]
  omega

theorem decodeOne_one (low : value ≤ 0x7f) (rest : List UInt8) :
    decodeOne (UInt8.ofNat value) rest = (Char.ofNat value, 0) := by
  have small : value < 256 := by omega
  unfold decodeOne
  rw [if_pos, UInt8.toNat_ofNat', Nat.mod_eq_of_lt small]
  rw [lt_ofNat small]
  show value < 128
  omega

theorem decodeOne_two (low : 0x80 ≤ value) (high : value ≤ 0x7ff)
    (rest : List UInt8) :
    decodeOne (UInt8.ofNat (value / 64 % 0x20 + 0xc0))
        (UInt8.ofNat (value % 0x40 + 0x80) :: rest) =
      (Char.ofNat value, 1) := by
  have small : value / 64 % 0x20 + 0xc0 < 256 := by omega
  unfold decodeOne
  rw [if_neg, if_pos]
  · dsimp only
    rw [if_pos (continuation_ofNat _), payload_ofNat, UInt8.toNat_ofNat',
      Nat.mod_eq_of_lt small]
    congr 2
    omega
  · rw [inRange_ofNat small]
    constructor
    · show 194 ≤ _
      omega
    · show _ ≤ 223
      omega
  · rw [lt_ofNat small]
    show ¬ _ < 128
    omega

theorem ofNat_eq {byte : UInt8} (small : value < 256) :
    UInt8.ofNat value = byte ↔ value = byte.toNat := by
  rw [← UInt8.toNat_inj, UInt8.toNat_ofNat', Nat.mod_eq_of_lt small]

theorem decodeOne_three (low : 0x800 ≤ value) (high : value ≤ 0xffff)
    (scalar : value < 0xD800 ∨ 0xDFFF < value) (rest : List UInt8) :
    decodeOne (UInt8.ofNat (value / 4096 % 0x10 + 0xe0))
        (UInt8.ofNat (value / 64 % 0x40 + 0x80) ::
          UInt8.ofNat (value % 0x40 + 0x80) :: rest) =
      (Char.ofNat value, 2) := by
  have small : value / 4096 % 0x10 + 0xe0 < 256 := by omega
  have second :
      isSecondOfThree (UInt8.ofNat (value / 4096 % 0x10 + 0xe0))
        (UInt8.ofNat (value / 64 % 0x40 + 0x80)) = true := by
    unfold isSecondOfThree
    rw [inRange_ofNat (by omega)]
    constructor
    · split
      · rename_i first
        rw [ofNat_eq small] at first
        have is : value / 4096 % 0x10 + 0xe0 = 0xe0 := first
        show 0xa0 ≤ _
        omega
      · show 0x80 ≤ _
        omega
    · split
      · rename_i last
        rw [ofNat_eq small] at last
        have is : value / 4096 % 0x10 + 0xe0 = 0xed := last
        show _ ≤ 0x9f
        omega
      · show _ ≤ 0xbf
        omega
  unfold decodeOne
  rw [if_neg, if_neg, if_pos]
  · dsimp only
    rw [if_pos second, if_pos (continuation_ofNat _), payload_ofNat,
      payload_ofNat, UInt8.toNat_ofNat', Nat.mod_eq_of_lt small]
    congr 2
    omega
  · rw [inRange_ofNat small]
    constructor
    · show 0xe0 ≤ _
      omega
    · show _ ≤ 0xef
      omega
  · rw [inRange_ofNat small]
    show ¬ (_ ∧ _ ≤ 0xdf)
    omega
  · rw [lt_ofNat small]
    show ¬ _ < 0x80
    omega

theorem decodeOne_four (low : 0x10000 ≤ value) (high : value ≤ 0x10ffff)
    (rest : List UInt8) :
    decodeOne (UInt8.ofNat (value / 262144 % 0x08 + 0xf0))
        (UInt8.ofNat (value / 4096 % 0x40 + 0x80) ::
          UInt8.ofNat (value / 64 % 0x40 + 0x80) ::
            UInt8.ofNat (value % 0x40 + 0x80) :: rest) =
      (Char.ofNat value, 3) := by
  have small : value / 262144 % 0x08 + 0xf0 < 256 := by omega
  have second :
      isSecondOfFour (UInt8.ofNat (value / 262144 % 0x08 + 0xf0))
        (UInt8.ofNat (value / 4096 % 0x40 + 0x80)) = true := by
    unfold isSecondOfFour
    rw [inRange_ofNat (by omega)]
    constructor
    · split
      · rename_i first
        rw [ofNat_eq small] at first
        have is : value / 262144 % 0x08 + 0xf0 = 0xf0 := first
        show 0x90 ≤ _
        omega
      · show 0x80 ≤ _
        omega
    · split
      · rename_i last
        rw [ofNat_eq small] at last
        have is : value / 262144 % 0x08 + 0xf0 = 0xf4 := last
        show _ ≤ 0x8f
        omega
      · show _ ≤ 0xbf
        omega
  unfold decodeOne
  rw [if_neg, if_neg, if_neg, if_pos]
  · dsimp only
    rw [if_pos second, if_pos (continuation_ofNat _),
      if_pos (continuation_ofNat _), payload_ofNat, payload_ofNat,
      payload_ofNat, UInt8.toNat_ofNat', Nat.mod_eq_of_lt small]
    congr 2
    omega
  · rw [inRange_ofNat small]
    constructor
    · show 0xf0 ≤ _
      omega
    · show _ ≤ 0xf4
      omega
  · rw [inRange_ofNat small]
    show ¬ (_ ∧ _ ≤ 0xef)
    omega
  · rw [inRange_ofNat small]
    show ¬ (_ ∧ _ ≤ 0xdf)
    omega
  · rw [lt_ofNat small]
    show ¬ _ < 0x80
    omega

/-- A character is decoded from its own bytes, whatever follows them. -/
theorem decodeOne_encodeChar (char : Char) :
    ∃ lead tail, String.utf8EncodeChar char = lead :: tail ∧
      ∀ rest, decodeOne lead (tail ++ rest) = (char, tail.length) := by
  have value : Char.ofNat char.val.toNat = char := Char.ofNat_toNat char
  have scalar := char.valid
  unfold String.utf8EncodeChar
  dsimp only
  split
  · rename_i one
    refine ⟨_, _, rfl, fun rest => ?_⟩
    rw [List.nil_append, decodeOne_one one, value]
    rfl
  · split
    · rename_i more two
      refine ⟨_, _, rfl, fun rest => ?_⟩
      rw [List.singleton_append, decodeOne_two (by omega) two, value]
      rfl
    · split
      · rename_i more most three
        have valid : char.val.toNat < 0xD800 ∨ 0xDFFF < char.val.toNat := by
          rcases scalar with low | high
          · exact Or.inl low
          · exact Or.inr high.1
        refine ⟨_, _, rfl, fun rest => ?_⟩
        rw [List.cons_append, List.singleton_append,
          decodeOne_three (by omega) three valid, value]
        rfl
      · rename_i more most all
        have bound : char.val.toNat ≤ 0x10ffff := by
          rcases scalar with low | high
          · have less : char.val.toNat < 0xD800 := low
            omega
          · have less : char.val.toNat < 0x110000 := high.2
            omega
        refine ⟨_, _, rfl, fun rest => ?_⟩
        rw [List.cons_append, List.cons_append, List.singleton_append,
          decodeOne_four (by omega) bound, value]
        rfl

theorem decode_encodeChar (char : Char) (rest : List UInt8) :
    decode (String.utf8EncodeChar char ++ rest) = char :: decode rest := by
  obtain ⟨lead, tail, shape, reads⟩ := decodeOne_encodeChar char
  rw [shape, List.cons_append, decode_cons, reads, List.drop_left]

theorem decode_encode_append (text : List Char) (rest : List UInt8) :
    decode (encode text ++ rest) = text ++ decode rest := by
  induction text with
  | nil => rfl
  | cons char text induction =>
    unfold encode at *
    rw [List.flatMap_cons, List.append_assoc, decode_encodeChar, induction,
      List.cons_append]

/-- Decoding a text's own bytes gives the text. -/
theorem decode_encode (text : List Char) : decode (encode text) = text := by
  have whole := decode_encode_append text []
  rwa [List.append_nil, decode_nil, List.append_nil] at whole

/-! ## Lengths -/

theorem toNat_ofNat (valid : value.isValidChar) :
    (Char.ofNat value).val.toNat = value := by
  unfold Char.ofNat
  rw [dif_pos valid]
  rfl

theorem length_encodeChar (char : Char) :
    (String.utf8EncodeChar char).length =
      if char.val.toNat ≤ 0x7f then 1
      else if char.val.toNat ≤ 0x7ff then 2
      else if char.val.toNat ≤ 0xffff then 3 else 4 := by
  unfold String.utf8EncodeChar
  dsimp only
  split
  · rfl
  · split
    · rfl
    · split <;> rfl

theorem length_encodeChar_pos (char : Char) :
    0 < (String.utf8EncodeChar char).length := by
  rw [length_encodeChar]
  split
  · decide
  · split
    · decide
    · split <;> decide

theorem length_encodeChar_le (char : Char) :
    (String.utf8EncodeChar char).length ≤ 4 := by
  rw [length_encodeChar]
  split
  · decide
  · split
    · decide
    · split <;> decide

theorem length_encodeChar_ge {width : Nat} (valid : value.isValidChar)
    (wide : (2 ≤ width → 0x80 ≤ value) ∧ (3 ≤ width → 0x800 ≤ value) ∧
      (4 ≤ width → 0x10000 ≤ value)) (most : width ≤ 4) :
    width ≤ (String.utf8EncodeChar (Char.ofNat value)).length := by
  rw [length_encodeChar, toNat_ofNat valid]
  split
  · omega
  · split
    · omega
    · split <;> omega

theorem length_replacement :
    (String.utf8EncodeChar replacement).length = 3 := by
  decide

theorem inRange_iff {low high byte : UInt8} :
    inRange low high byte = true ↔
      low.toNat ≤ byte.toNat ∧ byte.toNat ≤ high.toNat := by
  unfold inRange
  rw [Bool.and_eq_true, decide_eq_true_iff, decide_eq_true_iff,
    UInt8.le_iff_toNat_le, UInt8.le_iff_toNat_le]

variable {lead : UInt8}

theorem secondOfThree_payload {second : UInt8}
    (inside : isSecondOfThree lead second = true) :
    (lead.toNat = 0xe0 → 32 ≤ payload second) ∧
      (lead.toNat = 0xed → payload second < 32) := by
  unfold isSecondOfThree at inside
  rw [inRange_iff] at inside
  unfold payload
  constructor
  · intro first
    have is : lead = 0xe0 := UInt8.toNat_inj.mp first
    rw [is, if_pos rfl, if_neg (by decide)] at inside
    have bounds : 0xa0 ≤ second.toNat ∧ second.toNat ≤ 0xbf := inside
    omega
  · intro last
    have is : lead = 0xed := UInt8.toNat_inj.mp last
    rw [is, if_neg (by decide), if_pos rfl] at inside
    have bounds : 0x80 ≤ second.toNat ∧ second.toNat ≤ 0x9f := inside
    omega

theorem secondOfFour_payload {second : UInt8}
    (inside : isSecondOfFour lead second = true) :
    (lead.toNat = 0xf0 → 16 ≤ payload second) ∧
      (lead.toNat = 0xf4 → payload second < 16) := by
  unfold isSecondOfFour at inside
  rw [inRange_iff] at inside
  unfold payload
  constructor
  · intro first
    have is : lead = 0xf0 := UInt8.toNat_inj.mp first
    rw [is, if_pos rfl, if_neg (by decide)] at inside
    have bounds : 0x90 ≤ second.toNat ∧ second.toNat ≤ 0xbf := inside
    omega
  · intro last
    have is : lead = 0xf4 := UInt8.toNat_inj.mp last
    rw [is, if_neg (by decide), if_pos rfl] at inside
    have bounds : 0x80 ≤ second.toNat ∧ second.toNat ≤ 0x8f := inside
    omega

theorem payload_lt (byte : UInt8) : payload byte < 64 :=
  Nat.mod_lt _ (by decide)

theorem length_three {second : UInt8} (third : UInt8)
    (bounds : 0xe0 ≤ lead.toNat ∧ lead.toNat ≤ 0xef)
    (inside : isSecondOfThree lead second = true) :
    3 ≤ (String.utf8EncodeChar
      (Char.ofNat
        ((lead.toNat % 16 * 64 + payload second) * 64 +
          payload third))).length := by
  have ⟨first, last⟩ := secondOfThree_payload inside
  have middle := payload_lt second
  have below := payload_lt third
  apply length_encodeChar_ge
  · by_cases low : lead.toNat ≤ 0xed
    · by_cases edge : lead.toNat = 0xed
      · have small := last edge
        left
        omega
      · left
        omega
    · right
      omega
  · by_cases edge : lead.toNat = 0xe0
    · have large := first edge
      omega
    · omega
  · decide

theorem length_four {second : UInt8} (third fourth : UInt8)
    (bounds : 0xf0 ≤ lead.toNat ∧ lead.toNat ≤ 0xf4)
    (inside : isSecondOfFour lead second = true) :
    4 ≤ (String.utf8EncodeChar
      (Char.ofNat
        (((lead.toNat % 8 * 64 + payload second) * 64 +
          payload third) * 64 + payload fourth))).length := by
  have ⟨first, last⟩ := secondOfFour_payload inside
  have middle := payload_lt second
  have next := payload_lt third
  have below := payload_lt fourth
  have large :
      0x10000 ≤
        ((lead.toNat % 8 * 64 + payload second) * 64 + payload third) * 64 +
          payload fourth := by
    by_cases edge : lead.toNat = 0xf0
    · have high := first edge
      omega
    · omega
  apply length_encodeChar_ge
  · right
    by_cases edge : lead.toNat = 0xf4
    · have small := last edge
      omega
    · omega
  · omega
  · decide

/-- What is decoded is at least as long as what it was decoded from. -/
theorem decodeOne_length (lead : UInt8) (rest : List UInt8) :
    (decodeOne lead rest).2 + 1 ≤
      (String.utf8EncodeChar (decodeOne lead rest).1).length := by
  have replaced : ∀ extra, extra ≤ 2 →
      extra + 1 ≤ (String.utf8EncodeChar replacement).length := by
    intro extra few
    rw [length_replacement]
    omega
  unfold decodeOne
  split
  · exact length_encodeChar_pos _
  · split
    · rename_i two
      rw [inRange_iff] at two
      have bounds : 0xc2 ≤ lead.toNat ∧ lead.toNat ≤ 0xdf := two
      split
      · rename_i second _
        split
        · have below := payload_lt second
          apply length_encodeChar_ge
          · left
            omega
          · omega
          · show 2 ≤ 4
            decide
        · exact replaced 0 (by decide)
      · exact replaced 0 (by decide)
    · split
      · rename_i three
        rw [inRange_iff] at three
        have bounds : 0xe0 ≤ lead.toNat ∧ lead.toNat ≤ 0xef := three
        split
        · split
          · rename_i inside
            split
            · split
              · exact length_three _ bounds inside
              · exact replaced 1 (by decide)
            · exact replaced 1 (by decide)
          · exact replaced 0 (by decide)
        · exact replaced 0 (by decide)
      · split
        · rename_i four
          rw [inRange_iff] at four
          have bounds : 0xf0 ≤ lead.toNat ∧ lead.toNat ≤ 0xf4 := four
          split
          · split
            · rename_i inside
              split
              · split
                · split
                  · split
                    · exact length_four _ _ bounds inside
                    · exact replaced 2 (by decide)
                  · exact replaced 2 (by decide)
                · exact replaced 1 (by decide)
              · exact replaced 1 (by decide)
            · exact replaced 0 (by decide)
          · exact replaced 0 (by decide)
        · exact replaced 0 (by decide)

theorem decodeOne_continuation (rest : List UInt8)
    (stray : isContinuation lead = true) :
    decodeOne lead rest = (replacement, 0) := by
  unfold isContinuation at stray
  rw [inRange_iff] at stray
  have bounds : 0x80 ≤ lead.toNat ∧ lead.toNat ≤ 0xbf := stray
  have not_low : ¬ lead < 0x80 := by
    rw [UInt8.lt_iff_toNat_lt]
    show ¬ _ < 0x80
    omega
  have outside : ∀ low high : UInt8, 0xc0 ≤ low.toNat →
      ¬ inRange low high lead = true := by
    intro low high above
    rw [inRange_iff]
    omega
  unfold decodeOne
  rw [if_neg not_low, if_neg (outside _ _ (by decide)),
    if_neg (outside _ _ (by decide)), if_neg (outside _ _ (by decide))]

theorem length_encode_cons (char : Char) (text : List Char) :
    (encode (char :: text)).length =
      (String.utf8EncodeChar char).length + (encode text).length := by
  unfold encode
  rw [List.flatMap_cons, List.length_append]

theorem length_le_decode (bytes : List UInt8) :
    bytes.length ≤ (encode (decode bytes)).length := by
  induction size : bytes.length using Nat.strongRecOn generalizing bytes with
  | ind length induction =>
    subst size
    cases bytes with
    | nil => exact Nat.le_refl 0
    | cons lead rest =>
      have one := decodeOne_length lead rest
      have later :=
        induction (rest.drop (decodeOne lead rest).2).length
          (by
            rw [List.length_drop, List.length_cons]
            omega)
          (rest.drop (decodeOne lead rest).2) rfl
      rw [List.length_drop] at later
      rw [decode_cons, length_encode_cons, List.length_cons]
      omega

/-- A byte that continues nothing is decoded to something longer. -/
theorem length_lt_decode (rest : List UInt8)
    (stray : isContinuation lead = true) :
    (lead :: rest).length < (encode (decode (lead :: rest))).length := by
  have later := length_le_decode rest
  rw [decode_cons, decodeOne_continuation rest stray, length_encode_cons,
    length_replacement, List.drop_zero, List.length_cons]
  omega

/-! ## Whole characters -/

/-- Bytes that are the encoding of some text. -/
def Whole (bytes : List UInt8) : Prop :=
  ∃ text, bytes = encode text

/-- Bytes that begin with a byte that continues a character. -/
def StartsInside (bytes : List UInt8) : Prop :=
  ∃ first ∈ bytes.head?, isContinuation first = true

theorem encodeChar_cons (char : Char) :
    ∃ lead tail, String.utf8EncodeChar char = lead :: tail ∧
      ∀ byte ∈ tail, isContinuation byte = true := by
  unfold String.utf8EncodeChar
  dsimp only
  split
  · refine ⟨_, _, rfl, ?_⟩
    intro byte member
    cases member
  · split
    · refine ⟨_, _, rfl, ?_⟩
      rw [List.forall_mem_singleton]
      exact continuation_ofNat _
    · split
      · refine ⟨_, _, rfl, ?_⟩
        rw [List.forall_mem_cons, List.forall_mem_singleton]
        exact ⟨continuation_ofNat _, continuation_ofNat _⟩
      · refine ⟨_, _, rfl, ?_⟩
        rw [List.forall_mem_cons, List.forall_mem_cons,
          List.forall_mem_singleton]
        exact ⟨continuation_ofNat _, continuation_ofNat _,
          continuation_ofNat _⟩

/-- A text is cut between characters where no byte continues one. -/
theorem exists_split {text : List Char} {front back : List UInt8}
    (split : encode text = front ++ back) (outside : ¬ StartsInside back) :
    ∃ before after, text = before ++ after ∧ front = encode before ∧
      back = encode after := by
  induction text generalizing front with
  | nil =>
    rcases List.append_eq_nil_iff.mp split.symm with ⟨rfl, rfl⟩
    exact ⟨[], [], rfl, rfl, rfl⟩
  | cons char text induction =>
    by_cases short : front.length < (String.utf8EncodeChar char).length
    · cases front with
      | nil => exact ⟨[], char :: text, rfl, rfl, split.symm⟩
      | cons first front =>
        exfalso
        rcases encodeChar_cons char with ⟨lead, tail, is, continued⟩
        unfold encode at split
        rw [List.flatMap_cons, is, List.cons_append,
          List.cons_append, List.cons.injEq] at split
        rw [is, List.length_cons, List.length_cons] at short
        -- The cut is inside the character's own bytes.
        have inside : front <+: tail :=
          List.prefix_of_prefix_length_le ⟨back, split.2.symm⟩
            (List.prefix_append tail _) (by omega)
        rcases inside with ⟨remaining, whole⟩
        rw [← whole, List.append_assoc,
          List.append_cancel_left_eq] at split
        apply outside
        cases remaining with
        | nil =>
          rw [List.append_nil] at whole
          rw [whole] at short
          omega
        | cons next remaining =>
          refine ⟨next, ?_, ?_⟩
          · rw [← split.2]
            rfl
          · apply continued
            rw [← whole]
            exact List.mem_append_right _ List.mem_cons_self
    · unfold encode at split
      rw [List.flatMap_cons] at split
      have begins : String.utf8EncodeChar char <+: front :=
        List.prefix_of_prefix_length_le (List.prefix_append _ _)
          ⟨back, split.symm⟩ (by omega)
      rcases begins with ⟨more, rfl⟩
      rw [List.append_assoc, List.append_cancel_left_eq] at split
      rcases induction split with ⟨before, after, rfl, rfl, rfl⟩
      refine ⟨char :: before, after, rfl, ?_, rfl⟩
      unfold encode
      rw [List.flatMap_cons]

/-- A byte below 0x80 stands for its own character wherever it is. -/
theorem ascii_mem_encode {text : List Char} {byte : UInt8}
    (ascii : byte < 0x80) :
    byte ∈ encode text ↔ Char.ofNat byte.toNat ∈ text := by
  constructor
  · intro member
    rcases List.append_of_mem member with ⟨front, back, split⟩
    rcases exists_split split (by
        rintro ⟨first, is, continued⟩
        rw [List.head?_cons, Option.mem_some_iff] at is
        subst is
        unfold isContinuation inRange at continued
        rw [Bool.and_eq_true, decide_eq_true_iff, UInt8.le_iff_toNat_le]
          at continued
        rw [UInt8.lt_iff_toNat_lt] at ascii
        exact absurd ascii (Nat.not_lt.mpr continued.1)) with
      ⟨before, after, rfl, -, is⟩
    have read := decode_encode after
    have one : (decodeOne byte back).1 = Char.ofNat byte.toNat := by
      unfold decodeOne
      rw [if_pos ascii]
    rw [← is, decode_cons, one] at read
    rw [← read]
    exact List.mem_append_right _ List.mem_cons_self
  · intro member
    refine List.mem_flatMap.mpr ⟨_, member, ?_⟩
    rw [UInt8.lt_iff_toNat_lt] at ascii
    have small : byte.toNat < 128 := ascii
    have valid : byte.toNat.isValidChar := Or.inl (by omega)
    have value : (Char.ofNat byte.toNat).val.toNat = byte.toNat :=
      toNat_ofNat valid
    unfold String.utf8EncodeChar
    dsimp only
    rw [if_pos (by omega), value]
    simp

theorem whole_iff {bytes : List UInt8} :
    Whole bytes ↔ encode (decode bytes) = bytes := by
  constructor
  · rintro ⟨text, rfl⟩
    rw [decode_encode]
  · intro same
    exact ⟨decode bytes, same.symm⟩

/-! ## Fields of zeros -/

theorem decode_zeros (count : Nat) :
    decode (List.replicate count 0) = List.replicate count '\x00' := by
  induction count with
  | zero => rfl
  | succ count induction =>
    have one : decodeOne 0 (List.replicate count 0) = ('\x00', 0) := rfl
    rw [List.replicate_succ, decode_cons, one, List.drop_zero, induction,
      List.replicate_succ]

theorem encode_append (first second : List Char) :
    encode (first ++ second) = encode first ++ encode second :=
  List.flatMap_append

theorem length_encode_ascii {text : List Char}
    (ascii : ∀ char ∈ text, char.toNat < 0x80) :
    (encode text).length = text.length := by
  induction text with
  | nil => rfl
  | cons char text induction =>
    rw [List.forall_mem_cons] at ascii
    rw [length_encode_cons, induction ascii.2, List.length_cons,
      length_encodeChar, if_pos (by exact Nat.le_of_lt_succ ascii.1)]
    omega

end Rbo.Foundation.Utf8
