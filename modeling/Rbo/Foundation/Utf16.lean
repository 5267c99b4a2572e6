import Rbo.Foundation.Utf8

/-!
# Text as UTF-16 code units

A string of the source is a list of code units.  A character outside the
basic plane takes two of them, a surrogate pair.  When a string is encoded as
UTF-8, a surrogate without its partner is replaced.
-/

namespace Rbo.Foundation.Utf16

/-- The code units of a character. -/
def encodeChar (char : Char) : List UInt16 :=
  if char.toNat < 0x10000 then
    [UInt16.ofNat char.toNat]
  else
    [UInt16.ofNat (0xD800 + (char.toNat - 0x10000) / 1024),
      UInt16.ofNat (0xDC00 + (char.toNat - 0x10000) % 1024)]

/-- The code units of a text. -/
def encode (text : List Char) : List UInt16 :=
  text.flatMap encodeChar

/-- Is the code unit the first of a surrogate pair? -/
def isHigh (unit : UInt16) : Bool :=
  0xD800 ≤ unit && unit ≤ 0xDBFF

/-- Is the code unit the second of a surrogate pair? -/
def isLow (unit : UInt16) : Bool :=
  0xDC00 ≤ unit && unit ≤ 0xDFFF

/-- The character of a code unit that stands alone. -/
def single (unit : UInt16) : Char :=
  if isHigh unit || isLow unit then Utf8.replacement
  else Char.ofNat unit.toNat

/-- The character of a surrogate pair. -/
def pair (high low : UInt16) : Char :=
  Char.ofNat
    (0x10000 + (high.toNat - 0xD800) * 1024 + (low.toNat - 0xDC00))

/-- The text of some code units. -/
def decode : List UInt16 → List Char
  | [] => []
  | [unit] => [single unit]
  | first :: second :: rest =>
    if isHigh first && isLow second then
      pair first second :: decode rest
    else
      single first :: decode (second :: rest)

/-- `Buffer.from(string, 'utf8')` for a string. -/
def toBytes (units : List UInt16) : List UInt8 :=
  Utf8.encode (decode units)

/-- A surrogate pair begins at the end of one string and ends in another. -/
def Joins (front back : List UInt16) : Prop :=
  (∃ high ∈ front.getLast?, isHigh high = true) ∧
    ∃ low ∈ back.head?, isLow low = true

instance (front back : List UInt16) : Decidable (Joins front back) :=
  inferInstanceAs (Decidable ((∃ high ∈ front.getLast?, _) ∧ _))

/-! ## Laws -/

variable {unit : UInt16}

theorem isHigh_iff :
    isHigh unit = true ↔ 0xD800 ≤ unit.toNat ∧ unit.toNat ≤ 0xDBFF := by
  unfold isHigh
  rw [Bool.and_eq_true, decide_eq_true_iff, decide_eq_true_iff,
    UInt16.le_iff_toNat_le, UInt16.le_iff_toNat_le]
  exact Iff.rfl

theorem isLow_iff :
    isLow unit = true ↔ 0xDC00 ≤ unit.toNat ∧ unit.toNat ≤ 0xDFFF := by
  unfold isLow
  rw [Bool.and_eq_true, decide_eq_true_iff, decide_eq_true_iff,
    UInt16.le_iff_toNat_le, UInt16.le_iff_toNat_le]
  exact Iff.rfl

theorem isLow_of_isHigh (high : isHigh unit = true) : ¬ isLow unit = true := by
  rw [isHigh_iff] at high
  rw [isLow_iff]
  omega

theorem decode_single (unit : UInt16) : decode [unit] = [single unit] :=
  rfl

theorem decode_pair {first second : UInt16} (rest : List UInt16)
    (both : (isHigh first && isLow second) = true) :
    decode (first :: second :: rest) = pair first second :: decode rest := by
  rw [decode, if_pos both]

theorem decode_alone {first : UInt16} {rest : List UInt16}
    (alone : ∀ second ∈ rest.head?,
      ¬ (isHigh first && isLow second) = true) :
    decode (first :: rest) = single first :: decode rest := by
  cases rest with
  | nil => rfl
  | cons second rest => rw [decode, if_neg (alone second rfl)]

/-- A character has one code unit that stands alone, or a surrogate pair. -/
theorem encodeChar_cases (char : Char) :
    (∃ unit, encodeChar char = [unit] ∧ ¬ isHigh unit = true ∧
      ¬ isLow unit = true ∧ single unit = char) ∨
    ∃ high low, encodeChar char = [high, low] ∧
      (isHigh high && isLow low) = true ∧ pair high low = char := by
  have value : Char.ofNat char.toNat = char := Char.ofNat_toNat char
  have scalar := char.valid
  have bounds : char.toNat < 0xD800 ∨
      0xDFFF < char.toNat ∧ char.toNat < 0x110000 := scalar
  unfold encodeChar
  by_cases basic : char.toNat < 0x10000
  · left
    rw [if_pos basic]
    have unit : (UInt16.ofNat char.toNat).toNat = char.toNat := by
      rw [UInt16.toNat_ofNat']
      omega
    have notHigh : ¬ isHigh (UInt16.ofNat char.toNat) = true := by
      rw [isHigh_iff, unit]
      omega
    have notLow : ¬ isLow (UInt16.ofNat char.toNat) = true := by
      rw [isLow_iff, unit]
      omega
    refine ⟨_, rfl, notHigh, notLow, ?_⟩
    unfold single
    rw [if_neg, unit, value]
    rw [Bool.or_eq_true]
    rintro (high | low)
    · exact notHigh high
    · exact notLow low
  · right
    rw [if_neg basic]
    have high :
        (UInt16.ofNat (0xD800 + (char.toNat - 0x10000) / 1024)).toNat =
          0xD800 + (char.toNat - 0x10000) / 1024 := by
      rw [UInt16.toNat_ofNat']
      omega
    have low :
        (UInt16.ofNat (0xDC00 + (char.toNat - 0x10000) % 1024)).toNat =
          0xDC00 + (char.toNat - 0x10000) % 1024 := by
      rw [UInt16.toNat_ofNat']
      omega
    refine ⟨_, _, rfl, ?_, ?_⟩
    · rw [Bool.and_eq_true, isHigh_iff, isLow_iff, high, low]
      omega
    · unfold pair
      rw [high, low]
      have sum :
          0x10000 + (0xD800 + (char.toNat - 0x10000) / 1024 - 0xD800) * 1024 +
            (0xDC00 + (char.toNat - 0x10000) % 1024 - 0xDC00) =
              char.toNat := by
        omega
      rw [sum, value]

/-- Characters that are encoded are read back. -/
theorem decode_encodeChar (char : Char) (rest : List UInt16) :
    decode (encodeChar char ++ rest) = char :: decode rest := by
  rcases encodeChar_cases char with
    ⟨unit, encoded, notHigh, _, same⟩ | ⟨high, low, encoded, both, same⟩
  · rw [encoded, List.singleton_append, decode_alone, same]
    intro second _
    rw [Bool.and_eq_true]
    exact fun both => notHigh both.1
  · rw [encoded, List.cons_append, List.singleton_append,
      decode_pair _ both, same]

theorem decode_encode (text : List Char) : decode (encode text) = text := by
  induction text with
  | nil => rfl
  | cons char text induction =>
    unfold encode at *
    rw [List.flatMap_cons, decode_encodeChar, induction]

variable {front back : List UInt16}

theorem Joins.cons (joins : Joins front back) (unit : UInt16) :
    Joins (unit :: front) back := by
  rcases joins with ⟨⟨high, last, isHigh⟩, begins⟩
  refine ⟨⟨high, ?_, isHigh⟩, begins⟩
  cases front with
  | nil => cases last
  | cons next front =>
    rw [List.getLast?_cons_cons]
    exact last

theorem Joins.of_cons {next : UInt16}
    (joins : Joins (unit :: next :: front) back) :
    Joins (next :: front) back := by
  rcases joins with ⟨⟨high, last, isHigh⟩, begins⟩
  rw [List.getLast?_cons_cons] at last
  exact ⟨⟨high, last, isHigh⟩, begins⟩

/-- Strings that join nowhere are decoded one by one. -/
theorem decode_append (apart : ¬ Joins front back) :
    decode (front ++ back) = decode front ++ decode back := by
  induction front using decode.induct with
  | case1 => rfl
  | case2 unit =>
    rw [List.singleton_append, decode_single, List.singleton_append,
      decode_alone]
    intro next first both
    rw [Bool.and_eq_true] at both
    exact apart ⟨⟨unit, rfl, both.1⟩, next, first, both.2⟩
  | case3 first second rest both induction =>
    rw [List.cons_append, List.cons_append, decode_pair _ both,
      decode_pair _ both, induction, List.cons_append]
    exact fun joins => apart ((joins.cons second).cons first)
  | case4 first second rest other induction =>
    have alone : ∀ tail : List UInt16, ∀ next ∈ (second :: tail).head?,
        ¬ (isHigh first && isLow next) = true := by
      rintro tail next ⟨⟩
      exact other
    rw [List.cons_append, List.cons_append, decode_alone (alone _),
      decode_alone (alone _), ← List.cons_append, induction,
      List.cons_append]
    exact fun joins => apart (joins.cons first)

/-! ## Lengths -/

theorem toBytes_append (apart : ¬ Joins front back) :
    toBytes (front ++ back) = toBytes front ++ toBytes back := by
  unfold toBytes
  rw [decode_append apart]
  exact List.flatMap_append

theorem toBytes_encode (text : List Char) :
    toBytes (encode text) = Utf8.encode text := by
  unfold toBytes
  rw [decode_encode]

theorem length_single_of_isHigh (high : isHigh unit = true) :
    (String.utf8EncodeChar (single unit)).length = 3 := by
  unfold single
  rw [high, Bool.true_or, if_pos rfl]
  exact Utf8.length_replacement

theorem length_single_of_isLow (low : isLow unit = true) :
    (String.utf8EncodeChar (single unit)).length = 3 := by
  unfold single
  rw [low, Bool.or_true, if_pos rfl]
  exact Utf8.length_replacement

/-- A pair that is cut in two takes more bytes than the pair. -/
theorem length_toBytes_of_joins (joins : Joins front back) :
    (toBytes (front ++ back)).length + 2 ≤
      (toBytes front).length + (toBytes back).length := by
  unfold toBytes
  induction front using decode.induct with
  | case1 =>
    rcases joins with ⟨⟨high, last, _⟩, _⟩
    cases last
  | case2 unit =>
    rcases joins with ⟨⟨high, last, isHigh⟩, low, first, isLow⟩
    have final : unit = high := Option.some.inj last
    subst final
    cases back with
    | nil => cases first
    | cons next back =>
      have same : next = low := Option.some.inj first
      subst same
      have both : (Utf16.isHigh unit && Utf16.isLow next) = true := by
        rw [isHigh, isLow]
        rfl
      have alone : decode (next :: back) = single next :: decode back := by
        apply decode_alone
        intro second _ pair
        rw [Bool.and_eq_true] at pair
        exact isLow_of_isHigh pair.1 isLow
      have most := Utf8.length_encodeChar_le (pair unit next)
      rw [List.singleton_append, decode_pair _ both, decode_single,
        alone, Utf8.length_encode_cons, Utf8.length_encode_cons,
        Utf8.length_encode_cons, length_single_of_isHigh isHigh,
        length_single_of_isLow isLow]
      omega
  | case3 first second rest both induction =>
    rw [Bool.and_eq_true] at both
    have later : Joins rest back := by
      cases rest with
      | nil =>
        rcases joins with ⟨⟨high, last, isHigh⟩, _⟩
        cases last
        exact absurd both.2 (isLow_of_isHigh isHigh)
      | cons next rest => exact joins.of_cons.of_cons
    have pairs : (isHigh first && isLow second) = true := by
      rw [both.1, both.2]
      rfl
    have shorter := induction later
    rw [List.cons_append, List.cons_append, decode_pair _ pairs,
      decode_pair _ pairs, Utf8.length_encode_cons,
      Utf8.length_encode_cons]
    omega
  | case4 first second rest other induction =>
    have alone : ∀ tail : List UInt16, ∀ next ∈ (second :: tail).head?,
        ¬ (isHigh first && isLow next) = true := by
      rintro tail next ⟨⟩
      exact other
    have shorter := induction joins.of_cons
    rw [List.cons_append, List.cons_append, decode_alone (alone _),
      decode_alone (alone _), Utf8.length_encode_cons,
      Utf8.length_encode_cons, ← List.cons_append]
    omega

theorem length_toBytes_append (front back : List UInt16) :
    (toBytes (front ++ back)).length ≤
      (toBytes front).length + (toBytes back).length := by
  by_cases joins : Joins front back
  · have shorter := length_toBytes_of_joins joins
    omega
  · have apart := congrArg List.length (toBytes_append joins)
    rw [List.length_append] at apart
    exact Nat.le_of_eq apart

/-! ## ASCII -/

section Ascii

variable {unit : UInt16} {units : List UInt16}

theorem alone_of_ascii (ascii : unit < 0x80) :
    isHigh unit = false ∧ isLow unit = false := by
  rw [UInt16.lt_iff_toNat_lt] at ascii
  have small : unit.toNat < 0x80 := ascii
  constructor
  · rw [← Bool.not_eq_true, isHigh_iff]
    omega
  · rw [← Bool.not_eq_true, isLow_iff]
    omega

theorem toNat_single_ascii (ascii : unit < 0x80) :
    (single unit).toNat = unit.toNat := by
  rcases alone_of_ascii ascii with ⟨high, low⟩
  rw [UInt16.lt_iff_toNat_lt] at ascii
  have small : unit.toNat < 0x80 := ascii
  rw [single, high, low, Bool.or_false, if_neg Bool.false_ne_true]
  exact Utf8.toNat_ofNat (Or.inl (by omega))

theorem encodeChar_single (ascii : unit < 0x80) :
    encodeChar (single unit) = [unit] := by
  have same := toNat_single_ascii ascii
  rw [UInt16.lt_iff_toNat_lt] at ascii
  have small : unit.toNat < 0x80 := ascii
  rw [encodeChar, same, if_pos (by omega), UInt16.ofNat_toNat]

/-- A text of ASCII units is its own reading. -/
theorem encode_decode (ascii : ∀ unit ∈ units, unit < 0x80) :
    encode (decode units) = units := by
  induction units using decode.induct with
  | case1 => rfl
  | case2 unit =>
    rw [decode_single]
    exact (List.append_nil _).trans
      (encodeChar_single (ascii unit (List.mem_singleton.mpr rfl)))
  | case3 first second rest both induction =>
    have alone := alone_of_ascii (ascii first List.mem_cons_self)
    rw [alone.1, Bool.false_and] at both
    cases both
  | case4 first second rest other induction =>
    rw [List.forall_mem_cons] at ascii
    rw [decode, if_neg other]
    exact congr (congrArg _ (encodeChar_single ascii.1))
      (induction ascii.2)

theorem toBytes_inj {others : List UInt16}
    (ascii : ∀ unit ∈ units, unit < 0x80)
    (asciiOthers : ∀ unit ∈ others, unit < 0x80)
    (same : toBytes units = toBytes others) : units = others := by
  have decoded := congrArg Utf8.decode same
  rw [toBytes, toBytes, Utf8.decode_encode, Utf8.decode_encode] at decoded
  rw [← encode_decode ascii, decoded, encode_decode asciiOthers]

end Ascii

end Rbo.Foundation.Utf16
