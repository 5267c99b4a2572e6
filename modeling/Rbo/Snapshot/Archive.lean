import Mathlib.Algebra.GroupWithZero.Nat
import Mathlib.Data.List.Forall2
import Mathlib.Data.List.Induction
import Rbo.Foundation.FileTree
import Rbo.Foundation.Utf8

/-!
# The tar archives of a snapshot

`createTarArchive` writes the entries in path order as ustar blocks: a header
of 512 bytes, and for a file its content filled up to a whole block.  A path
of more than 100 bytes is split at a slash into a name and a prefix; numbers
are octal, in fields of a fixed width.

`parseTarArchive` walks the blocks again.  The size it reads may be negative
in a forged archive, and the walk may then never end: the reader takes a
number of rounds, and gives nothing when they do not suffice.
-/

namespace Rbo.Snapshot.Archive

open Rbo.Foundation

/-! ## Entries -/

/-- `TarEntryInput['type']`. -/
inductive TarEntryType where
  | file
  | directory
  | symlink
deriving DecidableEq

/-- `TarEntryInput`. -/
structure TarEntryInput where
  path : List Char
  mode : Nat
  type : TarEntryType
  content : Option (List UInt8)
  contentPath : Option (List Char)
  target : Option (List Char)
deriving DecidableEq

/-- `ParsedTarEntry`. -/
structure ParsedTarEntry where
  path : List Char
  type : TarEntryType
  mode : Int
  content : List UInt8
  target : Option (List Char)
deriving DecidableEq

/-- What the writers of this module throw about an entry. -/
inductive TarError where
  | pathTooLong (bytes : Nat) (path : List Char)
  | pathNotSplit (path : List Char)
  | targetTooLong (target : List Char)
  | contentNotInMemory (path : List Char)
deriving DecidableEq

/-! ## Writing -/

/-- `padOctal`. -/
def padOctal (value length : Nat) : List Char :=
  let str := Nat.toDigits 8 value
  if length ≤ str.length then
    str.take length
  else
    str.leftpad (length - 1) '0' ++ ['\x00']

/-- `Buffer.byteLength(text, 'utf8')`. -/
def byteLength (text : List Char) : Nat :=
  (Utf8.encode text).length

/-- `path.replace(/\\/g, '/')`. -/
def slashed (path : List Char) : List Char :=
  path.map fun char => if char = '\\' then '/' else char

/-- Split at the character with this index, if it is a slash and both sides
fit their fields. -/
def splitAt? (path : List Char) (index : Nat) :
    Option (List Char × List Char) :=
  let name := path.drop (index + 1)
  let front := path.take index
  if path[index]? = some '/' ∧ name ≠ [] ∧ byteLength name ≤ 100 ∧
      byteLength front ≤ 155 then
    some (name, front)
  else
    none

/-- `splitUstarPath`: the name and the prefix. -/
def splitUstarPath (path : List Char) :
    Except TarError (List Char × List Char) :=
  let normalized := slashed path
  if 255 < byteLength normalized then
    .error (.pathTooLong (byteLength normalized) normalized)
  else if byteLength normalized ≤ 100 then
    .ok (normalized, [])
  else
    match (List.range normalized.length).reverse.findSome?
        (splitAt? normalized) with
    | some split => .ok split
    | none => .error (.pathNotSplit normalized)

/-- Bytes written into a field of zeros; what does not fit is left out. -/
def field (width : Nat) (bytes : List UInt8) : List UInt8 :=
  bytes.take width ++ List.replicate (width - bytes.length) 0

def textField (width : Nat) (text : List Char) : List UInt8 :=
  field width (Utf8.encode text)

/-- The type flag of an entry. -/
def typeflag : TarEntryType → Char
  | .directory => '5'
  | .symlink => '2'
  | .file => '0'

/-- The header of an entry, with the checksum field given. -/
def headerBytes (name front target : List Char) (type : TarEntryType)
    (mode size : Nat) (checksum : List UInt8) : List UInt8 :=
  textField 100 name ++
  textField 8 (padOctal mode 8) ++
  textField 8 (padOctal 0 8) ++
  textField 8 (padOctal 0 8) ++
  textField 12 (padOctal size 12) ++
  textField 12 (padOctal 0 12) ++
  checksum ++
  textField 1 [typeflag type] ++
  textField 100 target ++
  textField 6 ['u', 's', 't', 'a', 'r', '\x00'] ++
  textField 2 ['0', '0'] ++
  List.replicate 80 0 ++
  textField 155 front ++
  List.replicate 12 0

/-- `computeTarChecksum`: the sum of the header with a blank checksum. -/
def computeTarChecksum (header : List UInt8) : List Char :=
  padOctal ((header.map UInt8.toNat).sum) 8

/-- The link target that goes into the header. -/
def headerTarget (entry : TarEntryInput) : Except TarError (List Char) :=
  if entry.type = .symlink then
    let target := entry.target.getD []
    if 100 < byteLength target then
      .error (.targetTooLong target)
    else
      .ok target
  else
    .ok []

/-- `writeTarHeader`. -/
def writeTarHeader (entry : TarEntryInput) (fileSize : Nat) :
    Except TarError (List UInt8) := do
  let split ← splitUstarPath entry.path
  let target ← headerTarget entry
  let size := if entry.type = .file then fileSize else 0
  let header :=
    headerBytes split.1 split.2 target entry.type entry.mode size
  .ok (header (textField 8
    (computeTarChecksum (header (List.replicate 8 0x20)))))

/-- The zeros that fill the last block of a content. -/
def blockPadding (size : Nat) : List UInt8 :=
  if size % 512 = 0 then [] else List.replicate (512 - size % 512) 0

/-- What `createTarArchive` writes for one entry. -/
def writeEntry (entry : TarEntryInput) : Except TarError (List UInt8) :=
  if entry.type = .file then
    match entry.content with
    | some content => do
      let header ← writeTarHeader entry content.length
      .ok (header ++ content ++ blockPadding content.length)
    | none =>
      if entry.contentPath.getD [] ≠ [] then
        .error (.contentNotInMemory entry.path)
      else
        writeTarHeader entry 0
  else
    writeTarHeader entry 0

section Writers

variable (localeCompare : List Char → List Char → Ordering)

/-- `entries.sort((a, b) => a.path.localeCompare(b.path))`. -/
def sortEntries (entries : List TarEntryInput) : List TarEntryInput :=
  entries.mergeSort fun first second =>
    localeCompare first.path second.path ≠ .gt

/-- `createTarArchive`. -/
def createTarArchive (entries : List TarEntryInput) :
    Except TarError (List UInt8) := do
  let chunks ← (sortEntries localeCompare entries).mapM writeEntry
  .ok (chunks.flatten ++ List.replicate 1024 0)

end Writers

/-! ## Reading -/

/-- `buffer.subarray(start, end)`; a negative bound counts from the end. -/
def subarray (bytes : List UInt8) (start stop : Int) : List UInt8 :=
  let place (bound : Int) : Nat :=
    if bound < 0 then (bytes.length + bound).toNat else bound.toNat
  (bytes.take (place stop)).drop (place start)

/-- The characters a `.` of a regular expression does not match. -/
def isLineTerminator (char : Char) : Bool :=
  char == '\n' || char == '\r' || char == '\u2028' || char == '\u2029'

/-- `text.replace(/\0.*$/, '')`: the text before the first NUL with no line
terminator behind it. -/
def stripNul : List Char → List Char
  | [] => []
  | char :: rest =>
    if char = '\x00' ∧ rest.all (!isLineTerminator ·) = true then
      []
    else
      char :: stripNul rest

/-- A text field of a header. -/
def readText (header : List UInt8) (start stop : Nat) : List Char :=
  stripNul (Utf8.decode (subarray header start stop))

/-- The white space in front of a number. -/
def isWhitespace (char : Char) : Bool :=
  let code := char.toNat
  (0x09 ≤ code && code ≤ 0x0D) || code = 0x20 || code = 0xA0 ||
    code = 0x1680 || (0x2000 ≤ code && code ≤ 0x200A) ||
    code = 0x2028 || code = 0x2029 || code = 0x202F || code = 0x205F ||
    code = 0x3000 || code = 0xFEFF

def isOctalDigit (char : Char) : Bool :=
  '0' ≤ char && char ≤ '7'

/-- The digits `parseInt` reads; without one, not a number. -/
def parseOctalDigits (text : List Char) : Option Nat :=
  let digits := text.takeWhile isOctalDigit
  if digits = [] then none else some (Nat.ofDigitChars 8 digits 0)

/-- `Number.parseInt(text.trim(), 8)`. -/
def parseOctal (text : List Char) : Option Int :=
  match text.dropWhile isWhitespace with
  | '-' :: rest => (parseOctalDigits rest).map fun value => -(value : Int)
  | '+' :: rest => (parseOctalDigits rest).map Nat.cast
  | rest => (parseOctalDigits rest).map Nat.cast

/-- A number field of a header; zero and no number give the default. -/
def readNumber (header : List UInt8) (start stop : Nat) (default : Int) :
    Int :=
  match parseOctal (Utf8.decode (subarray header start stop)) with
  | some value => if value = 0 then default else value
  | none => default

/-- One round of `parseTarArchive` behind a header that is not empty: the
entry, and where the next header is. -/
def parseEntry (tarData header : List UInt8) (offset : Int) :
    ParsedTarEntry × Int :=
  let rawName := readText header 0 100
  let front := readText header 345 500
  let path := if front ≠ [] then front ++ '/' :: rawName else rawName
  let mode := readNumber header 100 108 0o644
  let size := readNumber header 124 136 0
  let flag := header[156]?.getD 0x30
  if flag = 0x35 then
    ({ path, type := .directory, mode, content := [], target := none },
      offset)
  else if flag = 0x32 then
    let target := readText header 157 257
    ({ path, type := .symlink, mode, content := [], target := some target },
      offset)
  else
    let content := subarray tarData offset (offset + size)
    let remainder := size.tmod 512
    let next := offset + size + if remainder = 0 then 0 else 512 - remainder
    ({ path, type := .file, mode, content, target := none }, next)

/-- The loop of `parseTarArchive`, with a number of rounds. -/
def parseFrom (tarData : List UInt8) :
    Nat → Int → Option (List ParsedTarEntry)
  | 0, _ => none
  | rounds + 1, offset =>
    if offset + 512 ≤ tarData.length then
      let header := subarray tarData offset (offset + 512)
      if header.all (· == 0) then
        some []
      else
        let round := parseEntry tarData header (offset + 512)
        (parseFrom tarData rounds round.2).map (round.1 :: ·)
    else
      some []

/-- `parseTarArchive`, with a number of rounds. -/
def parseTarArchive (rounds : Nat) (tarData : List UInt8) :
    Option (List ParsedTarEntry) :=
  parseFrom tarData rounds 0

/-- `parseTarArchive` returns these entries. -/
def Parses (tarData : List UInt8) (entries : List ParsedTarEntry) : Prop :=
  ∃ rounds, parseTarArchive rounds tarData = some entries

/-! ## Text fields -/

@[simp]
theorem length_field (width : Nat) (bytes : List UInt8) :
    (field width bytes).length = width := by
  unfold field
  rw [List.length_append, List.length_take, List.length_replicate]
  omega

@[simp]
theorem length_textField (width : Nat) (text : List Char) :
    (textField width text).length = width :=
  length_field _ _

theorem decode_textField {width : Nat} {text : List Char}
    (fits : byteLength text ≤ width) :
    Utf8.decode (textField width text) =
      text ++ List.replicate (width - byteLength text) '\x00' := by
  unfold textField field
  rw [List.take_of_length_le fits, Utf8.decode_encode_append,
    Utf8.decode_zeros]
  rfl

theorem all_replicate_nul (count : Nat) :
    (List.replicate count '\x00').all (!isLineTerminator ·) = true := by
  rw [List.all_eq_true]
  intro char member
  rw [List.eq_of_mem_replicate member]
  decide

theorem stripNul_replicate (count : Nat) :
    stripNul (List.replicate count '\x00') = [] := by
  cases count with
  | zero => rfl
  | succ count =>
    rw [List.replicate_succ, stripNul,
      if_pos ⟨rfl, all_replicate_nul count⟩]

/-- The zeros behind a text do not change what is left of it. -/
theorem stripNul_append_replicate (text : List Char) (count : Nat) :
    stripNul (text ++ List.replicate count '\x00') = stripNul text := by
  induction text with
  | nil => exact stripNul_replicate count
  | cons char rest induction =>
    rw [List.cons_append, stripNul, stripNul, List.all_append,
      all_replicate_nul, Bool.and_true, induction]

/-- A NUL with no line terminator behind it. -/
def HasOpenNul (text : List Char) : Prop :=
  ∃ front back, text = front ++ '\x00' :: back ∧
    ∀ char ∈ back, isLineTerminator char = false

theorem stripNul_eq_self_iff {text : List Char} :
    stripNul text = text ↔ ¬ HasOpenNul text := by
  induction text with
  | nil =>
    refine iff_of_true rfl ?_
    rintro ⟨front, back, split, -⟩
    exact absurd split (by simp)
  | cons char rest induction =>
    rw [stripNul]
    split
    · rename_i closed
      refine iff_of_false (List.cons_ne_nil _ _).symm (not_not_intro ?_)
      refine ⟨[], rest, by rw [closed.1]; rfl, ?_⟩
      simpa using closed.2
    · rename_i unclosed
      rw [List.cons.injEq, eq_self, true_and, induction, not_iff_not]
      constructor
      · rintro ⟨front, back, rfl, ends⟩
        exact ⟨char :: front, back, rfl, ends⟩
      · rintro ⟨front, back, split, ends⟩
        cases front with
        | nil =>
          rw [List.nil_append, List.cons.injEq] at split
          rcases split with ⟨rfl, rfl⟩
          exact absurd ⟨rfl, by simpa using ends⟩ unclosed
        | cons first front =>
          rw [List.cons_append, List.cons.injEq] at split
          exact ⟨front, back, split.2, ends⟩

theorem not_hasOpenNul {text : List Char} (nulFree : '\x00' ∉ text) :
    ¬ HasOpenNul text := by
  rintro ⟨front, back, rfl, -⟩
  exact nulFree (List.mem_append_right _ List.mem_cons_self)

/-! ## Number fields -/

theorem isOctalDigit_digitChar {digit : Nat} (small : digit < 8) :
    isOctalDigit digit.digitChar = true := by
  have each : ∀ digit : Fin 8, isOctalDigit (Nat.digitChar digit.val) = true := by
    decide
  exact each ⟨digit, small⟩

theorem isOctalDigit_of_mem_toDigits {value : Nat} {char : Char}
    (member : char ∈ Nat.toDigits 8 value) : isOctalDigit char = true := by
  induction value using Nat.strongRecOn with
  | ind value induction =>
    rw [Nat.toDigits_eq_if (by decide)] at member
    split at member
    · rename_i small
      rw [List.mem_singleton.mp member]
      exact isOctalDigit_digitChar small
    · rename_i large
      rcases List.mem_append.mp member with front | last
      · exact induction (value / 8) (by omega) front
      · rw [List.mem_singleton.mp last]
        exact isOctalDigit_digitChar (Nat.mod_lt _ (by decide))

/-- An octal digit neither is white space nor a sign. -/
theorem octalDigit_first {char : Char} (digit : isOctalDigit char = true) :
    isWhitespace char = false ∧ char ≠ '-' ∧ char ≠ '+' := by
  unfold isOctalDigit at digit
  rw [Bool.and_eq_true, decide_eq_true_iff, decide_eq_true_iff] at digit
  have low : 48 ≤ char.toNat := digit.1
  have high : char.toNat ≤ 55 := digit.2
  refine ⟨?_, ?_, ?_⟩
  · unfold isWhitespace
    simp
    omega
  · rintro rfl
    exact absurd low (by decide)
  · rintro rfl
    exact absurd low (by decide)

/-- Digits are read up to the first character that is none. -/
theorem parseOctal_digits (digits rest : List Char)
    (some : digits ≠ [])
    (octal : ∀ char ∈ digits, isOctalDigit char = true)
    (ends : ∀ char ∈ rest.head?, isOctalDigit char = false) :
    parseOctal (digits ++ rest) =
      .some (Nat.ofDigitChars 8 digits 0 : Int) := by
  have read : (digits ++ rest).takeWhile isOctalDigit = digits := by
    rw [List.takeWhile_append_of_pos octal]
    cases rest with
    | nil => exact List.append_nil _
    | cons first rest =>
      rw [List.takeWhile_cons_of_neg (by rw [ends first rfl]; decide),
        List.append_nil]
  cases digits with
  | nil => exact absurd rfl some
  | cons first digits =>
    have start := octalDigit_first (octal first List.mem_cons_self)
    unfold parseOctal
    rw [List.cons_append, List.dropWhile_cons_of_neg (by rw [start.1]; decide)]
    split
    · rename_i same
      exact absurd (List.cons.inj same).1 start.2.1
    · rename_i same
      exact absurd (List.cons.inj same).1 start.2.2
    · unfold parseOctalDigits
      rw [List.cons_append] at read
      rw [read, if_neg some]
      rfl

theorem ofDigitChars_lt {digits : List Char}
    (octal : ∀ char ∈ digits, isOctalDigit char = true) :
    Nat.ofDigitChars 8 digits 0 < 8 ^ digits.length := by
  induction digits using List.reverseRecOn with
  | nil => simp
  | append_singleton digits last induction =>
    have front := induction fun char member =>
      octal char (List.mem_append_left _ member)
    have digit := octal last (List.mem_append_right _ List.mem_cons_self)
    unfold isOctalDigit at digit
    rw [Bool.and_eq_true, decide_eq_true_iff, decide_eq_true_iff] at digit
    have high : last.toNat ≤ 55 := digit.2
    have zero : '0'.toNat = 48 := rfl
    rw [Nat.ofDigitChars_append, Nat.ofDigitChars_cons,
      Nat.ofDigitChars_nil, List.length_append, List.length_singleton,
      Nat.pow_succ, zero]
    omega

/-- What `parseInt` reads of a padded number: the number, when it fits. -/
theorem parseOctal_padOctal (value : Nat) {length : Nat} (room : 1 < length) :
    ∃ digits : Nat, parseOctal (padOctal value length) = some (digits : Int) ∧
      (value < 8 ^ length → digits = value) ∧
      (8 ^ length ≤ value → digits < 8 ^ length) := by
  have octal : ∀ char ∈ Nat.toDigits 8 value, isOctalDigit char = true :=
    fun char member => isOctalDigit_of_mem_toDigits member
  have width := Nat.length_toDigits_le_iff (n := value) (k := length)
    (b := 8) (by decide) (by omega)
  have whole := Nat.ofDigitChars_toDigits (n := value) (b := 8)
    (by decide) (by decide)
  unfold padOctal
  dsimp only
  split
  · rename_i long
    have cut : ∀ char ∈ (Nat.toDigits 8 value).take length,
        isOctalDigit char = true :=
      fun char member => octal char (List.mem_of_mem_take member)
    refine ⟨Nat.ofDigitChars 8 ((Nat.toDigits 8 value).take length) 0,
      ?_, ?_, ?_⟩
    · have read := parseOctal_digits _ [] ?_ cut (by simp)
      · rwa [List.append_nil] at read
      · rw [Ne, List.take_eq_nil_iff, not_or]
        exact ⟨by omega, Nat.toDigits_ne_nil⟩
    · intro small
      rw [List.take_of_length_le (width.mpr small), whole]
    · intro large
      have bound := ofDigitChars_lt cut
      rwa [List.length_take, Nat.min_eq_left long] at bound
  · rename_i short
    have small : value < 8 ^ length := width.mp (by omega)
    refine ⟨value, ?_, fun _ => rfl, fun large => absurd small (by omega)⟩
    have read := parseOctal_digits
      ((Nat.toDigits 8 value).leftpad (length - 1) '0')
      ['\x00'] ?_ ?_ (by rintro char ⟨⟩; rfl)
    · rw [read]
      unfold List.leftpad
      rw [Nat.ofDigitChars_append, Nat.ofDigitChars_replicate_zero,
        Nat.mul_zero, whole]
    · unfold List.leftpad
      simp
    · intro char member
      rcases List.mem_append.mp member with padding | digit
      · rw [List.eq_of_mem_replicate padding]
        decide
      · exact octal char digit

theorem ascii_padOctal (value length : Nat) :
    ∀ char ∈ padOctal value length, char.toNat < 0x80 := by
  have octal : ∀ char ∈ Nat.toDigits 8 value, char.toNat < 0x80 := by
    intro char member
    have digit := isOctalDigit_of_mem_toDigits member
    unfold isOctalDigit at digit
    rw [Bool.and_eq_true, decide_eq_true_iff, decide_eq_true_iff] at digit
    have high : char.toNat ≤ 55 := digit.2
    omega
  intro char member
  unfold padOctal at member
  dsimp only at member
  split at member
  · exact octal char (List.mem_of_mem_take member)
  · rcases List.mem_append.mp member with padded | last
    · rcases List.mem_append.mp padded with padding | digit
      · rw [List.eq_of_mem_replicate padding]
        decide
      · exact octal char digit
    · rw [List.mem_singleton.mp last]
      decide

theorem length_padOctal (value length : Nat) :
    (padOctal value length).length = length := by
  unfold padOctal
  dsimp only
  split
  · rename_i long
    rw [List.length_take, Nat.min_eq_left long]
  · rename_i short
    unfold List.leftpad
    rw [List.length_append, List.length_append, List.length_replicate,
      List.length_singleton]
    omega

/-- A number field is full, so it is read as it was padded. -/
theorem decode_numberField (value length : Nat) :
    Utf8.decode (textField length (padOctal value length)) =
      padOctal value length := by
  have full : byteLength (padOctal value length) = length := by
    unfold byteLength
    rw [Utf8.length_encode_ascii (ascii_padOctal value length),
      length_padOctal]
  rw [decode_textField (Nat.le_of_eq full), full, Nat.sub_self,
    List.replicate_zero, List.append_nil]

/-! ## Where the fields are -/

theorem subarray_middle {front part back : List UInt8} {start stop : Nat}
    (starts : front.length = start) (stops : start + part.length = stop) :
    subarray (front ++ (part ++ back)) start stop = part := by
  subst starts stops
  unfold subarray
  dsimp only
  rw [if_neg (by omega), if_neg (by omega), Int.toNat_natCast,
    Int.toNat_natCast, ← List.append_assoc, List.take_append_of_le_length,
    List.take_of_length_le, List.drop_left]
  · simp
  · simp

theorem subarray_flatten {parts : List (List UInt8)} {part : List UInt8}
    {start stop : Nat} (index : Nat) (here : parts[index]? = some part)
    (starts : (parts.take index).flatten.length = start)
    (stops : start + part.length = stop) :
    subarray parts.flatten start stop = part := by
  rcases List.getElem?_eq_some_iff.mp here with ⟨inside, is⟩
  have split : parts = parts.take index ++ part :: parts.drop (index + 1) := by
    rw [← is, ← List.drop_eq_getElem_cons inside, List.take_append_drop]
  rw [split, List.flatten_append, List.flatten_cons]
  exact subarray_middle starts stops

theorem getElem?_of_subarray {bytes : List UInt8} {index : Nat} {byte : UInt8}
    (one : subarray bytes index (index + 1 : Nat) = [byte]) :
    bytes[index]? = some byte := by
  have first : ((bytes.take (index + 1)).drop index)[0]? = some byte := by
    unfold subarray at one
    dsimp only at one
    rw [if_neg (by omega), if_neg (by omega), Int.toNat_natCast,
      Int.toNat_natCast] at one
    rw [one]
    rfl
  rwa [List.getElem?_drop, List.getElem?_take_of_lt (by omega),
    Nat.add_zero] at first

section Header

variable (name front target : List Char) (type : TarEntryType)
  (mode size : Nat) (checksum : List UInt8)

/-- The fields of a header, in order. -/
def headerParts : List (List UInt8) :=
  [textField 100 name, textField 8 (padOctal mode 8),
    textField 8 (padOctal 0 8), textField 8 (padOctal 0 8),
    textField 12 (padOctal size 12), textField 12 (padOctal 0 12), checksum,
    textField 1 [typeflag type], textField 100 target,
    textField 6 ['u', 's', 't', 'a', 'r', '\x00'], textField 2 ['0', '0'],
    List.replicate 80 0, textField 155 front, List.replicate 12 0]

theorem headerBytes_eq :
    headerBytes name front target type mode size checksum =
      (headerParts name front target type mode size checksum).flatten := by
  simp only [headerBytes, headerParts, List.flatten_cons, List.flatten_nil,
    List.append_assoc, List.append_nil]

theorem header_name :
    subarray (headerBytes name front target type mode size checksum) (0 : Nat)
      (100 : Nat) = textField 100 name := by
  rw [headerBytes_eq]
  exact subarray_flatten 0 rfl rfl (by simp)

theorem header_mode :
    subarray (headerBytes name front target type mode size checksum)
      (100 : Nat) (108 : Nat) = textField 8 (padOctal mode 8) := by
  rw [headerBytes_eq]
  exact subarray_flatten 1 rfl (by simp [headerParts]) (by simp)

theorem header_size :
    subarray (headerBytes name front target type mode size checksum)
      (124 : Nat) (136 : Nat) = textField 12 (padOctal size 12) := by
  rw [headerBytes_eq]
  exact subarray_flatten 4 rfl (by simp [headerParts]) (by simp)

variable {checksum} (eight : checksum.length = 8)

include eight

theorem length_headerBytes :
    (headerBytes name front target type mode size checksum).length = 512 := by
  simp [headerBytes_eq, headerParts, eight]

theorem header_typeflag :
    (headerBytes name front target type mode size checksum)[156]? =
      some (UInt8.ofNat (typeflag type).toNat) := by
  have flag : subarray
      (headerBytes name front target type mode size checksum)
      (156 : Nat) (157 : Nat) = textField 1 [typeflag type] := by
    rw [headerBytes_eq]
    exact subarray_flatten 7 rfl (by simp [headerParts, eight])
      (by simp)
  have one : textField 1 [typeflag type] =
      [UInt8.ofNat (typeflag type).toNat] := by
    cases type <;> rfl
  exact getElem?_of_subarray (flag.trans one)

theorem header_target :
    subarray (headerBytes name front target type mode size checksum)
      (157 : Nat) (257 : Nat) = textField 100 target := by
  rw [headerBytes_eq]
  exact subarray_flatten 8 rfl (by simp [headerParts, eight])
    (by simp)

theorem header_front :
    subarray (headerBytes name front target type mode size checksum)
      (345 : Nat) (500 : Nat) = textField 155 front := by
  rw [headerBytes_eq]
  exact subarray_flatten 12 rfl (by simp [headerParts, eight])
    (by simp)

end Header

/-! ## Splitting a path -/

theorem findSome?_reverse_range {Result : Type} {find : Nat → Option Result}
    {count : Nat} {result : Result}
    (found : (List.range count).reverse.findSome? find = some result) :
    ∃ index, index < count ∧ find index = some result ∧
      ∀ other, index < other → other < count → find other = none := by
  induction count with
  | zero => exact absurd found (by simp)
  | succ count induction =>
    rw [List.range_succ, List.reverse_append, List.reverse_singleton,
      List.singleton_append, List.findSome?_cons] at found
    cases last : find count with
    | some value =>
      rw [last] at found
      refine ⟨count, Nat.lt_succ_self _, ?_, ?_⟩
      · rw [last, ← found]
      · intro other after before
        omega
    | none =>
      rw [last] at found
      rcases induction found with ⟨index, inside, is, rest⟩
      refine ⟨index, Nat.lt_succ_of_lt inside, is, ?_⟩
      intro other after before
      rcases Nat.lt_succ_iff_lt_or_eq.mp before with before | rfl
      · exact rest other after before
      · exact last

variable {name : List Char}

/-- What a split says of the path. -/
theorem splitAt?_eq_some {path front : List Char} {index : Nat}
    (split : splitAt? path index = some (name, front)) :
    path = front ++ '/' :: name ∧ front.length = index ∧ name ≠ [] ∧
      byteLength name ≤ 100 ∧ byteLength front ≤ 155 := by
  unfold splitAt? at split
  dsimp only at split
  split at split
  · rename_i fits
    rw [Option.some_inj, Prod.mk.injEq] at split
    rcases split with ⟨rfl, rfl⟩
    rcases List.getElem?_eq_some_iff.mp fits.1 with ⟨inside, slash⟩
    refine ⟨?_, ?_, fits.2⟩
    · rw [← slash, ← List.drop_eq_getElem_cons inside, List.take_append_drop]
    · rw [List.length_take, Nat.min_eq_left (Nat.le_of_lt inside)]
  · exact absurd split (by simp)

/-- A path that is written whole, or split at a slash. -/
inductive SplitsTo (path : List Char) : List Char → List Char → Prop where
  | whole (short : byteLength path ≤ 100) : SplitsTo path path []
  | slash {name front : List Char} (long : 100 < byteLength path)
      (is : path = front ++ '/' :: name) (named : name ≠ [])
      (nameFits : byteLength name ≤ 100) (frontFits : byteLength front ≤ 155)
      (last : ∀ other, front.length < other → other < path.length →
        splitAt? path other = none) :
      SplitsTo path name front

theorem splitUstarPath_splits {path front : List Char}
    (split : splitUstarPath path = .ok (name, front)) :
    SplitsTo (slashed path) name front := by
  unfold splitUstarPath at split
  dsimp only at split
  split at split
  · cases split
  · split at split
    · rename_i short
      cases split
      exact .whole short
    · rename_i long
      split at split
      · rename_i found
        cases split
        rcases findSome?_reverse_range found with ⟨index, inside, is, last⟩
        rcases splitAt?_eq_some is with
          ⟨whole, rfl, named, nameFits, frontFits⟩
        exact .slash (Nat.lt_of_not_le long) whole named nameFits frontFits
          last
      · cases split

/-- The path `parseTarArchive` puts together again. -/
def joinedPath (name front : List Char) : List Char :=
  if front ≠ [] then front ++ '/' :: name else name

/-- A path of 101 bytes whose only slash, but for one at the end, is at its
start. -/
def LosesSlash (path : List Char) : Prop :=
  byteLength path = 101 ∧
    ∃ rest, path = '/' :: rest ∧ '/' ∉ rest.dropLast

theorem byteLength_append (first second : List Char) :
    byteLength (first ++ second) = byteLength first + byteLength second := by
  unfold byteLength
  rw [Utf8.encode_append, List.length_append]

theorem byteLength_slash (name : List Char) :
    byteLength ('/' :: name) = 1 + byteLength name :=
  byteLength_append ['/'] name

theorem splitAt?_of_fits (front : List Char) (named : name ≠ [])
    (nameFits : byteLength name ≤ 100) (frontFits : byteLength front ≤ 155) :
    splitAt? (front ++ '/' :: name) front.length = some (name, front) := by
  have slash : (front ++ '/' :: name)[front.length]? = some '/' := by
    rw [List.getElem?_append_right (Nat.le_refl _), Nat.sub_self]
    rfl
  have after : (front ++ '/' :: name).drop (front.length + 1) = name := by
    rw [← List.drop_drop, List.drop_left]
    rfl
  unfold splitAt?
  dsimp only
  rw [after, List.take_left, if_pos ⟨slash, named, nameFits, frontFits⟩]

/-- What is put together is the path, but for a leading slash whose prefix
is empty. -/
theorem joinedPath_eq_iff {path front : List Char}
    (splits : SplitsTo path name front) :
    joinedPath name front = path ↔ ¬ LosesSlash path := by
  cases splits with
  | whole short =>
    refine iff_of_true rfl ?_
    rintro ⟨exact, -⟩
    omega
  | slash long is named nameFits frontFits last =>
    unfold joinedPath
    by_cases empty : front = []
    · subst empty
      rw [if_neg (not_not_intro rfl)]
      rw [List.nil_append] at is
      subst is
      rw [byteLength_slash] at long
      refine iff_of_false ?_ (not_not_intro ⟨?_, name, rfl, ?_⟩)
      · intro same
        exact absurd (congrArg List.length same) (by simp)
      · rw [byteLength_slash]
        omega
      · intro inside
        rcases List.append_of_mem inside with ⟨early, late, parts⟩
        have shape := List.dropLast_append_getLast named
        rw [parts] at shape
        generalize name.getLast named = final at shape
        have whole : '/' :: name =
            ('/' :: early) ++ '/' :: (late ++ [final]) := by
          rw [← shape]
          simp
        have size := congrArg byteLength whole
        rw [byteLength_append, byteLength_slash name,
          byteLength_slash (late ++ _)] at size
        have free := last ('/' :: early).length (by simp) (by
          rw [whole, List.length_append]
          simp)
        have taken := splitAt?_of_fits ('/' :: early)
          (by simp : late ++ [final] ≠ []) (by omega)
          (by omega)
        rw [← whole, free] at taken
        exact absurd taken (by simp)
    · rw [if_pos empty]
      refine iff_of_true is.symm ?_
      rintro ⟨-, rest, starts, free⟩
      rcases List.exists_cons_of_ne_nil empty with ⟨first, more, rfl⟩
      rw [is, List.cons_append, List.cons.injEq] at starts
      apply free
      rw [← starts.2, List.dropLast_append_of_ne_nil (by simp),
        List.dropLast_cons_of_ne_nil named]
      exact List.mem_append_right _ List.mem_cons_self


/-! ## One entry written and read -/

/-- The bytes of an entry's content that go into an archive. -/
def fileContent (entry : TarEntryInput) : List UInt8 :=
  if entry.type = .file then entry.content.getD [] else []

variable {entry : TarEntryInput}

theorem headerTarget_ok {target : List Char}
    (ok : headerTarget entry = .ok target) :
    byteLength target ≤ 100 ∧
      target = if entry.type = .symlink then entry.target.getD [] else [] := by
  unfold headerTarget at ok
  split at ok
  · rename_i link
    dsimp only at ok
    split at ok
    · cases ok
    · rename_i fits
      cases ok
      exact ⟨Nat.le_of_not_lt fits, (if_pos link).symm⟩
  · rename_i other
    cases ok
    exact ⟨Nat.zero_le _, (if_neg other).symm⟩

variable {header : List UInt8}

/-- What a header that was written holds. -/
theorem writeTarHeader_ok {size : Nat}
    (ok : writeTarHeader entry size = .ok header) :
    ∃ name front target checksum,
      SplitsTo (slashed entry.path) name front ∧
      headerTarget entry = .ok target ∧ checksum.length = 8 ∧
      header = headerBytes name front target entry.type entry.mode
        (if entry.type = .file then size else 0) checksum := by
  unfold writeTarHeader at ok
  cases split : splitUstarPath entry.path with
  | error error =>
    rw [split] at ok
    cases ok
  | ok pair =>
    rw [split] at ok
    cases linked : headerTarget entry with
    | error error =>
      rw [linked] at ok
      cases ok
    | ok target =>
      rw [linked] at ok
      exact ⟨pair.1, pair.2, target, _, splitUstarPath_splits split, rfl,
        length_textField _ _, (Except.ok.inj ok).symm⟩

/-- What the archive holds of an entry that was written. -/
theorem writeEntry_ok {chunk : List UInt8} (ok : writeEntry entry = .ok chunk) :
    ∃ name front target checksum,
      SplitsTo (slashed entry.path) name front ∧
      headerTarget entry = .ok target ∧ checksum.length = 8 ∧
      chunk = headerBytes name front target entry.type entry.mode
          (fileContent entry).length checksum ++ fileContent entry ++
        blockPadding (fileContent entry).length := by
  unfold writeEntry at ok
  split at ok
  · rename_i isFile
    split at ok
    · rename_i content some
      cases written : writeTarHeader entry content.length with
      | error error =>
        rw [written] at ok
        cases ok
      | ok header =>
        rw [written] at ok
        cases ok
        rcases writeTarHeader_ok written with
          ⟨name, front, target, checksum, splits, linked, eight, is⟩
        refine ⟨name, front, target, checksum, splits, linked, eight, ?_⟩
        have stored : fileContent entry = content := by
          unfold fileContent
          rw [if_pos isFile, some]
          rfl
        rw [is, stored, if_pos isFile]
    · rename_i none
      split at ok
      · cases ok
      · rcases writeTarHeader_ok ok with
          ⟨name, front, target, checksum, splits, linked, eight, is⟩
        refine ⟨name, front, target, checksum, splits, linked, eight, ?_⟩
        have stored : fileContent entry = [] := by
          unfold fileContent
          rw [if_pos isFile, none]
          rfl
        rw [is, stored, ite_self, List.append_nil]
        exact (List.append_nil _).symm
  · rename_i other
    rcases writeTarHeader_ok ok with
      ⟨name, front, target, checksum, splits, linked, eight, is⟩
    refine ⟨name, front, target, checksum, splits, linked, eight, ?_⟩
    have stored : fileContent entry = [] := if_neg other
    rw [is, stored, ite_self, List.append_nil]
    exact (List.append_nil _).symm

theorem readText_of_field {start stop width : Nat} {text : List Char}
    (holds : subarray header start stop = textField width text)
    (fits : byteLength text ≤ width) :
    readText header start stop = stripNul text := by
  unfold readText
  rw [holds, decode_textField fits, stripNul_append_replicate]

theorem readNumber_of_field {start stop width : Nat} {value : Nat}
    (default : Int) (holds : subarray header start stop =
      textField width (padOctal value width)) (room : 1 < width) :
    ∃ digits : Nat,
      readNumber header start stop default =
        (if digits = 0 then default else digits) ∧
      (value < 8 ^ width → digits = value) ∧
      (8 ^ width ≤ value → digits < 8 ^ width) := by
  rcases parseOctal_padOctal value room with ⟨digits, read, exact, cut⟩
  refine ⟨digits, ?_, exact, cut⟩
  unfold readNumber
  rw [holds, decode_numberField, read]
  dsimp only
  split
  · rename_i zero
    rw [if_pos (by exact_mod_cast zero)]
  · rename_i some
    rw [if_neg (by exact_mod_cast some)]

theorem subarray_behind (front back : List UInt8) (count : Nat) :
    subarray (front ++ back) front.length (front.length + count) =
      back.take count := by
  unfold subarray
  dsimp only
  rw [if_neg (by omega), if_neg (by omega), Int.toNat_natCast]
  have stop : ((front.length : Int) + count).toNat = front.length + count := by
    omega
  rw [stop, List.take_length_add_append, List.drop_left]

/-- The bytes of padding behind a content, as the reader counts them. -/
theorem padding_counted (size : Nat) :
    (if (size : Int).tmod 512 = 0 then 0 else 512 - (size : Int).tmod 512) =
      ((blockPadding size).length : Int) := by
  have same : (size : Int).tmod 512 = ((size % 512 : Nat) : Int) := by
    rw [Int.tmod_eq_emod_of_nonneg (by omega)]
    rfl
  rw [same]
  unfold blockPadding
  split
  · rename_i whole
    rw [if_pos (by omega)]
    rfl
  · rename_i filled
    rw [if_neg (by omega), List.length_replicate]
    omega

/-- The entry that was read says what the entry that was written said; a
link without a target and one with an empty target are the same. -/
structure Restores (entry : TarEntryInput) (parsed : ParsedTarEntry) :
    Prop where
  path : parsed.path = slashed entry.path
  type : parsed.type = entry.type
  mode : parsed.mode = entry.mode
  content : parsed.content = entry.content.getD []
  target : parsed.target.getD [] = entry.target.getD []

/-- The entries an archive can hold. -/
structure Representable (entry : TarEntryInput) : Prop where
  path : ¬ LosesSlash (slashed entry.path)
  mode : 0 < entry.mode ∧ entry.mode < 8 ^ 8
  size : (entry.content.getD []).length < 8 ^ 12
  target : ¬ HasOpenNul (entry.target.getD [])
  contentOfFile : entry.type ≠ .file → entry.content.getD [] = []
  targetOfLink : entry.type ≠ .symlink → entry.target.getD [] = []

theorem mode_restored_iff {mode digits : Nat}
    (exact : mode < 8 ^ 8 → digits = mode)
    (cut : 8 ^ 8 ≤ mode → digits < 8 ^ 8) :
    (if digits = 0 then (0o644 : Int) else digits) = mode ↔
      0 < mode ∧ mode < 8 ^ 8 := by
  by_cases fits : mode < 8 ^ 8
  · rw [exact fits]
    split <;> omega
  · have below := cut (Nat.le_of_not_lt fits)
    split <;> omega

/-- The content that was read is the content that was written when its
length fits the size field. -/
theorem take_eq_self_iff {content : List UInt8} (more : List UInt8)
    {digits : Nat}
    (exact : content.length < 8 ^ 12 → digits = content.length)
    (cut : 8 ^ 12 ≤ content.length → digits < 8 ^ 12) :
    (content ++ more).take digits = content ↔ content.length < 8 ^ 12 := by
  constructor
  · intro same
    by_contra large
    have below := cut (Nat.le_of_not_lt large)
    have size := congrArg List.length same
    rw [List.length_take] at size
    omega
  · intro fits
    rw [exact fits, List.take_left]

/-- What the reader makes of a header that was written, and of the bytes
behind it. -/
theorem parseEntry_header {front target : List Char} {checksum : List UInt8}
    (before more : List UInt8) (nulFree : '\x00' ∉ entry.path)
    (splits : SplitsTo (slashed entry.path) name front)
    (linked : headerTarget entry = .ok target) (eight : checksum.length = 8)
    (is : header = headerBytes name front target entry.type entry.mode
      (fileContent entry).length checksum) :
    ∃ parsed next,
      parseEntry (before ++ (fileContent entry ++ more)) header
        before.length = (parsed, next) ∧
      (Restores entry parsed ↔ Representable entry) ∧
      (Representable entry →
        next = before.length + (fileContent entry).length +
          (blockPadding (fileContent entry).length).length) := by
  have nulFreePath : '\x00' ∉ slashed entry.path := by
    intro member
    rcases List.mem_map.mp member with ⟨char, inside, is⟩
    split at is
    · exact absurd is (by decide)
    · exact nulFree (is ▸ inside)
  have nulFreeParts : '\x00' ∉ name ∧ '\x00' ∉ front := by
    cases splits with
    | whole short => exact ⟨nulFreePath, List.not_mem_nil⟩
    | slash long whole named nameFits frontFits last =>
      rw [whole, List.mem_append, List.mem_cons, not_or, not_or]
        at nulFreePath
      exact ⟨nulFreePath.2.2, nulFreePath.1⟩
  have fits : byteLength name ≤ 100 ∧ byteLength front ≤ 155 := by
    cases splits with
    | whole short => exact ⟨short, Nat.zero_le _⟩
    | slash long is named nameFits frontFits last =>
      exact ⟨nameFits, frontFits⟩
  rcases headerTarget_ok linked with ⟨targetFits, targetIs⟩
  have readName : readText header 0 100 = name := by
    rw [is, readText_of_field (header_name ..) fits.1]
    exact stripNul_eq_self_iff.mpr (not_hasOpenNul nulFreeParts.1)
  have readFront : readText header 345 500 = front := by
    rw [is, readText_of_field (header_front _ _ _ _ _ _ eight) fits.2]
    exact stripNul_eq_self_iff.mpr (not_hasOpenNul nulFreeParts.2)
  have readTarget : readText header 157 257 = stripNul target := by
    rw [is, readText_of_field (header_target _ _ _ _ _ _ eight) targetFits]
  have readFlag : header[156]?.getD 0x30 =
      UInt8.ofNat (typeflag entry.type).toNat := by
    rw [is, header_typeflag _ _ _ _ _ _ eight]
    rfl
  rcases readNumber_of_field 0o644
    (header_mode name front target entry.type entry.mode
      (fileContent entry).length checksum) (by decide) with
    ⟨modeDigits, readMode, modeExact, modeCut⟩
  rcases readNumber_of_field 0
    (header_size name front target entry.type entry.mode
      (fileContent entry).length checksum) (by decide) with
    ⟨sizeDigits, readSize, sizeExact, sizeCut⟩
  rw [← is] at readMode readSize
  have modeIff := mode_restored_iff modeExact modeCut
  have pathIff := joinedPath_eq_iff splits
  unfold parseEntry
  dsimp only
  rw [readName, readFront, readTarget, readFlag, readMode, readSize]
  cases type : entry.type with
  | directory =>
    have other : entry.type ≠ .file := by simp [type]
    have stored : fileContent entry = [] := if_neg other
    rw [if_pos (by rfl)]
    refine ⟨_, _, rfl, ⟨fun restores => ?_, fun fits => ?_⟩, fun _ => ?_⟩
    · have empty : entry.content.getD [] = [] := restores.content.symm
      have bare : entry.target.getD [] = [] := restores.target.symm
      exact ⟨pathIff.mp restores.path, modeIff.mp restores.mode,
        by rw [empty]; decide, by rw [bare]; exact not_hasOpenNul (by simp),
        fun _ => empty, fun _ => bare⟩
    · exact ⟨pathIff.mpr fits.path, type.symm, modeIff.mpr fits.mode,
        (fits.contentOfFile other).symm,
        (fits.targetOfLink (by simp [type])).symm⟩
    · rw [stored]
      exact (Int.add_zero _).symm
  | symlink =>
    have other : entry.type ≠ .file := by simp [type]
    have stored : fileContent entry = [] := if_neg other
    have targetText : target = entry.target.getD [] := by
      rw [targetIs, if_pos type]
    rw [if_neg (by decide), if_pos (by rfl), targetText]
    refine ⟨_, _, rfl, ⟨fun restores => ?_, fun fits => ?_⟩, fun _ => ?_⟩
    · have empty : entry.content.getD [] = [] := restores.content.symm
      exact ⟨pathIff.mp restores.path, modeIff.mp restores.mode,
        by rw [empty]; decide, stripNul_eq_self_iff.mp restores.target,
        fun _ => empty, fun link => absurd type link⟩
    · exact ⟨pathIff.mpr fits.path, type.symm, modeIff.mpr fits.mode,
        (fits.contentOfFile other).symm,
        stripNul_eq_self_iff.mpr fits.target⟩
    · rw [stored]
      exact (Int.add_zero _).symm
  | file =>
    have stored : fileContent entry = entry.content.getD [] := if_pos type
    have sizeIs : (if sizeDigits = 0 then (0 : Int) else sizeDigits) =
        sizeDigits := by
      split <;> omega
    have contentIff := take_eq_self_iff more sizeExact sizeCut
    rw [if_neg (by decide), if_neg (by decide), sizeIs, subarray_behind,
      padding_counted]
    refine ⟨_, _, rfl, ⟨fun restores => ?_, fun fits => ?_⟩,
      fun fits => ?_⟩
    · have whole := restores.content
      rw [← stored] at whole
      have bare : entry.target.getD [] = [] := restores.target.symm
      exact ⟨pathIff.mp restores.path, modeIff.mp restores.mode,
        stored ▸ contentIff.mp whole,
        by rw [bare]; exact not_hasOpenNul (by simp),
        fun other => absurd type other, fun _ => bare⟩
    · have whole := contentIff.mpr (stored ▸ fits.size)
      exact ⟨pathIff.mpr fits.path, type.symm, modeIff.mpr fits.mode,
        whole.trans stored, (fits.targetOfLink (by simp [type])).symm⟩
    · rw [sizeExact (stored ▸ fits.size)]

/-- One round of the reader on an entry that was written. -/
theorem parseFrom_chunk {chunk : List UInt8} (before more : List UInt8)
    (nulFree : '\x00' ∉ entry.path) (ok : writeEntry entry = .ok chunk) :
    ∃ parsed next,
      (∀ rounds,
        parseFrom (before ++ (chunk ++ more)) (rounds + 1) before.length =
          (parseFrom (before ++ (chunk ++ more)) rounds next).map
            (parsed :: ·)) ∧
      (Restores entry parsed ↔ Representable entry) ∧
      (Representable entry → next = (before ++ chunk).length) := by
  rcases writeEntry_ok ok with
    ⟨name, front, target, checksum, splits, linked, eight, is⟩
  generalize written : headerBytes name front target entry.type entry.mode
    (fileContent entry).length checksum = header at is
  have size : header.length = 512 := by
    rw [← written]
    exact length_headerBytes _ _ _ _ _ _ eight
  rcases parseEntry_header (before ++ header)
    (blockPadding (fileContent entry).length ++ more)
    nulFree splits linked eight written.symm with
    ⟨parsed, next, read, restores, moves⟩
  have whole : before ++ (chunk ++ more) =
      (before ++ header) ++ (fileContent entry ++
        (blockPadding (fileContent entry).length ++ more)) := by
    rw [is]
    simp only [List.append_assoc]
  refine ⟨parsed, next, fun rounds => ?_, restores, fun fits => ?_⟩
  · have starts : subarray (before ++ (chunk ++ more)) before.length
        (before.length + 512) = header := by
      have part := subarray_behind before (chunk ++ more) 512
      rw [is, List.append_assoc, List.append_assoc,
        List.take_append_of_le_length (by omega),
        List.take_of_length_le (by omega)] at part
      rw [is, List.append_assoc, List.append_assoc]
      exact part
    have flag := header_typeflag name front target entry.type entry.mode
      (fileContent entry).length eight
    rw [written] at flag
    have nonzero : header.all (· == 0) = false := by
      rw [List.all_eq_false]
      refine ⟨_, List.mem_of_getElem? flag, ?_⟩
      cases entry.type <;> decide
    have offset : ((before ++ header).length : Int) = before.length + 512 := by
      rw [List.length_append, size]
      rfl
    rw [← whole, offset] at read
    rw [parseFrom, if_pos (by rw [is]; simp [size]; omega), starts]
    dsimp only
    rw [nonzero, read]
    rfl
  · rw [moves fits, is]
    simp
    omega

/-! ## A whole archive -/

/-- The reader stops at the first of the two empty blocks. -/
theorem parseFrom_end (before : List UInt8) (rounds : Nat) :
    parseFrom (before ++ List.replicate 1024 0) (rounds + 1) before.length =
      some [] := by
  have block := subarray_behind before (List.replicate 1024 0) 512
  rw [List.take_replicate] at block
  have inside : (before.length : Int) + 512 ≤
      (before ++ List.replicate 1024 (0 : UInt8)).length := by
    rw [List.length_append, List.length_replicate]
    omega
  have blank : (List.replicate (min 512 1024) (0 : UInt8)).all (· == 0) =
      true := by
    rw [List.all_eq_true]
    intro byte member
    rw [List.eq_of_mem_replicate member]
    rfl
  have empty : subarray (before ++ List.replicate 1024 0) before.length
      ((before.length : Int) + 512) = List.replicate (min 512 1024) 0 :=
    block
  rw [parseFrom, if_pos inside]
  dsimp only
  rw [empty, if_pos blank]

theorem mapM_cons_ok {first : TarEntryInput} {rest : List TarEntryInput}
    {chunks : List (List UInt8)}
    (ok : (first :: rest).mapM writeEntry = .ok chunks) :
    ∃ chunk others, chunks = chunk :: others ∧
      writeEntry first = .ok chunk ∧ rest.mapM writeEntry = .ok others := by
  rw [List.mapM_cons] at ok
  cases written : writeEntry first with
  | error error =>
    rw [written] at ok
    cases ok
  | ok chunk =>
    rw [written] at ok
    cases more : rest.mapM writeEntry with
    | error error =>
      rw [more] at ok
      cases ok
    | ok others =>
      rw [more] at ok
      cases ok
      exact ⟨chunk, others, rfl, rfl, rfl⟩

/-- What is read is what was written when every entry is representable. -/
theorem parseFrom_chunks {entries : List TarEntryInput}
    {chunks : List (List UInt8)} (before : List UInt8)
    (nulFree : ∀ entry ∈ entries, '\x00' ∉ entry.path)
    (ok : entries.mapM writeEntry = .ok chunks) :
    (∃ rounds parsed,
      parseFrom (before ++ (chunks.flatten ++ List.replicate 1024 0)) rounds
        before.length = some parsed ∧ List.Forall₂ Restores entries parsed) ↔
      ∀ entry ∈ entries, Representable entry := by
  induction entries generalizing chunks before with
  | nil =>
    cases ok
    refine iff_of_true ⟨1, [], ?_, .nil⟩ (by simp)
    exact parseFrom_end before 0
  | cons entry entries induction =>
    rcases mapM_cons_ok ok with ⟨chunk, others, rfl, written, more⟩
    rw [List.forall_mem_cons] at nulFree ⊢
    rcases parseFrom_chunk before
      (others.flatten ++ List.replicate 1024 0) nulFree.1 written
      with ⟨first, next, round, restores, moves⟩
    have later := induction (before ++ chunk) nulFree.2 more
    rw [List.append_assoc] at later
    rw [List.flatten_cons, List.append_assoc]
    constructor
    · rintro ⟨rounds, parsed, read, agree⟩
      cases rounds with
      | zero => exact absurd read (by simp [parseFrom])
      | succ rounds =>
        rw [round] at read
        rcases Option.map_eq_some_iff.mp read with ⟨rest, readRest, rfl⟩
        rcases List.forall₂_cons.mp agree with ⟨agreeFirst, agreeRest⟩
        have fits := restores.mp agreeFirst
        rw [moves fits] at readRest
        exact ⟨fits, later.mp ⟨rounds, rest, readRest, agreeRest⟩⟩
    · rintro ⟨fits, fitRest⟩
      rcases later.mpr fitRest with ⟨rounds, rest, read, agree⟩
      refine ⟨rounds + 1, first :: rest, ?_,
        .cons (restores.mpr fits) agree⟩
      rw [round, moves fits, read]
      rfl

/-- Reading an archive gives the sorted entries back exactly when every
entry is representable. -/
theorem parseTarArchive_inverts_iff
    (localeCompare : List Char → List Char → Ordering)
    (entries : List TarEntryInput) (archive : List UInt8)
    (nulFree : ∀ entry ∈ entries, '\x00' ∉ entry.path)
    (accepted : createTarArchive localeCompare entries = .ok archive) :
    (∃ parsed, Parses archive parsed ∧
      List.Forall₂ Restores (sortEntries localeCompare entries) parsed) ↔
      ∀ entry ∈ entries, Representable entry := by
  have same : ∀ entry,
      entry ∈ sortEntries localeCompare entries ↔ entry ∈ entries :=
    fun entry => List.mem_mergeSort
  unfold createTarArchive at accepted
  cases chunked : (sortEntries localeCompare entries).mapM writeEntry with
  | error error =>
    rw [chunked] at accepted
    cases accepted
  | ok chunks =>
    rw [chunked] at accepted
    cases accepted
    have whole := parseFrom_chunks []
      (fun entry member => nulFree entry ((same entry).mp member)) chunked
    simp only [same] at whole
    rw [← whole]
    constructor
    · rintro ⟨parsed, ⟨rounds, read⟩, agree⟩
      exact ⟨rounds, parsed, read, agree⟩
    · rintro ⟨rounds, parsed, read, agree⟩
      exact ⟨parsed, ⟨rounds, read⟩, agree⟩

def smallFile (mode : Nat) : TarEntryInput :=
  { path := ['a'], mode, type := .file, content := some [0x68, 0x69]
    contentPath := none, target := none }

theorem mapM_singleton {chunk : List UInt8}
    (written : writeEntry entry = .ok chunk) :
    [entry].mapM writeEntry = .ok [chunk] := by
  rw [List.mapM_cons, written]
  rfl

theorem createTarArchive_smallFile (mode : Nat)
    (written : (writeEntry (smallFile mode)).toBool = true) :
    ∃ chunk, writeEntry (smallFile mode) = .ok chunk ∧
      createTarArchive compare [smallFile mode] =
        .ok (chunk ++ List.replicate 1024 0) := by
  cases shape : writeEntry (smallFile mode) with
  | error error =>
    rw [shape] at written
    cases written
  | ok chunk =>
    refine ⟨chunk, rfl, ?_⟩
    unfold createTarArchive sortEntries
    rw [List.mergeSort_singleton, mapM_singleton shape]
    show Except.ok ([chunk].flatten ++ _) = _
    rw [List.flatten_singleton]

/-- A regular file is accepted, and read back. -/
theorem parseTarArchive_inverts_smallFile :
    ∃ archive, createTarArchive compare [smallFile 0o644] = .ok archive ∧
      ∃ parsed, Parses archive parsed ∧
        List.Forall₂ Restores (sortEntries compare [smallFile 0o644])
          parsed := by
  rcases createTarArchive_smallFile 0o644 (by decide +kernel) with
    ⟨chunk, -, accepted⟩
  refine ⟨_, accepted, ?_⟩
  refine (parseTarArchive_inverts_iff compare [smallFile 0o644] _ ?_
    accepted).mpr ?_
  · decide
  · rw [List.forall_mem_singleton]
    refine ⟨?_, by decide, by decide, ?_, by decide, by decide⟩
    · rintro ⟨size, -⟩
      exact absurd size (by decide)
    · exact not_hasOpenNul (by decide)

/-- A file with mode zero is accepted, and read back with another mode. -/
theorem parseTarArchive_alters_mode_zero :
    ¬ ∀ (localeCompare : List Char → List Char → Ordering)
      (entries : List TarEntryInput) (archive : List UInt8),
      (∀ entry ∈ entries, '\x00' ∉ entry.path) →
      createTarArchive localeCompare entries = .ok archive →
      ∃ parsed, Parses archive parsed ∧
        List.Forall₂ Restores (sortEntries localeCompare entries) parsed := by
  intro inverts
  rcases createTarArchive_smallFile 0 (by decide +kernel) with
    ⟨chunk, written, accepted⟩
  have nulFree : ∀ entry ∈ [smallFile 0], '\x00' ∉ entry.path := by decide
  rcases inverts compare [smallFile 0] _ nulFree accepted with
    ⟨parsed, ⟨rounds, read⟩, agree⟩
  have whole := parseFrom_chunks [] nulFree
    (mapM_singleton written)
  unfold sortEntries at agree
  rw [List.mergeSort_singleton] at agree
  rw [List.flatten_singleton] at whole
  have fits := whole.mp ⟨rounds, parsed, read, agree⟩ (smallFile 0)
    List.mem_cons_self
  exact absurd fits.mode.1 (by decide)

end Rbo.Snapshot.Archive
