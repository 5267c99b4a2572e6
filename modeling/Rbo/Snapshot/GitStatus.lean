import Mathlib.Data.List.Forall2
import Rbo.Foundation.FileTree
import Rbo.Foundation.Utf8

/-!
# Reading the status of a working tree

`parsePorcelainV2` reads what `git status --porcelain=v2 -z` prints.  A record
of that format is a kind letter, fields without spaces, and a free path in the
last place; NUL ends a record, and a renamed entry has its old path behind one
more NUL.

The parser takes the last piece between spaces for the path of a changed
entry, and the second piece between tabs for the path of an unmerged one.
-/

namespace Rbo.Snapshot.GitStatus

open Rbo.Foundation

/-! ## The parser -/

/-- `GitStatusEntry['kind']`. -/
inductive EntryKind where
  | tracked
  | untracked
  | ignored
deriving DecidableEq

/-- `GitStatusEntry`. -/
structure GitStatusEntry where
  path : List Char
  origPath : Option (List Char)
  xy : List Char
  kind : EntryKind
  submodule : Option (List Char)
deriving DecidableEq

/-- The bytes up to the next NUL, and those after it; all of them when there
is none. -/
def cutAtNul (bytes : List UInt8) : List UInt8 × List UInt8 :=
  (bytes.takeWhile (· != 0), (bytes.dropWhile (· != 0)).drop 1)

/-- The entry of an untracked or an ignored path: `line.slice(2)`. -/
def otherEntry (xy : List Char) (kind : EntryKind) (line : List Char) :
    GitStatusEntry :=
  { path := line.drop 2, origPath := none, xy, kind, submodule := none }

/-- The entry of a changed path; an empty submodule field is left out. -/
def trackedEntry (line : List Char) (origPath : Option (List Char)) :
    GitStatusEntry :=
  let fields := line.splitOn ' '
  { path := fields.getLastD []
    origPath
    xy := fields[1]?.getD []
    kind := .tracked
    submodule := fields[2]?.filter (· != []) }

def unmergedEntry (line : List Char) : GitStatusEntry :=
  { path := (line.splitOn '\t')[1]?.getD []
    origPath := none
    xy := ['U', 'U']
    kind := .tracked
    submodule := none }

/-- The loop of `parsePorcelainV2`; a round takes at least one byte. -/
def parseRecords : Nat → List UInt8 → List GitStatusEntry
  | 0, _ => []
  | _ + 1, [] => []
  | fuel + 1, first :: bytes =>
    let line := Utf8.decode (cutAtNul (first :: bytes)).1
    let rest := (cutAtNul (first :: bytes)).2
    match line.head? with
    | some '?' =>
      otherEntry ['?', '?'] .untracked line :: parseRecords fuel rest
    | some '!' =>
      otherEntry ['!', '!'] .ignored line :: parseRecords fuel rest
    | some '1' => trackedEntry line none :: parseRecords fuel rest
    | some '2' =>
      trackedEntry line (some (Utf8.decode (cutAtNul rest).1)) ::
        parseRecords fuel (cutAtNul rest).2
    | some 'u' => unmergedEntry line :: parseRecords fuel rest
    -- An empty line, or a kind the parser does not know.
    | _ => parseRecords fuel rest

/-- `parsePorcelainV2`. -/
def parsePorcelainV2 (output : List UInt8) : List GitStatusEntry :=
  parseRecords output.length output

theorem length_cutAtNul (bytes : List UInt8) :
    (cutAtNul bytes).2.length ≤ bytes.length - 1 := by
  cases bytes with
  | nil => exact Nat.le_refl 0
  | cons first bytes =>
    unfold cutAtNul
    rw [List.length_drop]
    have shorter := (List.dropWhile_sublist
      (l := first :: bytes) (fun byte => byte != 0)).length_le
    omega

theorem parseRecords_eq {fuel other : Nat} (bytes : List UInt8)
    (enough : bytes.length ≤ fuel) (alsoEnough : bytes.length ≤ other) :
    parseRecords fuel bytes = parseRecords other bytes := by
  induction fuel generalizing other bytes with
  | zero =>
    have empty : bytes = [] := List.length_eq_zero_iff.mp (by omega)
    subst empty
    cases other <;> rfl
  | succ fuel induction =>
    cases bytes with
    | nil => cases other <;> rfl
    | cons first bytes =>
      cases other with
      | zero => exact absurd alsoEnough (by simp)
      | succ other =>
        have short := length_cutAtNul (first :: bytes)
        have shorter := length_cutAtNul (cutAtNul (first :: bytes)).2
        rw [List.length_cons] at enough alsoEnough short
        have same : parseRecords fuel (cutAtNul (first :: bytes)).2 =
            parseRecords other (cutAtNul (first :: bytes)).2 :=
          induction _ (by omega) (by omega)
        have sameAgain :
            parseRecords fuel
                (cutAtNul (cutAtNul (first :: bytes)).2).2 =
              parseRecords other
                (cutAtNul (cutAtNul (first :: bytes)).2).2 :=
          induction _ (by omega) (by omega)
        rw [parseRecords, parseRecords, same, sameAgain]

/-! ## The format -/

/-- A path as git keeps it: bytes without a NUL. -/
structure Path where
  bytes : List UInt8
  nulFree : 0 ∉ bytes

/-- What happened to a path on one side of the index. -/
inductive Change where
  | unmodified
  | modified
  | typeChanged
  | added
  | deleted
  | renamed
  | copied
  | unmerged
deriving DecidableEq

def Change.letter : Change → Char
  | .unmodified => '.'
  | .modified => 'M'
  | .typeChanged => 'T'
  | .added => 'A'
  | .deleted => 'D'
  | .renamed => 'R'
  | .copied => 'C'
  | .unmerged => 'U'

/-- A status code: the change in the index and the one in the working tree. -/
structure StatusCode where
  index : Change
  worktree : Change
deriving DecidableEq

/-- The `<XY>` field. -/
def StatusCode.text (code : StatusCode) : List Char :=
  [code.index.letter, code.worktree.letter]

/-- What is known of a path as a submodule. -/
inductive SubmoduleState where
  | notSubmodule
  | submodule (commitChanged modified untracked : Bool)

/-- The `<sub>` field. -/
def SubmoduleState.text : SubmoduleState → List Char
  | .notSubmodule => ['N', '.', '.', '.']
  | .submodule commitChanged modified untracked =>
    ['S', if commitChanged then 'C' else '.',
      if modified then 'M' else '.', if untracked then 'U' else '.']

/-- A field with a file mode: octal, at least six digits. -/
def modeText (mode : Nat) : List Char :=
  (Nat.toDigits 8 mode).leftpad 6 '0'

/-- A field with an object name: hexadecimal digits. -/
def nameText (name : List (Fin 16)) : List Char :=
  name.map fun digit : Fin 16 => Nat.digitChar digit.val

/-- A record of the status. -/
inductive StatusRecord where
  | ordinary (code : StatusCode) (submodule : SubmoduleState)
      (modes : Nat × Nat × Nat) (names : List (Fin 16) × List (Fin 16))
      (path : Path)
  | renamed (code : StatusCode) (submodule : SubmoduleState)
      (modes : Nat × Nat × Nat) (names : List (Fin 16) × List (Fin 16))
      (copied : Bool) (score : Nat) (path origPath : Path)
  | unmerged (code : StatusCode) (submodule : SubmoduleState)
      (modes : Nat × Nat × Nat × Nat)
      (names : List (Fin 16) × List (Fin 16) × List (Fin 16)) (path : Path)
  | untracked (path : Path)
  | ignored (path : Path)

namespace StatusRecord

/-- The letter a record starts with. -/
def letter : StatusRecord → Char
  | .ordinary .. => '1'
  | .renamed .. => '2'
  | .unmerged .. => 'u'
  | .untracked _ => '?'
  | .ignored _ => '!'

/-- The fields between the letter and the path. -/
def fields : StatusRecord → List (List Char)
  | .ordinary code submodule modes names _ =>
    [code.text, submodule.text, modeText modes.1, modeText modes.2.1,
      modeText modes.2.2, nameText names.1, nameText names.2]
  | .renamed code submodule modes names copied score _ _ =>
    [code.text, submodule.text, modeText modes.1, modeText modes.2.1,
      modeText modes.2.2, nameText names.1, nameText names.2,
      (if copied then 'C' else 'R') :: Nat.toDigits 10 score]
  | .unmerged code submodule modes names _ =>
    [code.text, submodule.text, modeText modes.1, modeText modes.2.1,
      modeText modes.2.2.1, modeText modes.2.2.2, nameText names.1,
      nameText names.2.1, nameText names.2.2]
  | .untracked _ => []
  | .ignored _ => []

def path : StatusRecord → Path
  | .ordinary _ _ _ _ path => path
  | .renamed _ _ _ _ _ _ path _ => path
  | .unmerged _ _ _ _ path => path
  | .untracked path => path
  | .ignored path => path

/-- The path a renamed or copied entry came from. -/
def origPath : StatusRecord → Option Path
  | .renamed _ _ _ _ _ _ _ origPath => some origPath
  | _ => none

/-- The status code of a changed entry. -/
def code : StatusRecord → Option StatusCode
  | .ordinary code .. => some code
  | .renamed code .. => some code
  | _ => none

/-- The submodule field of a record that has one. -/
def submodule : StatusRecord → Option (List Char)
  | .ordinary _ submodule .. => some submodule.text
  | .renamed _ submodule .. => some submodule.text
  | .unmerged _ submodule .. => some submodule.text
  | _ => none

def kind : StatusRecord → EntryKind
  | .untracked _ => .untracked
  | .ignored _ => .ignored
  | _ => .tracked

/-- The text in front of the path: every field with the space behind it. -/
def header (record : StatusRecord) : List Char :=
  (([record.letter] :: record.fields).map fun field => field ++ [' ']).flatten

/-- A record as git prints it. -/
def print (record : StatusRecord) : List UInt8 :=
  Utf8.encode record.header ++ record.path.bytes ++ 0 ::
    (record.origPath.elim [] fun origPath => origPath.bytes ++ [0])

end StatusRecord

/-- The output of `git status --porcelain=v2 -z`. -/
def print (records : List StatusRecord) : List UInt8 :=
  records.flatMap StatusRecord.print

/-! ## What a field may hold -/

/-- A character that ends no field and no record. -/
def IsPlain (char : Char) : Prop :=
  char ≠ ' ' ∧ char ≠ '\t' ∧ char ≠ '\x00'

instance (char : Char) : Decidable (IsPlain char) := by
  unfold IsPlain
  infer_instance

variable {char : Char}

theorem plain_of_isDigit (digit : char.isDigit = true) : IsPlain char := by
  refine ⟨?_, ?_, ?_⟩ <;>
  · rintro rfl
    exact absurd digit (by decide)

theorem plain_of_mem_toDigits {base value : Nat} (several : 0 < base)
    (few : base ≤ 10) (inside : char ∈ Nat.toDigits base value) :
    IsPlain char :=
  plain_of_isDigit (Nat.isDigit_of_mem_toDigits several few inside)

theorem plain_of_mem_modeText {mode : Nat} (inside : char ∈ modeText mode) :
    IsPlain char := by
  rcases List.mem_append.mp inside with padding | digit
  · rw [List.eq_of_mem_replicate padding]
    decide
  · exact plain_of_mem_toDigits (by decide) (by decide) digit

theorem plain_of_mem_nameText {name : List (Fin 16)}
    (inside : char ∈ nameText name) : IsPlain char := by
  have letter : ∀ digit : Fin 16, IsPlain (Nat.digitChar digit) := by
    decide
  rcases List.mem_map.mp inside with ⟨digit, -, rfl⟩
  exact letter digit

theorem plain_of_mem_codeText {code : StatusCode} (inside : char ∈ code.text) :
    IsPlain char := by
  have letter : ∀ change : Change, IsPlain change.letter := by
    intro change
    cases change <;> decide
  rcases List.mem_pair.mp inside with rfl | rfl
  · exact letter _
  · exact letter _

theorem plain_of_mem_submoduleText {submodule : SubmoduleState}
    (inside : char ∈ submodule.text) : IsPlain char := by
  have plainDot : IsPlain '.' := by decide
  cases submodule with
  | notSubmodule =>
    have letter : char = 'N' ∨ char = '.' := by
      simpa [SubmoduleState.text] using inside
    rcases letter with rfl | rfl
    · decide
    · exact plainDot
  | submodule commitChanged modified untracked =>
    have flag : ∀ (set : Bool) (letter : Char), IsPlain letter →
        IsPlain (if set then letter else '.') := by
      intro set letter plain
      cases set
      · exact plainDot
      · exact plain
    simp only [SubmoduleState.text, List.mem_cons, List.not_mem_nil,
      or_false] at inside
    rcases inside with rfl | rfl | rfl | rfl
    · decide
    · exact flag _ _ (by decide)
    · exact flag _ _ (by decide)
    · exact flag _ _ (by decide)

theorem plain_of_mem_scoreText {copied : Bool} {score : Nat}
    (inside : char ∈ (if copied then 'C' else 'R') :: Nat.toDigits 10 score) :
    IsPlain char := by
  rcases List.mem_cons.mp inside with rfl | digit
  · cases copied <;> decide
  · exact plain_of_mem_toDigits (by decide) (by decide) digit

variable {record : StatusRecord}

/-- No field of a record holds a space, a tab or a NUL. -/
theorem plain_of_mem_fields {field : List Char}
    (member : field ∈ [record.letter] :: record.fields) :
    ∀ char ∈ field, IsPlain char := by
  rcases List.mem_cons.mp member with rfl | member
  · rw [List.forall_mem_singleton]
    cases record <;>
    · simp only [StatusRecord.letter]
      decide
  · cases record with
    | ordinary code submodule modes names path =>
      simp only [StatusRecord.fields, List.mem_cons, List.not_mem_nil,
        or_false] at member
      rcases member with rfl | rfl | rfl | rfl | rfl | rfl | rfl
      · exact fun _ => plain_of_mem_codeText
      · exact fun _ => plain_of_mem_submoduleText
      all_goals
        first
        | exact fun _ => plain_of_mem_modeText
        | exact fun _ => plain_of_mem_nameText
    | renamed code submodule modes names copied score path origPath =>
      simp only [StatusRecord.fields, List.mem_cons, List.not_mem_nil,
        or_false] at member
      rcases member with rfl | rfl | rfl | rfl | rfl | rfl | rfl | rfl
      · exact fun _ => plain_of_mem_codeText
      · exact fun _ => plain_of_mem_submoduleText
      all_goals
        first
        | exact fun _ => plain_of_mem_modeText
        | exact fun _ => plain_of_mem_nameText
        | exact fun _ => plain_of_mem_scoreText
    | unmerged code submodule modes names path =>
      simp only [StatusRecord.fields, List.mem_cons, List.not_mem_nil,
        or_false] at member
      rcases member with
        rfl | rfl | rfl | rfl | rfl | rfl | rfl | rfl | rfl
      · exact fun _ => plain_of_mem_codeText
      · exact fun _ => plain_of_mem_submoduleText
      all_goals
        first
        | exact fun _ => plain_of_mem_modeText
        | exact fun _ => plain_of_mem_nameText
    | untracked path => exact absurd member List.not_mem_nil
    | ignored path => exact absurd member List.not_mem_nil

theorem mem_header (inside : char ∈ record.header) :
    char = ' ' ∨ IsPlain char := by
  rcases List.mem_flatten.mp inside with ⟨part, member, inside⟩
  rcases List.mem_map.mp member with ⟨field, isField, rfl⟩
  rcases List.mem_append.mp inside with inside | space
  · exact Or.inr (plain_of_mem_fields isField char inside)
  · exact Or.inl (List.mem_singleton.mp space)

theorem nulFree_header (record : StatusRecord) :
    0 ∉ Utf8.encode record.header := by
  intro member
  rw [Utf8.ascii_mem_encode (by decide)] at member
  rcases mem_header member with space | plain
  · exact absurd space (by decide)
  · exact plain.2.2 rfl

theorem splitOn_fields (fields : List (List Char)) (text : List Char)
    (plain : ∀ field ∈ fields, ∀ char ∈ field, IsPlain char) :
    ((fields.map fun field => field ++ [' ']).flatten ++ text).splitOn ' ' =
      fields ++ text.splitOn ' ' := by
  induction fields with
  | nil => rfl
  | cons field fields induction =>
    rw [List.forall_mem_cons] at plain
    rw [List.map_cons, List.flatten_cons, List.append_assoc,
      List.append_assoc, List.singleton_append,
      List.splitOn_append_cons_self_of_not_mem, induction plain.2,
      List.cons_append]
    intro space
    exact (plain.1 ' ' space).1 rfl

theorem splitOn_header (record : StatusRecord) (text : List Char) :
    (record.header ++ text).splitOn ' ' =
      [record.letter] :: record.fields ++ text.splitOn ' ' :=
  splitOn_fields _ text fun _ member => plain_of_mem_fields member

/-! ## What the parser makes of a record -/

/-- The line of a record, as the parser reads it. -/
def lineText (record : StatusRecord) : List Char :=
  record.header ++ Utf8.decode record.path.bytes

/-- The entry the parser makes of a record. -/
def readBack (record : StatusRecord) : GitStatusEntry :=
  match record with
  | .ordinary .. => trackedEntry (lineText record) none
  | .renamed _ _ _ _ _ _ _ origPath =>
    trackedEntry (lineText record) (some (Utf8.decode origPath.bytes))
  | .unmerged .. => unmergedEntry (lineText record)
  | .untracked _ => otherEntry ['?', '?'] .untracked (lineText record)
  | .ignored _ => otherEntry ['!', '!'] .ignored (lineText record)

theorem cutAtNul_append {line rest : List UInt8} (nulFree : 0 ∉ line) :
    cutAtNul (line ++ 0 :: rest) = (line, rest) := by
  have whole : ∀ byte ∈ line, (byte != 0) = true := by
    intro byte member
    rw [bne_iff_ne]
    rintro rfl
    exact nulFree member
  unfold cutAtNul
  rw [List.takeWhile_append_of_pos whole, List.dropWhile_append_of_pos whole,
    List.takeWhile_cons_of_neg (by decide),
    List.dropWhile_cons_of_neg (by decide), List.append_nil]
  rfl

theorem header_eq_cons (record : StatusRecord) :
    record.header = record.letter :: ' ' ::
      (record.fields.map fun field => field ++ [' ']).flatten :=
  rfl

/-- One round of the parser. -/
theorem parsePorcelainV2_round {bytes : List UInt8} (some : bytes ≠ []) :
    parsePorcelainV2 bytes =
      let line := Utf8.decode (cutAtNul bytes).1
      let rest := (cutAtNul bytes).2
      match line.head? with
      | .some '?' =>
        otherEntry ['?', '?'] .untracked line :: parsePorcelainV2 rest
      | .some '!' =>
        otherEntry ['!', '!'] .ignored line :: parsePorcelainV2 rest
      | .some '1' => trackedEntry line none :: parsePorcelainV2 rest
      | .some '2' =>
        trackedEntry line (Option.some (Utf8.decode (cutAtNul rest).1)) ::
          parsePorcelainV2 (cutAtNul rest).2
      | .some 'u' => unmergedEntry line :: parsePorcelainV2 rest
      | _ => parsePorcelainV2 rest := by
  cases bytes with
  | nil => exact absurd rfl some
  | cons first bytes =>
    have short := length_cutAtNul (first :: bytes)
    have shorter := length_cutAtNul (cutAtNul (first :: bytes)).2
    rw [List.length_cons, Nat.add_sub_cancel] at short
    have same := parseRecords_eq (cutAtNul (first :: bytes)).2 short
      (Nat.le_refl _)
    have sameAgain :
        parseRecords bytes.length
            (cutAtNul (cutAtNul (first :: bytes)).2).2 =
          parseRecords (cutAtNul (cutAtNul (first :: bytes)).2).2.length
            (cutAtNul (cutAtNul (first :: bytes)).2).2 :=
      parseRecords_eq _ (by omega) (Nat.le_refl _)
    unfold parsePorcelainV2
    rw [List.length_cons, parseRecords, same, sameAgain]

theorem parsePorcelainV2_print_append (record : StatusRecord)
    (rest : List UInt8) :
    parsePorcelainV2 (record.print ++ rest) =
      readBack record :: parsePorcelainV2 rest := by
  have nulFree : 0 ∉ Utf8.encode record.header ++ record.path.bytes := by
    rw [List.mem_append, not_or]
    exact ⟨nulFree_header record, record.path.nulFree⟩
  have read : Utf8.decode (Utf8.encode record.header ++ record.path.bytes) =
      lineText record :=
    Utf8.decode_encode_append _ _
  have head : (lineText record).head? = some record.letter := rfl
  unfold StatusRecord.print
  rw [List.append_assoc _ (0 :: _) rest, List.cons_append,
    parsePorcelainV2_round (by simp)]
  simp only [cutAtNul_append nulFree, read, head]
  cases record with
  | renamed code submodule modes names copied score path origPath =>
    simp only [StatusRecord.letter, StatusRecord.origPath,
      Option.elim_some, List.append_assoc, List.singleton_append,
      cutAtNul_append origPath.nulFree]
    rfl
  | ordinary code submodule modes names path => rfl
  | unmerged code submodule modes names path => rfl
  | untracked path => rfl
  | ignored path => rfl

/-- The parser reads one entry from each record. -/
theorem parsePorcelainV2_print (records : List StatusRecord) :
    parsePorcelainV2 (print records) = records.map readBack := by
  induction records with
  | nil => rfl
  | cons record records induction =>
    rw [print, List.flatMap_cons, parsePorcelainV2_print_append,
      List.map_cons]
    exact congrArg _ induction

/-! ## When a record is read back -/

/-- The entry says what the record says. -/
structure Describes (record : StatusRecord) (entry : GitStatusEntry) :
    Prop where
  path : Utf8.encode entry.path = record.path.bytes
  origPath : entry.origPath.map Utf8.encode = record.origPath.map Path.bytes
  kind : entry.kind = record.kind
  submodule : entry.submodule = record.submodule
  xy : ∀ code ∈ record.code, entry.xy = code.text

/-- The records the parser can read: nothing unmerged, every path a text, and
no space in the path of a changed entry. -/
structure Readable (record : StatusRecord) : Prop where
  merged : record.letter ≠ 'u'
  whole : Utf8.Whole record.path.bytes
  origWhole : ∀ origPath ∈ record.origPath, Utf8.Whole origPath.bytes
  spaceFree : record.code ≠ none → 0x20 ∉ record.path.bytes

theorem trackedEntry_lineText {code : StatusCode} {submodule : SubmoduleState}
    {more : List (List Char)}
    (fields : record.fields = code.text :: submodule.text :: more)
    (origPath : Option (List Char)) :
    trackedEntry (lineText record) origPath =
      { path := ((Utf8.decode record.path.bytes).splitOn ' ').getLastD []
        origPath
        xy := code.text
        kind := .tracked
        submodule := some submodule.text } := by
  have some : ∃ first rest,
      (Utf8.decode record.path.bytes).splitOn ' ' = first :: rest :=
    List.exists_cons_of_ne_nil (List.splitOn_ne_nil _ _)
  rcases some with ⟨first, rest, pieces⟩
  have present : (submodule.text != []) = true := by
    cases submodule <;> rfl
  unfold trackedEntry lineText
  rw [splitOn_header, fields, pieces]
  have last : ([record.letter] ::
      (code.text :: submodule.text :: more) ++ first :: rest).getLastD [] =
        (first :: rest).getLastD [] := by
    rw [List.getLastD_eq_getLast?, List.getLast?_append_cons,
      List.getLastD_eq_getLast?]
  dsimp only
  rw [last]
  simp [present]

/-- The last piece of a text is the whole text when there is no separator. -/
theorem getLastD_splitOn_eq_iff {separator : Char} {text : List Char} :
    (text.splitOn separator).getLastD [] = text ↔ separator ∉ text := by
  constructor
  · intro same
    rw [← same, List.getLastD_eq_getLast?,
      List.getLast?_eq_some_getLast (List.splitOn_ne_nil _ _),
      Option.getD_some]
    exact FileTree.notMem_of_mem_splitOn (List.getLast_mem _)
  · intro free
    rw [List.splitOn_eq_singleton free]
    rfl

/-- The path of a changed entry is read back when it is a text without a
space. -/
theorem lastPiece_eq_iff {path : List UInt8} :
    Utf8.encode (((Utf8.decode path).splitOn ' ').getLastD []) = path ↔
      Utf8.Whole path ∧ 0x20 ∉ path := by
  constructor
  · intro same
    have whole : Utf8.Whole path := ⟨_, same.symm⟩
    refine ⟨whole, ?_⟩
    rcases whole with ⟨text, rfl⟩
    rw [Utf8.decode_encode] at same
    have last := congrArg Utf8.decode same
    rw [Utf8.decode_encode, Utf8.decode_encode,
      getLastD_splitOn_eq_iff] at last
    rw [Utf8.ascii_mem_encode (by decide)]
    exact last
  · rintro ⟨⟨text, rfl⟩, free⟩
    rw [Utf8.ascii_mem_encode (by decide)] at free
    have last : (text.splitOn ' ').getLastD [] = text :=
      getLastD_splitOn_eq_iff.mpr free
    rw [Utf8.decode_encode, last]

theorem whole_iff_map {origPath : Path} :
    (some (Utf8.decode origPath.bytes)).map Utf8.encode =
        (some origPath).map Path.bytes ↔
      Utf8.Whole origPath.bytes := by
  rw [Option.map_some, Option.map_some, Option.some_inj, Utf8.whole_iff]

/-- An entry of a path behind a letter and a space. -/
theorem otherEntry_lineText (fields : record.fields = []) (xy : List Char)
    (kind : EntryKind) :
    otherEntry xy kind (lineText record) =
      { path := Utf8.decode record.path.bytes
        origPath := none, xy, kind, submodule := none } := by
  unfold otherEntry lineText
  rw [header_eq_cons, fields]
  rfl

/-- The parser reads a record back exactly when the record is readable. -/
theorem describes_readBack_iff (record : StatusRecord) :
    Describes record (readBack record) ↔ Readable record := by
  cases record with
  | ordinary code submodule modes names path =>
    have entry : readBack (.ordinary code submodule modes names path) = _ :=
      trackedEntry_lineText (by rfl) none
    rw [entry]
    constructor
    · intro describes
      have read := lastPiece_eq_iff.mp describes.path
      exact ⟨by simp [StatusRecord.letter], read.1,
        (fun _ member => nomatch member), fun _ => read.2⟩
    · intro readable
      refine ⟨lastPiece_eq_iff.mpr ⟨readable.whole, ?_⟩, rfl, rfl, rfl, ?_⟩
      · exact readable.spaceFree (Option.some_ne_none code)
      · rintro other ⟨⟩
        rfl
  | renamed code submodule modes names copied score path origPath =>
    have entry : readBack
        (.renamed code submodule modes names copied score path origPath) =
          _ :=
      trackedEntry_lineText (by rfl) (some (Utf8.decode origPath.bytes))
    rw [entry]
    constructor
    · intro describes
      have read := lastPiece_eq_iff.mp describes.path
      refine ⟨by simp [StatusRecord.letter], read.1, ?_, fun _ => read.2⟩
      rintro other ⟨⟩
      exact whole_iff_map.mp describes.origPath
    · intro readable
      refine ⟨lastPiece_eq_iff.mpr ⟨readable.whole, ?_⟩,
        whole_iff_map.mpr (readable.origWhole _ rfl), rfl, rfl, ?_⟩
      · exact readable.spaceFree (Option.some_ne_none code)
      · rintro other ⟨⟩
        rfl
  | unmerged code submodule modes names path =>
    constructor
    · intro describes
      exact absurd describes.submodule (Option.some_ne_none _).symm
    · intro readable
      exact absurd rfl readable.merged
  | untracked path =>
    have entry : readBack (.untracked path) = _ :=
      otherEntry_lineText (by rfl) ['?', '?'] .untracked
    rw [entry]
    constructor
    · intro describes
      exact ⟨by simp [StatusRecord.letter],
        Utf8.whole_iff.mpr describes.path, (fun _ member => nomatch member),
        fun some => absurd rfl some⟩
    · intro readable
      exact ⟨Utf8.whole_iff.mp readable.whole, rfl, rfl, rfl,
        fun _ member => nomatch member⟩
  | ignored path =>
    have entry : readBack (.ignored path) = _ :=
      otherEntry_lineText (by rfl) ['!', '!'] .ignored
    rw [entry]
    constructor
    · intro describes
      exact ⟨by simp [StatusRecord.letter],
        Utf8.whole_iff.mpr describes.path, (fun _ member => nomatch member),
        fun some => absurd rfl some⟩
    · intro readable
      exact ⟨Utf8.whole_iff.mp readable.whole, rfl, rfl, rfl,
        fun _ member => nomatch member⟩

/-- The parser inverts the format on a list of records exactly when every
record of it is readable. -/
theorem parsePorcelainV2_inverts_iff (records : List StatusRecord) :
    List.Forall₂ Describes records (parsePorcelainV2 (print records)) ↔
      ∀ record ∈ records, Readable record := by
  rw [parsePorcelainV2_print, List.forall₂_map_right_iff,
    List.forall₂_same]
  exact forall₂_congr fun record _ => describes_readBack_iff record

/-- A modified file with a space in its name. -/
def spacedRecord : StatusRecord :=
  .ordinary ⟨.unmodified, .modified⟩ .notSubmodule (0o100644, 0o100644, 0o100644)
    ([1, 2], [1, 2]) ⟨Utf8.encode "a b".toList, by decide⟩

/-- The path of a modified file `a b` is read as `b`. -/
theorem parsePorcelainV2_cuts_space :
    ¬ ∀ records : List StatusRecord,
      List.Forall₂ Describes records (parsePorcelainV2 (print records)) := by
  intro inverts
  have described := inverts [spacedRecord]
  have read : parsePorcelainV2 (print [spacedRecord]) =
      [{ path := ['b'], origPath := none, xy := ['.', 'M'], kind := .tracked,
         submodule := some ['N', '.', '.', '.'] }] := by
    decide +kernel
  rw [read, List.forall₂_cons] at described
  exact absurd described.1.path (by decide)

end Rbo.Snapshot.GitStatus
