import Mathlib.Data.List.Nodup
import Rbo.Snapshot.Archive
import Rbo.Snapshot.GitStatus

/-!
# The modes of the index

`gitLsFilesStageModes` reads what `git ls-files -s -z` prints: the mode, the
object name, the stage and the path of each entry, with a space, a space, a tab
and a NUL behind them.

The parser splits a line at its white space and joins what follows the third
piece with single spaces.  A path is read as it was printed when the only white
space in it are single spaces, none of them in front.
-/

namespace Rbo.Snapshot.StageModes

open Rbo.Foundation
open Rbo.Snapshot.Archive (isWhitespace)
open Rbo.Snapshot.GitStatus

/-! ## The parser -/

/-- One more character at the front of the first piece. -/
def extend (char : Char) (pieces : List (List Char)) : List (List Char) :=
  (char :: pieces.headD []) :: pieces.tail

/-- `text.split(/\s+/)`, inside or outside a run of white space. -/
def splitFrom : Bool → List Char → List (List Char)
  | _, [] => [[]]
  | inRun, char :: rest =>
    if isWhitespace char then
      if inRun then splitFrom true rest else [] :: splitFrom true rest
    else
      extend char (splitFrom false rest)

/-- The map of the modes by path. -/
abbrev Modes := List Char → Option (List Char)

/-- What the parser does with one line. -/
def addLine (modes : Modes) (line : List Char) : Modes :=
  let parts := splitFrom false line
  let mode := parts.headD []
  let path := [' '].intercalate (parts.drop 3)
  if mode ≠ [] ∧ path ≠ [] then Function.update modes path (some mode)
  else modes

/-- The loop of `gitLsFilesStageModes`; a round takes at least one byte, and
passes over an empty line. -/
def readModes : Nat → List UInt8 → Modes → Modes
  | 0, _, modes => modes
  | _ + 1, [], modes => modes
  | fuel + 1, first :: bytes, modes =>
    let line := Utf8.decode (cutAtNul (first :: bytes)).1
    let rest := (cutAtNul (first :: bytes)).2
    if line = [] then readModes fuel rest modes
    else readModes fuel rest (addLine modes line)

/-- `gitLsFilesStageModes`, on what git prints. -/
def gitLsFilesStageModes (output : List UInt8) : Modes :=
  readModes output.length output fun _ => none

/-! ## The format -/

/-- An entry of the index. -/
structure IndexEntry where
  mode : Nat
  name : List (Fin 16)
  stage : Fin 4
  path : Path
  named : name ≠ []

namespace IndexEntry

/-- The text in front of the path. -/
def header (entry : IndexEntry) : List Char :=
  modeText entry.mode ++ ' ' :: nameText entry.name ++
    [' ', Nat.digitChar entry.stage, '\t']

/-- An entry as git prints it. -/
def print (entry : IndexEntry) : List UInt8 :=
  Utf8.encode entry.header ++ entry.path.bytes ++ [0]

end IndexEntry

/-- The output of `git ls-files -s -z`. -/
def print (entries : List IndexEntry) : List UInt8 :=
  entries.flatMap IndexEntry.print

/-- The map sends every path to its mode and has no other keys. -/
structure Inverts (entries : List IndexEntry) (modes : Modes) : Prop where
  sends : ∀ entry ∈ entries, ∃ key,
    Utf8.encode key = entry.path.bytes ∧
      modes key = some (modeText entry.mode)
  only : ∀ key, modes key ≠ none →
    ∃ entry ∈ entries, Utf8.encode key = entry.path.bytes

/-- Every white space is a single space behind another character. -/
def singleSpaced : Bool → List Char → Bool
  | _, [] => true
  | inRun, char :: rest =>
    if isWhitespace char then
      !inRun && char == ' ' && singleSpaced true rest
    else
      singleSpaced false rest

/-- A path that is a text, not empty, and without white space but single
spaces, none of them in front. -/
structure Plain (path : Path) : Prop where
  whole : Utf8.Whole path.bytes
  nonempty : path.bytes ≠ []
  spaced : singleSpaced true (Utf8.decode path.bytes) = true

/-! ## Splitting and joining -/

/-- The text with every run of white space as one space, inside or outside a
run. -/
def squeeze : Bool → List Char → List Char
  | _, [] => []
  | inRun, char :: rest =>
    if isWhitespace char then
      if inRun then squeeze true rest else ' ' :: squeeze true rest
    else
      char :: squeeze false rest

theorem splitFrom_ne_nil (inRun : Bool) (text : List Char) :
    splitFrom inRun text ≠ [] := by
  induction text generalizing inRun with
  | nil => exact List.cons_ne_nil _ _
  | cons char rest inductionHypothesis =>
    rw [splitFrom]
    split
    · split
      · exact inductionHypothesis true
      · exact List.cons_ne_nil _ _
    · exact List.cons_ne_nil _ _

theorem intercalate_extend (char : Char) {pieces : List (List Char)}
    (some : pieces ≠ []) :
    [' '].intercalate (extend char pieces) =
      char :: [' '].intercalate pieces := by
  cases pieces with
  | nil => exact absurd rfl some
  | cons first others =>
    cases others with
    | nil => simp [extend]
    | cons second others =>
      change [' '].intercalate ((char :: first) :: second :: others) = _
      rw [List.intercalate_cons_of_ne_nil (List.cons_ne_nil _ _),
        List.intercalate_cons_of_ne_nil (List.cons_ne_nil _ _)]
      rfl

theorem intercalate_splitFrom (inRun : Bool) (text : List Char) :
    [' '].intercalate (splitFrom inRun text) = squeeze inRun text := by
  induction text generalizing inRun with
  | nil => rfl
  | cons char rest inductionHypothesis =>
    rw [splitFrom, squeeze]
    split
    · split
      · exact inductionHypothesis true
      · rw [List.intercalate_cons_of_ne_nil (splitFrom_ne_nil _ _),
          inductionHypothesis]
        rfl
    · rw [intercalate_extend _ (splitFrom_ne_nil _ _), inductionHypothesis]

theorem singleSpaced_squeeze (inRun : Bool) (text : List Char) :
    singleSpaced inRun (squeeze inRun text) = true := by
  induction text generalizing inRun with
  | nil => rfl
  | cons char rest inductionHypothesis =>
    rw [squeeze]
    by_cases white : isWhitespace char = true
    · rw [if_pos white]
      cases inRun with
      | true => exact inductionHypothesis true
      | false => exact inductionHypothesis true
    · rw [if_neg white, singleSpaced, if_neg white]
      exact inductionHypothesis false

theorem squeeze_eq_self {inRun : Bool} {text : List Char}
    (spaced : singleSpaced inRun text = true) : squeeze inRun text = text := by
  induction text generalizing inRun with
  | nil => rfl
  | cons char rest inductionHypothesis =>
    rw [singleSpaced] at spaced
    rw [squeeze]
    by_cases white : isWhitespace char = true
    · rw [if_pos white, Bool.and_eq_true, Bool.and_eq_true, beq_iff_eq,
        Bool.not_eq_true'] at spaced
      obtain ⟨⟨outside, rfl⟩, spaced⟩ := spaced
      rw [if_pos white, outside, if_neg Bool.false_ne_true,
        inductionHypothesis spaced]
    · rw [if_neg white] at spaced
      rw [if_neg white, inductionHypothesis spaced]

/-! ## One line -/

theorem splitFrom_word {word : List Char} {white : Char} {rest : List Char}
    (isWhite : isWhitespace white = true)
    (plain : ∀ char ∈ word, isWhitespace char = false) :
    splitFrom false (word ++ white :: rest) = word :: splitFrom true rest := by
  induction word with
  | nil =>
    rw [List.nil_append, splitFrom, if_pos isWhite,
      if_neg Bool.false_ne_true]
  | cons char word inductionHypothesis =>
    rw [List.forall_mem_cons] at plain
    rw [List.cons_append, splitFrom, if_neg (by rw [plain.1]; decide),
      inductionHypothesis plain.2]
    rfl

/-- Behind a run of white space a word begins as anywhere else. -/
theorem splitFrom_true_word {word : List Char} {white : Char}
    {rest : List Char} (some : word ≠ [])
    (isWhite : isWhitespace white = true)
    (plain : ∀ char ∈ word, isWhitespace char = false) :
    splitFrom true (word ++ white :: rest) = word :: splitFrom true rest := by
  rw [← splitFrom_word isWhite plain]
  cases word with
  | nil => exact absurd rfl some
  | cons char word =>
    have first := plain char List.mem_cons_self
    rw [List.cons_append, splitFrom, splitFrom,
      if_neg (by rw [first]; decide), if_neg (by rw [first]; decide)]

theorem notWhite_modeText {mode : Nat} {char : Char}
    (inside : char ∈ modeText mode) : isWhitespace char = false := by
  rcases List.mem_append.mp inside with padding | digit
  · rw [List.eq_of_mem_replicate padding]
    decide
  · exact (Archive.octalDigit_first
      (Archive.isOctalDigit_of_mem_toDigits digit)).1

theorem notWhite_nameText {name : List (Fin 16)} {char : Char}
    (inside : char ∈ nameText name) : isWhitespace char = false := by
  have letter : ∀ digit : Fin 16,
      isWhitespace (Nat.digitChar digit) = false := by
    decide
  rcases List.mem_map.mp inside with ⟨digit, -, rfl⟩
  exact letter digit

theorem modeText_ne_nil (mode : Nat) : modeText mode ≠ [] := by
  unfold modeText List.leftpad
  exact List.append_ne_nil_of_right_ne_nil _ Nat.toDigits_ne_nil

namespace IndexEntry

/-- The line of an entry, as the parser reads it. -/
def lineText (entry : IndexEntry) : List Char :=
  entry.header ++ Utf8.decode entry.path.bytes

/-- The key under which the parser files an entry. -/
def key (entry : IndexEntry) : List Char :=
  squeeze true (Utf8.decode entry.path.bytes)

theorem splitFrom_lineText (entry : IndexEntry) :
    splitFrom false entry.lineText =
      [modeText entry.mode, nameText entry.name,
        [Nat.digitChar entry.stage]] ++
        splitFrom true (Utf8.decode entry.path.bytes) := by
  have stage : ∀ stage : Fin 4,
      isWhitespace (Nat.digitChar stage) = false := by
    decide
  have line : entry.lineText =
      modeText entry.mode ++ ' ' :: (nameText entry.name ++ ' ' ::
        ([Nat.digitChar entry.stage] ++ '\t' ::
          Utf8.decode entry.path.bytes)) := by
    unfold lineText header
    simp
  have named : nameText entry.name ≠ [] := by
    unfold nameText
    rw [Ne, List.map_eq_nil_iff]
    exact entry.named
  rw [line, splitFrom_word (by decide) fun _ => notWhite_modeText,
    splitFrom_true_word named (by decide) fun _ => notWhite_nameText,
    splitFrom_true_word (List.cons_ne_nil _ _) (by decide)
      (List.forall_mem_singleton.mpr (stage entry.stage))]
  rfl

/-- The parser files the mode of an entry under its key, unless that is
empty. -/
theorem addLine_lineText (modes : Modes) (entry : IndexEntry) :
    addLine modes entry.lineText =
      if entry.key ≠ [] then
        Function.update modes entry.key (some (modeText entry.mode))
      else modes := by
  have path : [' '].intercalate
      (splitFrom true (Utf8.decode entry.path.bytes)) = entry.key :=
    intercalate_splitFrom _ _
  unfold addLine
  rw [splitFrom_lineText]
  change (if modeText entry.mode ≠ [] ∧
      [' '].intercalate (splitFrom true _) ≠ [] then
    Function.update modes ([' '].intercalate (splitFrom true _))
      (some (modeText entry.mode))
    else modes) = _
  rw [path]
  simp only [ne_eq, modeText_ne_nil, not_false_eq_true, true_and]

theorem print_ne_nil (entry : IndexEntry) : entry.print ≠ [] :=
  List.append_ne_nil_of_right_ne_nil _ (List.cons_ne_nil _ _)

theorem lineText_ne_nil (entry : IndexEntry) : entry.lineText ≠ [] := by
  intro empty
  have pieces := splitFrom_lineText entry
  rw [empty] at pieces
  exact absurd (congrArg List.length pieces) (by simp [splitFrom])

theorem nulFree_header (entry : IndexEntry) :
    0 ∉ Utf8.encode entry.header := by
  intro member
  rw [Utf8.ascii_mem_encode (by decide)] at member
  have stage : ∀ stage : Fin 4, Char.ofNat 0 ≠ Nat.digitChar stage := by
    decide
  unfold header at member
  simp only [List.mem_append, List.mem_cons, List.not_mem_nil, or_false]
    at member
  rcases member with (mode | space | name) | space | digit | tab
  · exact (plain_of_mem_modeText mode).2.2 rfl
  · exact absurd space (by decide)
  · exact (plain_of_mem_nameText name).2.2 rfl
  · exact absurd space (by decide)
  · exact stage entry.stage digit
  · exact absurd tab (by decide)

theorem cutAtNul_print (entry : IndexEntry) (rest : List UInt8) :
    cutAtNul (entry.print ++ rest) =
      (Utf8.encode entry.header ++ entry.path.bytes, rest) := by
  have nulFree : 0 ∉ Utf8.encode entry.header ++ entry.path.bytes := by
    rw [List.mem_append, not_or]
    exact ⟨entry.nulFree_header, entry.path.nulFree⟩
  unfold print
  rw [List.append_assoc _ [0] rest, List.singleton_append,
    cutAtNul_append nulFree]

end IndexEntry

/-! ## The whole output -/

/-- The map after some more entries. -/
def filed (modes : Modes) (entries : List IndexEntry) : Modes :=
  entries.foldl (fun modes entry => addLine modes entry.lineText) modes

variable {entries : List IndexEntry}

theorem readModes_print {fuel : Nat} (enough : (print entries).length ≤ fuel)
    (modes : Modes) :
    readModes fuel (print entries) modes = filed modes entries := by
  induction entries generalizing fuel modes with
  | nil => cases fuel <;> rfl
  | cons entry entries inductionHypothesis =>
    have text : print (entry :: entries) = entry.print ++ print entries :=
      List.flatMap_cons
    have cut := entry.cutAtNul_print (print entries)
    have read : Utf8.decode
        (Utf8.encode entry.header ++ entry.path.bytes) = entry.lineText :=
      Utf8.decode_encode_append _ _
    rw [text] at enough ⊢
    cases printed : entry.print with
    | nil => exact absurd printed entry.print_ne_nil
    | cons first bytes =>
      rw [printed, List.cons_append] at cut
      rw [printed, List.cons_append, List.length_cons] at enough
      cases fuel with
      | zero => omega
      | succ fuel =>
        rw [List.cons_append, readModes, cut, read,
          if_neg entry.lineText_ne_nil]
        refine inductionHypothesis ?_ _
        rw [List.length_append] at enough
        omega

theorem gitLsFilesStageModes_print (entries : List IndexEntry) :
    gitLsFilesStageModes (print entries) = filed (fun _ => none) entries :=
  readModes_print (Nat.le_refl _) _

theorem filed_cons (modes : Modes) (entry : IndexEntry)
    (entries : List IndexEntry) :
    filed modes (entry :: entries) =
      filed
        (if entry.key ≠ [] then
          Function.update modes entry.key (some (modeText entry.mode))
        else modes) entries :=
  congrArg (filed · entries) (entry.addLine_lineText modes)

/-- A key of the map was there before or is that of an entry. -/
theorem key_of_filed {modes : Modes} {key : List Char}
    (there : filed modes entries key ≠ none) :
    modes key ≠ none ∨
      ∃ entry ∈ entries, entry.key ≠ [] ∧ entry.key = key := by
  induction entries generalizing modes with
  | nil => exact .inl there
  | cons entry entries inductionHypothesis =>
    rw [filed_cons] at there
    rcases inductionHypothesis there with before | ⟨other, member, is⟩
    · by_cases some : entry.key ≠ []
      · rw [if_pos some, Function.update_apply] at before
        by_cases same : key = entry.key
        · exact .inr ⟨entry, List.mem_cons_self, some, same.symm⟩
        · rw [if_neg same] at before
          exact .inl before
      · rw [if_neg some] at before
        exact .inl before
    · exact .inr ⟨other, List.mem_cons_of_mem _ member, is⟩

/-- A key that no later entry has keeps its mode. -/
theorem filed_of_other {modes : Modes} {key : List Char}
    (other : ∀ entry ∈ entries, entry.key ≠ key) :
    filed modes entries key = modes key := by
  induction entries generalizing modes with
  | nil => rfl
  | cons entry entries inductionHypothesis =>
    rw [List.forall_mem_cons] at other
    rw [filed_cons, inductionHypothesis other.2]
    split
    · rw [Function.update_of_ne other.1.symm]
    · rfl

/-- When the keys differ, every key that is not empty has its mode. -/
theorem filed_of_distinct {modes : Modes}
    (distinct : (entries.map IndexEntry.key).Nodup) {entry : IndexEntry}
    (member : entry ∈ entries) (some : entry.key ≠ []) :
    filed modes entries entry.key = .some (modeText entry.mode) := by
  induction entries generalizing modes with
  | nil => exact nomatch member
  | cons first entries inductionHypothesis =>
    rw [List.map_cons, List.nodup_cons, List.mem_map] at distinct
    rw [filed_cons]
    rcases List.mem_cons.mp member with rfl | later
    · rw [if_pos some, filed_of_other, Function.update_self]
      intro other isLater same
      exact distinct.1 ⟨other, isLater, same⟩
    · exact inductionHypothesis distinct.2 later

/-! ## When the modes are read back -/

/-- A plain path is its own key. -/
theorem IndexEntry.encode_key {entry : IndexEntry} (plain : Plain entry.path) :
    Utf8.encode entry.key = entry.path.bytes := by
  unfold IndexEntry.key
  rw [squeeze_eq_self plain.spaced]
  exact Utf8.whole_iff.mp plain.whole

theorem IndexEntry.key_ne_nil {entry : IndexEntry}
    (plain : Plain entry.path) : entry.key ≠ [] := by
  intro empty
  have same := entry.encode_key plain
  rw [empty] at same
  exact plain.nonempty same.symm

/-- The bytes of a key of the map are a plain path. -/
theorem plain_of_key {entry : IndexEntry} {path : Path}
    (some : entry.key ≠ []) (same : Utf8.encode entry.key = path.bytes) :
    Plain path := by
  refine ⟨⟨_, same.symm⟩, ?_, ?_⟩
  · intro empty
    rw [empty] at same
    have read := congrArg Utf8.decode same
    rw [Utf8.decode_encode] at read
    exact some read
  · rw [← same, Utf8.decode_encode]
    exact singleSpaced_squeeze _ _

/-- The modes of entries with different paths are read back exactly when every
path is a text, not empty, without white space but single spaces, none of them
in front. -/
theorem gitLsFilesStageModes_inverts_iff {entries : List IndexEntry}
    (distinct : (entries.map fun entry => entry.path.bytes).Nodup) :
    Inverts entries (gitLsFilesStageModes (print entries)) ↔
      ∀ entry ∈ entries, Plain entry.path := by
  rw [gitLsFilesStageModes_print]
  constructor
  · intro inverts entry member
    obtain ⟨key, same, mode⟩ := inverts.sends entry member
    have there : filed (fun _ => none) entries key ≠ none := by
      rw [mode]
      exact Option.some_ne_none _
    rcases key_of_filed there with before | ⟨other, -, some, rfl⟩
    · exact absurd rfl before
    · exact plain_of_key some same
  · intro plain
    have keys : (entries.map IndexEntry.key).Nodup := by
      refine List.Nodup.of_map Utf8.encode ?_
      rw [List.map_map]
      refine (List.map_congr_left ?_).symm ▸ distinct
      intro entry member
      exact IndexEntry.encode_key (plain entry member)
    refine ⟨?_, ?_⟩
    · intro entry member
      have isPlain := plain entry member
      exact ⟨entry.key, IndexEntry.encode_key isPlain,
        filed_of_distinct keys member (IndexEntry.key_ne_nil isPlain)⟩
    · intro key there
      rcases key_of_filed there with before | ⟨entry, member, -, rfl⟩
      · exact absurd rfl before
      · exact ⟨entry, member, IndexEntry.encode_key (plain entry member)⟩

/-- An executable file with this path. -/
def executable (path : List Char) (nulFree : 0 ∉ Utf8.encode path) :
    IndexEntry where
  mode := 0o100755
  name := [Fin.last 15]
  stage := 0
  path := ⟨Utf8.encode path, nulFree⟩
  named := List.cons_ne_nil _ _

/-- The mode of `a b` is read back. -/
theorem gitLsFilesStageModes_inverts_single_space :
    Inverts [executable ['a', ' ', 'b'] (by decide)]
        (gitLsFilesStageModes
          (print [executable ['a', ' ', 'b'] (by decide)])) ↔
      ∀ entry ∈ [executable ['a', ' ', 'b'] (by decide)],
        Plain entry.path :=
  gitLsFilesStageModes_inverts_iff (List.nodup_singleton _)

/-- The mode of `a`, two spaces and `b` is filed under another path. -/
theorem gitLsFilesStageModes_joins_spaces :
    ¬ ∀ entries : List IndexEntry,
      (entries.map fun entry => entry.path.bytes).Nodup →
      Inverts entries (gitLsFilesStageModes (print entries)) := by
  intro inverts
  have sends := (inverts [executable ['a', ' ', ' ', 'b'] (by decide)]
    (List.nodup_singleton _)).sends _ List.mem_cons_self
  obtain ⟨key, same, mode⟩ := sends
  have isKey : key = ['a', ' ', ' ', 'b'] := by
    have read := congrArg Utf8.decode same
    rw [Utf8.decode_encode] at read
    exact read.trans (by decide +kernel)
  subst isKey
  have lost : gitLsFilesStageModes
      (print [executable ['a', ' ', ' ', 'b'] (by decide)])
      ['a', ' ', ' ', 'b'] = none := by
    decide +kernel
  rw [lost] at mode
  exact nomatch mode

end Rbo.Snapshot.StageModes
