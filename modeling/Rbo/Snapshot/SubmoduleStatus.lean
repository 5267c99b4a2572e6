import Mathlib.Data.List.DropRight
import Rbo.Snapshot.Submodules

/-!
# The state of submodules

`parseSubmoduleStatus` reads what `git submodule status --recursive` prints.
A line is matched by an expression, and a line that does not match is left
out.  The expression takes at most 40 digits for the commit and ends the path
at the first white space.
-/

namespace Rbo.Snapshot.SubmoduleStatus

open Rbo.Foundation
open Rbo.Foundation.FileTree
open Rbo.Snapshot.SecretPolicy
open Rbo.Snapshot.Capture
open Rbo.Snapshot.Submodules

/-! ## The parser -/

/-- A digit of a commit. -/
def isHexDigit (char : Char) : Bool :=
  char.isDigit || ('a' ≤ char && char ≤ 'f')

def trimEnd (text : List Char) : List Char :=
  text.rdropWhile isTrimmed

/-- The first two groups of `/^([0-9a-f]{7,40})\s+(\S+)(?:\s+\((.+)\))?/`.
White space stands behind the digits, so that a match takes all of them; the
third group may be left out, so that the path is all up to white space. -/
def matchStatus (rest : List Char) : Option (List Char × List Char) :=
  let commit := rest.takeWhile isHexDigit
  let behind := rest.drop commit.length
  let path := (behind.dropWhile isTrimmed).takeWhile (!isTrimmed ·)
  if 7 ≤ commit.length ∧ commit.length ≤ 40 ∧
      behind.head?.any isTrimmed = true ∧ path ≠ [] then
    some (commit, path)
  else none

def stateOf (mark : Char) : SubmoduleState :=
  if mark = ' ' then .clean
  else if mark = '-' then .uninitialized
  else if mark = '+' then .dirty
  else if mark = 'U' then .conflict
  else .dirty

/-- The entry of a line, if it is neither empty nor left out. -/
def parseLine (rawLine : List Char) : Option SubmoduleStatusEntry :=
  match trimEnd rawLine with
  | [] => none
  | mark :: rest =>
    (matchStatus (trim rest)).map fun matched =>
      { path := normalizeWirePath matched.2
        state := stateOf mark
        commit := matched.1 }

def parseSubmoduleStatus (output : List Char) : List SubmoduleStatusEntry :=
  (output.splitOn '\n').filterMap parseLine

/-! ## The check before a capture -/

/-- Why `assertSubmodulesReadyForCapture` stops; a failure to read the status
of a submodule is what reading it throws. -/
inductive NotReady (Failure : Type) where
  | submoduleStatusFailed
  | noneInitialized
  | uninitializedSubmodule (path : List Char) (state : SubmoduleState)
  | dirtySubmodule (path : List Char) (state : SubmoduleState)
  | other (failure : Failure)
  deriving DecidableEq

section Assert

variable {Failure : Type} (subStatus : List Char → Except Failure Nat)

/-- One entry of the status; `subStatus` counts the changes in a submodule. -/
def assertEntry (entry : SubmoduleStatusEntry) :
    Except (NotReady Failure) Unit :=
  match entry.state with
  | .uninitialized =>
    .error (.uninitializedSubmodule entry.path entry.state)
  | .dirty => .error (.dirtySubmodule entry.path entry.state)
  | .conflict => .error (.dirtySubmodule entry.path entry.state)
  | .clean =>
    match subStatus entry.path with
    | .error failure => .error (.other failure)
    | .ok 0 => .ok ()
    | .ok _ => .error (.dirtySubmodule entry.path .dirty)

/-- `assertSubmodulesReadyForCapture`; there is no output when git fails. -/
def assertSubmodulesReadyForCapture (hasModules : Bool)
    (output : Option (List Char)) :
    Except (NotReady Failure) (List SubmoduleStatusEntry) :=
  if hasModules then
    match output with
    | none => .error .submoduleStatusFailed
    | some text =>
      let statuses := parseSubmoduleStatus text
      if statuses = [] then .error .noneInitialized
      else do
        statuses.forM (assertEntry subStatus)
        return statuses
  else .ok []

end Assert

/-! ## What git prints -/

def markOf : SubmoduleState → Char
  | .clean => ' '
  | .uninitialized => '-'
  | .dirty => '+'
  | .conflict => 'U'

/-- A submodule as git prints it: its path and its description are on one
line, and its commit has 40 or 64 digits. -/
structure Reported where
  entry : SubmoduleStatusEntry
  describe : Option (List Char)
  path : entry.path ≠ [] ∧ '\n' ∉ entry.path
  digits : ∀ digit ∈ entry.commit, isHexDigit digit = true
  commit : entry.commit.length = 40 ∨ entry.commit.length = 64
  described : ∀ text ∈ describe, '\n' ∉ text

/-- The suffix of a line. -/
def Reported.suffix (submodule : Reported) : List Char :=
  submodule.describe.elim [] fun text => ' ' :: '(' :: (text ++ [')'])

def Reported.line (submodule : Reported) : List Char :=
  markOf submodule.entry.state ::
    (submodule.entry.commit ++
      ' ' :: (submodule.entry.path ++ submodule.suffix))

/-- The output of `git submodule status --recursive`. -/
def printStatus (submodules : List Reported) : List Char :=
  submodules.flatMap fun submodule => submodule.line ++ ['\n']

/-- The parser reads back what git printed, and the check lets no submodule
pass that is not clean. -/
def Inverts (submodules : List Reported) : Prop :=
  parseSubmoduleStatus (printStatus submodules) =
      submodules.map Reported.entry ∧
    ∀ (Failure : Type) (subStatus : List Char → Except Failure Nat),
      (∃ submodule ∈ submodules, submodule.entry.state ≠ .clean) →
      ∃ failure, assertSubmodulesReadyForCapture subStatus true
        (some (printStatus submodules)) = .error failure

/-- The commit has 40 digits, and the path no white space and the form that
it has in manifests. -/
def IsPlain (submodule : Reported) : Prop :=
  submodule.entry.commit.length = 40 ∧
    (∀ char ∈ submodule.entry.path, isTrimmed char = false) ∧
    normalizeWirePath submodule.entry.path = submodule.entry.path

/-! ## One line -/

theorem stateOf_markOf (state : SubmoduleState) :
    stateOf (markOf state) = state := by
  cases state <;> rfl

theorem spaceless_normalizeWirePath {path : List Char}
    (spaceless : ∀ char ∈ path, isTrimmed char = false) :
    ∀ char ∈ normalizeWirePath path, isTrimmed char = false := by
  have slashes : ∀ char ∈ forwardSlashes path, isTrimmed char = false := by
    intro char member
    rcases List.mem_map.mp member with ⟨original, inside, rfl⟩
    split
    · decide
    · exact spaceless original inside
  intro char member
  apply slashes
  rcases dropCurrent_cases (forwardSlashes path) with kept | dropped
  · exact kept ▸ member
  · rw [dropped]
    exact List.mem_append_right _ (List.mem_cons_of_mem _ member)

/-- What is read of a line has a commit that is not too long and a path
without white space. -/
theorem parseLine_eq_some {text : List Char} {entry : SubmoduleStatusEntry}
    (read : parseLine text = some entry) :
    entry.commit.length ≤ 40 ∧
      ∀ char ∈ entry.path, isTrimmed char = false := by
  unfold parseLine at read
  split at read
  · cases read
  rcases Option.map_eq_some_iff.mp read with ⟨matched, found, rfl⟩
  unfold matchStatus at found
  rw [Option.ite_none_right_eq_some] at found
  rcases found with ⟨⟨_, short, _⟩, same⟩
  cases same
  refine ⟨short, spaceless_normalizeWirePath fun char member => ?_⟩
  have kept := List.mem_takeWhile_imp member
  exact (Bool.not_eq_true' _).mp kept

/-- A text that ends with something else than white space is not trimmed. -/
theorem trimEnd_of_last {text : List Char} {last : Char}
    (plain : isTrimmed last = false) :
    trimEnd (text ++ [last]) = text ++ [last] := by
  unfold trimEnd
  rw [List.rdropWhile_concat_neg]
  rw [plain]
  exact Bool.false_ne_true

theorem trim_of_ends {first last : Char} {text : List Char}
    (firstPlain : isTrimmed first = false)
    (lastPlain : isTrimmed last = false) (begins : text.head? = some first)
    (ends : text.getLast? = some last) : trim text = text := by
  have kept {text : List Char} {char : Char} (plain : isTrimmed char = false)
      (begins : text.head? = some char) : trimStart text = text := by
    rcases List.head?_eq_some_iff.mp begins with ⟨rest, rfl⟩
    unfold trimStart
    rw [List.dropWhile_cons_of_neg]
    rw [plain]
    exact Bool.false_ne_true
  unfold trim
  rw [kept firstPlain begins, kept lastPlain, List.reverse_reverse]
  rw [List.head?_reverse]
  exact ends

section Line

variable (submodule : Reported)

theorem commit_ne_nil : submodule.entry.commit ≠ [] := by
  intro empty
  have length := submodule.commit
  rw [empty] at length
  simp at length

theorem not_isTrimmed_of_isHexDigit {digit : Char}
    (isDigit : isHexDigit digit = true) : isTrimmed digit = false := by
  have range : 0x30 ≤ digit.toNat ∧ digit.toNat ≤ 0x66 := by
    unfold isHexDigit Char.isDigit at isDigit
    simp only [Bool.or_eq_true, Bool.and_eq_true, decide_eq_true_eq,
      ge_iff_le, Char.le_def, UInt32.le_iff_toNat_le] at isDigit
    have value : digit.toNat = digit.val.toNat := rfl
    rcases isDigit with ⟨low, high⟩ | ⟨low, high⟩
    · have least : 48 ≤ digit.val.toNat := low
      have most : digit.val.toNat ≤ 57 := high
      omega
    · have least : 97 ≤ digit.val.toNat := low
      have most : digit.val.toNat ≤ 102 := high
      omega
  unfold isTrimmed
  simp only [Bool.or_eq_false_iff, Bool.and_eq_false_iff,
    decide_eq_false_iff_not]
  omega

/-- The last character of a line is none of white space. -/
theorem getLast?_line
    (spaceless : ∀ char ∈ submodule.entry.path, isTrimmed char = false) :
    ∃ front last, submodule.entry.path ++ submodule.suffix = front ++ [last] ∧
      isTrimmed last = false := by
  unfold Reported.suffix
  cases submodule.describe with
  | none =>
    have split := List.dropLast_append_getLast submodule.path.1
    refine ⟨_, _, (List.append_nil _).trans split.symm, ?_⟩
    exact spaceless _ (List.getLast_mem submodule.path.1)
  | some text =>
    refine ⟨submodule.entry.path ++ ' ' :: '(' :: text, ')', ?_, by decide⟩
    simp

theorem matchStatus_line (short : submodule.entry.commit.length = 40)
    (spaceless : ∀ char ∈ submodule.entry.path, isTrimmed char = false) :
    matchStatus (submodule.entry.commit ++
        ' ' :: (submodule.entry.path ++ submodule.suffix)) =
      some (submodule.entry.commit, submodule.entry.path) := by
  have commit : (submodule.entry.commit ++
      ' ' :: (submodule.entry.path ++ submodule.suffix)).takeWhile
        isHexDigit = submodule.entry.commit := by
    rw [List.takeWhile_append_of_pos submodule.digits,
      List.takeWhile_cons_of_neg (by decide), List.append_nil]
  have path : ((' ' :: (submodule.entry.path ++ submodule.suffix)).dropWhile
      isTrimmed).takeWhile (!isTrimmed ·) = submodule.entry.path := by
    rw [List.dropWhile_cons_of_pos (by decide)]
    obtain ⟨first, rest, begins⟩ := List.exists_cons_of_ne_nil
      submodule.path.1
    rw [begins] at spaceless ⊢
    rw [List.cons_append, List.dropWhile_cons_of_neg, ← List.cons_append,
      List.takeWhile_append_of_pos]
    · unfold Reported.suffix
      cases submodule.describe with
      | none => exact List.append_nil _
      | some text =>
        show _ ++ (' ' :: _).takeWhile _ = _
        rw [List.takeWhile_cons_of_neg (by decide), List.append_nil]
    · exact fun char member => by rw [spaceless char member]; rfl
    · rw [spaceless first List.mem_cons_self]
      exact Bool.false_ne_true
  unfold matchStatus
  dsimp only
  rw [commit, List.drop_left, path, if_pos]
  exact ⟨by omega, by omega, rfl, submodule.path.1⟩

/-- A line with a short commit and a path without white space is read. -/
theorem parseLine_line (short : submodule.entry.commit.length = 40)
    (spaceless : ∀ char ∈ submodule.entry.path, isTrimmed char = false) :
    parseLine submodule.line =
      some { submodule.entry with
        path := normalizeWirePath submodule.entry.path } := by
  obtain ⟨front, last, ends, plain⟩ := getLast?_line submodule spaceless
  have whole : trimEnd submodule.line = submodule.line := by
    have split : submodule.line =
        (markOf submodule.entry.state ::
          (submodule.entry.commit ++ ' ' :: front)) ++ [last] := by
      rw [Reported.line, ends]
      simp
    rw [split]
    exact trimEnd_of_last plain
  obtain ⟨first, rest, begins⟩ := List.exists_cons_of_ne_nil
    (commit_ne_nil submodule)
  have inner : trim (submodule.entry.commit ++
      ' ' :: (submodule.entry.path ++ submodule.suffix)) =
        submodule.entry.commit ++
          ' ' :: (submodule.entry.path ++ submodule.suffix) := by
    apply trim_of_ends (not_isTrimmed_of_isHexDigit
      (submodule.digits first (begins ▸ List.mem_cons_self))) plain
    · rw [begins]
      rfl
    · rw [ends, ← List.cons_append, ← List.append_assoc]
      exact List.getLast?_concat
  unfold parseLine
  rw [whole, Reported.line]
  dsimp only
  rw [inner, matchStatus_line submodule short spaceless, Option.map_some,
    stateOf_markOf]

theorem parseLine_line_iff :
    parseLine submodule.line = some submodule.entry ↔ IsPlain submodule := by
  constructor
  · intro read
    rcases parseLine_eq_some read with ⟨short, spaceless⟩
    have forty : submodule.entry.commit.length = 40 := by
      rcases submodule.commit with is | is
      · exact is
      · omega
    refine ⟨forty, spaceless, ?_⟩
    rw [parseLine_line submodule forty spaceless, Option.some.injEq] at read
    exact congrArg SubmoduleStatusEntry.path read
  · rintro ⟨short, spaceless, normal⟩
    rw [parseLine_line submodule short spaceless, normal]

theorem newline_not_mem_line : '\n' ∉ submodule.line := by
  have mark : '\n' ≠ markOf submodule.entry.state := by
    cases submodule.entry.state <;> decide
  have commit : '\n' ∉ submodule.entry.commit := fun member =>
    absurd (submodule.digits _ member) (by decide)
  have suffix : '\n' ∉ submodule.suffix := by
    unfold Reported.suffix
    cases found : submodule.describe with
    | none => exact List.not_mem_nil
    | some text => simpa using submodule.described text found
  unfold Reported.line
  simp [mark, commit, suffix, submodule.path.2]

end Line

/-! ## All lines -/

theorem parseSubmoduleStatus_printStatus (submodules : List Reported) :
    parseSubmoduleStatus (printStatus submodules) =
      submodules.filterMap fun submodule => parseLine submodule.line := by
  unfold parseSubmoduleStatus printStatus
  induction submodules with
  | nil => rfl
  | cons submodule submodules induction =>
    rw [List.flatMap_cons, List.append_assoc, List.singleton_append,
      List.splitOn_append_cons_self_of_not_mem (newline_not_mem_line _),
      List.filterMap_cons, induction, List.filterMap_cons]

/-- As many are read as were printed only when every one is read. -/
theorem filterMap_eq_map_iff {Item Answer : Type}
    {read : Item → Option Answer} {value : Item → Answer}
    {items : List Item} :
    items.filterMap read = items.map value ↔
      ∀ item ∈ items, read item = some (value item) := by
  induction items with
  | nil => simp
  | cons item items induction =>
    rw [List.forall_mem_cons, ← induction, List.filterMap_cons,
      List.map_cons]
    cases found : read item with
    | none =>
      simp only [reduceCtorEq, false_and, iff_false]
      intro same
      have fewer := List.length_filterMap_le read items
      rw [same, List.length_cons, List.length_map] at fewer
      exact Nat.not_succ_le_self _ fewer
    | some answer => simp

theorem assertEntry_of_not_clean {Failure : Type}
    (subStatus : List Char → Except Failure Nat)
    {entry : SubmoduleStatusEntry} (unclean : entry.state ≠ .clean) :
    ∃ failure, assertEntry subStatus entry = .error failure := by
  unfold assertEntry
  cases state : entry.state with
  | clean => exact absurd state unclean
  | _ => exact ⟨_, rfl⟩

theorem forM_of_error {Item Failure : Type}
    {check : Item → Except Failure Unit} {items : List Item}
    (refused : ∃ item ∈ items, ∃ failure, check item = .error failure) :
    ∃ failure, items.forM check = .error failure := by
  induction items with
  | nil => simp at refused
  | cons item items induction =>
    show ∃ failure, (check item >>= fun _ => items.forM check) =
      .error failure
    cases checked : check item with
    | error failure => exact ⟨failure, rfl⟩
    | ok done =>
      apply induction
      rcases refused with ⟨other, member, failure, failed⟩
      rcases List.mem_cons.mp member with rfl | inside
      · rw [failed] at checked
        cases checked
      · exact ⟨other, inside, failure, failed⟩

/-- A submodule whose path has a space. -/
def spacedSubmodule : Reported where
  entry :=
    { path := "my lib".toList
      state := .clean
      commit := List.replicate 40 'a' }
  describe := none
  path := ⟨by decide +kernel, by decide +kernel⟩
  digits := fun _ member => by rw [List.eq_of_mem_replicate member]; rfl
  commit := Or.inl List.length_replicate
  described := nofun

end Rbo.Snapshot.SubmoduleStatus
