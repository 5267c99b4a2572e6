import Rbo.Snapshot.Containment
import Rbo.Snapshot.OverlayPlan

/-!
# The content of submodules

`enumerateSubmoduleContentPaths` lists the files and links of every clean
submodule.  `walkSubmoduleFiles` reads the directory of the submodule and calls
itself for every directory in it, with a longer prefix but with the same
submodule path, so that it reads the same directory again.

The walk ends when no directory but `.git` is directly in the submodule.
-/

namespace Rbo.Snapshot.Submodules

open Rbo.Foundation
open Rbo.Foundation.FileTree
open Rbo.Snapshot.SecretPolicy
open Rbo.Snapshot.Capture
open Rbo.Snapshot.Containment
open Rbo.Snapshot.OverlayPlan (precedes)

/-! ## The walk -/

/-- `SubmoduleState`. -/
inductive SubmoduleState where
  | clean
  | uninitialized
  | dirty
  | conflict
  deriving DecidableEq

/-- `SubmoduleStatusEntry`. -/
structure SubmoduleStatusEntry where
  path : List Char
  state : SubmoduleState
  commit : List Char
  deriving DecidableEq

/-- A computation that may fail, and may never return. -/
abbrev Walk := ExceptT Refusal Option

/-- The computation does not return. -/
def never {Answer : Type} : Walk Answer :=
  ExceptT.mk none

/-- The entries of a directory; links on the way to it are followed. -/
def readdir (files : FileSystem) (path : List Char) :
    Option (List (Name × Node)) :=
  match (files.realPath path).bind files.root.at? with
  | some (.directory entries) => some entries
  | _ => none

section Program

variable (files : FileSystem) (repoRoot : List Char)

def walkEntry (submodulePath relativePrefix : List Char)
    (descend : List Char → Walk (List (List Char))) (entry : Name × Node) :
    Walk (List (List Char)) :=
  if entry.1 = ".git".toList then
    pure []
  else
    let rel := entryPath relativePrefix entry.1
    let wirePath :=
      normalizeWirePath (forwardSlashes (join submodulePath rel))
    if entry.2.isDirectory then
      descend rel
    else
      pure [wirePath]

/-- `walkSubmoduleFiles`, to a number of calls inside each other. -/
def walkSubmoduleFiles (submodulePath : List Char) :
    Nat → List Char → Walk (List (List Char))
  | 0, _ => never
  | depth + 1, relativePrefix =>
    let absolute := resolveInside repoRoot submodulePath
    match readdir files absolute with
    | none => throw (.missing (String.ofList absolute))
    | some entries => do
      let paths ← entries.mapM
        (walkEntry submodulePath relativePrefix
          (walkSubmoduleFiles submodulePath depth))
      return paths.flatten.insertionSort precedes

def enumerateSubmoduleContentPaths (depth : Nat)
    (submodules : List SubmoduleStatusEntry) : Walk (List (List Char)) := do
  let clean := submodules.filter fun submodule => submodule.state = .clean
  let paths ← clean.mapM fun submodule =>
    walkSubmoduleFiles files repoRoot submodule.path depth []
  return paths.flatten.insertionSort precedes

end Program

/-! ## What is to be listed -/

/-- The names lead from a directory to a file or link, and not by `.git`. -/
inductive LeafAt : List (Name × Node) → List Name → Prop where
  | leaf {entries : List (Name × Node)} {name : Name} {node : Node}
      (member : (name, node) ∈ entries) (outside : name ≠ ".git".toList)
      (isLeaf : node.isDirectory = false) :
      LeafAt entries [name]
  | inside {entries inner : List (Name × Node)} {name : Name}
      {names : List Name} (member : (name, .directory inner) ∈ entries)
      (outside : name ≠ ".git".toList) (leaf : LeafAt inner names) :
      LeafAt entries (name :: names)

/-- A submodule that can be listed: its path has no empty piece and no dots,
its directory can be read, and the names in it are names and differ. -/
structure Readable (files : FileSystem) (repoRoot : List Char)
    (submodule : SubmoduleStatusEntry) (entries : List (Name × Node)) :
    Prop where
  path : ∀ piece ∈ pieces submodule.path, isUnsafePiece piece = false
  read : readdir files (resolveInside repoRoot submodule.path) = some entries
  names : ∀ entry ∈ entries, isUnsafePiece entry.1 = false ∧ '/' ∉ entry.1
  distinct : (entries.map Prod.fst).Nodup

/-- The path of a submodule, and the names below it. -/
def repositoryPath (submodule : SubmoduleStatusEntry) (names : List Name) :
    List Char :=
  ['/'].intercalate (submodule.path :: names)

/-- The call returns, sorted and once each, the paths of the files and links of
the clean submodules. -/
def ListsContent (files : FileSystem) (repoRoot : List Char)
    (submodules : List SubmoduleStatusEntry) : Prop :=
  ∃ depth paths,
    (enumerateSubmoduleContentPaths files repoRoot depth submodules).run =
      some (.ok paths) ∧
    paths.Nodup ∧ paths.Pairwise precedes ∧
    ∀ path, path ∈ paths ↔
      ∃ submodule ∈ submodules, submodule.state = .clean ∧
        ∃ entries names,
          readdir files (resolveInside repoRoot submodule.path) =
            some entries ∧
          LeafAt entries names ∧ path = repositoryPath submodule names

/-- No directory but `.git` is directly in a clean submodule, and no path of
its files and links has a backslash. -/
def Flat (files : FileSystem) (repoRoot : List Char)
    (submodules : List SubmoduleStatusEntry) : Prop :=
  ∀ submodule ∈ submodules, submodule.state = .clean →
    ∀ entries,
      readdir files (resolveInside repoRoot submodule.path) = some entries →
      ∀ entry ∈ entries, entry.1 ≠ ".git".toList →
        entry.2.isDirectory = false ∧
          '\\' ∉ repositoryPath submodule [entry.1]

/-! ## Computations that do not return -/

section Never

variable {Item Answer Next : Type}

theorem never_bind (next : Answer → Walk Next) : never >>= next = never :=
  rfl

/-- A loop with a round that does not return does not return, if no earlier
round fails. -/
theorem mapM_never {body : Item → Walk Answer} {items : List Item}
    (each : ∀ item ∈ items, body item = never ∨ ∃ answer, body item = pure answer)
    (some : ∃ item ∈ items, body item = never) :
    items.mapM body = never := by
  induction items with
  | nil => exact absurd some (by simp)
  | cons item rest inductionHypothesis =>
    rw [List.forall_mem_cons] at each
    rw [List.mapM_cons]
    rcases each.1 with endless | ⟨answer, returns⟩
    · rw [endless, never_bind]
    · have later : ∃ item ∈ rest, body item = never := by
        obtain ⟨other, member, endless⟩ := some
        rcases List.mem_cons.mp member with rfl | later
        · rw [endless] at returns
          cases congrArg ExceptT.run returns
        · exact ⟨other, later, endless⟩
      rw [returns, pure_bind, inductionHypothesis each.2 later, never_bind]

theorem mapM_pure {body : Item → Walk Answer} {value : Item → Answer}
    {items : List Item} (each : ∀ item ∈ items, body item = pure (value item)) :
    items.mapM body = pure (items.map value) := by
  induction items with
  | nil => rfl
  | cons item rest inductionHypothesis =>
    rw [List.forall_mem_cons] at each
    rw [List.mapM_cons, each.1, inductionHypothesis each.2]
    rfl

end Never

/-! ## The path of an entry -/

section EntryPath

variable {submodule : SubmoduleStatusEntry} {name : Name}

/-- The path that the walk writes down for an entry of the submodule. -/
def wirePathOf (submodule : SubmoduleStatusEntry) (name : Name) : List Char :=
  normalizeWirePath (forwardSlashes (join submodule.path name))

theorem repositoryPath_singleton :
    repositoryPath submodule [name] = submodule.path ++ '/' :: name := by
  unfold repositoryPath
  rw [List.intercalate_cons_cons]
  simp

theorem pieces_repositoryPath (ordinary : '/' ∉ name) :
    pieces (repositoryPath submodule [name]) =
      pieces submodule.path ++ [name] := by
  rw [repositoryPath_singleton, pieces_append]
  exact congrArg _ (List.splitOn_eq_singleton ordinary)

/-- Joined and normalised, a path of ordinary pieces stays as it is. -/
theorem join_eq_repositoryPath
    (path : ∀ piece ∈ pieces submodule.path, isUnsafePiece piece = false)
    (ordinary : isUnsafePiece name = false ∧ '/' ∉ name) :
    join submodule.path name = repositoryPath submodule [name] := by
  have present : submodule.path ≠ [] := by
    intro empty
    rw [empty] at path
    exact absurd (path [] (by decide)) (by decide)
  have named : name ≠ [] := by
    rintro rfl
    exact absurd ordinary.1 (by decide)
  have below : isAbsolute (submodule.path ++ '/' :: name) = false := by
    cases start : submodule.path with
    | nil => exact absurd start present
    | cons first others =>
      rw [Bool.eq_false_iff]
      intro absolute
      obtain rfl : first = '/' := by simpa [isAbsolute] using absolute
      rw [start] at path
      exact absurd (path [] (nil_mem_pieces_of_slash others)) (by decide)
  have all : ∀ piece ∈ pieces submodule.path ++ [name],
      isUnsafePiece piece = false :=
    List.forall_mem_append.mpr
      ⟨path, List.forall_mem_singleton.mpr ordinary.1⟩
  have shape := @pieces_repositoryPath submodule name ordinary.2
  have resolved : ['/'].intercalate (normalizePieces true []
      (pieces (submodule.path ++ '/' :: name))) =
        submodule.path ++ '/' :: name := by
    have kept := normalizePieces_append true [] [] all
    rw [List.append_nil, List.nil_append, ← shape,
      repositoryPath_singleton] at kept
    rw [kept]
    exact intercalate_pieces _
  have ends : (submodule.path ++ '/' :: name).getLast? ≠ some '/' := by
    rw [List.getLast?_append_of_ne_nil _ (List.cons_ne_nil _ _),
      List.getLast?_cons_of_ne_nil named]
    intro last
    exact ordinary.2 (List.mem_of_getLast? last)
  rw [repositoryPath_singleton]
  unfold join
  rw [if_neg present, if_neg named,
    normalize_of_relative (by simp) below resolved, if_neg (by simp),
    if_neg ends]

theorem notMem_forwardSlashes (path : List Char) :
    '\\' ∉ forwardSlashes path := by
  intro inside
  obtain ⟨char, -, same⟩ := List.mem_map.mp inside
  split at same
  · exact absurd same (by decide)
  · rename_i other
    exact other same

theorem notMem_wirePathOf : '\\' ∉ wirePathOf submodule name := by
  intro inside
  refine notMem_forwardSlashes (forwardSlashes (join submodule.path name)) ?_
  rcases dropCurrent_cases
      (forwardSlashes (forwardSlashes (join submodule.path name))) with
    kept | dropped
  · unfold wirePathOf normalizeWirePath at inside
    rwa [kept] at inside
  · rw [dropped]
    exact List.mem_cons_of_mem _ (List.mem_cons_of_mem _ inside)

/-- Without a backslash it is the path of the entry. -/
theorem wirePathOf_eq
    (path : ∀ piece ∈ pieces submodule.path, isUnsafePiece piece = false)
    (ordinary : isUnsafePiece name = false ∧ '/' ∉ name)
    (plain : '\\' ∉ repositoryPath submodule [name]) :
    wirePathOf submodule name = repositoryPath submodule [name] := by
  have shape := @pieces_repositoryPath submodule name ordinary.2
  unfold wirePathOf normalizeWirePath
  rw [join_eq_repositoryPath path ordinary, forwardSlashes_of_notMem plain,
    forwardSlashes_of_notMem plain]
  cases first : pieces submodule.path with
  | nil => exact absurd first (List.splitOn_ne_nil _ _)
  | cons piece others =>
    rw [first] at shape
    exact dropCurrent_of_safe shape
      (path piece (first ▸ List.mem_cons_self))

end EntryPath

/-! ## Which walks return -/

section Walks

variable {files : FileSystem} {repoRoot : List Char}
  {submodule : SubmoduleStatusEntry} {entries : List (Name × Node)}

/-- A directory that the walk goes into. -/
def HasDirectory (entries : List (Name × Node)) : Prop :=
  ∃ entry ∈ entries, entry.1 ≠ ".git".toList ∧ entry.2.isDirectory = true

theorem walkSubmoduleFiles_succ
    (read : readdir files (resolveInside repoRoot submodule.path) =
      some entries) (depth : Nat) (relativePrefix : List Char) :
    walkSubmoduleFiles files repoRoot submodule.path (depth + 1)
        relativePrefix =
      (do
        let paths ← entries.mapM
          (walkEntry submodule.path relativePrefix
            (walkSubmoduleFiles files repoRoot submodule.path depth))
        return paths.flatten.insertionSort precedes) := by
  rw [walkSubmoduleFiles, read]

/-- The walk reads the same directory again for every directory in it. -/
theorem walk_of_directory
    (read : readdir files (resolveInside repoRoot submodule.path) =
      some entries) (directory : HasDirectory entries) (depth : Nat)
    (relativePrefix : List Char) :
    walkSubmoduleFiles files repoRoot submodule.path depth relativePrefix =
      never := by
  induction depth generalizing relativePrefix with
  | zero => rfl
  | succ depth inductionHypothesis =>
    rw [walkSubmoduleFiles_succ read, mapM_never, never_bind]
    · intro entry _
      unfold walkEntry
      split
      · exact .inr ⟨_, rfl⟩
      · dsimp only
        split
        · exact .inl (inductionHypothesis _)
        · exact .inr ⟨_, rfl⟩
    · obtain ⟨entry, member, outside, isDirectory⟩ := directory
      refine ⟨entry, member, ?_⟩
      unfold walkEntry
      rw [if_neg outside]
      dsimp only
      rw [if_pos isDirectory]
      exact inductionHypothesis _

/-- The paths that are written down for the entries of a submodule. -/
def listed (submodule : SubmoduleStatusEntry)
    (entries : List (Name × Node)) : List (List Char) :=
  (entries.filter fun entry => entry.1 ≠ ".git".toList).map fun entry =>
    wirePathOf submodule entry.1

theorem walk_of_noDirectory
    (read : readdir files (resolveInside repoRoot submodule.path) =
      some entries) (leaves : ¬ HasDirectory entries) (depth : Nat) :
    walkSubmoduleFiles files repoRoot submodule.path (depth + 1) [] =
      pure ((listed submodule entries).insertionSort precedes) := by
  have each : ∀ entry ∈ entries,
      walkEntry submodule.path []
          (walkSubmoduleFiles files repoRoot submodule.path depth) entry =
        pure (if entry.1 ≠ ".git".toList then
          [wirePathOf submodule entry.1] else []) := by
    intro entry member
    unfold walkEntry
    by_cases git : entry.1 = ".git".toList
    · rw [if_pos git, if_neg (not_not_intro git)]
    · have leaf : ¬ entry.2.isDirectory = true := fun isDirectory =>
        leaves ⟨entry, member, git, isDirectory⟩
      rw [if_neg git, if_pos git]
      dsimp only
      rw [if_neg leaf]
      rfl
  have found : (entries.map fun entry =>
      if entry.1 ≠ ".git".toList then [wirePathOf submodule entry.1]
      else []).flatten = listed submodule entries := by
    unfold listed
    clear each leaves read
    induction entries with
    | nil => rfl
    | cons entry rest inductionHypothesis =>
      rw [List.map_cons, List.flatten_cons, inductionHypothesis,
        List.filter_cons]
      by_cases git : entry.1 ≠ ".git".toList
      · rw [if_pos git, if_pos (decide_eq_true git)]
        rfl
      · rw [if_neg git, if_neg (by simpa using git)]
        rfl
  rw [walkSubmoduleFiles_succ read, mapM_pure each, pure_bind, found]

end Walks

/-! ## The whole list -/

section Lists

variable {files : FileSystem} {repoRoot : List Char}
  {submodules : List SubmoduleStatusEntry}

/-- What is read of the directory of a submodule. -/
def entriesOf (files : FileSystem) (repoRoot : List Char)
    (submodule : SubmoduleStatusEntry) : List (Name × Node) :=
  (readdir files (resolveInside repoRoot submodule.path)).getD []

/-- The clean submodules can be listed, and differ. -/
structure Checkout (files : FileSystem) (repoRoot : List Char)
    (submodules : List SubmoduleStatusEntry) : Prop where
  readable : ∀ submodule ∈ submodules, submodule.state = .clean →
    Readable files repoRoot submodule (entriesOf files repoRoot submodule)
  distinct : ((submodules.filter fun submodule =>
    submodule.state = .clean).map SubmoduleStatusEntry.path).Nodup

/-- The paths that are written down for all submodules. -/
def listedAll (files : FileSystem) (repoRoot : List Char)
    (submodules : List SubmoduleStatusEntry) : List (List Char) :=
  (submodules.filter fun submodule => submodule.state = .clean).flatMap
    fun submodule => (listed submodule
      (entriesOf files repoRoot submodule)).insertionSort precedes

theorem enumerate_of_directory (checkout : Checkout files repoRoot submodules)
    {submodule : SubmoduleStatusEntry} (member : submodule ∈ submodules)
    (clean : submodule.state = .clean)
    (directory : HasDirectory (entriesOf files repoRoot submodule))
    (depth : Nat) :
    enumerateSubmoduleContentPaths files repoRoot depth submodules =
      never := by
  unfold enumerateSubmoduleContentPaths
  dsimp only
  rw [mapM_never, never_bind]
  · intro other inside
    rw [List.mem_filter, decide_eq_true_iff] at inside
    have read := (checkout.readable other inside.1 inside.2).read
    by_cases goesIn : HasDirectory (entriesOf files repoRoot other)
    · exact .inl (walk_of_directory read goesIn _ _)
    · cases depth with
      | zero => exact .inl rfl
      | succ depth => exact .inr ⟨_, walk_of_noDirectory read goesIn depth⟩
  · exact ⟨submodule, List.mem_filter.mpr ⟨member, decide_eq_true clean⟩,
      walk_of_directory (checkout.readable submodule member clean).read
        directory _ _⟩

theorem enumerate_of_noDirectory
    (checkout : Checkout files repoRoot submodules)
    (leaves : ∀ submodule ∈ submodules, submodule.state = .clean →
      ¬ HasDirectory (entriesOf files repoRoot submodule)) (depth : Nat) :
    enumerateSubmoduleContentPaths files repoRoot (depth + 1) submodules =
      pure ((listedAll files repoRoot submodules).insertionSort precedes) := by
  unfold enumerateSubmoduleContentPaths
  dsimp only
  rw [mapM_pure, pure_bind]
  · rfl
  · intro submodule inside
    rw [List.mem_filter, decide_eq_true_iff] at inside
    exact walk_of_noDirectory
      (checkout.readable submodule inside.1 inside.2).read
      (leaves submodule inside.1 inside.2) depth

theorem mem_listedAll {path : List Char} :
    path ∈ listedAll files repoRoot submodules ↔
      ∃ submodule ∈ submodules, submodule.state = .clean ∧
        ∃ entry ∈ entriesOf files repoRoot submodule,
          entry.1 ≠ ".git".toList ∧ path = wirePathOf submodule entry.1 := by
  unfold listedAll listed
  simp only [List.mem_flatMap, List.mem_filter, decide_eq_true_iff,
    List.mem_insertionSort, List.mem_map, and_assoc]
  constructor
  all_goals
    rintro ⟨submodule, member, clean, entry, inside, outside, rfl⟩
    exact ⟨submodule, member, clean, entry, inside, outside, rfl⟩

theorem isDirectory_of_noDirectory {entries : List (Name × Node)}
    {entry : Name × Node} (leaves : ¬ HasDirectory entries)
    (member : entry ∈ entries) (outside : entry.1 ≠ ".git".toList) :
    entry.2.isDirectory = false := by
  by_contra isDirectory
  exact leaves ⟨entry, member, outside, Bool.not_eq_false _ ▸ isDirectory⟩

/-- In a directory without directories the leaves are the entries. -/
theorem leafAt_iff {entries : List (Name × Node)}
    (leaves : ¬ HasDirectory entries) {names : List Name} :
    LeafAt entries names ↔
      ∃ entry ∈ entries, entry.1 ≠ ".git".toList ∧ names = [entry.1] := by
  constructor
  · intro leaf
    cases leaf with
    | @leaf _ name node member outside isLeaf =>
      exact ⟨(name, node), member, outside, rfl⟩
    | @inside _ inner name names member outside below =>
      exact absurd ⟨(name, .directory inner), member, outside, rfl⟩ leaves
  · rintro ⟨entry, member, outside, rfl⟩
    exact .leaf member outside
      (isDirectory_of_noDirectory leaves member outside)

/-- Paths of entries of submodules are equal only for one submodule. -/
theorem repositoryPath_inj {first second : SubmoduleStatusEntry}
    {name other : Name} (ordinary : '/' ∉ name) (plain : '/' ∉ other)
    (same : repositoryPath first [name] = repositoryPath second [other]) :
    first.path = second.path ∧ name = other := by
  have shapes := congrArg pieces same
  rw [pieces_repositoryPath ordinary, pieces_repositoryPath plain] at shapes
  obtain ⟨paths, names⟩ := List.append_inj' shapes rfl
  refine ⟨?_, List.singleton_inj.mp names⟩
  have joined := congrArg (['/'].intercalate ·) paths
  rwa [intercalate_pieces, intercalate_pieces] at joined

/-- A list of paths that are the joined ones has each path once. -/
theorem nodup_listedAll (checkout : Checkout files repoRoot submodules)
    (plain : ∀ submodule ∈ submodules, submodule.state = .clean →
      ∀ entry ∈ entriesOf files repoRoot submodule,
        entry.1 ≠ ".git".toList →
        wirePathOf submodule entry.1 = repositoryPath submodule [entry.1]) :
    (listedAll files repoRoot submodules).Nodup := by
  have paths := List.pairwise_map.mp checkout.distinct
  rw [listedAll, List.nodup_flatMap]
  constructor
  · intro submodule inside
    rw [List.mem_filter, decide_eq_true_iff] at inside
    have readable := checkout.readable submodule inside.1 inside.2
    rw [(List.perm_insertionSort _ _).nodup_iff, listed]
    have names := List.pairwise_map.mp readable.distinct
    refine List.pairwise_map.mpr
      ((names.filter _).imp_of_mem ?_)
    intro entry other here there differ same
    rw [List.mem_filter, decide_eq_true_iff] at here there
    rw [plain submodule inside.1 inside.2 entry here.1 here.2,
      plain submodule inside.1 inside.2 other there.1 there.2] at same
    exact differ (repositoryPath_inj (readable.names entry here.1).2
      (readable.names other there.1).2 same).2
  · refine paths.imp_of_mem ?_
    intro first second inFirst inSecond differ path here there
    rw [List.mem_filter, decide_eq_true_iff] at inFirst inSecond
    rw [List.mem_insertionSort, listed, List.mem_map] at here there
    obtain ⟨entry, inside, rfl⟩ := here
    obtain ⟨other, within, same⟩ := there
    rw [List.mem_filter, decide_eq_true_iff] at inside within
    rw [plain first inFirst.1 inFirst.2 entry inside.1 inside.2,
      plain second inSecond.1 inSecond.2 other within.1 within.2] at same
    exact differ (repositoryPath_inj
      ((checkout.readable second inSecond.1 inSecond.2).names other
        within.1).2
      ((checkout.readable first inFirst.1 inFirst.2).names entry
        inside.1).2 same).1.symm

/-! ## When the content is listed -/

/-- A flat checkout has no directory to go into. -/
theorem noDirectory_of_flat (checkout : Checkout files repoRoot submodules)
    (flat : Flat files repoRoot submodules)
    {submodule : SubmoduleStatusEntry} (member : submodule ∈ submodules)
    (clean : submodule.state = .clean) :
    ¬ HasDirectory (entriesOf files repoRoot submodule) := by
  rintro ⟨entry, inside, outside, isDirectory⟩
  have leaf := (flat submodule member clean _
    (checkout.readable submodule member clean).read entry inside outside).1
  rw [isDirectory] at leaf
  cases leaf

/-- A call that returns goes into no directory. -/
theorem noDirectory_of_returns
    (checkout : Checkout files repoRoot submodules) {depth : Nat}
    {paths : List (List Char)}
    (returns :
      (enumerateSubmoduleContentPaths files repoRoot depth submodules).run =
        some (.ok paths)) :
    ∀ submodule ∈ submodules, submodule.state = .clean →
      ¬ HasDirectory (entriesOf files repoRoot submodule) := by
  intro submodule member clean directory
  rw [enumerate_of_directory checkout member clean directory] at returns
  cases returns

/-- A call that returns with no depth has no clean submodule to list. -/
theorem returns_of_zero {paths : List (List Char)}
    (returns :
      (enumerateSubmoduleContentPaths files repoRoot 0 submodules).run =
        some (.ok paths)) : paths = [] := by
  unfold enumerateSubmoduleContentPaths at returns
  dsimp only at returns
  generalize submodules.filter _ = clean at returns
  cases clean with
  | nil => exact (Except.ok.inj (Option.some.inj returns)).symm
  | cons submodule others => cases returns

/-- What is returned has no backslashes. -/
theorem notMem_of_returns (checkout : Checkout files repoRoot submodules)
    {depth : Nat} {paths : List (List Char)}
    (returns :
      (enumerateSubmoduleContentPaths files repoRoot depth submodules).run =
        some (.ok paths)) :
    ∀ path ∈ paths, '\\' ∉ path := by
  intro path inside
  have leaves := noDirectory_of_returns checkout returns
  cases depth with
  | zero => exact absurd (returns_of_zero returns ▸ inside) List.not_mem_nil
  | succ depth =>
    rw [enumerate_of_noDirectory checkout leaves] at returns
    obtain rfl : _ = paths :=
      Except.ok.inj (Option.some.inj returns)
    rw [List.mem_insertionSort, mem_listedAll] at inside
    obtain ⟨submodule, -, -, entry, -, -, rfl⟩ := inside
    exact notMem_wirePathOf

/-- The call lists the content of the clean submodules exactly when no
directory but `.git` is directly in one of them, and no path has a
backslash. -/
theorem enumerateSubmoduleContentPaths_lists_iff
    (checkout : Checkout files repoRoot submodules) :
    ListsContent files repoRoot submodules ↔
      Flat files repoRoot submodules := by
  constructor
  · rintro ⟨depth, paths, returns, -, -, exactly⟩ submodule member clean
      entries read entry inside outside
    have readable := checkout.readable submodule member clean
    obtain rfl : entriesOf files repoRoot submodule = entries :=
      Option.some.inj (readable.read.symm.trans read)
    have leaves := noDirectory_of_returns checkout returns submodule member
      clean
    have isLeaf := isDirectory_of_noDirectory leaves inside outside
    refine ⟨isLeaf, notMem_of_returns checkout returns _ ((exactly _).mpr
      ⟨submodule, member, clean, _, [entry.1], read,
        .leaf inside outside isLeaf, rfl⟩)⟩
  · intro flat
    have leaves : ∀ submodule ∈ submodules, submodule.state = .clean →
        ¬ HasDirectory (entriesOf files repoRoot submodule) :=
      fun _ member clean => noDirectory_of_flat checkout flat member clean
    have plain : ∀ submodule ∈ submodules, submodule.state = .clean →
        ∀ entry ∈ entriesOf files repoRoot submodule,
          entry.1 ≠ ".git".toList →
          wirePathOf submodule entry.1 =
            repositoryPath submodule [entry.1] := by
      intro submodule member clean entry inside outside
      have readable := checkout.readable submodule member clean
      exact wirePathOf_eq readable.path (readable.names entry inside)
        (flat submodule member clean _ readable.read entry inside outside).2
    refine ⟨1, (listedAll files repoRoot submodules).insertionSort precedes,
      ?_, ?_, List.pairwise_insertionSort _ _, ?_⟩
    · rw [enumerate_of_noDirectory checkout leaves]
      rfl
    · rw [(List.perm_insertionSort _ _).nodup_iff]
      exact nodup_listedAll checkout plain
    · intro path
      rw [List.mem_insertionSort, mem_listedAll]
      constructor
      · rintro ⟨submodule, member, clean, entry, inside, outside, rfl⟩
        refine ⟨submodule, member, clean, _, [entry.1],
          (checkout.readable submodule member clean).read,
          .leaf inside outside (isDirectory_of_noDirectory
            (leaves submodule member clean) inside outside), ?_⟩
        exact plain submodule member clean entry inside outside
      · rintro ⟨submodule, member, clean, entries, names, read, leaf, rfl⟩
        obtain rfl : entriesOf files repoRoot submodule = entries :=
          Option.some.inj ((checkout.readable submodule member
            clean).read.symm.trans read)
        obtain ⟨entry, inside, outside, rfl⟩ :=
          (leafAt_iff (leaves submodule member clean)).mp leaf
        exact ⟨submodule, member, clean, entry, inside, outside,
          (plain submodule member clean entry inside outside).symm⟩

end Lists

/-! ## Two submodules -/

/-- A repository with a flat submodule, and one with a directory. -/
def sampleFiles : FileSystem where
  entries :=
    [("repo".toList, .directory
      [("flat".toList, .directory
        [(".git".toList, .file false []), ("b.h".toList, .file false [1]),
         ("a.h".toList, .link "b.h".toList)]),
       ("deep".toList, .directory
        [("src".toList, .directory [("a.c".toList, .file false [2])])])])]
  workingDirectory := []
  workingDirectory_resolved := resolved_nil

def cleanSubmodule (path : List Char) : SubmoduleStatusEntry where
  path := path
  state := .clean
  commit := "0a".toList

theorem enumerateSubmoduleContentPaths_lists_flat :
    ListsContent sampleFiles "/repo".toList
        [cleanSubmodule "flat".toList] ↔
      Flat sampleFiles "/repo".toList [cleanSubmodule "flat".toList] := by
  refine enumerateSubmoduleContentPaths_lists_iff ⟨?_, ?_⟩
  · intro submodule member _
    obtain rfl := List.mem_singleton.mp member
    have read : readdir sampleFiles
        (resolveInside "/repo".toList (cleanSubmodule "flat".toList).path) =
          some [(".git".toList, .file false []),
            ("b.h".toList, .file false [1]),
            ("a.h".toList, .link "b.h".toList)] := by
      rfl
    unfold entriesOf
    rw [read]
    refine ⟨by decide, read, ?_, by decide⟩
    intro entry inside
    simp only [Option.getD_some, List.mem_cons, List.not_mem_nil,
      or_false] at inside
    rcases inside with rfl | rfl | rfl <;> decide
  · decide

/-- The list of a submodule with a directory is never returned. -/
theorem enumerateSubmoduleContentPaths_never_returns :
    (∀ depth,
      enumerateSubmoduleContentPaths sampleFiles "/repo".toList depth
        [cleanSubmodule "deep".toList] = never) ∧
    ¬ ListsContent sampleFiles "/repo".toList
        [cleanSubmodule "deep".toList] := by
  have endless : ∀ depth,
      enumerateSubmoduleContentPaths sampleFiles "/repo".toList depth
        [cleanSubmodule "deep".toList] = never := by
    intro depth
    have read : readdir sampleFiles
        (resolveInside "/repo".toList (cleanSubmodule "deep".toList).path) =
          some [("src".toList,
            .directory [("a.c".toList, .file false [2])])] := by
      rfl
    have walk := walk_of_directory read
      ⟨_, List.mem_cons_self, by decide, rfl⟩ depth []
    unfold enumerateSubmoduleContentPaths
    dsimp only
    rw [mapM_never, never_bind]
    · intro submodule member
      obtain rfl := List.mem_singleton.mp (List.mem_filter.mp member).1
      exact .inl walk
    · exact ⟨_, List.mem_filter.mpr ⟨List.mem_cons_self, rfl⟩, walk⟩
  refine ⟨endless, ?_⟩
  rintro ⟨depth, paths, returns, -⟩
  rw [endless] at returns
  cases returns

end Rbo.Snapshot.Submodules
