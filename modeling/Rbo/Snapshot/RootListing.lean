import Rbo.Snapshot.Containment

/-!
# The listed files of an additional root

`enumerateAdditionalRootPaths` walks through the directory of an additional
root.  It goes into a directory only when some include pattern matches its
path, or its path with `/**` behind it, and it passes over every entry that is
named `.git`.

The walk is compared with the files that the patterns select: outside `.git`
directories, matched by an include pattern, and neither the file nor a
directory above it matched by an exclude pattern.
-/

namespace Rbo.Snapshot.RootListing

open Rbo.Foundation
open Rbo.Foundation.FileTree
open Rbo.Snapshot.SecretPolicy
open Rbo.Snapshot.Capture
open Rbo.Snapshot.Containment (dropCurrent_of_safe forwardSlashes_of_notMem)

/-! ## The files of a tree -/

mutual

/-- The names that lead from a directory to a file or link. -/
def filesOf : List (Name × Node) → List (List Name)
  | [] => []
  | entry :: rest => filesOfEntry entry ++ filesOf rest

/-- The names that lead to a file or link by one entry. -/
def filesOfEntry : Name × Node → List (List Name)
  | (name, node) => (filesOfNode node).map (name :: ·)

/-- The names that lead from a node to a file or link. -/
def filesOfNode : Node → List (List Name)
  | .directory entries => filesOf entries
  | .file .. => [[]]
  | .link _ => [[]]

end

/-- The path of an entry below a path, as it is written into manifests. -/
def wirePathFrom (rel : List Char) (names : List Name) : List Char :=
  normalizeWirePath (names.foldl entryPath rel)

/-- The path of an entry inside the root. -/
def wirePath (names : List Name) : List Char :=
  wirePathFrom [] names

section Patterns

variable (root : AdditionalRoot)

/-- Some include pattern matches the path. -/
def includes (path : List Char) : Bool :=
  root.include_.any (globMatch path)

/-- Some exclude pattern matches the path. -/
def excludes (path : List Char) : Bool :=
  root.exclude.any (globMatch path)

/-- The walk goes into a directory with this path. -/
def enters (path : List Char) : Bool :=
  root.include_.any fun pattern =>
    globMatch path pattern || globMatch (path ++ "/**".toList) pattern

/-! ## What is to be listed, and what can be -/

/-- The patterns select a file: it is outside `.git` directories and matched by
an include pattern, and no exclude pattern matches it or a directory above
it. -/
def selects (names : List Name) : Bool :=
  names.dropLast.all (· != ".git".toList) &&
    includes root (wirePath names) &&
    names.inits.all fun above =>
      above = [] || !excludes root (wirePath above)

/-- The walk can come to a file: it is not named `.git`, and the walk goes into
every directory above it. -/
def reaches (names : List Name) : Bool :=
  names.getLast? != some ".git".toList &&
    names.inits.all fun above =>
      above = [] || above = names || enters root (wirePath above)

end Patterns

/-- The call returns exactly the selected files. -/
def ListsSelected (files : FileSystem) (root : AdditionalRoot)
    (entries : List (Name × Node)) : Prop :=
  ∃ paths, enumerateAdditionalRootPaths files root = .ok paths ∧
    paths.Perm (((filesOf entries).filter (selects root)).map wirePath)

/-! ## The walk as a filter -/

section Walk

variable (root : AdditionalRoot)

/-- The walk does not pass over an entry. -/
def passes (rel : List Char) (name : Name) : Bool :=
  name != ".git".toList &&
    !excludes root (normalizeWirePath (entryPath rel name))

/-- The walk lists a file below a node that it does not pass over. -/
def admitsBelow : List Char → List Name → Bool
  | rel, [] => includes root (normalizeWirePath rel)
  | rel, name :: rest =>
    enters root (normalizeWirePath rel) && passes root rel name &&
      admitsBelow (entryPath rel name) rest

/-- The walk lists a file below a directory that it is in. -/
def admits (rel : List Char) : List Name → Bool
  | [] => false
  | name :: rest =>
    passes root rel name && admitsBelow root (entryPath rel name) rest

variable {root}

theorem filter_map_cons (rel : List Char) (name : Name)
    (below : List (List Name)) :
    ((below.map (name :: ·)).filter (admits root rel)).map
        (wirePathFrom rel) =
      if passes root rel name then
        (below.filter (admitsBelow root (entryPath rel name))).map
          (wirePathFrom (entryPath rel name))
      else [] := by
  rw [List.filter_map, List.map_map]
  cases passing : passes root rel name with
  | true =>
    rw [if_pos rfl]
    refine congrArg (List.map _ ·) (List.filter_congr ?_)
    intro names _
    simp [admits, passing]
  | false =>
    rw [if_neg (by simp), List.filter_eq_nil_iff.mpr, List.map_nil]
    intro names _
    simp [admits, passing]

variable {rel : List Char}

theorem filter_admitsBelow_of_enters (below : List (List Name))
    (proper : [] ∉ below) :
    (below.filter (admitsBelow root rel)) =
      if enters root (normalizeWirePath rel) then
        below.filter (admits root rel)
      else [] := by
  cases entering : enters root (normalizeWirePath rel) with
  | true =>
    rw [if_pos rfl]
    refine List.filter_congr ?_
    intro names member
    cases names with
    | nil => exact absurd member proper
    | cons name rest => simp [admits, admitsBelow, entering]
  | false =>
    rw [if_neg (by simp), List.filter_eq_nil_iff]
    intro names member
    cases names with
    | nil => exact absurd member proper
    | cons name rest => simp [admitsBelow, entering]

theorem filter_leaf (rel : List Char) :
    (([[]] : List (List Name)).filter (admitsBelow root rel)).map
        (wirePathFrom rel) =
      if includes root (normalizeWirePath rel) then [normalizeWirePath rel]
      else [] := by
  cases included : includes root (normalizeWirePath rel) with
  | true => simp [admitsBelow, included, wirePathFrom]
  | false => simp [admitsBelow, included]

/-- Below a directory every file has a name. -/
theorem nil_notMem_filesOf (entries : List (Name × Node)) :
    [] ∉ filesOf entries := by
  induction entries with
  | nil => simp [filesOf]
  | cons entry rest inductionHypothesis =>
    obtain ⟨name, node⟩ := entry
    simp [filesOf, filesOfEntry, inductionHypothesis]

mutual

theorem listEntries_eq (rel : List Char) :
    (entries : List (Name × Node)) →
    listEntries root rel entries =
      ((filesOf entries).filter (admits root rel)).map (wirePathFrom rel)
  | [] => rfl
  | entry :: rest => by
    rw [listEntries, filesOf, List.filter_append, List.map_append,
      listEntry_eq rel entry, listEntries_eq rel rest]

theorem listEntry_eq (rel : List Char) :
    (entry : Name × Node) →
    listEntry root rel entry =
      ((filesOfEntry entry).filter (admits root rel)).map (wirePathFrom rel)
  | (name, node) => by
    rw [filesOfEntry, filter_map_cons, listEntry,
      ← listNode_eq (entryPath rel name) node]
    unfold passes excludes
    by_cases git : name = ".git".toList
    · simp [git]
    · have outside : (name != ".git".toList) = true :=
        bne_iff_ne.mpr git
      rw [if_neg git, outside]
      cases root.exclude.any
        (globMatch (normalizeWirePath (entryPath rel name))) <;> rfl

theorem listNode_eq (rel : List Char) :
    (node : Node) →
    listNode root rel node =
      ((filesOfNode node).filter (admitsBelow root rel)).map
        (wirePathFrom rel)
  | .directory entries => by
    rw [listNode, filesOfNode,
      filter_admitsBelow_of_enters _ (nil_notMem_filesOf entries),
      listEntries_eq rel entries]
    unfold enters
    split <;> rfl
  | .file executable content => by
    rw [listNode, filesOfNode, filter_leaf, includes]
  | .link target => by
    rw [listNode, filesOfNode, filter_leaf, includes]

end

/-! ## The conditions on the way to a file -/

/-- What the walk asks of the names below a directory that it is in. -/
structure Admitted (root : AdditionalRoot) (rel : List Char)
    (names : List Name) : Prop where
  outside : ∀ name ∈ names, name ≠ ".git".toList
  included : includes root (wirePathFrom rel names) = true
  kept : ∀ above, above <+: names → above ≠ [] →
    excludes root (wirePathFrom rel above) = false
  entered : ∀ above, above <+: names → above ≠ [] → above ≠ names →
    enters root (wirePathFrom rel above) = true

theorem passes_iff {name : Name} :
    passes root rel name = true ↔
      name ≠ ".git".toList ∧
        excludes root (wirePathFrom rel [name]) = false := by
  unfold passes
  rw [Bool.and_eq_true, bne_iff_ne, Bool.not_eq_true']
  rfl

/-- One name further the conditions are those of the rest, and that the walk
does not pass over the entry and goes into it when it is a directory. -/
theorem admitted_cons {name : Name} {rest : List Name} :
    Admitted root rel (name :: rest) ↔
      passes root rel name = true ∧
        (rest ≠ [] →
          enters root (normalizeWirePath (entryPath rel name)) = true) ∧
        Admitted root (entryPath rel name) rest := by
  rw [passes_iff]
  constructor
  · rintro ⟨outside, included, kept, entered⟩
    rw [List.forall_mem_cons] at outside
    refine ⟨⟨outside.1, kept [name] ⟨rest, rfl⟩ (List.cons_ne_nil _ _)⟩,
      ?_, outside.2, included, ?_, ?_⟩
    · intro present
      exact entered [name] ⟨rest, rfl⟩ (List.cons_ne_nil _ _)
        fun same => present (List.cons.inj same).2.symm
    · intro above before _
      exact kept (name :: above) ((List.prefix_cons_inj name).mpr before)
        (List.cons_ne_nil _ _)
    · intro above before _ proper
      exact entered (name :: above)
        ((List.prefix_cons_inj name).mpr before) (List.cons_ne_nil _ _)
        fun same => proper (List.cons.inj same).2
  · rintro ⟨⟨outside, kept⟩, entering, below⟩
    refine ⟨List.forall_mem_cons.mpr ⟨outside, below.outside⟩,
      below.included, ?_, ?_⟩
    · intro above before present
      rcases List.prefix_cons_iff.mp before with rfl | ⟨inner, rfl, within⟩
      · exact absurd rfl present
      · by_cases first : inner = []
        · rw [first]
          exact kept
        · exact below.kept inner within first
    · intro above before present proper
      rcases List.prefix_cons_iff.mp before with rfl | ⟨inner, rfl, within⟩
      · exact absurd rfl present
      · by_cases first : inner = []
        · subst first
          exact entering fun last => proper (last ▸ rfl)
        · exact below.entered inner within first
            fun same => proper (same ▸ rfl)

variable {names : List Name}

theorem admitsBelow_iff :
    admitsBelow root rel names = true ↔
      (names ≠ [] → enters root (normalizeWirePath rel) = true) ∧
        Admitted root rel names := by
  induction names generalizing rel with
  | nil =>
    constructor
    · intro included
      refine ⟨fun present => absurd rfl present, by simp, included, ?_, ?_⟩
      · intro above before present
        exact absurd (List.prefix_nil.mp before) present
      · intro above before present
        exact absurd (List.prefix_nil.mp before) present
    · rintro ⟨-, admitted⟩
      exact admitted.included
  | cons name rest inductionHypothesis =>
    rw [admitted_cons, admitsBelow, Bool.and_eq_true, Bool.and_eq_true,
      inductionHypothesis, and_assoc]
    exact and_congr_left' ⟨fun entering _ => entering,
      fun entering => entering (List.cons_ne_nil _ _)⟩

/-- The walk lists a file when every condition on the way holds. -/
theorem admits_iff (present : names ≠ []) :
    admits root rel names = true ↔ Admitted root rel names := by
  obtain ⟨name, rest, rfl⟩ := List.exists_cons_of_ne_nil present
  rw [admits, Bool.and_eq_true, admitsBelow_iff, admitted_cons]

theorem selects_iff :
    selects root names = true ↔
      (∀ name ∈ names.dropLast, name ≠ ".git".toList) ∧
        includes root (wirePath names) = true ∧
        ∀ above, above <+: names → above ≠ [] →
          excludes root (wirePath above) = false := by
  unfold selects
  simp only [Bool.and_eq_true, Bool.not_eq_true', bne_iff_ne,
    List.all_eq_true, List.mem_inits, Bool.or_eq_true, decide_eq_true_iff,
    and_assoc, or_iff_not_imp_left, ne_eq]

theorem reaches_iff :
    reaches root names = true ↔
      names.getLast? ≠ some ".git".toList ∧
        ∀ above, above <+: names → above ≠ [] → above ≠ names →
          enters root (wirePath above) = true := by
  unfold reaches
  simp only [Bool.and_eq_true, bne_iff_ne, List.all_eq_true, List.mem_inits,
    Bool.or_eq_true, decide_eq_true_iff, or_assoc]
  simp only [or_iff_not_imp_left, ne_eq]

/-- No name is `.git` when neither the last nor one before it is. -/
theorem forall_outside_iff :
    (∀ name ∈ names, name ≠ ".git".toList) ↔
      (∀ name ∈ names.dropLast, name ≠ ".git".toList) ∧
        names.getLast? ≠ some ".git".toList := by
  rcases List.eq_nil_or_concat names with rfl | ⟨above, last, rfl⟩
  · simp
  · rw [List.concat_eq_append, List.dropLast_concat, List.getLast?_concat,
      List.forall_mem_append, List.forall_mem_singleton, ne_eq, ne_eq,
      Option.some_inj]

/-- The conditions are that the patterns select the file, and that the walk can
come to it. -/
theorem admitted_iff :
    Admitted root [] names ↔
      selects root names = true ∧ reaches root names = true := by
  rw [selects_iff, reaches_iff]
  constructor
  · rintro ⟨outside, included, kept, entered⟩
    rw [forall_outside_iff] at outside
    exact ⟨⟨outside.1, included, kept⟩, outside.2, entered⟩
  · rintro ⟨⟨above, included, kept⟩, last, entered⟩
    exact ⟨forall_outside_iff.mpr ⟨above, last⟩, included, kept, entered⟩

end Walk

/-! ## When exactly the selected files are listed -/

section Listing

variable {files : FileSystem} {root : AdditionalRoot}
  {entries : List (Name × Node)}

/-- Of the items that are kept a second filter loses none exactly when it lets
all of them through. -/
theorem perm_filter_iff {Item Image : Type} {items : List Item}
    {keep also : Item → Bool} (image : Item → Image) :
    ((items.filter fun item => keep item && also item).map image).Perm
        ((items.filter keep).map image) ↔
      ∀ item ∈ items, keep item = true → also item = true := by
  have nested : (items.filter fun item => keep item && also item) =
      (items.filter keep).filter also := by
    rw [List.filter_filter]
    exact List.filter_congr fun item _ => Bool.and_comm _ _
  have all : (∀ item ∈ items.filter keep, also item = true) ↔
      ∀ item ∈ items, keep item = true → also item = true := by
    simp only [List.mem_filter, and_imp]
  rw [nested, ← all]
  constructor
  · intro permuted
    have lengths := permuted.length_eq
    rw [List.length_map, List.length_map] at lengths
    exact List.length_filter_eq_length_iff.mp lengths
  · intro passing
    rw [List.filter_eq_self.mpr passing]

theorem enumerateAdditionalRootPaths_eq
    (present : (files.realPath root.sourcePath).bind files.root.at? =
      some (.directory entries)) :
    enumerateAdditionalRootPaths files root =
      .ok ((((filesOf entries).filter fun names =>
        selects root names && reaches root names).map
          wirePath).insertionSort
            fun first second =>
              Utf16.encode first ≤ Utf16.encode second) := by
  obtain ⟨location, real, found⟩ := Option.bind_eq_some_iff.mp present
  have admitted : (filesOf entries).filter (admits root []) =
      (filesOf entries).filter fun names =>
        selects root names && reaches root names := by
    refine List.filter_congr ?_
    intro names member
    have proper : names ≠ [] := fun empty =>
      nil_notMem_filesOf entries (empty ▸ member)
    rw [Bool.eq_iff_iff, Bool.and_eq_true, admits_iff proper, admitted_iff]
  unfold enumerateAdditionalRootPaths resolveRealPath
  rw [real]
  dsimp only [bind, Except.bind]
  rw [found]
  dsimp only
  rw [listEntries_eq, admitted]
  rfl

/-- The call returns exactly the selected files when the walk can come to each
of them: when none is named `.git`, and every directory above one matches an
include pattern, itself or with `/**` behind it. -/
theorem enumerateAdditionalRootPaths_lists_iff
    (present : (files.realPath root.sourcePath).bind files.root.at? =
      some (.directory entries)) :
    ListsSelected files root entries ↔
      ∀ names ∈ filesOf entries, selects root names = true →
        reaches root names = true := by
  rw [← perm_filter_iff wirePath]
  unfold ListsSelected
  rw [enumerateAdditionalRootPaths_eq present]
  constructor
  · rintro ⟨paths, returned, permuted⟩
    obtain rfl := Except.ok.inj returned
    exact (List.perm_insertionSort _ _).symm.trans permuted
  · intro permuted
    exact ⟨_, rfl, (List.perm_insertionSort _ _).trans permuted⟩

end Listing

/-! ## A pattern with a wildcard in the middle -/

/-- A directory with one source file in a subdirectory. -/
def sampleFiles : FileSystem where
  entries :=
    [("lib".toList, .directory
      [("src".toList, .directory [("a.ts".toList, .file false [1])])])]
  workingDirectory := []
  workingDirectory_resolved := resolved_nil

def sampleRoot (include_ : List Char) : AdditionalRoot where
  sourcePath := "/lib".toList
  mountPath := "deps".toList
  include_ := [include_]
  exclude := []

theorem enumerateAdditionalRootPaths_lists_all :
    ListsSelected sampleFiles (sampleRoot "**/*".toList)
        [("src".toList, .directory [("a.ts".toList, .file false [1])])] ↔
      ∀ names ∈ filesOf
          [("src".toList, .directory [("a.ts".toList, .file false [1])])],
        selects (sampleRoot "**/*".toList) names = true →
          reaches (sampleRoot "**/*".toList) names = true :=
  enumerateAdditionalRootPaths_lists_iff rfl

/-- The pattern selects the file, and the call returns no path: the directory
of the file does not match the pattern. -/
theorem enumerateAdditionalRootPaths_misses_file :
    (filesOf [("src".toList,
        .directory [("a.ts".toList, .file false [1])])]).filter
          (selects (sampleRoot "src/*.ts".toList)) =
      [["src".toList, "a.ts".toList]] ∧
    enumerateAdditionalRootPaths sampleFiles
      (sampleRoot "src/*.ts".toList) = .ok [] ∧
    ¬ ListsSelected sampleFiles (sampleRoot "src/*.ts".toList)
        [("src".toList, .directory [("a.ts".toList, .file false [1])])] := by
  have selected : (filesOf [("src".toList,
        .directory [("a.ts".toList, .file false [1])])]).filter
          (selects (sampleRoot "src/*.ts".toList)) =
      [["src".toList, "a.ts".toList]] := by
    decide +kernel
  have returned : enumerateAdditionalRootPaths sampleFiles
      (sampleRoot "src/*.ts".toList) = .ok [] := by
    rfl
  refine ⟨selected, returned, ?_⟩
  rintro ⟨paths, lists, permuted⟩
  rw [selected] at permuted
  obtain rfl := Except.ok.inj (returned.symm.trans lists)
  exact absurd permuted.length_eq (by decide)

end Rbo.Snapshot.RootListing
