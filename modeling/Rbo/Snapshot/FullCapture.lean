import Rbo.Snapshot.CaptureGuard

/-!
# A full capture of a project that changes

`captureFullSnapshot` lists the project and the additional roots, takes the
identity of each path, and reads what is there.  `validateCaptureGuard` lists
them again and compares the identities, before and after the archive is
written.

A path that was there keeps its identity, and is archived as it stood all the
time.  Of a path that was not there each listing says so for one moment only.
-/

namespace Rbo.Snapshot.FullCapture

open Rbo.Foundation
open Rbo.Snapshot.Capture (normalizeWirePath)
open Rbo.Snapshot.OverlayPlan (Blob Tree)
open Rbo.Snapshot.CaptureGuard

/-! ## The readings of a call -/

/-- What Git is to list: the index, without its submodules, and the paths
outside of it that the policy selects by the ignore rules; so are those in
clean submodules. -/
structure Source where
  tracked : Nat → Path → Bool
  selects : Nat → Path → Bool

/-- A file or a link. -/
def isSource (entry : Option Entry) : Bool :=
  (entry.bind blobOf).isSome

section Listing

variable (history : History) (source : Source)

/-- A path of the index at one time, or one outside of it at another. -/
def Source.lists (indexed time : Nat) (path : Path) : Bool :=
  source.tracked indexed path ||
    !source.tracked time path && source.selects time path &&
      isSource (history.world time ⟨none, path⟩)

/-- A listing of the project (`enumerateFullCapturePaths`): the index is read
once, and each path outside of it is looked at in its moment. -/
structure Listing where
  indexed : Nat
  moment : Path → Nat
  paths : List Path
  lists : ∀ path, path ∈ paths ↔ ∃ raw, normalizeWirePath raw = path ∧
    source.lists history indexed (moment raw) raw = true

/-- An additional root, with the listings of both comparisons. -/
structure FullRoot where
  readings : RootReadings history
  validated : Walk history readings.index readings.root
  validatedAgain : Walk history readings.index readings.root

/-- What a call reads, and when. -/
structure Readings where
  start : Nat
  finish : Nat
  /-- The guard is complete. -/
  guarded : Nat
  /-- The identities are compared for the last time from here on. -/
  compared : Nat
  listing : Listing history source
  validated : Listing history source
  validatedAgain : Listing history source
  visit : Path → Visit
  /-- The loop over the paths calls `lstat`. -/
  probed : Path → Nat
  /-- The index lists a path as executable. -/
  staged : Path → Bool
  /-- The untracked paths of the status that `findEmptyUntrackedDirectories`
  asks for, and those that lead to an empty directory when it looks. -/
  untracked : List Path
  looked : Path → Nat
  leadsToEmpty : Path → Bool
  leads : ∀ path, leadsToEmpty path = true →
    ∃ entry, history.world (looked path) ⟨none, path⟩ = some entry ∧
      (entry.node = .directory ∨ ∃ target, entry.node = .symlink target)
  roots : List (FullRoot history)
  inOrder : ∀ path, start ≤ listing.moment path ∧
    (visit path).identified ≤ guarded ∧ guarded ≤ probed path ∧
    probed path ≤ (visit path).examined ∧
    (visit path).after ≤ compared ∧ compared ≤ (visit path).validatedAgain ∧
    (visit path).validatedAgain ≤ finish
  rootsInOrder : ∀ root ∈ roots, ∀ path,
    (root.readings.visit path).identified ≤ guarded ∧
      compared ≤ (root.readings.visit path).validatedAgain
  inside : start ≤ guarded ∧ guarded ≤ compared ∧ compared ≤ finish

end Listing

/-- What a call returns: the archived files and directories of the project, and
the files of the additional roots. -/
structure FullSnapshot where
  files : List (Path × Blob)
  directories : List Path
  roots : List (List (Path × Blob))
  deriving DecidableEq

section Call

variable {history : History} {source : Source}

/-- A root whose listings agree. -/
def captureFullRoot (root : FullRoot history) : Option (List (Path × Blob)) :=
  if root.validated.paths = root.readings.guarded.paths &&
      root.validatedAgain.paths = root.readings.guarded.paths then
    captureRoot root.readings
  else none

variable (readings : Readings history source)

/-- The comparisons of `validateCaptureGuard`, for the project. -/
def validateCaptureGuard : Bool :=
  readings.validated.paths = readings.listing.paths &&
    readings.validatedAgain.paths = readings.listing.paths &&
    readings.listing.paths.all fun path =>
      keepsIdentity history ⟨none, path⟩ (readings.visit path)

/-- The paths that are captured: a path that is no file or link is passed
over. -/
def capturedPaths : List Path :=
  readings.listing.paths.filter fun path =>
    isSource (history.world (readings.probed path) ⟨none, path⟩)

/-- `captureFullSnapshot`, when no other check refuses the capture. -/
def captureFullSnapshot : Option FullSnapshot := do
  if validateCaptureGuard readings then
    let files ← captureAll (capturedPaths readings) fun path =>
      archivedBlob history ⟨none, path⟩ (readings.visit path)
        (readings.staged path)
    let roots ← readings.roots.mapM captureFullRoot
    some
      { files := files
        directories := findEmptyUntrackedDirectories readings.untracked
          readings.leadsToEmpty
        roots := roots }
  else none

def kindAndBytes (blob : Blob) : Bool × List UInt8 :=
  (decide (blob.mode = .symlink), blob.content)

/-- The files and links of the project that are selected at a time. -/
def projectTree (history : History) (source : Source) (time : Nat) : Tree :=
  fun path =>
    if source.tracked time path || source.selects time path then
      (history.world time ⟨none, path⟩).bind blobOf
    else none

/-- The archive is that of one moment of the call. -/
def Consistent (snapshot : FullSnapshot) : Prop :=
  ∃ moment, readings.start ≤ moment ∧ moment ≤ readings.finish ∧
    (∀ path : Path, (snapshot.files.lookup path).map kindAndBytes =
      (projectTree history source moment path).map kindAndBytes) ∧
    (∀ directory ∈ snapshot.directories,
      (history.world moment ⟨none, directory⟩).map Entry.node =
        some .directory) ∧
    List.Forall₂ (fun root files => ∀ path : Path,
        files.lookup path = rootTree root.readings moment path)
      readings.roots snapshot.roots

/-! ## When it is consistent -/

/-- No path is in an additional root at a moment that the guard's listing has
missed, and no path is captured that it has missed. -/
structure RootQuiet (root : RootReadings history) (moment : Nat) : Prop where
  there : ∀ path ∈ root.guarded.paths,
    history.world (root.visit path).identified (root.place path) ≠ none
  quiet : ∀ path, walked root.root path = true →
    isListed (history.world moment (root.place path)) = true →
      path ∈ root.guarded.paths
  appears : ∀ path, path ∉ root.guarded.paths → path ∉ root.captured.paths
  links : ∀ path ∈ root.captured.paths, ∀ entry target,
    history.world moment (root.place path) = some entry →
      entry.node = .symlink target → normalizeWirePath target = target

/-- At a moment between the guard and the last comparison no selected path is
there that was missing when the guard looked, and the listed paths are selected
still; a path that was missing is missing when the loop comes to it.  Links are
written as they are, and no untracked link leads to an empty directory. -/
structure Settled (moment : Nat) : Prop where
  during : readings.guarded ≤ moment ∧ moment ≤ readings.compared
  quiet : ∀ path,
    (source.tracked moment path || source.selects moment path) = true →
      isSource (history.world moment ⟨none, path⟩) = true →
        path ∈ readings.listing.paths ∧
          history.world (readings.visit path).identified ⟨none, path⟩ ≠ none
  selected : ∀ path ∈ readings.listing.paths,
    (source.tracked moment path || source.selects moment path) = true
  passed : ∀ path ∈ readings.listing.paths,
    history.world (readings.visit path).identified ⟨none, path⟩ = none →
      isSource (history.world (readings.probed path) ⟨none, path⟩) = false
  links : ∀ path ∈ readings.listing.paths, ∀ entry target,
    history.world moment ⟨none, path⟩ = some entry →
      entry.node = .symlink target → normalizeWirePath target = target
  directories : ∀ path ∈ readings.untracked,
    readings.leadsToEmpty path = true → normalizeWirePath path = path ∧
      (∀ entry target,
        history.world (readings.looked path) ⟨none, path⟩ = some entry →
          entry.node ≠ .symlink target) ∧
      Unmodified history ⟨none, path⟩ (readings.looked path) moment
  roots : ∀ root ∈ readings.roots, RootQuiet root.readings moment

end Call

/-! ## The project -/

section Project

variable {history : History} {source : Source}
  {readings : Readings history source} {moment : Nat} {path : Path}

/-- The index decides the executable bit alone. -/
theorem kindAndBytes_archivedBlob (place : Place) (visit : Visit)
    (staged : Bool) :
    (archivedBlob history place visit staged).map kindAndBytes =
      (archivedBlob history place visit false).map kindAndBytes := by
  unfold archivedBlob captureMetadataPreflightEntry
  cases (history.world visit.examined place).map Entry.node with
  | none => rfl
  | some node =>
    cases node with
    | file executable content =>
      dsimp only
      rw [Option.map_map, Option.map_map]
      cases staged <;> cases executable <;> rfl
    | symlink target => rfl
    | directory => rfl
    | other => rfl

/-- A path that was there is archived as it is at the moment. -/
theorem lookup_of_there
    (settled : Settled readings moment)
    (valid : validateCaptureGuard readings = true)
    {files : List (Path × Blob)}
    (captured : captureAll (capturedPaths readings) (fun path =>
      archivedBlob history ⟨none, path⟩ (readings.visit path)
        (readings.staged path)) = some files)
    (inside : path ∈ readings.listing.paths) {entry : Entry}
    (there : history.world (readings.visit path).identified ⟨none, path⟩ =
      some entry) :
    (files.lookup path).map kindAndBytes =
      (projectTree history source moment path).map kindAndBytes := by
  obtain ⟨-, early, probe, late, -, last, -⟩ := readings.inOrder path
  obtain ⟨first, second, third, fourth, fifth, sixth, seventh, eighth⟩ :=
    (readings.visit path).ordered
  unfold validateCaptureGuard at valid
  rw [Bool.and_eq_true, List.all_eq_true] at valid
  have steady : ∀ time, (readings.visit path).identified ≤ time →
      time ≤ (readings.visit path).validatedAgain →
        history.world time ⟨none, path⟩ = some entry :=
    fun time => world_of_keepsIdentity (valid.2 path inside) there
  have now : history.world moment ⟨none, path⟩ = some entry :=
    steady moment (early.trans settled.during.1)
      (settled.during.2.trans last)
  have probed : history.world (readings.probed path) ⟨none, path⟩ =
      some entry :=
    steady _ (early.trans probe) (by omega)
  rw [lookup_captureAll captured]
  unfold projectTree capturedPaths
  rw [if_pos (settled.selected path inside), now, Option.bind_some]
  by_cases isFile : isSource (some entry) = true
  · have member : path ∈ readings.listing.paths.filter fun path =>
        isSource (history.world (readings.probed path) ⟨none, path⟩) := by
      rw [List.mem_filter, probed]
      exact ⟨inside, isFile⟩
    obtain ⟨blob, archived⟩ := isSome_of_captureAll captured member
    rw [if_pos member]
    have unstaged : (archivedBlob history ⟨none, path⟩ (readings.visit path)
        false).map kindAndBytes = some (kindAndBytes blob) := by
      rw [← kindAndBytes_archivedBlob _ _ (readings.staged path), archived]
      rfl
    obtain ⟨same, archivedSame, kind⟩ := Option.map_eq_some_iff.mp unstaged
    rw [archived, archivedBlob_eq steady archivedSame (fun _ _ => rfl)
      (settled.links path inside entry · now ·), Option.map_some,
      Option.map_some, kind]
  · rw [if_neg fun member => isFile (by
      rw [List.mem_filter, probed] at member
      exact member.2)]
    unfold isSource at isFile
    rw [Option.bind_some, Option.not_isSome_iff_eq_none] at isFile
    rw [isFile]

/-- The project is captured as it is at the moment. -/
theorem lookup_of_settled
    (settled : Settled readings moment)
    (valid : validateCaptureGuard readings = true)
    {files : List (Path × Blob)}
    (captured : captureAll (capturedPaths readings) (fun path =>
      archivedBlob history ⟨none, path⟩ (readings.visit path)
        (readings.staged path)) = some files) (path : Path) :
    (files.lookup path).map kindAndBytes =
      (projectTree history source moment path).map kindAndBytes := by
  by_cases found : path ∈ readings.listing.paths ∧
      history.world (readings.visit path).identified ⟨none, path⟩ ≠ none
  · obtain ⟨entry, there⟩ := Option.ne_none_iff_exists'.mp found.2
    exact lookup_of_there settled valid captured found.1 there
  · have absent : path ∉ capturedPaths readings := by
      intro member
      obtain ⟨inside, probed⟩ := List.mem_filter.mp member
      have missing : history.world (readings.visit path).identified
          ⟨none, path⟩ = none := by
        by_contra there
        exact found ⟨inside, there⟩
      rw [settled.passed path inside missing] at probed
      cases probed
    rw [lookup_captureAll captured, if_neg absent]
    unfold projectTree
    split
    · rename_i selected
      have gone : isSource (history.world moment ⟨none, path⟩) = false :=
        Bool.eq_false_iff.mpr fun is =>
          found (settled.quiet path selected is)
      unfold isSource at gone
      rw [Option.isSome_eq_false_iff, Option.isNone_iff_eq_none] at gone
      rw [gone]
    · rfl

theorem directory_of_settled (settled : Settled readings moment)
    {directory : Path}
    (member : directory ∈ findEmptyUntrackedDirectories readings.untracked
      readings.leadsToEmpty) :
    (history.world moment ⟨none, directory⟩).map Entry.node =
      some .directory := by
  obtain ⟨path, untracked, leads, rfl⟩ :=
    mem_findEmptyUntrackedDirectories.mp member
  obtain ⟨plain, noLink, unmodified⟩ :=
    settled.directories path untracked leads
  obtain ⟨entry, found, directory | ⟨target, link⟩⟩ :=
    readings.leads path leads
  · rw [plain, unmodified.world_eq, found, Option.map_some, directory]
  · exact absurd link (noLink entry target found)

end Project

/-! ## The additional roots -/

section Roots

variable {history : History} {source : Source}
  {readings : Readings history source} {moment : Nat}

/-- A quiet root is captured as it is at the moment. -/
theorem lookup_of_quiet {root : RootReadings history}
    {files : List (Path × Blob)}
    (captured : captureRoot root = some files)
    (quiet : RootQuiet root moment)
    (inOrder : ∀ path, (root.visit path).identified ≤ moment ∧
      moment ≤ (root.visit path).validatedAgain) (path : Path) :
    files.lookup path = rootTree root moment path := by
  obtain ⟨keeps, captured⟩ := Option.ite_none_right_eq_some.mp captured
  rw [List.all_eq_true] at keeps
  rw [lookup_captureAll captured]
  unfold rootTree
  by_cases guarded : path ∈ root.guarded.paths
  · obtain ⟨walks, -⟩ := (root.guarded.lists path).mp guarded
    obtain ⟨entry, there⟩ :=
      Option.ne_none_iff_exists'.mp (quiet.there path guarded)
    obtain ⟨first, second, third, fourth, fifth, sixth, seventh, last⟩ :=
      (root.visit path).ordered
    obtain ⟨-, after, before⟩ := root.ordered path
    have steady := fun time => @world_of_keepsIdentity _ _ _ _
      (keeps path guarded) there time
    have now : history.world moment (root.place path) = some entry :=
      steady moment (inOrder path).1 (inOrder path).2
    have again : history.world (root.captured.moment path)
        ⟨some root.index, path⟩ = some entry :=
      steady _ after (by omega)
    rw [if_pos walks, now, Option.bind_some]
    by_cases listed : isListed (some entry) = true
    · have inside : path ∈ root.captured.paths := by
        refine (root.captured.lists path).mpr ⟨walks, ?_⟩
        rw [again]
        exact listed
      obtain ⟨blob, archived⟩ := isSome_of_captureAll captured inside
      rw [if_pos inside, archived]
      exact (archivedBlob_eq steady archived (fun _ _ => rfl)
        (quiet.links path inside entry · now ·)).symm
    · have outside : path ∉ root.captured.paths := by
        intro inside
        apply listed
        rw [← again]
        exact ((root.captured.lists path).mp inside).2
      rw [if_neg outside]
      exact (@blobOf_of_not_listed (some entry)
        (Bool.eq_false_iff.mpr listed)).symm
  · rw [if_neg (quiet.appears path guarded)]
    by_cases walks : walked root.root path = true
    · have unlisted : isListed (history.world moment (root.place path)) =
          false :=
        Bool.eq_false_iff.mpr fun listed =>
          guarded (quiet.quiet path walks listed)
      rw [if_pos walks, blobOf_of_not_listed unlisted]
    · rw [if_neg walks]

theorem roots_of_quiet {all : List (FullRoot history)}
    {files : List (List (Path × Blob))}
    (captured : all.mapM captureFullRoot = some files)
    (quiet : ∀ root ∈ all, RootQuiet root.readings moment)
    (inOrder : ∀ root ∈ all, ∀ path,
      (root.readings.visit path).identified ≤ moment ∧
        moment ≤ (root.readings.visit path).validatedAgain) :
    List.Forall₂ (fun root files => ∀ path : Path,
      files.lookup path = rootTree root.readings moment path) all files := by
  induction all generalizing files with
  | nil =>
    obtain rfl := Option.some.inj captured
    exact .nil
  | cons root all inductionHypothesis =>
    rw [List.forall_mem_cons] at quiet inOrder
    rw [List.mapM_cons] at captured
    obtain ⟨first, ofRoot, captured⟩ :=
      Option.bind_eq_some_iff.mp captured
    obtain ⟨rest, ofAll, captured⟩ := Option.bind_eq_some_iff.mp captured
    obtain rfl := Option.some.inj captured
    obtain ⟨-, ofRoot⟩ := Option.ite_none_right_eq_some.mp ofRoot
    exact .cons (lookup_of_quiet ofRoot quiet.1 inOrder.1)
      (inductionHypothesis ofAll quiet.2 inOrder.2)

end Roots

/-- A call that has a settled moment returns the files of that moment. -/
theorem captureFullSnapshot_consistent {history : History} {source : Source}
    (readings : Readings history source) {snapshot : FullSnapshot}
    {moment : Nat}
    (captured : captureFullSnapshot readings = some snapshot)
    (settled : Settled readings moment) :
    Consistent readings snapshot := by
  obtain ⟨valid, captured⟩ := Option.ite_none_right_eq_some.mp captured
  obtain ⟨files, ofFiles, captured⟩ := Option.bind_eq_some_iff.mp captured
  obtain ⟨roots, ofRoots, captured⟩ := Option.bind_eq_some_iff.mp captured
  obtain rfl := Option.some.inj captured
  obtain ⟨early, late⟩ := settled.during
  obtain ⟨first, -, last⟩ := readings.inside
  refine ⟨moment, first.trans early, late.trans last,
    lookup_of_settled settled valid ofFiles,
    fun directory => directory_of_settled settled,
    roots_of_quiet ofRoots settled.roots ?_⟩
  intro root member path
  obtain ⟨before, after⟩ := readings.rootsInOrder root member path
  exact ⟨before.trans early, late.trans after⟩

/-! ## Projects that stand still -/

/-- Nothing changes. -/
def stillHistory (tree : Place → Option Entry) : History where
  world := fun _ => tree
  held := fun place _ _ => tree place
  fresh := fun _ _ _ _ _ _ _ _ => rfl
  holds := fun _ _ _ _ _ => rfl

def nodeEntry (node : Node) (size : Nat)
    (sized : ∀ executable content, node = .file executable content →
      size = content.length) : Entry where
  node := node
  size := size
  mtime := 0
  ctime := 0
  dev := 1
  ino := 1
  sized := sized

/-- An untracked path of the project, and the empty directory `d`. -/
def oneUntracked (entry : Entry) (place : Place) : Option Entry :=
  if place = ⟨none, ['a']⟩ then some entry
  else if place = ⟨none, ['d']⟩ then
    some (nodeEntry .directory 0 (fun _ _ => nofun))
  else none

/-- The policy selects `a`. -/
def onlyA : Source where
  tracked := fun _ _ => false
  selects := fun _ path => path = ['a']

def listingOfA (entry : Entry) (source : isSource (some entry) = true) :
    Listing (stillHistory (oneUntracked entry)) onlyA where
  indexed := 0
  moment := fun _ => 0
  paths := [['a']]
  lists := by
    intro path
    constructor
    · intro member
      obtain rfl := List.mem_singleton.mp member
      exact ⟨['a'], rfl, source⟩
    · rintro ⟨raw, rfl, listed⟩
      have selected : decide (raw = ['a']) = true :=
        (Bool.and_eq_true_iff.mp listed).1
      rw [of_decide_eq_true selected]
      exact List.mem_cons_self

def promptVisit : Visit where
  identified := 1
  examined := 2
  linkRead := 2
  validated := 3
  listed := 4
  opened := 4
  before := 4
  reads := [(4, 1)]
  after := 5
  validatedAgain := 6
  ordered := by decide
  reading := by decide

def readingsOfA (entry : Entry) (source : isSource (some entry) = true)
    (leadsToEmpty : Bool)
    (leads : leadsToEmpty = true →
      entry.node = .directory ∨ ∃ target, entry.node = .symlink target) :
    Readings (stillHistory (oneUntracked entry)) onlyA where
  start := 0
  finish := 7
  guarded := 1
  compared := 5
  listing := listingOfA entry source
  validated := listingOfA entry source
  validatedAgain := listingOfA entry source
  visit := fun _ => promptVisit
  probed := fun _ => 2
  staged := fun _ => false
  untracked := [['a']]
  looked := fun _ => 3
  leadsToEmpty := fun path => decide (path = ['a']) && leadsToEmpty
  leads := by
    intro path empty
    rw [Bool.and_eq_true, decide_eq_true_eq] at empty
    obtain ⟨rfl, empty⟩ := empty
    exact ⟨entry, rfl, leads empty⟩
  roots := []
  inOrder := fun _ => ⟨le_rfl, by decide⟩
  rootsInOrder := by
    intro root member
    cases member
  inside := by decide

def plainFile : Entry :=
  nodeEntry (.file false [1]) 1 (by
    rintro executable content same
    cases same
    rfl)

def linkToEmpty : Entry :=
  nodeEntry (.symlink ['d']) 1 (fun _ _ => nofun)

def fileReadings : Readings (stillHistory (oneUntracked plainFile)) onlyA :=
  readingsOfA plainFile rfl false (fun empty => nomatch empty)

/-- An untracked link to an empty directory. -/
def linkReadings : Readings (stillHistory (oneUntracked linkToEmpty)) onlyA :=
  readingsOfA linkToEmpty rfl true (fun _ => Or.inr ⟨['d'], rfl⟩)

theorem settled_fileReadings : Settled fileReadings 2 where
  during := by decide
  quiet := by
    intro path selected there
    have isA : path = ['a'] := of_decide_eq_true selected
    subst isA
    exact ⟨List.mem_cons_self, Option.some_ne_none _⟩
  selected := by
    intro path member
    obtain rfl := List.mem_singleton.mp member
    rfl
  passed := by
    intro path member missing
    obtain rfl := List.mem_singleton.mp member
    cases missing
  links := by
    intro path member entry target found link
    obtain rfl := List.mem_singleton.mp member
    obtain rfl := Option.some.inj found
    cases link
  directories := by
    intro path member empty
    cases (Bool.and_eq_true_iff.mp empty).2
  roots := by
    intro root member
    cases member

theorem captureFullSnapshot_consistent_file :
    Consistent fileReadings
      ⟨[(['a'], ⟨.regular, [1]⟩)], [], []⟩ :=
  captureFullSnapshot_consistent fileReadings (by rfl) settled_fileReadings

/-- The archive has a link to an empty directory as a directory, too. -/
theorem link_captured_as_directory :
    captureFullSnapshot linkReadings =
        some ⟨[(['a'], ⟨.symlink, [100]⟩)], [['a']], []⟩ ∧
      ¬ Consistent linkReadings
        ⟨[(['a'], ⟨.symlink, [100]⟩)], [['a']], []⟩ := by
  refine ⟨by rfl, ?_⟩
  rintro ⟨moment, -, -, -, directories, -⟩
  cases directories ['a'] List.mem_cons_self

end Rbo.Snapshot.FullCapture
