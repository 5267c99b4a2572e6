import Rbo.Snapshot.OverlayPlan
import Rbo.Snapshot.RootListing

/-!
# Reading files that may change

A capture takes the identity of each path, reads the path, and takes the
identity again, before and after the archive is written (`buildCaptureGuard`,
`validateCaptureGuard`).  Other processes change the files at any time: a
history gives what stands at each path at every moment.  Every change gives a
path an identity that it has at no other time.

A path that was there and has kept its identity has not changed, and what was
read of it in between is what stood there.
-/

namespace Rbo.Snapshot.CaptureGuard

open Rbo.Foundation
open Rbo.Snapshot.Capture
open Rbo.Snapshot.OverlayPlan

abbrev Path := List Char

/-! ## Files over time -/

/-- What stands at a path; links are not followed. -/
inductive Node where
  | file (executable : Bool) (content : List UInt8)
  | symlink (target : Path)
  | directory
  | other
  deriving DecidableEq

/-- A node with the rest of its stat. -/
structure Entry where
  node : Node
  size : Nat
  mtime : Nat
  ctime : Nat
  dev : Nat
  ino : Nat
  sized : ∀ executable content, node = .file executable content →
    size = content.length
  deriving DecidableEq

inductive FileType where
  | file
  | symlink
  | directory
  | missing
  deriving DecidableEq

/-- `FileIdentity`, of one path. -/
structure FileIdentity where
  type : FileType
  size : Nat
  mtime : Nat
  fileId : Option (Nat × Nat)
  deriving DecidableEq

def Entry.fileId (entry : Entry) : Nat × Nat :=
  if entry.ino ≠ 0 then (entry.dev, entry.ino) else (entry.size, entry.mtime)

/-- `statFileIdentity`, of what stands at the path. -/
def statFileIdentity : Option Entry → FileIdentity
  | none => ⟨.missing, 0, 0, none⟩
  | some entry =>
    match entry.node with
    | .symlink _ => ⟨.symlink, entry.size, entry.mtime, some entry.fileId⟩
    | .directory => ⟨.directory, 0, entry.mtime, some entry.fileId⟩
    | .file .. => ⟨.file, entry.size, entry.mtime, some entry.fileId⟩
    | .other => ⟨.file, entry.size, entry.mtime, some entry.fileId⟩

/-- A path of the repository, or of an additional root. -/
structure Place where
  root : Option Nat
  path : Path
  deriving DecidableEq

/-- Files that change.  A handle keeps to the file that was opened; no change
gives a path an identity that it has at another time. -/
structure History where
  world : Nat → Place → Option Entry
  /-- What a handle of a place that was opened at a time holds at another. -/
  held : Place → Nat → Nat → Option Entry
  fresh : ∀ place first time last, first ≤ time → time ≤ last →
    world first place ≠ none →
    statFileIdentity (world first place) =
      statFileIdentity (world last place) →
    world time place = world first place
  holds : ∀ place opened time, opened ≤ time →
    (∀ between, opened ≤ between → between ≤ time →
      world between place = world opened place) →
    held place opened time = world opened place

/-- The file or link of the working tree. -/
def blobOf (entry : Entry) : Option Blob :=
  match entry.node with
  | .file executable content =>
    some ⟨if executable then .executable else .regular, content⟩
  | .symlink target => some ⟨.symlink, Utf8.encode target⟩
  | _ => none

/-- A path is not changed between two moments. -/
def Unmodified (history : History) (place : Place) (first last : Nat) :
    Prop :=
  ∀ time, min first last ≤ time → time ≤ max first last →
    history.world time place = history.world first place

/-! ## Reading one path -/

/-- The moments at which a path is visited. -/
structure Visit where
  /-- The guard takes the identity. -/
  identified : Nat
  /-- The preflight calls `lstat`, and reads a link. -/
  examined : Nat
  linkRead : Nat
  /-- The identity is compared before the archive is written. -/
  validated : Nat
  /-- The archive calls `lstat`, opens the file, takes the stat of the handle,
  reads some bytes at some moments, and takes the stat again. -/
  listed : Nat
  opened : Nat
  before : Nat
  reads : List (Nat × Nat)
  after : Nat
  /-- The identity is compared when the archive is written. -/
  validatedAgain : Nat
  ordered : identified ≤ examined ∧ examined ≤ linkRead ∧
    linkRead ≤ validated ∧ validated ≤ listed ∧ listed ≤ opened ∧
    opened ≤ before ∧ before ≤ after ∧ after ≤ validatedAgain
  reading : ∀ read ∈ reads, before ≤ read.1 ∧ read.1 ≤ after

/-- What the preflight keeps of a path. -/
inductive Captured where
  | file (executable : Bool)
  | symlink (target : Path)
  deriving DecidableEq

section Reading

variable (history : History) (place : Place) (visit : Visit)

/-- `captureMetadataPreflightEntry`; the index may list the path as
executable. -/
def captureMetadataPreflightEntry (staged : Bool) : Option Captured :=
  match (history.world visit.examined place).map Entry.node with
  | some (.symlink _) =>
    match (history.world visit.linkRead place).map Entry.node with
    | some (.symlink target) => some (.symlink (normalizeWirePath target))
    | _ => none
  | some (.file executable _) => some (.file (staged || executable))
  | _ => none

/-- The content of a file, if it is one. -/
def contentOf (entry : Option Entry) : List UInt8 :=
  match entry.map Entry.node with
  | some (.file _ content) => content
  | _ => []

/-- What is read from an offset on, some bytes at a time. -/
def readPieces (content : Nat → List UInt8) :
    Nat → List (Nat × Nat) → List UInt8
  | _, [] => []
  | offset, read :: reads =>
    ((content read.1).drop offset).take read.2 ++
      readPieces content (offset + read.2) reads

def isFile (entry : Option Entry) : Bool :=
  match entry.map Entry.node with
  | some (.file ..) => true
  | _ => false

/-- The stats of a handle that are compared. -/
def sameStat (first second : Entry) : Bool :=
  first.size = second.size && first.mtime = second.mtime &&
    first.ctime = second.ctime && first.dev = second.dev &&
    first.ino = second.ino

/-- The content that the archive has of a file. -/
def archiveContent : Option (List UInt8) :=
  if isFile (history.world visit.listed place) then
    match history.held place visit.opened visit.before,
        history.held place visit.opened visit.after with
    | some before, some after =>
      let bytes := readPieces
        (fun time => contentOf (history.held place visit.opened time)) 0
        visit.reads
      if isFile (some before) && bytes.length = before.size &&
          sameStat before after then
        some bytes
      else none
    | _, _ => none
  else none

/-- What the archive has of a path. -/
def archivedBlob (staged : Bool) : Option Blob :=
  match captureMetadataPreflightEntry history place visit staged with
  | some (.file executable) =>
    (archiveContent history place visit).map fun content =>
      ⟨if executable then .executable else .regular, content⟩
  | some (.symlink target) => some ⟨.symlink, Utf8.encode target⟩
  | none => none

/-- The identity is that of the guard at both comparisons. -/
def keepsIdentity : Bool :=
  statFileIdentity (history.world visit.validated place) =
      statFileIdentity (history.world visit.identified place) &&
    statFileIdentity (history.world visit.validatedAgain place) =
      statFileIdentity (history.world visit.identified place)

end Reading

/-! ## What is read of a path that does not change -/

section Steady

variable {history : History} {place : Place} {visit : Visit} {entry : Entry}

/-- A path that keeps its identity stays as the guard has seen it. -/
theorem world_of_keepsIdentity
    (keeps : keepsIdentity history place visit = true)
    (there : history.world visit.identified place = some entry) {time : Nat}
    (from_ : visit.identified ≤ time)
    (until_ : time ≤ visit.validatedAgain) :
    history.world time place = some entry := by
  unfold keepsIdentity at keeps
  rw [Bool.and_eq_true, decide_eq_true_eq, decide_eq_true_eq] at keeps
  rw [← there]
  refine history.fresh place _ time _ from_ until_ ?_ keeps.2.symm
  rw [there]
  exact Option.some_ne_none entry

/-- How many bytes some reads ask for. -/
def asked : List (Nat × Nat) → Nat
  | [] => 0
  | read :: reads => read.2 + asked reads

theorem readPieces_eq {content : Nat → List UInt8} {same : List UInt8}
    {reads : List (Nat × Nat)}
    (steady : ∀ read ∈ reads, content read.1 = same) (offset : Nat) :
    readPieces content offset reads =
      (same.drop offset).take (asked reads) := by
  induction reads generalizing offset with
  | nil => rfl
  | cons read reads inductionHypothesis =>
    rw [List.forall_mem_cons] at steady
    rw [readPieces, steady.1, inductionHypothesis steady.2, asked,
      List.take_add, List.drop_drop]

/-- Pieces of a file that have its length are the file. -/
theorem readPieces_whole {content : Nat → List UInt8} {same : List UInt8}
    {reads : List (Nat × Nat)}
    (steady : ∀ read ∈ reads, content read.1 = same)
    (whole : (readPieces content 0 reads).length = same.length) :
    readPieces content 0 reads = same := by
  rw [readPieces_eq steady, List.drop_zero] at whole ⊢
  rw [List.length_take] at whole
  exact List.take_of_length_le (by omega)

variable (steady : ∀ time, visit.identified ≤ time →
  time ≤ visit.validatedAgain → history.world time place = some entry)

include steady

/-- A handle of a file that does not change holds the file. -/
theorem held_eq {time : Nat} (from_ : visit.opened ≤ time)
    (until_ : time ≤ visit.after) :
    history.held place visit.opened time = some entry := by
  obtain ⟨first, second, third, fourth, fifth, sixth, seventh, last⟩ :=
    visit.ordered
  have opened : history.world visit.opened place = some entry :=
    steady _ (by omega) (by omega)
  rw [← opened]
  refine history.holds place visit.opened time from_ ?_
  intro between early late
  rw [opened]
  exact steady between (by omega) (by omega)

theorem archiveContent_eq {content bytes : List UInt8} {executable : Bool}
    (node : entry.node = .file executable content)
    (archived : archiveContent history place visit = some bytes) :
    bytes = content := by
  obtain ⟨first, second, third, fourth, fifth, sixth, seventh, last⟩ :=
    visit.ordered
  unfold archiveContent at archived
  rw [held_eq steady sixth seventh,
    held_eq steady (sixth.trans seventh) le_rfl] at archived
  obtain ⟨-, archived⟩ := Option.ite_none_right_eq_some.mp archived
  obtain ⟨checks, same⟩ := Option.ite_none_right_eq_some.mp archived
  obtain rfl := Option.some.inj same
  simp only [Bool.and_eq_true, decide_eq_true_eq] at checks
  have contents : ∀ read ∈ visit.reads,
      contentOf (history.held place visit.opened read.1) = content := by
    intro read member
    obtain ⟨from_, until_⟩ := visit.reading read member
    rw [held_eq steady (sixth.trans from_) until_, contentOf,
      Option.map_some, node]
  exact readPieces_whole contents
    (checks.1.2.trans (entry.sized executable content node))

/-- What the archive has of a path that does not change. -/
theorem archivedBlob_eq {staged : Bool} {blob : Blob}
    (archived : archivedBlob history place visit staged = some blob)
    (executable : ∀ content, entry.node = .file false content →
      staged = false)
    (plain : ∀ target, entry.node = .symlink target →
      normalizeWirePath target = target) :
    blobOf entry = some blob := by
  obtain ⟨first, second, third, fourth, fifth, sixth, seventh, last⟩ :=
    visit.ordered
  unfold archivedBlob captureMetadataPreflightEntry at archived
  rw [steady visit.examined (by omega) (by omega),
    steady visit.linkRead (by omega) (by omega), Option.map_some] at archived
  unfold blobOf
  cases node : entry.node with
  | file bit content =>
    rw [node] at archived
    obtain ⟨bytes, read, rfl⟩ := Option.map_eq_some_iff.mp archived
    rw [archiveContent_eq steady node read]
    cases bit with
    | false => rw [executable content node, Bool.or_self]
    | true => rw [Bool.or_true]
  | symlink target =>
    rw [node] at archived
    rw [← Option.some.inj archived, plain target node]
  | directory =>
    rw [node] at archived
    cases archived
  | other =>
    rw [node] at archived
    cases archived

end Steady

/-! ## Reading some paths -/

/-- Some paths are captured one after another; one that is not captured ends
the call. -/
def captureAll (paths : List Path) (capture : Path → Option Blob) :
    Option (List (Path × Blob)) :=
  paths.mapM fun path => (capture path).map fun blob => (path, blob)

theorem captureAll_cons (path : Path) (paths : List Path)
    (capture : Path → Option Blob) (files : List (Path × Blob)) :
    captureAll (path :: paths) capture = some files ↔
      ∃ blob rest, capture path = some blob ∧
        captureAll paths capture = some rest ∧
        files = (path, blob) :: rest := by
  unfold captureAll
  rw [List.mapM_cons]
  cases capture path with
  | none => simp
  | some blob =>
    cases paths.mapM fun path =>
        (capture path).map fun blob => (path, blob) with
    | none => simp
    | some rest => simp [eq_comm]

/-- What was captured of a path. -/
theorem lookup_captureAll {paths : List Path} {capture : Path → Option Blob}
    {files : List (Path × Blob)}
    (captured : captureAll paths capture = some files) (path : Path) :
    files.lookup path = if path ∈ paths then capture path else none := by
  induction paths generalizing files with
  | nil =>
    obtain rfl := Option.some.inj captured
    rfl
  | cons other paths inductionHypothesis =>
    obtain ⟨blob, rest, first, later, rfl⟩ :=
      (captureAll_cons other paths capture files).mp captured
    by_cases same : path = other
    · subst same
      rw [List.lookup_cons_self, if_pos List.mem_cons_self, first]
    · rw [List.lookup_cons, beq_false_of_ne same,
        inductionHypothesis later]
      simp only [List.mem_cons, same, false_or]

theorem isSome_of_captureAll {paths : List Path}
    {capture : Path → Option Blob} {files : List (Path × Blob)}
    (captured : captureAll paths capture = some files) {path : Path}
    (member : path ∈ paths) : ∃ blob, capture path = some blob := by
  induction paths generalizing files with
  | nil => cases member
  | cons other paths inductionHypothesis =>
    obtain ⟨blob, rest, first, later, rfl⟩ :=
      (captureAll_cons other paths capture files).mp captured
    rcases List.mem_cons.mp member with rfl | inside
    · exact ⟨blob, first⟩
    · exact inductionHypothesis later inside

/-! ## Empty directories -/

/-- `findEmptyUntrackedDirectories`, over the untracked paths of a status and
those of them that lead to an empty directory when it looks. -/
def findEmptyUntrackedDirectories (untracked : List Path)
    (leadsToEmpty : Path → Bool) : List Path :=
  ((untracked.filter leadsToEmpty).map normalizeWirePath).insertionSort
    precedes

theorem mem_findEmptyUntrackedDirectories {untracked : List Path}
    {leadsToEmpty : Path → Bool} {directory : Path} :
    directory ∈ findEmptyUntrackedDirectories untracked leadsToEmpty ↔
      ∃ path ∈ untracked, leadsToEmpty path = true ∧
        normalizeWirePath path = directory := by
  unfold findEmptyUntrackedDirectories
  rw [List.mem_insertionSort, List.mem_map]
  simp only [List.mem_filter, and_assoc]

/-! ## Additional roots -/

/-- The walk through a root lists what is there and no directory. -/
def isListed (entry : Option Entry) : Bool :=
  match entry.map Entry.node with
  | some .directory => false
  | some _ => true
  | none => false

/-- The walk comes to a path of a root (`enumerateAdditionalRootPaths`). -/
def walked (root : AdditionalRoot) (path : Path) : Bool :=
  RootListing.admits root [] (path.splitOn '/')

/-- A listing of a root: each path is looked at in its moment. -/
structure Walk (history : History) (index : Nat)
    (root : AdditionalRoot) where
  moment : Path → Nat
  paths : List Path
  lists : ∀ path, path ∈ paths ↔ walked root path = true ∧
    isListed (history.world (moment path) ⟨some index, path⟩) = true

/-- The visits to an additional root in a call. -/
structure RootReadings (history : History) where
  index : Nat
  root : AdditionalRoot
  /-- The listing of `buildCaptureGuard`. -/
  guarded : Walk history index root
  /-- The listing whose paths are captured. -/
  captured : Walk history index root
  visit : Path → Visit
  ordered : ∀ path, guarded.moment path ≤ (visit path).identified ∧
    (visit path).identified ≤ captured.moment path ∧
    captured.moment path ≤ (visit path).examined

section Roots

variable {history : History} (readings : RootReadings history)

def RootReadings.place (path : Path) : Place :=
  ⟨some readings.index, path⟩

/-- What is captured of a root whose listed paths keep their identity. -/
def captureRoot : Option (List (Path × Blob)) :=
  if readings.guarded.paths.all fun path =>
      keepsIdentity history (readings.place path) (readings.visit path) then
    captureAll readings.captured.paths fun path =>
      archivedBlob history (readings.place path) (readings.visit path) false
  else none

/-- The files and links of a root that the walk comes to. -/
def rootTree (time : Nat) : Tree := fun path =>
  if walked readings.root path then
    (history.world time (readings.place path)).bind blobOf
  else none

/-- Between a moment and the guard's readings nothing in the root changes, and
no path appears between the two listings. -/
structure RootSettled (time : Nat) : Prop where
  listing : ∀ path, walked readings.root path = true →
    Unmodified history (readings.place path) time
      (readings.guarded.moment path)
  identity : ∀ path ∈ readings.guarded.paths,
    Unmodified history (readings.place path) time
      (readings.visit path).identified
  appears : ∀ path, path ∉ readings.guarded.paths →
    path ∉ readings.captured.paths
  links : ∀ path ∈ readings.captured.paths, ∀ entry target,
    history.world time (readings.place path) = some entry →
    entry.node = .symlink target → normalizeWirePath target = target

variable {readings}

theorem Unmodified.world_eq {place : Place} {first last : Nat}
    (unmodified : Unmodified history place first last) :
    history.world last place = history.world first place :=
  unmodified last (Nat.min_le_right _ _) (Nat.le_max_right _ _)

theorem blobOf_of_not_listed {entry : Option Entry}
    (unlisted : isListed entry = false) : entry.bind blobOf = none := by
  cases entry with
  | none => rfl
  | some entry =>
    unfold isListed at unlisted
    rw [Option.map_some] at unlisted
    cases node : entry.node with
    | directory =>
      rw [Option.bind_some, blobOf, node]
    | _ =>
      rw [node] at unlisted
      cases unlisted

theorem exists_of_isListed {entry : Option Entry}
    (listed : isListed entry = true) : ∃ found, entry = some found := by
  cases entry with
  | none => cases listed
  | some found => exact ⟨found, rfl⟩

/-- A settled root is captured as it is at the moment. -/
theorem lookup_captureRoot {files : List (Path × Blob)} {time : Nat}
    (captured : captureRoot readings = some files)
    (settled : RootSettled readings time) (path : Path) :
    files.lookup path = rootTree readings time path := by
  obtain ⟨keeps, captured⟩ := Option.ite_none_right_eq_some.mp captured
  rw [List.all_eq_true] at keeps
  rw [lookup_captureAll captured]
  unfold rootTree
  by_cases guarded : path ∈ readings.guarded.paths
  · obtain ⟨walks, listed⟩ := (readings.guarded.lists path).mp guarded
    obtain ⟨entry, found⟩ := exists_of_isListed listed
    have now : history.world time (readings.place path) = some entry :=
      (settled.listing path walks).world_eq.symm.trans found
    have there : history.world (readings.visit path).identified
        (readings.place path) = some entry :=
      (settled.identity path guarded).world_eq.trans now
    have steady := fun time => @world_of_keepsIdentity _ _ _ _
      (keeps path guarded) there time
    obtain ⟨first, second, third, fourth, fifth, sixth, seventh, last⟩ :=
      (readings.visit path).ordered
    obtain ⟨-, after, before⟩ := readings.ordered path
    have inside : path ∈ readings.captured.paths := by
      refine (readings.captured.lists path).mpr ⟨walks, ?_⟩
      have again := steady (readings.captured.moment path) after (by omega)
      change history.world (readings.captured.moment path)
        ⟨some readings.index, path⟩ = _ at again
      change history.world (readings.guarded.moment path)
        ⟨some readings.index, path⟩ = _ at found
      rw [again, ← found]
      exact listed
    obtain ⟨blob, archived⟩ := isSome_of_captureAll captured inside
    rw [if_pos inside, if_pos walks, archived, now]
    exact (archivedBlob_eq steady archived (fun _ _ => rfl)
      (settled.links path inside entry · now ·)).symm
  · rw [if_neg (settled.appears path guarded)]
    by_cases walks : walked readings.root path = true
    · have unlisted : isListed (history.world (readings.guarded.moment path)
          (readings.place path)) = false :=
        Bool.eq_false_iff.mpr fun listed =>
          guarded ((readings.guarded.lists path).mpr ⟨walks, listed⟩)
      rw [if_pos walks, ← (settled.listing path walks).world_eq,
        blobOf_of_not_listed unlisted]
    · rw [if_neg walks]

end Roots

end Rbo.Snapshot.CaptureGuard
