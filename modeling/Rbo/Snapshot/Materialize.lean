import Rbo.Foundation.FileCalls
import Rbo.Foundation.Texts
import Rbo.Snapshot.Archive
import Rbo.Snapshot.Capture

/-!
# Materialization of a snapshot

`materializeFullSnapshot` unpacks a full archive into a workspace, and
`applyGitOverlay` unpacks an overlay over a worktree that was checked out
before.  Both resolve the paths of the archive lexically and check the real
path of the directory that an entry lies in; both verify the hashes of the
files afterwards and take the write permissions of read-only roots away.

The program runs on a POSIX host.  The hash and the decompression of an
archive are tools of the platform, and the reader of an archive may run for a
number of rounds.
-/

namespace Rbo.Snapshot.Materialize

open Rbo.Foundation
open Rbo.Foundation.FileTree
open Rbo.Foundation.FileCalls
open Rbo.Snapshot.Archive (ParsedTarEntry TarEntryType parseTarArchive)
open Rbo.Snapshot.SecretPolicy (forwardSlashes includes)
open Rbo.Snapshot.Capture (normalizeWirePath hasDrive isSafeRelativePath
  isPathContained)

/-- A program of this module. -/
abbrev Work (Answer : Type) := Effect Host Failure Answer

/-! ## Manifests -/

/-- `SnapshotFileEntry`. -/
inductive SnapshotFileEntry where
  | file (path : List Char) (sha256 : List Char)
  | symlink (path : List Char)
  | gitlink (path : List Char)
  deriving DecidableEq

/-- `SnapshotAdditionalRoot`; `mode` is `read_only` by default. -/
structure SnapshotAdditionalRoot where
  mount : List Char
  readOnly : Bool
  mount_safe : isSafeRelativePath mount = true

/-- `FullSnapshotManifest`. -/
structure FullSnapshotManifest where
  mainMount : List Char
  mainMount_safe : isSafeRelativePath mainMount = true
  files : List SnapshotFileEntry
  emptyDirectories : List (List Char)
  additionalRoots : List SnapshotAdditionalRoot
  payloadSha256 : List Char

/-- `GitOverlaySnapshotManifest`. -/
structure GitOverlaySnapshotManifest where
  files : List SnapshotFileEntry
  deletions : List (List Char)
  emptyDirectories : List (List Char)
  additionalRoots : List SnapshotAdditionalRoot
  payloadSha256 : List Char

/-- What the platform computes. -/
structure Tools where
  sha256 : List UInt8 → List Char
  decompressTarZstd : List UInt8 → Option (List UInt8)
  /-- How long `parseTarArchive` may run. -/
  rounds : Nat

/-! ## Errors -/

/-- An `RboError`. -/
def rboError (code message : String) : Failure :=
  .thrown code message

/-- The name and the description of a refusal. -/
def errnoText : Errno → String
  | .noEntry => "ENOENT: no such file or directory"
  | .notDirectory => "ENOTDIR: not a directory"
  | .isDirectory => "EISDIR: illegal operation on a directory"
  | .present => "EEXIST: file already exists"
  | .tooManyLinks => "ELOOP: too many symbolic links encountered"
  | .invalid => "The argument must be a string without null bytes"

/-- A text in an error message. -/
def shown (text : List Char) : String :=
  String.ofList text

/-! ## Paths -/

/-- `resolve(location, path)`. -/
def resolve (location : Location) (path : List Char) : Location :=
  normalizePieces false (startOf location path) (pieces path)

def escapesWorkspace (relativePath : List Char) : Failure :=
  rboError "materialization"
    ("Path escapes workspace root: " ++ shown relativePath)

/-- The path of an entry below a root, with its parent made.  Containment is
checked lexically before, and by the real path of the parent afterwards. -/
def safeWritePath (workspaceRoot : Location) (relativePath : List Char) :
    Work Location := do
  let normalized := forwardSlashes relativePath
  if isSafeRelativePath normalized = false then
    throw (escapesWorkspace relativePath)
  let absolute := resolve workspaceRoot normalized
  if isPathContained workspaceRoot absolute = false then
    throw (escapesWorkspace relativePath)
  let parent := absolute.dropLast
  if parent ≠ workspaceRoot ∧ isPathContained workspaceRoot parent = false then
    throw (escapesWorkspace relativePath)
  makeDirectories parent
  let realWorkspace ← realpath workspaceRoot
  let realParent ← realpath parent
  let candidate := realParent ++ [absolute.getLastD []]
  if isPathContained realWorkspace candidate = false then
    throw (escapesWorkspace relativePath)
  return absolute

/-- `mount.replace(/\\/g, '/').replace(/\/+$/, '')`. -/
def mountOf (root : SnapshotAdditionalRoot) : List Char :=
  ((forwardSlashes root.mount).reverse.dropWhile (· = '/')).reverse

/-- Whether a path is that of a mount or lies below it. -/
def isAtMount (normalized mount : List Char) : Bool :=
  normalized == mount || (mount ++ ['/']).isPrefixOf normalized

/-- Whether a path belongs to an additional root. -/
def isAdditional (roots : List SnapshotAdditionalRoot)
    (normalized : List Char) : Bool :=
  roots.any fun root => isAtMount normalized (mountOf root)

/-- Where an archive entry belongs in the workspace. -/
def resolveArchiveEntryRelativePath (entryPath : List Char)
    (manifest : FullSnapshotManifest) :
    Except Failure (List Char) :=
  let normalized := normalizeWirePath entryPath
  if isSafeRelativePath normalized = false then
    .error (rboError "materialization"
      ("Archive entry path is unsafe: " ++ shown entryPath))
  else if isAdditional manifest.additionalRoots normalized then
    .ok normalized
  else
    .ok (manifest.mainMount ++ '/' :: normalized)

/-! ## Links -/

/-- Absolute targets of either platform, and URLs. -/
def isAbsoluteSymlinkTarget (target : List Char) : Bool :=
  ['/'].isPrefixOf target || ['\\', '\\'].isPrefixOf target ||
    (hasDrive target &&
      (target[2]? == some '/' || target[2]? == some '\\')) ||
    includes target [':', '/', '/']

def escapingSymlink (path : Location) : Failure :=
  rboError "materialization" ("Symlink escapes workspace: " ++ shown (render path))

/-- The target of a link must lie below the root, by its text and, if it
exists, by its real path. -/
def assertSymlinkTargetContained (workspaceRoot symlinkPath : Location)
    (target : List Char) :
    Work Unit := do
  if isAbsoluteSymlinkTarget target then
    throw (rboError "materialization"
      ("Absolute symlink not allowed: " ++ shown (render symlinkPath)))
  let resolved := resolve symlinkPath.dropLast target
  if isPathContained workspaceRoot resolved = false then
    throw (escapingSymlink symlinkPath)
  .reading fun host =>
    match follow host.tree workspaceRoot, follow host.tree resolved with
    | .ok realWorkspace, .ok realResolved =>
      if isPathContained realWorkspace.location realResolved.location then
        .ok ()
      else
        .error (escapingSymlink symlinkPath)
    -- The target may not exist yet.
    | _, _ => .ok ()

/-- `symlink`, with the message of a refused call. -/
def createSymlink (target : List Char) (path : Location) : Work Unit :=
  .failingAs
    (fun failure =>
      match failure with
      | .system errno _ =>
        let target := shown target
        let path := shown (render path)
        rboError "materialization"
          (errnoText errno ++ s!", symlink '{target}' -> '{path}'")
      | thrown => thrown)
    (symlink target path)

/-! ## Steps of both programs -/

/-- Write one entry of an archive to its path. -/
def extractEntry (containRoot path : Location) (entry : ParsedTarEntry) :
    Work Unit :=
  match entry.type with
  | .directory => makeDirectories path
  | .symlink => do
    let target := entry.target.getD []
    if target = [] then
      throw (rboError "materialization"
        ("Symlink missing target: " ++ shown entry.path))
    assertSymlinkTargetContained containRoot path target
    createSymlink target path
  | .file => do
    writeFile path entry.content
    if isExecutable entry.mode then
      chmod path entry.mode

/-- The entries of a compressed archive. -/
def readEntries (tools : Tools) (archiveData : List UInt8) :
    Work (List ParsedTarEntry) :=
  .reading fun _ =>
    match tools.decompressTarZstd archiveData with
    | none => .error (rboError "error" "Decompression failed")
    | some tar =>
      match parseTarArchive tools.rounds tar with
      | some entries => .ok entries
      | none => .error (rboError "error" "The archive has no end")

/-- Compare the hash of a file with that of the manifest. -/
def verifyFile (tools : Tools) (root : Location) (relativePath path : List Char)
    (sha256 : List Char) (message : String) :
    Work Unit := do
  let dest ← safeWritePath root relativePath
  let content ← readFile dest
  if tools.sha256 content ≠ sha256 then
    throw (rboError "snapshot_hash" (message ++ shown path))

mutual

/-- The paths whose modes are changed below a directory, in order. -/
def readOnlyPaths (path : Location) :
    List (Name × Node) → List (Location × Int)
  | [] => []
  | entry :: rest => readOnlyEntry path entry ++ readOnlyPaths path rest

/-- The paths of one entry; that of a directory follows those below it. -/
def readOnlyEntry (path : Location) : Name × Node → List (Location × Int)
  | (name, .directory entries) =>
    readOnlyPaths (path ++ [name]) entries ++ [(path ++ [name], 0o555)]
  | (name, .file ..) => [(path ++ [name], 0o444)]
  | (name, .link _) => [(path ++ [name], 0o444)]

end

/-- A name that `readdir` lists. -/
def isListed (path : Location) : Bool :=
  !path.contains ['.', '.']

/-- Take the write permissions of a tree away.  The modes do not change what
the directories list. -/
def applyReadOnlyTree (rootPath : Location) : Work Unit := do
  let entries ← readDirectory rootPath
  ((readOnlyPaths rootPath entries).filter fun item => isListed item.1).forM
    fun item => .ignoring (chmod item.1 item.2)
  .ignoring (chmod rootPath 0o555)

/-- Take the write permissions of the read-only roots away. -/
def protectRoots (workspaceRoot : Location)
    (roots : List SnapshotAdditionalRoot) : Work Unit :=
  roots.forM fun root => do
    if root.readOnly then
      let mountPath ← safeWritePath workspaceRoot root.mount
      .ignoring (applyReadOnlyTree mountPath)

/-! ## Full snapshots -/

structure MaterializeFullSnapshotInput where
  /-- What the schema makes of the manifest. -/
  manifest : Except String FullSnapshotManifest
  /-- What `readFile(archivePath)` gives. -/
  archive : Except Failure (List UInt8)
  /-- An absolute path. -/
  workspaceRoot : List Char

structure MaterializedWorkspace where
  workspaceRoot : Location
  projectPath : Location
  deriving DecidableEq

/-- The real path of the workspace root, which is made if need be. -/
def openWorkspace (workspaceRoot : List Char) : Work Location := do
  makeDirectories (pieces workspaceRoot)
  realpath (pieces workspaceRoot)

/-- The manifest and the archive, when they pass the checks. -/
def checkedSnapshot {Manifest : Type} (tools : Tools)
    (manifest : Except String Manifest) (archive : Except Failure (List UInt8))
    (payloadSha256 : Manifest → List Char) (kind mismatch : String) :
    Except Failure (Manifest × List UInt8) :=
  match manifest with
  | .error message =>
    .error (rboError "materialization"
      ("Invalid " ++ kind ++ " manifest: " ++ message))
  | .ok manifest => do
    let archiveData ← archive
    if tools.sha256 archiveData ≠ payloadSha256 manifest then
      throw (rboError "snapshot_hash" mismatch)
    return (manifest, archiveData)

/-- What follows once the workspace root is there. -/
def materializeInto (tools : Tools) (manifest : FullSnapshotManifest)
    (archiveData : List UInt8) (realWorkspace : Location) :
    Work MaterializedWorkspace := do
  let projectPath ← safeWritePath realWorkspace manifest.mainMount
  makeDirectories projectPath
  let entries ← readEntries tools archiveData
  entries.forM fun entry => do
    let relative ←
      .reading fun _ => resolveArchiveEntryRelativePath entry.path manifest
    let dest ← safeWritePath realWorkspace relative
    extractEntry realWorkspace dest entry
  manifest.emptyDirectories.forM fun emptyDir => do
    let relative := forwardSlashes (manifest.mainMount ++ '/' :: emptyDir)
    let dest ← safeWritePath realWorkspace relative
    makeDirectories dest
  manifest.files.forM fun file =>
    match file with
    | .file path sha256 =>
      verifyFile tools realWorkspace
        (forwardSlashes (manifest.mainMount ++ '/' :: path)) path sha256
        "File hash mismatch after materialization: "
    | _ => pure ()
  protectRoots realWorkspace manifest.additionalRoots
  return { workspaceRoot := realWorkspace, projectPath }

/-- Extract a full-mode snapshot archive into an isolated workspace. -/
def materializeFullSnapshot (tools : Tools)
    (input : MaterializeFullSnapshotInput) : Work MaterializedWorkspace := do
  let checked ← .reading fun _ =>
    checkedSnapshot tools input.manifest input.archive (·.payloadSha256)
      "full snapshot" "Archive hash mismatch during materialization"
  let realWorkspace ← openWorkspace input.workspaceRoot
  materializeInto tools checked.1 checked.2 realWorkspace

/-! ## Overlays -/

structure ApplyGitOverlayInput where
  /-- What the schema makes of the manifest. -/
  manifest : Except String GitOverlaySnapshotManifest
  /-- What `readFile(archivePath)` gives. -/
  archive : Except Failure (List UInt8)
  /-- Absolute paths. -/
  workspaceRoot : List Char
  projectPath : List Char

/-- Remove one path of the base from the project. -/
def applyDeletion (realProject : Location) (deletion : List Char) :
    Work Unit := do
  if isSafeRelativePath deletion = false then
    throw (rboError "materialization"
      ("Unsafe deletion path: " ++ shown deletion))
  let dest := resolve realProject deletion
  if isPathContained realProject dest = false then
    throw (rboError "materialization"
      ("Deletion escapes project: " ++ shown deletion))
  remove dest

/-- The paths of the submodules of an overlay. -/
def gitlinkPaths (manifest : GitOverlaySnapshotManifest) : List (List Char) :=
  manifest.files.filterMap fun file =>
    match file with
    | .gitlink path => some path
    | _ => none

/-- Write one entry of an overlay archive. -/
def applyEntry (manifest : GitOverlaySnapshotManifest)
    (realWorkspace realProject : Location) (entry : ParsedTarEntry) :
    Work Unit := do
  let normalized := normalizeWirePath entry.path
  if isSafeRelativePath normalized = false then
    throw (rboError "materialization"
      ("Overlay entry path is unsafe: " ++ shown entry.path))
  if normalized ∈ gitlinkPaths manifest then
    throw (rboError "materialization"
      ("Archive contains member at gitlink path: " ++ shown entry.path))
  -- Additional roots lie in the workspace, overlay files in the project.
  let containRoot :=
    if isAdditional manifest.additionalRoots normalized then realWorkspace
    else realProject
  let dest ← safeWritePath containRoot normalized
  extractEntry containRoot dest entry

/-- What follows once both roots are known. -/
def applyInto (tools : Tools) (manifest : GitOverlaySnapshotManifest)
    (archiveData : List UInt8) (realWorkspace realProject : Location) :
    Work MaterializedWorkspace := do
  manifest.deletions.forM (applyDeletion realProject)
  let entries ← readEntries tools archiveData
  entries.forM (applyEntry manifest realWorkspace realProject)
  manifest.emptyDirectories.forM fun emptyDir => do
    if isSafeRelativePath emptyDir = false then
      throw (rboError "materialization"
        ("Unsafe empty directory: " ++ shown emptyDir))
    let dest ← safeWritePath realProject emptyDir
    makeDirectories dest
  manifest.files.forM fun file =>
    match file with
    | .file path sha256 =>
      verifyFile tools realProject path path sha256
        "Overlay file hash mismatch after apply: "
    | _ => pure ()
  protectRoots realWorkspace manifest.additionalRoots
  return { workspaceRoot := realWorkspace, projectPath := realProject }

/-- Apply an overlay archive onto an existing base worktree: deletions, then
the entries, then the empty directories; then the hashes are verified. -/
def applyGitOverlay (tools : Tools) (input : ApplyGitOverlayInput) :
    Work MaterializedWorkspace := do
  let checked ← .reading fun _ =>
    checkedSnapshot tools input.manifest input.archive (·.payloadSha256)
      "git_overlay snapshot" "Overlay archive hash mismatch"
  let realWorkspace ← realpath (pieces input.workspaceRoot)
  let realProject ← realpath (pieces input.projectPath)
  if isPathContained realWorkspace realProject = false then
    throw (rboError "materialization" "projectPath escapes workspaceRoot")
  applyInto tools checked.1 checked.2 realWorkspace realProject

end Rbo.Snapshot.Materialize
