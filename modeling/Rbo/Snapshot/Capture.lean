import Mathlib.Data.List.Sort
import Rbo.Foundation.Results
import Rbo.Foundation.Utf16
import Rbo.Snapshot.SecretPolicy

/-!
# Snapshot capture

A capture reads the files of a project and of the additional roots of a
request, on a POSIX host, and writes them into an archive.  Full mode archives
every file that Git lists; overlay mode archives the files that differ from
`HEAD`.

What Git answers (the repository root, the listed paths, the modes of the
index, the empty untracked directories) is part of the input.  The checks that
can only refuse a capture and read nothing of the paths below (limits, case
collisions, submodules, large files, the working directory, the guards against
a changing workspace, the limits of the archive format) are one field of the
input.  The archive is in the order in which the entries are collected.
-/

namespace Rbo.Snapshot.Capture

open Rbo.Foundation
open Rbo.Foundation.FileTree
open Rbo.Snapshot.SecretPolicy

/-- Why a capture stops. -/
inductive Refusal where
  | missing (path : String)
  | refused (code message : String)
  deriving DecidableEq

/-! ## Paths -/

/-- A path as it is written into manifests and archives. -/
def normalizeWirePath (path : List Char) : List Char :=
  dropCurrent (forwardSlashes path)

/-- The path of a file below a root. -/
def resolveInside (root relativePath : List Char) : List Char :=
  join root relativePath

def windowsReservedNames : List (List Char) :=
  ["CON", "PRN", "AUX", "NUL", "COM1", "COM2", "COM3", "COM4", "COM5", "COM6",
    "COM7", "COM8", "COM9", "LPT1", "LPT2", "LPT3", "LPT4", "LPT5", "LPT6",
    "LPT7", "LPT8", "LPT9"].map String.toList

/-- A piece that is a reserved device name, with or without an extension. -/
def isReservedPiece (piece : Name) : Bool :=
  piece != [] &&
    windowsReservedNames.contains
      ((piece.takeWhile (· ≠ '.')).map Char.toUpper)

/-- Whether some piece is a reserved device name. -/
def containsWindowsReservedName (path : List Char) : Bool :=
  (pieces (forwardSlashes path)).any isReservedPiece

/-- Whether the path starts with a drive letter. -/
def hasDrive : List Char → Bool
  | letter :: ':' :: _ => letter.isAlpha
  | _ => false

/-- A piece that a safe path does not have. -/
def isUnsafePiece (piece : Name) : Bool :=
  piece == [] || piece == ['.'] || piece == ['.', '.']

/-- Relative path without absolute, drive, empty, `.` or `..` parts. -/
def isSafeRelativePath (value : List Char) : Bool :=
  let normalized := forwardSlashes value
  if normalized = [] ∨ normalized = ['.'] then
    false
  else if ['/'].isPrefixOf normalized || ['/', '/'].isPrefixOf normalized ||
      ['\\', '\\'].isPrefixOf normalized || hasDrive normalized ||
      includes normalized [':', '/', '/'] then
    false
  else if (pieces normalized).any isUnsafePiece then
    false
  else
    !containsWindowsReservedName normalized

/-- The names that lead from one location to another. -/
def relative : Location → Location → List Name
  | [], child => child
  | parent, [] => parent.map fun _ => ['.', '.']
  | first :: parent, second :: child =>
    if first = second then
      relative parent child
    else
      (first :: parent).map (fun _ => ['.', '.']) ++ second :: child

/-- Whether the way from the parent to the child does not begin with `..`. -/
def isPathContained (parent child : Location) : Bool :=
  !(relative parent child).head?.any ['.', '.'].isPrefixOf

/-- The real path, or the refusal of a path that does not exist. -/
def resolveRealPath (files : FileSystem) (path : List Char) :
    Except Refusal Location :=
  match files.realPath path with
  | some location => .ok location
  | none => .error (.missing (String.ofList path))

/-- Resolve both paths and check that the child stays inside the parent. -/
def assertRealPathContained (files : FileSystem)
    (parentPath childPath : List Char) :
    Except Refusal Unit := do
  let realParent ← resolveRealPath files parentPath
  let realChild ← resolveRealPath files childPath
  if isPathContained realParent realChild then
    return ()
  else
    throw (.refused "error"
      ("Path escapes allowed root: " ++ String.ofList childPath))

/-! ## Wildcards -/

/-- The code unit of a character of the basic plane. -/
def unitOf (char : Char) : UInt16 :=
  char.toNat.toUInt16

/-- Each pair of stars as the placeholder of the translation. -/
def replaceDoubleStars : List Char → List Char
  | '*' :: '*' :: rest => '§' :: '§' :: replaceDoubleStars rest
  | char :: rest => char :: replaceDoubleStars rest
  | [] => []

/-- A code unit that is not a slash. -/
def notSlash (symbol : UInt16) : Bool :=
  symbol != unitOf '/'

/-- A code unit that `.` matches. -/
def unitNotLineTerminator (symbol : UInt16) : Bool :=
  symbol != unitOf '\n' && symbol != unitOf '\r' &&
    symbol != unitOf '\u2028' && symbol != unitOf '\u2029'

/-- The tokens of a pattern after its placeholders were set. -/
def globTokens : List Char → List (Wildcards.Token UInt16)
  | '§' :: '§' :: rest => .run unitNotLineTerminator :: globTokens rest
  | '*' :: rest => .run notSlash :: globTokens rest
  | '?' :: rest => .one notSlash :: globTokens rest
  | char :: rest => (Utf16.encodeChar char).map .literal ++ globTokens rest
  | [] => []

/-- Whether a path matches a pattern of an additional root. -/
def globMatch (path pattern : List Char) : Bool :=
  pattern == ['*', '*'] || pattern == ['*', '*', '/', '*'] ||
    Wildcards.test (globTokens (replaceDoubleStars pattern))
      (Utf16.encode path)

/-! ## Additional roots -/

/-- An additional root of a request. -/
structure AdditionalRoot where
  sourcePath : List Char
  mountPath : List Char
  include_ : List (List Char)
  exclude : List (List Char)
  deriving DecidableEq

/-- The path of an entry inside the root. -/
def entryPath (rel : List Char) (name : Name) : List Char :=
  if rel = [] then name else rel ++ '/' :: name

mutual

/-- The listed paths below the entries of a directory. -/
def listEntries (root : AdditionalRoot) (rel : List Char) :
    List (Name × Node) → List (List Char)
  | [] => []
  | entry :: rest => listEntry root rel entry ++ listEntries root rel rest

/-- The listed paths of one entry of a directory. -/
def listEntry (root : AdditionalRoot) (rel : List Char) :
    Name × Node → List (List Char)
  | (name, node) =>
    if name = ".git".toList then
      []
    else if root.exclude.any
        (globMatch (normalizeWirePath (entryPath rel name))) then
      []
    else
      listNode root (entryPath rel name) node

/-- The listed paths of a node that is not excluded. -/
def listNode (root : AdditionalRoot) (rel : List Char) :
    Node → List (List Char)
  | .directory entries =>
    if root.include_.any fun pattern =>
        globMatch (normalizeWirePath rel) pattern ||
          globMatch (normalizeWirePath rel ++ "/**".toList) pattern then
      listEntries root rel entries
    else
      []
  | .file .. =>
    if root.include_.any (globMatch (normalizeWirePath rel)) then
      [normalizeWirePath rel]
    else
      []
  | .link _ =>
    if root.include_.any (globMatch (normalizeWirePath rel)) then
      [normalizeWirePath rel]
    else
      []

end

def enumerateAdditionalRootPaths (files : FileSystem) (root : AdditionalRoot) :
    Except Refusal (List (List Char)) := do
  let realRoot ← resolveRealPath files root.sourcePath
  match files.root.at? realRoot with
  | some (.directory entries) =>
    return (listEntries root [] entries).insertionSort
      fun first second => Utf16.encode first ≤ Utf16.encode second
  | _ => throw (.missing (String.ofList root.sourcePath))

/-! ## One captured file -/

/-- What an archive entry holds. -/
inductive TarContent where
  | file (contentPath : List Char)
  | directory
  | symlink (target : List Char)
  deriving DecidableEq

/-- An entry to be written into the archive. -/
structure TarEntry where
  path : List Char
  mode : Nat
  content : TarContent
  deriving DecidableEq

/-- A captured path with what the secret policy says about it. -/
structure CapturedFile where
  tarEntry : TarEntry
  secretWarnings : List SecretPolicyViolation
  secretViolations : List SecretPolicyViolation
  deriving DecidableEq

/-- Absolute targets of either platform. -/
def isAbsoluteSymlinkTarget (target : List Char) : Bool :=
  isAbsolute target ||
    (hasDrive target &&
      (target[2]? == some '/' || target[2]? == some '\\'))

/-- An absolute path in lexical normal form. -/
def resolve (files : FileSystem) (path : List Char) : List Char :=
  let absolute :=
    if isAbsolute path then path
    else FileTree.render files.workingDirectory ++ '/' :: path
  '/' :: ['/'].intercalate (normalizePieces false [] (pieces absolute))

/-- A link must point inside the root. -/
def assertSymlinkAllowed (files : FileSystem)
    (repoRoot wirePath target : List Char) :
    Except Refusal Unit :=
  if isAbsoluteSymlinkTarget target then
    .error (.refused "materialization"
      ("Absolute symlink target is not allowed: " ++ String.ofList wirePath))
  else
    let resolved :=
      resolve files
        (resolveInside repoRoot wirePath ++ "/../".toList ++ target)
    match assertRealPathContained files repoRoot resolved with
    | .ok () => .ok ()
    | .error _ =>
      .error (.refused "materialization"
        ("Symlink escapes workspace: " ++ String.ofList wirePath))

/-- The captured path as the policy reports it. -/
def captured (entry : TarEntry) (wirePath : List Char)
    (secretPolicy : SecretPolicyMode) :
    CapturedFile :=
  let violations := findSecretPolicyViolations wirePath secretPolicy
  { tarEntry := entry
    secretWarnings := if secretPolicy = .warn then violations else []
    secretViolations := if secretPolicy = .block then violations else [] }

/-- Metadata of one path below a root. -/
def captureMetadataPreflightEntry (files : FileSystem)
    (repoRoot wirePath : List Char)
    (stageModes : List Char → Option (List Char))
    (secretPolicy : SecretPolicyMode) :
    Except Refusal CapturedFile := do
  let absolute := resolveInside repoRoot wirePath
  assertRealPathContained files repoRoot absolute
  match files.lstat absolute with
  | none => throw (.missing (String.ofList absolute))
  | some (.link target) =>
    assertSymlinkAllowed files repoRoot wirePath target
    return captured
      { path := wirePath, mode := 0o120000,
        content := .symlink (normalizeWirePath target) }
      wirePath secretPolicy
  | some (.file executable _) =>
    let isExecutable :=
      stageModes wirePath = some "100755".toList || executable
    return captured
      { path := wirePath, mode := if isExecutable then 0o755 else 0o644,
        content := .file absolute }
      wirePath secretPolicy
  | some (.directory _) =>
    throw (.refused "materialization"
      ("Expected regular file: " ++ String.ofList wirePath))

/-! ## The two modes -/

/-- What a capture starts from. -/
structure CaptureInput where
  /-- Answer of `gitFindRoot`. -/
  repoRoot : List Char
  allowedProjectRoots : List (List Char)
  secretPolicy : SecretPolicyMode
  additionalRoots : List AdditionalRoot
  mainMount : List Char
  /-- Paths of `enumerateFullCapturePaths`, or files of the overlay plan. -/
  wirePaths : List (List Char)
  stageModes : List Char → Option (List Char)
  /-- Answer of `findEmptyUntrackedDirectories`. -/
  emptyDirectories : List (List Char)
  toLowerCase : List Char → List Char
  otherChecks : List CapturedFile → Except Refusal Unit

/-- The answer of a successful capture. -/
structure CaptureResult where
  /-- Each entry of the archive with the bytes written for it. -/
  archive : List (TarEntry × List UInt8)
  additionalRoots : List (AdditionalRoot × List CapturedFile)
  secretWarnings : List SecretPolicyViolation
  deriving DecidableEq

/-- Try the allowed roots in turn; one that does not exist ends the search. -/
def findAllowedRoot (files : FileSystem) (projectRoot : List Char)
    (realRoot : Location) :
    List (List Char) → Except Refusal Unit
  | [] =>
    .error (.refused "materialization"
      ("Project root is not under allowed roots: " ++
        String.ofList projectRoot))
  | allowed :: others => do
    let realAllowed ← resolveRealPath files allowed
    match assertRealPathContained files (render realAllowed)
        (render realRoot) with
    | .ok () => return ()
    | .error _ => findAllowedRoot files projectRoot realRoot others

/-- The repository must lie under an allowed root. -/
def assertAllowedProjectRoot (files : FileSystem) (projectRoot : List Char)
    (allowedProjectRoots : List (List Char)) :
    Except Refusal Unit := do
  let realRoot ← resolveRealPath files projectRoot
  findAllowedRoot files projectRoot realRoot allowedProjectRoots

/-- A mount without trailing slashes, compared in lower case. -/
def mountKey (input : CaptureInput) (mount : List Char) : List Char :=
  input.toLowerCase
    ((normalizeWirePath mount).reverse.dropWhile (· = '/')).reverse

/-- Whether one mount holds the other. -/
def mountsOverlap (first second : List Char) : Bool :=
  first == second || (second ++ ['/']).isPrefixOf first ||
    (first ++ ['/']).isPrefixOf second

/-- No two mounts may overlap. -/
def assertMountPathsDisjoint (input : CaptureInput) : Except Refusal Unit :=
  let mounts :=
    (input.mainMount :: input.additionalRoots.map (·.mountPath)).map
      (mountKey input)
  if mounts.Pairwise fun first second => mountsOverlap first second = false then
    .ok ()
  else
    .error (.refused "validation" "Snapshot mount paths overlap")

/-- A captured file of an additional root under its archive path. -/
def underMount (archivePath : List Char) (file : CapturedFile) : CapturedFile :=
  { tarEntry := { file.tarEntry with path := archivePath }
    secretWarnings :=
      file.secretWarnings.map fun warning =>
        { warning with path := archivePath }
    secretViolations :=
      file.secretViolations.map fun violation =>
        { violation with path := archivePath } }

/-- Whether full mode captures the path; a missing path and one that is
neither a file nor a link are passed over. -/
def isCapturable (files : FileSystem) (repoRoot wirePath : List Char) : Bool :=
  (files.lstat (resolveInside repoRoot wirePath)).any fun node =>
    !node.isDirectory

/-- Whether full mode admits the source of an additional root. -/
def isRootAllowed (files : FileSystem) (input : CaptureInput)
    (realSource : Location) : Bool :=
  input.allowedProjectRoots.any fun allowed =>
    match (do
        let realAllowed ← resolveRealPath files allowed
        assertRealPathContained files (render realAllowed)
          (render realSource) : Except Refusal Unit) with
    | .ok () => true
    | .error _ => false

def fullArchivePath (root : AdditionalRoot) (relPath : List Char) : List Char :=
  normalizeWirePath (join root.mountPath relPath)

def overlayArchivePath (root : AdditionalRoot) (relPath : List Char) :
    List Char :=
  forwardSlashes (normalizeWirePath root.mountPath ++ '/' :: relPath)

/-- An additional root in full mode. -/
def captureFullRoot (files : FileSystem) (input : CaptureInput)
    (root : AdditionalRoot) :
    Except Refusal (AdditionalRoot × List CapturedFile) := do
  if isSafeRelativePath root.mountPath = false then
    throw (.refused "validation"
      ("additional_roots.mount_path escapes snapshot storage: " ++
        String.ofList root.mountPath))
  let realSource ← resolveRealPath files root.sourcePath
  if isRootAllowed files input realSource = false then
    throw (.refused "materialization"
      ("Additional root is not under allowed project roots: " ++
        String.ofList root.sourcePath))
  let rootPaths ← enumerateAdditionalRootPaths files root
  let rootCaptured ← rootPaths.mapM fun relPath => do
    let mountPath := fullArchivePath root relPath
    if isSafeRelativePath mountPath = false then
      throw (.refused "validation"
        ("additional root archive path escapes mount: " ++
          String.ofList mountPath))
    let file ← captureMetadataPreflightEntry files (render realSource) relPath
      (fun _ => none) input.secretPolicy
    return underMount mountPath file
  return (root, rootCaptured)

/-- An additional root in overlay mode. -/
def captureOverlayRoot (files : FileSystem) (input : CaptureInput)
    (root : AdditionalRoot) :
    Except Refusal (AdditionalRoot × List CapturedFile) := do
  let realSource ← resolveRealPath files root.sourcePath
  let rootPaths ← enumerateAdditionalRootPaths files root
  let rootCaptured ← rootPaths.mapM fun relPath => do
    let file ← captureMetadataPreflightEntry files (render realSource) relPath
      (fun _ => none) input.secretPolicy
    return underMount (overlayArchivePath root relPath) file
  return (root, rootCaptured)

/-- A path on the denylist refuses a blocking capture. -/
def throwIfSecretViolations (violations : List SecretPolicyViolation) :
    Except Refusal Unit :=
  if violations = [] then
    .ok ()
  else
    .error (.refused "secret_blocked"
      ("Secret files blocked: " ++
        ", ".intercalate
          ((violations.map (·.path)).dedup.insertionSort (fun first second =>
            Utf16.encode first ≤ Utf16.encode second) |>.map String.ofList)))

/-- Read the bytes of an entry; a file entry must still be a regular file. -/
def archiveEntry (files : FileSystem) (entry : TarEntry) :
    Except Refusal (TarEntry × List UInt8) :=
  match entry.content with
  | .file contentPath =>
    match files.lstat contentPath with
    | some (.file _ content) => .ok (entry, content)
    | _ =>
      .error (.refused "workspace_changed"
        ("Source path is not a regular file: '" ++
          String.ofList entry.path ++ "'"))
  | .directory => .ok (entry, [])
  | .symlink _ => .ok (entry, [])

/-- Check what was captured and write the archive. -/
def writeArchive (files : FileSystem) (input : CaptureInput)
    (project : List CapturedFile) (emptyDirectories : List (List Char))
    (roots : List (AdditionalRoot × List CapturedFile)) :
    Except Refusal CaptureResult := do
  let additional := roots.flatMap (·.2)
  throwIfSecretViolations ((project ++ additional).flatMap (·.secretViolations))
  input.otherChecks (project ++ additional)
  let directories := emptyDirectories.map fun path =>
    { path := path, mode := 0o755, content := .directory : TarEntry }
  let archive ←
    (project.map (·.tarEntry) ++ directories ++
      additional.map (·.tarEntry)).mapM (archiveEntry files)
  return {
    archive := archive
    additionalRoots := roots
    secretWarnings := (project ++ additional).flatMap (·.secretWarnings) }

/-- Capture of every file that Git lists. -/
def captureFullSnapshot (files : FileSystem) (input : CaptureInput) :
    Except Refusal CaptureResult := do
  assertAllowedProjectRoot files input.repoRoot input.allowedProjectRoots
  if isSafeRelativePath input.mainMount = false then
    throw (.refused "materialization"
      ("main_mount must be a safe relative path: " ++
        String.ofList input.mainMount))
  assertMountPathsDisjoint input
  let project ←
    (input.wirePaths.filter (isCapturable files input.repoRoot)).mapM
      fun wirePath =>
        captureMetadataPreflightEntry files input.repoRoot wirePath
          input.stageModes input.secretPolicy
  let roots ← input.additionalRoots.mapM (captureFullRoot files input)
  writeArchive files input project input.emptyDirectories roots

/-- Capture of the files that differ from `HEAD`. -/
def captureGitOverlaySnapshot (files : FileSystem) (input : CaptureInput) :
    Except Refusal CaptureResult := do
  assertAllowedProjectRoot files input.repoRoot input.allowedProjectRoots
  assertMountPathsDisjoint input
  let project ← input.wirePaths.mapM fun wirePath => do
    if isSafeRelativePath wirePath = false then
      throw (.refused "materialization"
        ("Unsafe overlay path: " ++ String.ofList wirePath))
    captureMetadataPreflightEntry files input.repoRoot wirePath
      input.stageModes input.secretPolicy
  let emptyDirectories := input.emptyDirectories.filter fun dir =>
    input.wirePaths.any fun file => file == dir || (dir ++ ['/']).isPrefixOf file
  let roots ← input.additionalRoots.mapM (captureOverlayRoot files input)
  writeArchive files input project emptyDirectories roots

/-- The mode that the Controller picked. -/
def captureSnapshot (useOverlay : Bool) (files : FileSystem)
    (input : CaptureInput) :
    Except Refusal CaptureResult :=
  if useOverlay then
    captureGitOverlaySnapshot files input
  else
    captureFullSnapshot files input

/-! ## What a successful capture collected -/

open Rbo.Foundation.Results

section Success

variable {files : FileSystem} {input : CaptureInput}

theorem resolveRealPath_eq_ok {path : List Char} {location : Location} :
    resolveRealPath files path = .ok location ↔
      files.realPath path = some location := by
  unfold resolveRealPath
  split <;> simp_all

/-- A contained path has a real path below the real path of its parent. -/
theorem assertRealPathContained_eq_ok {parentPath childPath : List Char}
    (contained :
      assertRealPathContained files parentPath childPath = .ok ()) :
    ∃ realParent realChild,
      files.realPath parentPath = some realParent ∧
      files.realPath childPath = some realChild ∧
      isPathContained realParent realChild = true := by
  unfold assertRealPathContained at contained
  obtain ⟨realParent, parentOk, contained⟩ := bind_eq_ok.mp contained
  obtain ⟨realChild, childOk, contained⟩ := bind_eq_ok.mp contained
  refine ⟨realParent, realChild, resolveRealPath_eq_ok.mp parentOk,
    resolveRealPath_eq_ok.mp childOk, ?_⟩
  split at contained
  · assumption
  · cases contained

/-- What was captured at a path below a root. -/
structure CapturedAt (files : FileSystem) (repoRoot wirePath : List Char)
    (secretPolicy : SecretPolicyMode) (file : CapturedFile) : Prop where
  contained :
    assertRealPathContained files repoRoot (resolveInside repoRoot wirePath) =
      .ok ()
  path : file.tarEntry.path = wirePath
  policy : file = captured file.tarEntry wirePath secretPolicy
  content :
    (file.tarEntry.content = .file (resolveInside repoRoot wirePath) ∧
      ∃ executable bytes,
        files.lstat (resolveInside repoRoot wirePath) =
          some (.file executable bytes)) ∨
    ((∃ target, file.tarEntry.content = .symlink target) ∧
      ∃ target,
        files.lstat (resolveInside repoRoot wirePath) = some (.link target))

theorem captureMetadataPreflightEntry_eq_ok {repoRoot wirePath : List Char}
    {stageModes : List Char → Option (List Char)}
    {secretPolicy : SecretPolicyMode} {file : CapturedFile}
    (success :
      captureMetadataPreflightEntry files repoRoot wirePath stageModes
        secretPolicy = .ok file) :
    CapturedAt files repoRoot wirePath secretPolicy file := by
  unfold captureMetadataPreflightEntry at success
  obtain ⟨_, contained, success⟩ := bind_eq_ok.mp success
  split at success
  · cases success
  · rename_i target found
    obtain ⟨_, _, success⟩ := bind_eq_ok.mp success
    cases success
    exact ⟨contained, rfl, rfl, Or.inr ⟨⟨_, rfl⟩, target, found⟩⟩
  · rename_i executable bytes found
    cases success
    exact ⟨contained, rfl, rfl, Or.inl ⟨rfl, executable, bytes, found⟩⟩
  · cases success

/-- The archive path of a path inside an additional root. -/
def archivePath (useOverlay : Bool) (root : AdditionalRoot)
    (relPath : List Char) : List Char :=
  if useOverlay then overlayArchivePath root relPath
  else fullArchivePath root relPath

/-- What was captured of an additional root. -/
structure RootCaptured (useOverlay : Bool) (files : FileSystem)
    (input : CaptureInput) (root : AdditionalRoot)
    (answer : AdditionalRoot × List CapturedFile) : Prop where
  same : answer.1 = root
  admitted : useOverlay = false →
    isSafeRelativePath root.mountPath = true ∧
    ∃ realSource, files.realPath root.sourcePath = some realSource ∧
      isRootAllowed files input realSource = true
  collected :
    ∃ realSource relPaths,
      files.realPath root.sourcePath = some realSource ∧
      enumerateAdditionalRootPaths files root = .ok relPaths ∧
      List.Forall₂
        (fun relPath file =>
          (useOverlay = false →
            isSafeRelativePath (archivePath useOverlay root relPath) = true) ∧
          ∃ base,
            CapturedAt files (render realSource) relPath input.secretPolicy
              base ∧
            file = underMount (archivePath useOverlay root relPath) base)
        relPaths answer.2

theorem captureFullRoot_eq_ok {root : AdditionalRoot}
    {answer : AdditionalRoot × List CapturedFile}
    (success : captureFullRoot files input root = .ok answer) :
    RootCaptured false files input root answer := by
  unfold captureFullRoot at success
  obtain ⟨safeMount, success⟩ := guard_eq_ok.mp success
  obtain ⟨realSource, resolved, success⟩ := bind_eq_ok.mp success
  obtain ⟨allowed, success⟩ := guard_eq_ok.mp success
  obtain ⟨relPaths, listed, success⟩ := bind_eq_ok.mp success
  obtain ⟨rootCaptured, worked, success⟩ := bind_eq_ok.mp success
  cases success
  have source := resolveRealPath_eq_ok.mp resolved
  refine ⟨rfl, fun _ => ⟨by simpa using safeMount, realSource, source,
    by simpa using allowed⟩, realSource, relPaths, source, listed, ?_⟩
  refine (mapM_eq_ok worked).imp ?_
  intro relPath file one
  obtain ⟨safe, one⟩ := guard_eq_ok.mp one
  obtain ⟨base, preflight, one⟩ := bind_eq_ok.mp one
  cases one
  exact ⟨fun _ => by simpa [archivePath] using safe, base,
    captureMetadataPreflightEntry_eq_ok preflight, rfl⟩

theorem captureOverlayRoot_eq_ok {root : AdditionalRoot}
    {answer : AdditionalRoot × List CapturedFile}
    (success : captureOverlayRoot files input root = .ok answer) :
    RootCaptured true files input root answer := by
  unfold captureOverlayRoot at success
  obtain ⟨realSource, resolved, success⟩ := bind_eq_ok.mp success
  obtain ⟨relPaths, listed, success⟩ := bind_eq_ok.mp success
  obtain ⟨rootCaptured, worked, success⟩ := bind_eq_ok.mp success
  cases success
  have source := resolveRealPath_eq_ok.mp resolved
  refine ⟨rfl, nofun, realSource, relPaths, source, listed, ?_⟩
  refine (mapM_eq_ok worked).imp ?_
  intro relPath file one
  obtain ⟨base, preflight, one⟩ := bind_eq_ok.mp one
  cases one
  exact ⟨nofun, base, captureMetadataPreflightEntry_eq_ok preflight, rfl⟩

/-- The project paths that a mode captures. -/
def projectPaths (useOverlay : Bool) (files : FileSystem)
    (input : CaptureInput) : List (List Char) :=
  if useOverlay then input.wirePaths
  else input.wirePaths.filter (isCapturable files input.repoRoot)

/-- What a successful capture collected and wrote. -/
structure Collected (useOverlay : Bool) (files : FileSystem)
    (input : CaptureInput) (result : CaptureResult)
    (project : List CapturedFile) : Prop where
  allowed :
    assertAllowedProjectRoot files input.repoRoot input.allowedProjectRoots =
      .ok ()
  fromProject :
    List.Forall₂
      (fun wirePath file =>
        CapturedAt files input.repoRoot wirePath input.secretPolicy file)
      (projectPaths useOverlay files input) project
  fromRoots :
    List.Forall₂ (RootCaptured useOverlay files input) input.additionalRoots
      result.additionalRoots
  violations :
    (project ++ result.additionalRoots.flatMap (·.2)).flatMap
      (·.secretViolations) = []
  warnings :
    result.secretWarnings =
      (project ++ result.additionalRoots.flatMap (·.2)).flatMap
        (·.secretWarnings)
  archive : ∃ directories : List (List Char),
    result.archive.map (·.1) =
      project.map (·.tarEntry) ++
        directories.map (fun path =>
          { path := path, mode := 0o755, content := .directory }) ++
        (result.additionalRoots.flatMap (·.2)).map (·.tarEntry)

theorem archiveEntry_eq_ok {entry : TarEntry} {written : TarEntry × List UInt8}
    (success : archiveEntry files entry = .ok written) :
    written.1 = entry := by
  unfold archiveEntry at success
  split at success
  · split at success
    · cases success
      rfl
    · cases success
  · cases success
    rfl
  · cases success
    rfl

theorem map_fst_of_archived {entries : List TarEntry}
    {archive : List (TarEntry × List UInt8)}
    (worked : entries.mapM (archiveEntry files) = .ok archive) :
    archive.map (·.1) = entries := by
  have all := mapM_eq_ok worked
  clear worked
  induction all with
  | nil => rfl
  | cons one _ inductionHypothesis =>
    rw [List.map_cons, archiveEntry_eq_ok one, inductionHypothesis]

theorem writeArchive_eq_ok {useOverlay : Bool} {project : List CapturedFile}
    {directories : List (List Char)}
    {roots : List (AdditionalRoot × List CapturedFile)}
    {result : CaptureResult}
    (allowed :
      assertAllowedProjectRoot files input.repoRoot
        input.allowedProjectRoots = .ok ())
    (fromProject :
      List.Forall₂
        (fun wirePath file =>
          CapturedAt files input.repoRoot wirePath input.secretPolicy file)
        (projectPaths useOverlay files input) project)
    (fromRoots :
      List.Forall₂ (RootCaptured useOverlay files input)
        input.additionalRoots roots)
    (success :
      writeArchive files input project directories roots = .ok result) :
    Collected useOverlay files input result project := by
  unfold writeArchive at success
  obtain ⟨_, unblocked, success⟩ := bind_eq_ok.mp success
  obtain ⟨_, _, success⟩ := bind_eq_ok.mp success
  obtain ⟨archive, written, success⟩ := bind_eq_ok.mp success
  cases success
  refine ⟨allowed, fromProject, fromRoots, ?_, rfl,
    directories, map_fst_of_archived written⟩
  unfold throwIfSecretViolations at unblocked
  split at unblocked
  · assumption
  · cases unblocked

/-- Either mode, when it succeeds, collected what its paths say. -/
theorem captureSnapshot_eq_ok {useOverlay : Bool} {result : CaptureResult}
    (success : captureSnapshot useOverlay files input = .ok result) :
    ∃ project, Collected useOverlay files input result project := by
  unfold captureSnapshot at success
  cases useOverlay with
  | true =>
    change captureGitOverlaySnapshot files input = .ok result at success
    unfold captureGitOverlaySnapshot at success
    obtain ⟨_, allowed, success⟩ := bind_eq_ok.mp success
    obtain ⟨_, _, success⟩ := bind_eq_ok.mp success
    obtain ⟨project, projectOk, success⟩ := bind_eq_ok.mp success
    obtain ⟨roots, rootsOk, success⟩ := bind_eq_ok.mp success
    refine ⟨project, writeArchive_eq_ok allowed ?_ ?_ success⟩
    · refine (mapM_eq_ok projectOk).imp ?_
      intro wirePath file one
      obtain ⟨_, one⟩ := guard_eq_ok.mp one
      exact captureMetadataPreflightEntry_eq_ok one
    · refine (mapM_eq_ok rootsOk).imp ?_
      intro root answer one
      exact captureOverlayRoot_eq_ok one
  | false =>
    change captureFullSnapshot files input = .ok result at success
    unfold captureFullSnapshot at success
    obtain ⟨_, allowed, success⟩ := bind_eq_ok.mp success
    obtain ⟨_, success⟩ := guard_eq_ok.mp success
    obtain ⟨_, _, success⟩ := bind_eq_ok.mp success
    obtain ⟨project, projectOk, success⟩ := bind_eq_ok.mp success
    obtain ⟨roots, rootsOk, success⟩ := bind_eq_ok.mp success
    refine ⟨project, writeArchive_eq_ok allowed ?_ ?_ success⟩
    · refine (mapM_eq_ok projectOk).imp ?_
      intro wirePath file one
      exact captureMetadataPreflightEntry_eq_ok one
    · refine (mapM_eq_ok rootsOk).imp ?_
      intro root answer one
      exact captureFullRoot_eq_ok one

/-- Everything captured, from the project and from the additional roots. -/
def allCaptured (project : List CapturedFile) (result : CaptureResult) :
    List CapturedFile :=
  project ++ result.additionalRoots.flatMap (·.2)

/-- The files and links of the archive are those that were captured. -/
theorem mem_archive_iff {useOverlay : Bool} {result : CaptureResult}
    {project : List CapturedFile}
    (collected : Collected useOverlay files input result project)
    {entry : TarEntry} (content : entry.content ≠ .directory) :
    (∃ written ∈ result.archive, written.1 = entry) ↔
      ∃ file ∈ allCaptured project result, file.tarEntry = entry := by
  obtain ⟨directories, entries⟩ := collected.archive
  have asEntry :
      (∃ written ∈ result.archive, written.1 = entry) ↔
        entry ∈ result.archive.map (·.1) := by
    simp
  rw [asEntry, entries]
  simp only [allCaptured, List.mem_append, List.mem_map]
  constructor
  · rintro ((⟨file, member, same⟩ | ⟨path, _, rfl⟩) | ⟨file, member, same⟩)
    · exact ⟨file, Or.inl member, same⟩
    · exact absurd rfl content
    · exact ⟨file, Or.inr member, same⟩
  · rintro ⟨file, member | member, same⟩
    · exact Or.inl (Or.inl ⟨file, member, same⟩)
    · exact Or.inr ⟨file, member, same⟩

end Success

end Rbo.Snapshot.Capture
