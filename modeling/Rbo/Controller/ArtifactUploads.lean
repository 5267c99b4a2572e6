import Rbo.Controller.Lifecycle
import Rbo.Foundation.OpenFiles
import Rbo.Snapshot.Capture

/-!
# The uploads of artifacts

An agent declares the artifacts of an attempt in a manifest and uploads each
with a request of its own.  The request is checked against the attempt and the
declaration; then its bytes are streamed into a temporary file, whose name
depends on the logical name alone; when they are what was declared, the file is
renamed to its place and a row of `artifacts` is written.

Requests, manifests and changes of the attempt may interleave wherever a
request waits for the client or the file system.  A request comes with a token
that was verified; which tokens are handed out does not matter here.
-/

namespace Rbo.Controller.ArtifactUploads

open Rbo.Foundation
open Rbo.Controller.Lifecycle (AttemptState)

/-! ## What is stored -/

abbrev AttemptId := List Char

abbrev LogicalName := List Char

/-- A path below the artifact directory of an attempt. -/
abbrev Path := AttemptId × List Char

/-- The hash of a content, and the first sixteen digits of that of a name. -/
structure Hashes (Digest : Type) where
  sha256 : List UInt8 → Digest
  nameDigits : LogicalName → List Char

/-- `ArtifactExpectation`. -/
structure Expectation (Digest : Type) where
  sizeBytes : Nat
  sha256 : Digest
  deriving DecidableEq

structure ManifestArtifact (Digest : Type) where
  logicalName : LogicalName
  sizeBytes : Nat
  sha256 : Digest

/-- The payload of an `artifact_manifest` frame. -/
structure ArtifactManifest (Digest : Type) where
  attemptId : AttemptId
  leaseId : List Char
  leaseEpoch : Nat
  artifacts : List (ManifestArtifact Digest)

/-- A row of `job_attempts`. -/
structure AttemptRow where
  jobId : List Char
  agentId : Option (List Char)
  leaseId : List Char
  leaseEpoch : Nat
  leaseDeadline : Option Int
  state : AttemptState
  deriving DecidableEq

/-- A row of `artifacts`. -/
structure ArtifactRow (Digest : Type) where
  id : List Char
  jobId : List Char
  attemptId : AttemptId
  logicalName : LogicalName
  path : List Char
  sizeBytes : Nat
  sha256 : Digest
  createdAt : List Char
  deriving DecidableEq

namespace ArtifactRow

variable {Digest : Type}

/-- The columns of the unique index. -/
def key (row : ArtifactRow Digest) : AttemptId × LogicalName :=
  (row.attemptId, row.logicalName)

def place (row : ArtifactRow Digest) : Path :=
  (row.attemptId, row.path)

def expectation (row : ArtifactRow Digest) : Expectation Digest :=
  ⟨row.sizeBytes, row.sha256⟩

end ArtifactRow

/-- `INSERT … ON CONFLICT(attempt_id, logical_name) DO UPDATE`. -/
def upsert {Digest : Type} (rows : List (ArtifactRow Digest))
    (row : ArtifactRow Digest) : List (ArtifactRow Digest) :=
  if row.key ∈ rows.map ArtifactRow.key then
    rows.map fun old =>
      if old.key = row.key then
        { old with
            sizeBytes := row.sizeBytes
            sha256 := row.sha256
            path := row.path }
      else old
  else rows ++ [row]

/-- `VerifiedDataToken`. -/
structure Token where
  agentId : List Char
  jobId : List Char
  attemptId : AttemptId
  leaseId : List Char
  leaseEpoch : Nat
  artifactUpload : Bool
  artifactId : Option LogicalName
  deriving DecidableEq

/-- The status of a response and its message. -/
structure Response where
  status : Nat
  message : String
  deriving DecidableEq

/-! ## A request -/

/-- Where a request is once it was let in; the bytes are those that were
received, and the number that of those that have been written. -/
inductive Phase where
  /-- The directories are made, and the temporary file is not open. -/
  | preparing
  | streaming (file : Nat) (received : List UInt8) (written : Nat)
  /-- The client is gone; the handler waits for ever. -/
  | aborted (file : Nat) (received : List UInt8) (written : Nat)
  /-- About to remove the temporary file. -/
  | removing (response : Response)
  /-- The bytes are what was declared. -/
  | moving (file : Nat) (received : List UInt8)
  | inserting (file : Nat) (received : List UInt8)
  | done (response : Response)
  deriving DecidableEq

structure Upload (Digest : Type) where
  attemptId : AttemptId
  logicalName : LogicalName
  expected : Expectation Digest
  phase : Phase
  deriving DecidableEq

/-- The name of the temporary file. -/
def partName (digits : List Char) : List Char :=
  ".upload-".toList ++ digits ++ ".part".toList

namespace Upload

variable {Digest : Type} (hashes : Hashes Digest) (upload : Upload Digest)

/-- `partPath`. -/
def part : Path :=
  (upload.attemptId, partName (hashes.nameDigits upload.logicalName))

/-- `destPath`. -/
def dest : Path :=
  (upload.attemptId, upload.logicalName)

end Upload

def defaultArtifactCapBytes : Nat := 100 * 1024 * 1024

def artifactUploadStreamLimit (declaredSizeBytes : Nat) : Nat :=
  min defaultArtifactCapBytes declaredSizeBytes

/-! ## The controller -/

structure State (Digest : Type) where
  attempts : AttemptId → Option AttemptRow
  expectations : AttemptId → LogicalName → Option (Expectation Digest)
  /-- What the latest manifest of an attempt declares. -/
  manifests : AttemptId → LogicalName → Option (Expectation Digest)
  rows : List (ArtifactRow Digest)
  disk : Disk Path UInt8
  uploads : List (Upload Digest)

section Handlers

variable {Digest : Type} [DecidableEq Digest] (hashes : Hashes Digest)

/-- What a list of artifacts declares; the last one of a name counts. -/
def declare (declared : LogicalName → Option (Expectation Digest))
    (artifacts : List (ManifestArtifact Digest)) :
    LogicalName → Option (Expectation Digest) :=
  artifacts.foldl
    (fun declared artifact =>
      Function.update declared artifact.logicalName
        (some ⟨artifact.sizeBytes, artifact.sha256⟩))
    declared

/-- `registerArtifactExpectations`. -/
def registerArtifactExpectations (state : State Digest)
    (attemptId : AttemptId) (artifacts : List (ManifestArtifact Digest)) :
    State Digest :=
  { state with
      expectations := Function.update state.expectations attemptId
        (declare (state.expectations attemptId) artifacts) }

def clearArtifactExpectations (state : State Digest) (attemptId : AttemptId) :
    State Digest :=
  { state with
      expectations := Function.update state.expectations attemptId
        fun _ => none }

def isLeaseExpired (row : AttemptRow) (nowMs : Int) : Bool :=
  row.leaseDeadline.any fun deadline => decide (deadline ≤ nowMs)

/-- `loadAttemptByLease` and `rejectStale`, for an attempt that has to be in
`collecting_artifacts`. -/
def acceptsFrame (state : State Digest) (agentId : List Char)
    (attemptId : AttemptId) (leaseId : List Char) (leaseEpoch : Nat)
    (nowMs : Int) : Bool :=
  match state.attempts attemptId with
  | none => false
  | some row =>
    decide (row.leaseId = leaseId) && decide (row.leaseEpoch = leaseEpoch) &&
      decide (row.agentId = some agentId) && !isLeaseExpired row nowMs &&
      decide (row.state = .collectingArtifacts)

/-- `handleRemoteArtifactManifest`, without the summary of the collection. -/
def handleRemoteArtifactManifest (state : State Digest) (agentId : List Char)
    (payload : ArtifactManifest Digest) (nowMs : Int) : State Digest :=
  if acceptsFrame state agentId payload.attemptId payload.leaseId
      payload.leaseEpoch nowMs then
    registerArtifactExpectations
      { state with
          manifests := Function.update state.manifests payload.attemptId
            (declare (fun _ => none) payload.artifacts) }
      payload.attemptId payload.artifacts
  else state

def stateText : AttemptState → String
  | .starting => "starting"
  | .leasing => "leasing"
  | .preparingSource => "preparing_source"
  | .running => "running"
  | .collectingArtifacts => "collecting_artifacts"
  | .orphaned => "orphaned"
  | .completed => "completed"

/-- `authorizeAttemptToken`, for an upload. -/
def authorizeAttemptToken (state : State Digest) (token : Token)
    (attemptId : AttemptId) (nowMs : Int) : Except Response Unit :=
  if token.attemptId ≠ attemptId then
    .error ⟨403, "Token attempt_id mismatch"⟩
  else
    match state.attempts attemptId with
    | none => .error ⟨404, "Attempt not found"⟩
    | some row =>
      if row.agentId ≠ some token.agentId ∨ row.jobId ≠ token.jobId ∨
          row.leaseId ≠ token.leaseId ∨ row.leaseEpoch ≠ token.leaseEpoch then
        .error ⟨403, "Token lease tuple mismatch"⟩
      else if isLeaseExpired row nowMs then .error ⟨403, "Lease expired"⟩
      else if row.state ≠ .collectingArtifacts then
        .error ⟨403,
          "Attempt state '" ++ stateText row.state ++
            "' rejects this operation"⟩
      else .ok ()

/-- `isPathContained`, for a safe path below the directory. -/
def isPathContained (logicalName : LogicalName) : Bool :=
  !(['.', '.'].isPrefixOf logicalName)

/-- What a request is answered before it waits for anything, or what it has to
upload. -/
def admitUpload (state : State Digest) (token : Token) (attemptId : AttemptId)
    (logicalName : LogicalName) (nowMs : Int) :
    Except Response (Expectation Digest) :=
  if !token.artifactUpload || token.artifactId.any fun claimed =>
      !claimed.isEmpty && decide (claimed ≠ logicalName) then
    .error ⟨403, "Token claim mismatch for artifact upload"⟩
  else if !Snapshot.Capture.isSafeRelativePath logicalName then
    .error ⟨400, "Artifact logical name must be a safe relative path"⟩
  else
    match authorizeAttemptToken state token attemptId nowMs with
    | .error response => .error response
    | .ok () =>
      match state.expectations attemptId logicalName with
      | none =>
        .error ⟨400, "Artifact was not declared in artifact_manifest"⟩
      | some expected =>
        if isPathContained logicalName then .ok expected
        else .error
          ⟨400, "Artifact path escapes attempt artifact directory"⟩

def stored : Response := ⟨200, "ok"⟩

def writeFailed : Response := ⟨500, "Failed to write artifact file"⟩

def sizeExceeded (sizeBytes sizeCounter : Nat) : Response :=
  if sizeBytes < sizeCounter then
    ⟨413, s!"Artifact exceeded declared size_bytes ({sizeBytes}) from artifact_manifest"⟩
  else ⟨413, "Artifact size limit exceeded"⟩

def countMismatch (sizeBytes sizeCounter : Nat) : Response :=
  ⟨400, s!"Artifact byte count mismatch: got {sizeCounter}, expected {sizeBytes} from artifact_manifest"⟩

def hashMismatch : Response :=
  ⟨400, "Artifact SHA-256 mismatch vs artifact_manifest"⟩

/-- What happens next to a request, and whether it succeeds. -/
inductive Action where
  | openPart (ok : Bool)
  /-- The client sends bytes. -/
  | chunk (bytes : List UInt8)
  /-- The stream writes so many of the bytes that it holds. -/
  | flush (count : Nat) (ok : Bool)
  /-- The request has ended and everything is written. -/
  | finish
  | abort
  | rename (ok : Bool)
  | insert (id createdAt : List Char) (ok : Bool)
  | remove
  deriving DecidableEq

/-- Drop the expectation of an upload that was verified. -/
def State.dropExpectation (state : State Digest) (upload : Upload Digest) :
    State Digest :=
  { state with
      expectations := Function.update state.expectations upload.attemptId
        (Function.update (state.expectations upload.attemptId)
          upload.logicalName none) }

/-- The end of the stream: the bytes are compared with the declaration. -/
def verify (state : State Digest) (upload : Upload Digest) (file : Nat)
    (received : List UInt8) : State Digest × Phase :=
  if received.length ≠ upload.expected.sizeBytes then
    (state, .removing (countMismatch upload.expected.sizeBytes received.length))
  else if hashes.sha256 received ≠ upload.expected.sha256 then
    (state, .removing hashMismatch)
  else (state.dropExpectation upload, .moving file received)

/-- The row of a file that is in its place. -/
def rowOf (upload : Upload Digest) (attempt : AttemptRow)
    (received : List UInt8) (id createdAt : List Char) : ArtifactRow Digest where
  id := id
  jobId := attempt.jobId
  attemptId := upload.attemptId
  logicalName := upload.logicalName
  path := upload.logicalName
  sizeBytes := received.length
  sha256 := hashes.sha256 received
  createdAt := createdAt

/-- A request goes on. -/
def proceed (state : State Digest) (upload : Upload Digest) :
    Phase → Action → Option (State Digest × Phase)
  | .preparing, .openPart ok =>
    if ok then
      some ({ state with
          disk := state.disk.openForWriting (upload.part hashes) },
        .streaming (state.disk.opened (upload.part hashes)) [] 0)
    else some (state, .removing writeFailed)
  | .streaming file received written, .chunk bytes =>
    if artifactUploadStreamLimit upload.expected.sizeBytes <
        received.length + bytes.length then
      some (state, .removing (sizeExceeded upload.expected.sizeBytes
        (received.length + bytes.length)))
    else some (state, .streaming file (received ++ bytes) written)
  | .streaming file received written, .flush count ok =>
    if ((received.drop written).take count).isEmpty then none
    else if ok then
      some ({ state with
          disk := state.disk.writeAt file written
            ((received.drop written).take count) },
        .streaming file received
          (written + ((received.drop written).take count).length))
    else some (state, .removing writeFailed)
  | .streaming file received written, .finish =>
    if written < received.length then none
    else some (verify hashes state upload file received)
  | .streaming file received written, .abort =>
    some (state, .aborted file received written)
  | .aborted file received written, .flush count ok =>
    if ((received.drop written).take count).isEmpty then none
    else if ok then
      some ({ state with
          disk := state.disk.writeAt file written
            ((received.drop written).take count) },
        .aborted file received
          (written + ((received.drop written).take count).length))
    else some (state, .removing writeFailed)
  | .moving file received, .rename ok =>
    if ok && (state.disk.files (upload.part hashes)).isSome then
      some ({ state with
          disk := state.disk.rename (upload.part hashes) upload.dest },
        .inserting file received)
    else some (state, .removing writeFailed)
  | .inserting _ received, .insert id createdAt ok =>
    match state.attempts upload.attemptId with
    | none => some (state, .done stored)
    | some attempt =>
      if ok then
        some ({ state with
            rows := upsert state.rows
              (rowOf hashes upload attempt received id createdAt) },
          .done stored)
      else some (state, .removing writeFailed)
  | .removing response, .remove =>
    some ({ state with disk := state.disk.unlink (upload.part hashes) },
      .done response)
  | _, _ => none

inductive Label (Digest : Type) where
  | manifest (agentId : List Char) (payload : ArtifactManifest Digest)
      (nowMs : Int)
  /-- `handleRemoteCleanupComplete`, behind the drain of the log chunks. -/
  | cleanupComplete (agentId : List Char) (attemptId : AttemptId)
      (leaseId : List Char) (leaseEpoch : Nat) (nowMs : Int)
  /-- A row of `job_attempts` is written. -/
  | attempt (attemptId : AttemptId) (row : AttemptRow)
  | put (token : Token) (attemptId : AttemptId) (logicalName : LogicalName)
      (nowMs : Int)
  | upload (index : Nat) (action : Action)

/-- A row of `job_attempts` is written. -/
def State.setAttempt (state : State Digest) (attemptId : AttemptId)
    (row : AttemptRow) : State Digest :=
  { state with
      attempts := Function.update state.attempts attemptId (some row) }

def step (state : State Digest) : Label Digest → Option (State Digest)
  | .manifest agentId payload nowMs =>
    some (handleRemoteArtifactManifest state agentId payload nowMs)
  | .cleanupComplete agentId attemptId leaseId leaseEpoch nowMs =>
    match state.attempts attemptId with
    | none => some state
    | some row =>
      if acceptsFrame state agentId attemptId leaseId leaseEpoch nowMs then
        some ((clearArtifactExpectations state attemptId).setAttempt
          attemptId { row with state := .completed })
      else some state
  | .attempt attemptId row => some (state.setAttempt attemptId row)
  | .put token attemptId logicalName nowMs =>
    match admitUpload state token attemptId logicalName nowMs with
    | .error _ => some state
    | .ok expected =>
      some { state with
        uploads := state.uploads ++
          [⟨attemptId, logicalName, expected, .preparing⟩] }
  | .upload index action =>
    match state.uploads[index]? with
    | none => none
    | some upload =>
      (proceed hashes state upload upload.phase action).map
        fun (after, phase) =>
          { after with
            uploads := state.uploads.set index
              { upload with phase := phase } }

/-- Nothing is declared or stored. -/
def start (attempts : AttemptId → Option AttemptRow) : State Digest where
  attempts := attempts
  expectations _ _ := none
  manifests _ _ := none
  rows := []
  disk := .empty
  uploads := []

def machine : Machine (State Digest) (Label Digest) where
  initial state := ∃ attempts, state = start attempts
  step := step hashes

end Handlers

/-! ## What is asked of the rows -/

section Properties

variable {Digest : Type} (hashes : Hashes Digest)

/-- Are the bytes what is expected? -/
def Matches (expected : Expectation Digest) (bytes : List UInt8) : Prop :=
  bytes.length = expected.sizeBytes ∧ hashes.sha256 bytes = expected.sha256

def Collecting (state : State Digest) (attemptId : AttemptId) : Prop :=
  ∃ row, state.attempts attemptId = some row ∧
    row.state = .collectingArtifacts

/-- The file of a row has the recorded content, which the latest manifest
declares. -/
structure RowFits (state : State Digest) (row : ArtifactRow Digest) : Prop where
  content : ∃ file, state.disk.files row.place = some file ∧
    Matches hashes row.expectation (state.disk.content file)
  declared : state.manifests row.attemptId row.logicalName =
    some row.expectation

/-- The rows are exactly what was declared, one for a name, and none is written
for an attempt that does not collect its artifacts. -/
structure Exact [DecidableEq Digest] (state : State Digest) : Prop where
  fits : ∀ row ∈ state.rows, RowFits hashes state row
  unique : (state.rows.map ArtifactRow.key).Nodup
  timely : ∀ label next, step hashes state label = some next →
    ∀ row ∈ next.rows, row ∉ state.rows → Collecting state row.attemptId

namespace Phase

/-- May the request still change its temporary file or what stands there? -/
def live : Phase → Bool
  | .preparing => false
  | .streaming _ _ _ => true
  | .aborted _ received written => written < received.length
  | .removing _ => true
  | .moving _ _ => true
  | .inserting _ _ => true
  | .done _ => false

/-- The file that is open, with the bytes for it and the number of those that
are in it. -/
def handle : Phase → Option (Nat × List UInt8 × Nat)
  | .streaming file received written => some (file, received, written)
  | .aborted file received written =>
    if written < received.length then some (file, received, written)
    else none
  | .moving file received => some (file, received, received.length)
  | _ => none

/-- The bytes that were found to be what is declared. -/
def verified : Phase → Option (List UInt8)
  | .moving _ received => some received
  | .inserting _ received => some received
  | _ => none

end Phase

/-- Neither of two requests uses the temporary file of the other. -/
structure Apart (first second : Upload Digest) : Prop where
  parts : first.part hashes ≠ second.part hashes
  left : first.part hashes ≠ second.dest
  right : second.part hashes ≠ first.dest

/-- The steps that keep the uploads apart: a temporary file is opened that no
other request at work and no row uses; bytes are found to be right only while
the attempt collects its artifacts and its latest manifest declares them so; a
manifest declares what is stored or verified as it is; and an attempt goes on
only when none of its uploads is verified and not stored. -/
def Careful (state : State Digest) : Label Digest → Prop
  | .manifest agentId payload nowMs =>
    acceptsFrame state agentId payload.attemptId payload.leaseId
        payload.leaseEpoch nowMs = true →
      (∀ row ∈ state.rows, row.attemptId = payload.attemptId →
        declare (fun _ => none) payload.artifacts row.logicalName =
          some row.expectation) ∧
      ∀ upload ∈ state.uploads, upload.attemptId = payload.attemptId →
        upload.phase.verified.isSome = true →
        declare (fun _ => none) payload.artifacts upload.logicalName =
          some upload.expected
  | .cleanupComplete _ attemptId _ _ _ =>
    ∀ upload ∈ state.uploads, upload.attemptId = attemptId →
      upload.phase.verified = none
  | .attempt attemptId row =>
    row.state ≠ .collectingArtifacts →
      ∀ upload ∈ state.uploads, upload.attemptId = attemptId →
        upload.phase.verified = none
  | .put _ _ _ _ => True
  | .upload index action =>
    ∀ upload, state.uploads[index]? = some upload →
      (∀ ok, action = .openPart ok →
        (∀ other second, other ≠ index →
          state.uploads[other]? = some second →
          second.phase.live = true → Apart hashes upload second) ∧
        ∀ row ∈ state.rows, row.place ≠ upload.part hashes) ∧
      (action = .finish → ∀ file received written,
        upload.phase = .streaming file received written →
        Matches hashes upload.expected received →
        Collecting state upload.attemptId ∧
          state.manifests upload.attemptId upload.logicalName =
            some upload.expected)

end Properties

/-! ## The uploads at work -/

section Invariants

variable {Digest : Type} (hashes : Hashes Digest)

/-- The file of an upload is its own, and holds what was written to it; once it
is verified the attempt waits for it. -/
structure Fits (state : State Digest) (upload : Upload Digest) : Prop where
  own : ∀ file received written,
    upload.phase.handle = some (file, received, written) →
      state.disk.files (upload.part hashes) = some file ∧
        state.disk.content file = received.take written ∧
          written ≤ received.length
  moved : ∀ file received, upload.phase = .inserting file received →
    state.disk.files upload.dest = some file ∧
      state.disk.content file = received
  verified : ∀ received, upload.phase.verified = some received →
    Matches hashes upload.expected received ∧
      Collecting state upload.attemptId ∧
        state.manifests upload.attemptId upload.logicalName =
          some upload.expected

structure Invariant (state : State Digest) : Prop where
  sound : state.disk.Sound
  fits : ∀ upload ∈ state.uploads, Fits hashes state upload
  apart : ∀ (i j : Nat) (first second : Upload Digest), i ≠ j →
    state.uploads[i]? = some first → state.uploads[j]? = some second →
    first.phase.live = true → second.phase.live = true →
    Apart hashes first second
  rows : ∀ row ∈ state.rows, RowFits hashes state row
  paths : ∀ row ∈ state.rows, row.path = row.logicalName
  unique : (state.rows.map ArtifactRow.key).Nodup
  clear : ∀ upload ∈ state.uploads, upload.phase.live = true →
    ∀ row ∈ state.rows, row.place ≠ upload.part hashes

variable {hashes} {state next : State Digest} {upload other : Upload Digest}

theorem Apart.symm (apart : Apart hashes upload other) :
    Apart hashes other upload :=
  ⟨apart.parts.symm, apart.right, apart.left⟩

theorem Apart.dests (apart : Apart hashes upload other) :
    upload.dest ≠ other.dest := by
  intro same
  have names := Prod.mk.inj same
  refine apart.parts ?_
  unfold Upload.part
  rw [names.1, names.2]

theorem live_of_handle {phase : Phase} {value : Nat × List UInt8 × Nat}
    (handle : phase.handle = some value) : phase.live = true := by
  cases phase with
  | aborted file received written =>
    exact decide_eq_true (Option.ite_none_right_eq_some.mp handle).1
  | preparing => cases handle
  | removing response => cases handle
  | inserting file received => cases handle
  | done response => cases handle
  | streaming file received written => rfl
  | moving file received => rfl

/-- What a request does leaves another one as it is. -/
theorem Fits.frame (fits : Fits hashes state other)
    (apart : other.phase.live = true → Apart hashes upload other)
    (attempts : next.attempts = state.attempts)
    (manifests : next.manifests = state.manifests)
    (same : ∀ path, path ≠ upload.part hashes → path ≠ upload.dest →
      Disk.SameAt state.disk next.disk path) :
    Fits hashes next other where
  own file received written handle := by
    obtain ⟨there, content, le⟩ := fits.own file received written handle
    have kept := apart (live_of_handle handle)
    obtain ⟨files, contents⟩ := same _ kept.parts.symm kept.right
    exact ⟨files.trans there, (contents file there).trans content, le⟩
  moved file received inserting := by
    obtain ⟨there, content⟩ := fits.moved file received inserting
    have kept := apart (by rw [inserting]; rfl)
    obtain ⟨files, contents⟩ := same _ kept.left.symm kept.dests.symm
    exact ⟨files.trans there, (contents file there).trans content⟩
  verified received found := by
    unfold Collecting
    rw [attempts, manifests]
    exact fits.verified received found

variable {row : ArtifactRow Digest}

/-- What a request does leaves the rows of other files as they are. -/
theorem RowFits.frame (fits : RowFits hashes state row)
    (manifests : next.manifests = state.manifests)
    (same : Disk.SameAt state.disk next.disk row.place) :
    RowFits hashes next row where
  content := by
    obtain ⟨file, there, right⟩ := fits.content
    refine ⟨file, same.1.trans there, ?_⟩
    rw [same.2 file there]
    exact right
  declared := by
    rw [manifests]
    exact fits.declared

/-- A request goes on, apart from the others. -/
theorem Invariant.advance (invariant : Invariant hashes state) {index : Nat}
    {phase : Phase} (found : state.uploads[index]? = some upload)
    (apart : ∀ position second, position ≠ index →
      state.uploads[position]? = some second → second.phase.live = true →
      Apart hashes upload second)
    (attempts : next.attempts = state.attempts)
    (manifests : next.manifests = state.manifests)
    (sound : next.disk.Sound)
    (same : ∀ path, path ≠ upload.part hashes → path ≠ upload.dest →
      Disk.SameAt state.disk next.disk path)
    (fits : Fits hashes next { upload with phase := phase })
    (rows : ∀ row ∈ next.rows, RowFits hashes next row)
    (paths : ∀ row ∈ next.rows, row.path = row.logicalName)
    (unique : (next.rows.map ArtifactRow.key).Nodup)
    (places : ∀ row ∈ next.rows, row.place = upload.dest ∨
      ∃ old ∈ state.rows, old.place = row.place)
    (clear : phase.live = true →
      ∀ row ∈ next.rows, row.place ≠ upload.part hashes) :
    Invariant hashes
      { next with
          uploads := state.uploads.set index
            { upload with phase := phase } } := by
  -- Another request stands where it stood.
  have others : ∀ position second, position ≠ index →
      (state.uploads.set index { upload with phase := phase })[position]? =
        some second → state.uploads[position]? = some second := by
    intro position second different standing
    rw [List.getElem?_set_ne (Ne.symm different)] at standing
    exact standing
  have itself : ∀ second,
      (state.uploads.set index { upload with phase := phase })[index]? =
        some second → second = { upload with phase := phase } := by
    intro second standing
    rw [List.getElem?_set_self (List.getElem?_eq_some_iff.mp found).1]
      at standing
    exact (Option.some.inj standing).symm
  have cases : ∀ second,
      second ∈ state.uploads.set index { upload with phase := phase } →
        second = { upload with phase := phase } ∨
          ∃ position, position ≠ index ∧
            state.uploads[position]? = some second := by
    intro second member
    obtain ⟨position, standing⟩ := List.mem_iff_getElem?.mp member
    by_cases here : position = index
    · exact .inl (itself second (here ▸ standing))
    · exact .inr ⟨position, here, others position second here standing⟩
  refine ⟨sound, ?_, ?_, fun row member => { rows row member with }, paths,
    unique, ?_⟩
  · intro second member
    rcases cases second member with rfl | ⟨position, different, standing⟩
    · exact { fits with }
    · exact { (invariant.fits second (List.mem_of_getElem? standing)).frame
        (apart position second different standing) attempts manifests same
        with }
  · intro i j first second different firstAt secondAt firstLive secondLive
    by_cases firstHere : i = index
    · subst firstHere
      have secondThere := others j second (Ne.symm different) secondAt
      rw [itself first firstAt]
      exact { apart j second (Ne.symm different) secondThere secondLive with }
    · have firstThere := others i first firstHere firstAt
      by_cases secondHere : j = index
      · subst secondHere
        rw [itself second secondAt]
        exact { (apart i first firstHere firstThere firstLive).symm with }
      · exact invariant.apart i j first second different firstThere
          (others j second secondHere secondAt) firstLive secondLive
  · intro second member isLive row standing
    rcases cases second member with rfl | ⟨position, different, there⟩
    · exact clear isLive row standing
    · have kept := apart position second different there isLive
      rcases places row standing with here | ⟨old, oldThere, place⟩
      · rw [here]
        exact kept.right.symm
      · rw [← place]
        exact invariant.clear second (List.mem_of_getElem? there) isLive old
          oldThere

variable {index : Nat}

/-- A request at work is apart from the others. -/
theorem Invariant.apartFrom (invariant : Invariant hashes state)
    (found : state.uploads[index]? = some upload)
    (isLive : upload.phase.live = true) :
    ∀ position second, position ≠ index →
      state.uploads[position]? = some second → second.phase.live = true →
      Apart hashes upload second :=
  fun position second different standing secondLive =>
    invariant.apart index position upload second (Ne.symm different) found
      standing isLive secondLive

/-- A request touches nothing but its temporary file. -/
theorem Invariant.touch (invariant : Invariant hashes state) {index : Nat}
    {phase : Phase} (found : state.uploads[index]? = some upload)
    (apart : ∀ position second, position ≠ index →
      state.uploads[position]? = some second → second.phase.live = true →
      Apart hashes upload second)
    (clear : ∀ row ∈ state.rows, row.place ≠ upload.part hashes)
    (attempts : next.attempts = state.attempts)
    (manifests : next.manifests = state.manifests)
    (rows : next.rows = state.rows) (sound : next.disk.Sound)
    (same : ∀ path, path ≠ upload.part hashes →
      Disk.SameAt state.disk next.disk path)
    (fits : Fits hashes next { upload with phase := phase }) :
    Invariant hashes
      { next with
          uploads := state.uploads.set index
            { upload with phase := phase } } := by
  refine invariant.advance found apart attempts manifests sound
    (fun path notPart _ => same path notPart) fits ?_ ?_ ?_ ?_ ?_
  · rw [rows]
    exact fun row member => (invariant.rows row member).frame manifests
      (same row.place (clear row member))
  · rw [rows]
    exact invariant.paths
  · rw [rows]
    exact invariant.unique
  · rw [rows]
    exact fun row member => .inr ⟨row, member, rfl⟩
  · rw [rows]
    exact fun _ => clear

/-- A request at work touches nothing but its temporary file. -/
theorem Invariant.work (invariant : Invariant hashes state) {index : Nat}
    {phase : Phase} (found : state.uploads[index]? = some upload)
    (isLive : upload.phase.live = true)
    (attempts : next.attempts = state.attempts)
    (manifests : next.manifests = state.manifests)
    (rows : next.rows = state.rows) (sound : next.disk.Sound)
    (same : ∀ path, path ≠ upload.part hashes →
      Disk.SameAt state.disk next.disk path)
    (fits : Fits hashes next { upload with phase := phase }) :
    Invariant hashes
      { next with
          uploads := state.uploads.set index
            { upload with phase := phase } } :=
  invariant.touch found (invariant.apartFrom found isLive)
    (invariant.clear upload (List.mem_of_getElem? found) isLive) attempts
    manifests rows sound same fits

/-- A request that has no file and is not verified. -/
theorem fits_idle (handle : upload.phase.handle = none)
    (verified : upload.phase.verified = none) :
    Fits hashes state upload where
  own file received written found := by
    rw [handle] at found
    cases found
  moved file received found := by
    rw [found] at verified
    cases verified
  verified received found := by
    rw [verified] at found
    cases found

variable {received : List UInt8}

/-- A request with an open file that is not verified. -/
theorem fits_open {file : Nat} {written : Nat}
    (handle : ∀ value, upload.phase.handle = some value →
      value = (file, received, written))
    (verified : upload.phase.verified = none)
    (there : state.disk.files (upload.part hashes) = some file)
    (content : state.disk.content file = received.take written)
    (le : written ≤ received.length) : Fits hashes state upload where
  own found bytes count isOpen := by
    cases handle _ isOpen
    exact ⟨there, content, le⟩
  moved found bytes inserting := by
    rw [inserting] at verified
    cases verified
  verified bytes found := by
    rw [verified] at found
    cases found

/-- A request gives up, and its temporary file is still to be removed. -/
theorem Invariant.giveUp (invariant : Invariant hashes state)
    (found : state.uploads[index]? = some upload)
    (isLive : upload.phase.live = true) (response : Response) :
    Invariant hashes
      { state with
          uploads := state.uploads.set index
            { upload with phase := .removing response } } :=
  invariant.work found isLive rfl rfl rfl invariant.sound
    (fun _ _ => Disk.SameAt.refl) (fits_idle rfl rfl)

theorem take_more (received : List UInt8) (written count : Nat) :
    received.take written ++ (received.drop written).take count =
      received.take
        (written + ((received.drop written).take count).length) := by
  rw [List.take_add, List.length_take, ← List.take_eq_take_min]

/-- The stream writes some of the bytes that it holds. -/
theorem Invariant.flush (invariant : Invariant hashes state) {phase : Phase}
    {file : Nat} {written : Nat} (found : state.uploads[index]? = some upload)
    (isHandle : upload.phase.handle = some (file, received, written))
    (count : Nat)
    (after : ∀ value, phase.handle = some value → value = (file, received,
      written + ((received.drop written).take count).length))
    (verified : phase.verified = none) :
    Invariant hashes
      { state with
          disk := state.disk.writeAt file written
            ((received.drop written).take count)
          uploads := state.uploads.set index
            { upload with phase := phase } } := by
  obtain ⟨there, content, le⟩ := (invariant.fits upload
    (List.mem_of_getElem? found)).own file received written isHandle
  refine @Invariant.work _ _ _ { state with
    disk := state.disk.writeAt file written
      ((received.drop written).take count) } _ invariant _ _ found
    (live_of_handle isHandle) rfl rfl rfl invariant.sound.writeAt
    (fun path different => invariant.sound.sameAt_writeAt there different)
    (fits_open after verified there ?_ ?_)
  · dsimp only
    rw [Disk.content_writeAt, content, ← take_more]
    have size : (received.take written).length = written :=
      List.length_take_of_le le
    have appended := overwrite_end (received.take written)
      ((received.drop written).take count)
    rw [size] at appended
    exact appended
  · have bound : ((received.drop written).take count).length ≤
        received.length - written := by
      rw [List.length_take, List.length_drop]
      exact Nat.min_le_right ..
    omega

/-! ### The steps of a request -/

/-- The temporary file is opened, apart from all other requests and rows. -/
theorem Invariant.openPart (invariant : Invariant hashes state)
    (found : state.uploads[index]? = some upload)
    (apart : ∀ position second, position ≠ index →
      state.uploads[position]? = some second → second.phase.live = true →
      Apart hashes upload second)
    (clear : ∀ row ∈ state.rows, row.place ≠ upload.part hashes) :
    Invariant hashes
      { state with
          disk := state.disk.openForWriting (upload.part hashes)
          uploads := state.uploads.set index
            { upload with
                phase := .streaming (state.disk.opened (upload.part hashes))
                  [] 0 } } := by
  obtain ⟨there, content⟩ :=
    @Disk.openForWriting_here _ _ state.disk (upload.part hashes) _
  refine @Invariant.touch _ _ _ { state with
    disk := state.disk.openForWriting (upload.part hashes) } _ invariant _ _
    found apart clear rfl rfl rfl invariant.sound.openForWriting
    (fun path different => invariant.sound.sameAt_openForWriting different)
    ⟨?_, nofun, nofun⟩
  rintro _ _ _ ⟨⟩
  exact ⟨there, content, Nat.le_refl _⟩

/-- What was received is compared with what was declared. -/
theorem Invariant.verify [DecidableEq Digest]
    (invariant : Invariant hashes state) {file : Nat}
    (found : state.uploads[index]? = some upload)
    (streaming : upload.phase = .streaming file received received.length)
    (declared : Matches hashes upload.expected received →
      Collecting state upload.attemptId ∧
        state.manifests upload.attemptId upload.logicalName =
          some upload.expected) :
    Invariant hashes
      { (ArtifactUploads.verify hashes state upload file received).1 with
          uploads := state.uploads.set index
            { upload with
                phase := (ArtifactUploads.verify hashes state upload file
                  received).2 } } := by
  have isLive : upload.phase.live = true := by rw [streaming]; rfl
  unfold ArtifactUploads.verify
  split
  · exact invariant.giveUp found isLive _
  · rename_i size
    split
    · exact invariant.giveUp found isLive _
    · rename_i hash
      have right : Matches hashes upload.expected received :=
        ⟨not_not.mp size, not_not.mp hash⟩
      have own := (invariant.fits upload (List.mem_of_getElem? found)).own file
        received received.length (by rw [streaming]; rfl)
      refine @Invariant.work _ _ _ (state.dropExpectation upload) _ invariant _
        _ found isLive rfl rfl rfl invariant.sound
        (fun _ _ => Disk.SameAt.refl) ⟨?_, nofun, ?_⟩
      · rintro _ _ _ ⟨⟩
        exact own
      · rintro _ ⟨⟩
        exact ⟨right, declared right⟩

/-- The temporary file gets its place. -/
theorem Invariant.rename (invariant : Invariant hashes state) {file : Nat}
    (found : state.uploads[index]? = some upload)
    (moving : upload.phase = .moving file received) :
    Invariant hashes
      { state with
          disk := state.disk.rename (upload.part hashes) upload.dest
          uploads := state.uploads.set index
            { upload with phase := .inserting file received } } := by
  have member := List.mem_of_getElem? found
  have isLive : upload.phase.live = true := by rw [moving]; rfl
  have fits := invariant.fits upload member
  obtain ⟨there, content, -⟩ := fits.own file received received.length
    (by rw [moving]; rfl)
  rw [List.take_length] at content
  obtain ⟨right, collecting, declared⟩ := fits.verified received
    (by rw [moving]; rfl)
  have moved : (state.disk.rename (upload.part hashes) upload.dest).files
      upload.dest = some file :=
    Disk.files_rename_target.trans there
  refine @Invariant.advance _ _ _ { state with
    disk := state.disk.rename (upload.part hashes) upload.dest } _ invariant _
    _ found (invariant.apartFrom found isLive) rfl rfl invariant.sound.rename
    (fun path notPart notDest => Disk.sameAt_rename notPart notDest)
    ⟨nofun, ?_, ?_⟩ ?_ invariant.paths invariant.unique
    (fun row standing => .inr ⟨row, standing, rfl⟩)
    (fun _ => invariant.clear upload member isLive)
  · rintro _ _ ⟨⟩
    exact ⟨moved, content⟩
  · rintro _ ⟨⟩
    exact ⟨right, collecting, declared⟩
  · intro row standing
    have rowFits := invariant.rows row standing
    by_cases here : row.place = upload.dest
    · -- The row of an earlier upload of the same name.
      have attemptId := congrArg Prod.fst here
      have name : row.logicalName = upload.logicalName :=
        (invariant.paths row standing).symm.trans (congrArg Prod.snd here)
      have same : row.expectation = upload.expected := by
        have both := rowFits.declared
        rw [show row.attemptId = upload.attemptId from attemptId, name,
          declared] at both
        exact (Option.some.inj both).symm
      refine ⟨⟨file, ?_, ?_⟩, rowFits.declared⟩
      · rw [here]
        exact moved
      · rw [same]
        change Matches hashes upload.expected (state.disk.content file)
        rw [content]
        exact right
    · exact rowFits.frame rfl (Disk.sameAt_rename
        (invariant.clear upload member isLive row standing) here)

theorem mem_upsert {rows : List (ArtifactRow Digest)}
    {new : ArtifactRow Digest} (member : row ∈ upsert rows new) :
    (row ∈ rows ∧ row.key ≠ new.key) ∨
      row.key = new.key ∧ row.path = new.path ∧
        row.expectation = new.expectation := by
  unfold upsert at member
  split at member
  · obtain ⟨old, there, rfl⟩ := List.mem_map.mp member
    split
    · rename_i same
      exact .inr ⟨same, rfl, rfl⟩
    · rename_i different
      exact .inl ⟨there, different⟩
  · rename_i absent
    rcases List.mem_append.mp member with old | here
    · exact .inl ⟨old, fun same =>
        absent (same ▸ List.mem_map_of_mem old)⟩
    · rw [List.mem_singleton] at here
      exact .inr ⟨by rw [here], by rw [here], by rw [here]⟩

theorem nodup_upsert {rows : List (ArtifactRow Digest)}
    {new : ArtifactRow Digest} (unique : (rows.map ArtifactRow.key).Nodup) :
    ((upsert rows new).map ArtifactRow.key).Nodup := by
  unfold upsert
  split
  · rw [List.map_map]
    have same : ArtifactRow.key ∘ (fun old : ArtifactRow Digest =>
        if old.key = new.key then
          { old with
              sizeBytes := new.sizeBytes
              sha256 := new.sha256
              path := new.path }
        else old) = ArtifactRow.key := by
      funext old
      rw [Function.comp_apply]
      split
      · rfl
      · rfl
    rw [same]
    exact unique
  · rename_i absent
    rw [List.map_append, List.map_singleton, List.nodup_append]
    refine ⟨unique, List.nodup_singleton _, ?_⟩
    rintro key member _ here rfl
    rw [List.mem_singleton] at here
    exact absent (here ▸ member)

/-- The row of a verified upload is written. -/
theorem Invariant.insert (invariant : Invariant hashes state) {file : Nat}
    (found : state.uploads[index]? = some upload)
    (inserting : upload.phase = .inserting file received)
    (attempt : AttemptRow) (id createdAt : List Char) (response : Response) :
    Invariant hashes
      { state with
          rows := upsert state.rows
            (rowOf hashes upload attempt received id createdAt)
          uploads := state.uploads.set index
            { upload with phase := .done response } } := by
  have member := List.mem_of_getElem? found
  have isLive : upload.phase.live = true := by rw [inserting]; rfl
  have fits := invariant.fits upload member
  obtain ⟨there, content⟩ := fits.moved file received inserting
  obtain ⟨right, -, declared⟩ := fits.verified received
    (by rw [inserting]; rfl)
  have expectation : (rowOf hashes upload attempt received id
      createdAt).expectation = upload.expected := by
    unfold ArtifactRow.expectation rowOf
    dsimp only
    rw [right.1, right.2]
  refine @Invariant.advance _ _ _ { state with
    rows := upsert state.rows
      (rowOf hashes upload attempt received id createdAt) } _ invariant _ _
    found (invariant.apartFrom found isLive) rfl rfl invariant.sound
    (fun _ _ _ => Disk.SameAt.refl) (fits_idle rfl rfl) ?_ ?_
    (nodup_upsert invariant.unique) ?_ nofun
  · intro row standing
    rcases mem_upsert standing with ⟨old, -⟩ | ⟨key, path, same⟩
    · exact { invariant.rows row old with }
    · have names := Prod.mk.inj key
      have place : row.place = upload.dest := by
        unfold ArtifactRow.place Upload.dest
        rw [names.1, path]
        rfl
      refine ⟨⟨file, ?_, ?_⟩, ?_⟩
      · rw [place]
        exact there
      · rw [same, expectation]
        change Matches hashes upload.expected (state.disk.content file)
        rw [content]
        exact right
      · rw [same, expectation, names.1, names.2]
        exact declared
  · intro row standing
    rcases mem_upsert standing with ⟨old, -⟩ | ⟨key, path, -⟩
    · exact invariant.paths row old
    · rw [path, (Prod.mk.inj key).2]
      rfl
  · intro row standing
    rcases mem_upsert standing with ⟨old, -⟩ | ⟨key, path, -⟩
    · exact .inr ⟨row, old, rfl⟩
    · left
      unfold ArtifactRow.place Upload.dest
      rw [(Prod.mk.inj key).1, path]
      rfl

/-! ### The steps of the controller -/

theorem Invariant.proceed [DecidableEq Digest]
    (invariant : Invariant hashes state) {action : Action}
    {after : State Digest} {phase : Phase}
    (found : state.uploads[index]? = some upload)
    (careful : Careful hashes state (.upload index action))
    (proceeds : ArtifactUploads.proceed hashes state upload upload.phase
      action = some (after, phase)) :
    Invariant hashes
      { after with
          uploads := state.uploads.set index
            { upload with phase := phase } } := by
  obtain ⟨opens, finishes⟩ := careful upload found
  have fits := invariant.fits upload (List.mem_of_getElem? found)
  unfold ArtifactUploads.proceed at proceeds
  split at proceeds
  · -- The temporary file is opened.
    rename_i ok _
    obtain ⟨apart, clear⟩ := opens ok rfl
    split at proceeds
    · cases proceeds
      exact invariant.openPart found apart clear
    · cases proceeds
      exact invariant.touch found apart clear rfl rfl rfl invariant.sound
        (fun _ _ => Disk.SameAt.refl) (fits_idle rfl rfl)
  · -- Bytes come in.
    rename_i file received written bytes streaming
    have isLive : upload.phase.live = true := by rw [streaming]; rfl
    split at proceeds
    · cases proceeds
      exact invariant.giveUp found isLive _
    · cases proceeds
      obtain ⟨there, content, le⟩ := fits.own file received written
        (by rw [streaming]; rfl)
      refine invariant.work found isLive rfl rfl rfl invariant.sound
        (fun _ _ => Disk.SameAt.refl) ⟨?_, nofun, nofun⟩
      rintro _ _ _ ⟨⟩
      refine ⟨there, ?_, ?_⟩
      · rw [List.take_append_of_le_length le]
        exact content
      · rw [List.length_append]
        exact Nat.le_add_right_of_le le
  · -- Bytes are written.
    rename_i file received written count ok streaming
    split at proceeds
    · cases proceeds
    · split at proceeds
      · cases proceeds
        exact invariant.flush found (by rw [streaming]; rfl) count
          (fun _ is => (Option.some.inj is).symm) rfl
      · cases proceeds
        exact invariant.giveUp found (by rw [streaming]; rfl) _
  · -- Everything is written.
    rename_i file received written streaming
    split at proceeds
    · cases proceeds
    · rename_i complete
      obtain ⟨-, -, le⟩ := fits.own file received written
        (by rw [streaming]; rfl)
      have all := Nat.le_antisymm le (Nat.not_lt.mp complete)
      subst all
      have kept := invariant.verify found streaming
        (finishes rfl file received _ streaming)
      rw [Option.some.inj proceeds] at kept
      exact kept
  · -- The client is gone.
    rename_i file received written streaming
    cases proceeds
    obtain ⟨there, content, le⟩ := fits.own file received written
      (by rw [streaming]; rfl)
    refine invariant.work found (by rw [streaming]; rfl) rfl rfl rfl
      invariant.sound (fun _ _ => Disk.SameAt.refl)
      (fits_open ?_ rfl there content le)
    rintro value isOpen
    exact (Option.some.inj (Option.ite_none_right_eq_some.mp isOpen).2).symm
  · -- Bytes are written behind the client.
    rename_i file received written count ok aborted
    split at proceeds
    · cases proceeds
    · rename_i some_
      have pending : written < received.length := by
        by_contra full
        rw [List.drop_eq_nil_of_le (Nat.not_lt.mp full)] at some_
        exact some_ (by rw [List.take_nil]; rfl)
      have isHandle : upload.phase.handle =
          some (file, received, written) := by
        rw [aborted]
        exact if_pos pending
      split at proceeds
      · cases proceeds
        refine invariant.flush found isHandle count ?_ rfl
        intro value isOpen
        exact (Option.some.inj
          (Option.ite_none_right_eq_some.mp isOpen).2).symm
      · cases proceeds
        exact invariant.giveUp found (live_of_handle isHandle) _
  · -- The file gets its place.
    rename_i file received ok moving
    split at proceeds
    · cases proceeds
      exact invariant.rename found moving
    · cases proceeds
      exact invariant.giveUp found (by rw [moving]; rfl) _
  · -- The row is written.
    rename_i file received id createdAt ok inserting
    have isLive : upload.phase.live = true := by rw [inserting]; rfl
    split at proceeds
    · cases proceeds
      exact invariant.work found isLive rfl rfl rfl invariant.sound
        (fun _ _ => Disk.SameAt.refl) (fits_idle rfl rfl)
    · rename_i attempt _
      split at proceeds
      · cases proceeds
        exact invariant.insert found inserting attempt id createdAt _
      · cases proceeds
        exact invariant.giveUp found isLive _
  · -- The temporary file is removed.
    rename_i response removing
    cases proceeds
    exact invariant.work found (by rw [removing]; rfl) rfl rfl rfl
      invariant.sound.unlink (fun _ => Disk.sameAt_unlink) (fits_idle rfl rfl)
  · cases proceeds

section

variable (invariant : Invariant hashes state)

include invariant

/-- The rows and the requests stand, and what they need of the attempts and
the manifests still holds. -/
theorem Invariant.reframe (rows : next.rows = state.rows)
    (disk : next.disk = state.disk) (uploads : next.uploads = state.uploads)
    (declared : ∀ row ∈ state.rows,
      next.manifests row.attemptId row.logicalName = some row.expectation)
    (verified : ∀ second ∈ state.uploads,
      second.phase.verified.isSome = true →
        Collecting next second.attemptId ∧
          next.manifests second.attemptId second.logicalName =
            some second.expected) : Invariant hashes next := by
  refine ⟨?_, ?_, ?_, ?_, ?_, ?_, ?_⟩
  · rw [disk]
    exact invariant.sound
  · rw [uploads]
    intro second member
    have fits := invariant.fits second member
    refine ⟨?_, ?_, ?_⟩
    · rw [disk]
      exact fits.own
    · rw [disk]
      exact fits.moved
    · intro received found
      exact ⟨(fits.verified received found).1,
        verified second member (by rw [found]; rfl)⟩
  · rw [uploads]
    exact invariant.apart
  · rw [rows]
    intro row member
    refine ⟨?_, declared row member⟩
    rw [disk]
    exact (invariant.rows row member).content
  · rw [rows]
    exact invariant.paths
  · rw [rows]
    exact invariant.unique
  · rw [uploads, rows]
    exact invariant.clear

/-- The invariant keeps what a verified request waits for. -/
theorem Invariant.waiting (member : upload ∈ state.uploads)
    (isVerified : upload.phase.verified.isSome = true) :
    Collecting state upload.attemptId ∧
      state.manifests upload.attemptId upload.logicalName =
        some upload.expected := by
  obtain ⟨received, found⟩ := Option.isSome_iff_exists.mp isVerified
  exact ((invariant.fits upload member).verified received found).2

/-- A row of `job_attempts` is written while no upload of the attempt waits. -/
theorem Invariant.setAttempt {attemptId : AttemptId} {row : AttemptRow}
    (careful : row.state ≠ .collectingArtifacts →
      ∀ second ∈ state.uploads, second.attemptId = attemptId →
        second.phase.verified = none) :
    Invariant hashes (state.setAttempt attemptId row) := by
  refine invariant.reframe rfl rfl rfl
    (fun old member => (invariant.rows old member).declared) ?_
  intro second member isVerified
  obtain ⟨⟨old, there, collects⟩, declared⟩ :=
    invariant.waiting member isVerified
  refine ⟨?_, declared⟩
  have written : (state.setAttempt attemptId row).attempts second.attemptId =
      if second.attemptId = attemptId then some row
      else state.attempts second.attemptId := Function.update_apply ..
  unfold Collecting
  rw [written]
  split
  · rename_i same
    refine ⟨row, rfl, ?_⟩
    by_contra leaves
    rw [careful leaves second member same] at isVerified
    cases isVerified
  · exact ⟨old, there, collects⟩

/-- A manifest replaces the declarations of its attempt. -/
theorem Invariant.manifest {agentId : List Char}
    {payload : ArtifactManifest Digest} {nowMs : Int}
    (careful : Careful hashes state (.manifest agentId payload nowMs)) :
    Invariant hashes
      (handleRemoteArtifactManifest state agentId payload nowMs) := by
  unfold handleRemoteArtifactManifest
  split
  · rename_i accepted
    obtain ⟨rows, uploads⟩ := careful accepted
    refine invariant.reframe rfl rfl rfl ?_ ?_
    · intro row member
      change Function.update state.manifests payload.attemptId _ row.attemptId
        row.logicalName = _
      rw [Function.update_apply]
      split
      · rename_i same
        exact rows row member same
      · exact (invariant.rows row member).declared
    · intro second member isVerified
      obtain ⟨collecting, declared⟩ := invariant.waiting member isVerified
      refine ⟨collecting, ?_⟩
      change Function.update state.manifests payload.attemptId _
        second.attemptId second.logicalName = _
      rw [Function.update_apply]
      split
      · rename_i same
        exact uploads second member same isVerified
      · exact declared
  · exact invariant

/-- A request is let in. -/
theorem Invariant.put (preparing : upload.phase = .preparing) :
    Invariant hashes
      { state with uploads := state.uploads ++ [upload] } := by
  have idle : upload.phase.live = false := by rw [preparing]; rfl
  have cases : ∀ (position : Nat) (second : Upload Digest),
      (state.uploads ++ [upload])[position]? = some second →
      second.phase.live = true → state.uploads[position]? = some second := by
    intro position second standing isLive
    rw [List.getElem?_append] at standing
    split at standing
    · exact standing
    · have member := List.mem_of_getElem? standing
      rw [List.mem_singleton.mp member, idle] at isLive
      cases isLive
  refine ⟨invariant.sound, ?_, ?_,
    fun row member => { invariant.rows row member with }, invariant.paths,
    invariant.unique, ?_⟩
  · intro second member
    rcases List.mem_append.mp member with old | new
    · exact { invariant.fits second old with }
    · rw [List.mem_singleton.mp new]
      exact fits_idle (by rw [preparing]; rfl) (by rw [preparing]; rfl)
  · intro i j first second different firstAt secondAt firstLive secondLive
    exact invariant.apart i j first second different
      (cases i first firstAt firstLive) (cases j second secondAt secondLive)
      firstLive secondLive
  · intro second member isLive
    rcases List.mem_append.mp member with old | new
    · exact invariant.clear second old isLive
    · rw [List.mem_singleton.mp new, idle] at isLive
      cases isLive

end

theorem Invariant.step [DecidableEq Digest] {label : Label Digest}
    (invariant : Invariant hashes state)
    (careful : Careful hashes state label)
    (stepped : ArtifactUploads.step hashes state label = some next) :
    Invariant hashes next := by
  cases label with
  | manifest agentId payload nowMs =>
    cases stepped
    exact invariant.manifest careful
  | cleanupComplete agentId attemptId leaseId leaseEpoch nowMs =>
    unfold ArtifactUploads.step at stepped
    dsimp only at stepped
    split at stepped
    · cases stepped
      exact invariant
    · split at stepped
      · cases stepped
        have cleared : Invariant hashes
            (clearArtifactExpectations state attemptId) :=
          invariant.reframe rfl rfl rfl
            (fun row member => (invariant.rows row member).declared)
            (fun _ => invariant.waiting)
        exact cleared.setAttempt fun _ => careful
      · cases stepped
        exact invariant
  | attempt attemptId row =>
    cases stepped
    exact invariant.setAttempt careful
  | put token attemptId logicalName nowMs =>
    unfold ArtifactUploads.step at stepped
    dsimp only at stepped
    split at stepped
    · cases stepped
      exact invariant
    · cases stepped
      exact invariant.put rfl
  | upload index action =>
    unfold ArtifactUploads.step at stepped
    dsimp only at stepped
    split at stepped
    · cases stepped
    · rename_i upload found
      obtain ⟨⟨after, phase⟩, proceeds, rfl⟩ :=
        Option.map_eq_some_iff.mp stepped
      exact invariant.proceed found careful proceeds

theorem invariant_start (attempts : AttemptId → Option AttemptRow) :
    Invariant hashes (start attempts : State Digest) where
  sound := Disk.sound_empty
  fits := nofun
  apart _ _ _ _ _ firstAt := nomatch firstAt
  rows := nofun
  paths := nofun
  unique := List.nodup_nil
  clear := nofun

/-! ### When a row is written -/

/-- Only a verified upload writes a row. -/
theorem rows_of_proceed [DecidableEq Digest] {action : Action}
    {after : State Digest} {phase : Phase}
    (proceeds : ArtifactUploads.proceed hashes state upload upload.phase
      action = some (after, phase)) (written : row ∈ after.rows)
    (new : row ∉ state.rows) :
    upload.phase.verified.isSome = true ∧
      row.attemptId = upload.attemptId := by
  have unchanged : after.rows = state.rows →
      upload.phase.verified.isSome = true ∧
        row.attemptId = upload.attemptId := by
    intro same
    rw [same] at written
    exact absurd written new
  unfold ArtifactUploads.proceed at proceeds
  split at proceeds
  · split at proceeds
    all_goals
      cases proceeds
      exact unchanged rfl
  · split at proceeds
    all_goals
      cases proceeds
      exact unchanged rfl
  · split at proceeds
    · cases proceeds
    · split at proceeds
      all_goals
        cases proceeds
        exact unchanged rfl
  · split at proceeds
    · cases proceeds
    · rename_i file received _ _ _
      refine unchanged ?_
      have same := congrArg Prod.fst (Option.some.inj proceeds)
      change (verify hashes state upload file received).1 = after at same
      rw [← same]
      unfold verify
      split
      · rfl
      · split
        · rfl
        · rfl
  · cases proceeds
    exact unchanged rfl
  · split at proceeds
    · cases proceeds
    · split at proceeds
      all_goals
        cases proceeds
        exact unchanged rfl
  · split at proceeds
    all_goals
      cases proceeds
      exact unchanged rfl
  · -- The row is written.
    rename_i inserting
    split at proceeds
    · cases proceeds
      exact unchanged rfl
    · split at proceeds
      · cases proceeds
        rcases mem_upsert written with ⟨old, -⟩ | ⟨key, -, -⟩
        · exact absurd old new
        · rw [inserting]
          exact ⟨rfl, (Prod.mk.inj key).1⟩
      · cases proceeds
        exact unchanged rfl
  · cases proceeds
    exact unchanged rfl
  · cases proceeds

/-- A row is written for an attempt that collects its artifacts. -/
theorem Invariant.timely [DecidableEq Digest]
    (invariant : Invariant hashes state) {label : Label Digest}
    (stepped : ArtifactUploads.step hashes state label = some next)
    (written : row ∈ next.rows) (new : row ∉ state.rows) :
    Collecting state row.attemptId := by
  cases label with
  | manifest agentId payload nowMs =>
    cases stepped
    unfold handleRemoteArtifactManifest at written
    split at written
    · exact absurd written new
    · exact absurd written new
  | cleanupComplete agentId attemptId leaseId leaseEpoch nowMs =>
    unfold ArtifactUploads.step at stepped
    dsimp only at stepped
    split at stepped
    · cases stepped
      exact absurd written new
    · split at stepped
      all_goals
        cases stepped
        exact absurd written new
  | attempt attemptId row =>
    cases stepped
    exact absurd written new
  | put token attemptId logicalName nowMs =>
    unfold ArtifactUploads.step at stepped
    dsimp only at stepped
    split at stepped
    all_goals
      cases stepped
      exact absurd written new
  | upload index action =>
    unfold ArtifactUploads.step at stepped
    dsimp only at stepped
    split at stepped
    · cases stepped
    · rename_i upload found
      obtain ⟨⟨after, phase⟩, proceeds, rfl⟩ :=
        Option.map_eq_some_iff.mp stepped
      obtain ⟨isVerified, attempt⟩ :=
        rows_of_proceed proceeds written new
      rw [attempt]
      exact (invariant.waiting (List.mem_of_getElem? found) isVerified).1

end Invariants

/-- When temporary files are not shared and neither the manifest nor the state
of an attempt changes under an upload, the rows are exactly what was
declared. -/
theorem artifacts_exact {Digest : Type} [DecidableEq Digest]
    (hashes : Hashes Digest) (state : State Digest)
    (reachable : (machine hashes).Reachable (Careful hashes) state) :
    Exact hashes state := by
  have invariant : Invariant hashes state := by
    refine reachable.invariant ?_ ?_
    · rintro _ ⟨attempts, rfl⟩
      exact invariant_start attempts
    · exact fun _ _ _ invariant careful stepped =>
        invariant.step careful stepped
  exact ⟨invariant.rows, invariant.unique,
    fun _ _ stepped _ => invariant.timely stepped⟩

/-! ## One name, uploaded once and twice -/

/-- A content stands for its own hash. -/
def plainHashes : Hashes (List UInt8) where
  sha256 := id
  nameDigits := id

def anAttempt : AttemptId := ['t']

def aName : LogicalName := ['n']

def collectingRow : AttemptRow where
  jobId := ['j']
  agentId := some ['a']
  leaseId := ['l']
  leaseEpoch := 1
  leaseDeadline := none
  state := .collectingArtifacts

def aToken : Token where
  agentId := ['a']
  jobId := ['j']
  attemptId := anAttempt
  leaseId := ['l']
  leaseEpoch := 1
  artifactUpload := true
  artifactId := some aName

/-- Two bytes are declared under the name. -/
def aManifest : ArtifactManifest (List UInt8) where
  attemptId := anAttempt
  leaseId := ['l']
  leaseEpoch := 1
  artifacts := [⟨aName, 2, [1, 2]⟩]

def collectingStart : State (List UInt8) :=
  start fun attemptId =>
    if attemptId = anAttempt then some collectingRow else none

/-- The request of the first one is received, written and verified. -/
def verifyLabels : List (Label (List UInt8)) :=
  [.upload 0 (.openPart true), .upload 0 (.chunk [1]), .upload 0 (.chunk [2]),
    .upload 0 (.flush 2 true), .upload 0 .finish]

/-- The file gets its place and its row. -/
def storeLabels : List (Label (List UInt8)) :=
  [.upload 0 (.rename true), .upload 0 (.insert ['r'] ['0'] true)]

def onceLabels : List (Label (List UInt8)) :=
  [.manifest ['a'] aManifest 0, .put aToken anAttempt aName 0] ++
    verifyLabels ++ storeLabels

/-- Is the step one of a single request of an attempt that stays as it is? -/
def looksCareful (state : State (List UInt8)) :
    Label (List UInt8) → Bool
  | .manifest _ _ _ => state.rows.isEmpty && state.uploads.isEmpty
  | .put _ _ _ _ => true
  | .upload index action =>
    decide (index = 0) && decide (state.uploads.length ≤ 1) &&
      (state.rows.isEmpty || decide (∀ ok, action ≠ .openPart ok)) &&
      state.uploads.all fun upload =>
        (state.attempts upload.attemptId).any (fun row =>
          decide (row.state = .collectingArtifacts)) &&
        decide (state.manifests upload.attemptId upload.logicalName =
          some upload.expected)
  | _ => false

theorem looksCareful_sound {state : State (List UInt8)}
    {label : Label (List UInt8)} (meets : looksCareful state label = true) :
    Careful plainHashes state label := by
  cases label with
  | manifest agentId payload nowMs =>
    unfold looksCareful at meets
    rw [Bool.and_eq_true, List.isEmpty_iff, List.isEmpty_iff] at meets
    intro _
    rw [meets.1, meets.2]
    exact ⟨nofun, nofun⟩
  | cleanupComplete agentId attemptId leaseId leaseEpoch nowMs => cases meets
  | attempt attemptId row => cases meets
  | put token attemptId logicalName nowMs => trivial
  | upload index action =>
    unfold looksCareful at meets
    rw [Bool.and_eq_true, Bool.and_eq_true, Bool.and_eq_true,
      decide_eq_true_eq, decide_eq_true_eq] at meets
    obtain ⟨⟨⟨rfl, single⟩, clear⟩, all⟩ := meets
    intro upload found
    have holds := List.all_eq_true.mp all upload (List.mem_of_getElem? found)
    rw [Bool.and_eq_true, decide_eq_true_eq, Option.any_eq_true] at holds
    obtain ⟨⟨row, there, collects⟩, declared⟩ := holds
    refine ⟨?_, fun _ _ _ _ _ _ =>
      ⟨⟨row, there, of_decide_eq_true collects⟩, declared⟩⟩
    rintro ok rfl
    refine ⟨?_, ?_⟩
    · intro other second different standing
      have inside := (List.getElem?_eq_some_iff.mp standing).1
      omega
    · rw [Bool.or_eq_true, List.isEmpty_iff, decide_eq_true_eq] at clear
      rw [clear.resolve_right fun never => never ok rfl]
      nofun

def storedOnce : State (List UInt8) :=
  ((machine plainHashes).run collectingStart onceLabels).getD collectingStart

theorem storedOnce_meets : (machine plainHashes).runMeets looksCareful
    collectingStart onceLabels = true := by
  decide +kernel

theorem artifacts_exact_once :
    storedOnce.rows = [⟨['r'], ['j'], anAttempt, aName, aName, 2, [1, 2],
      ['0']⟩] ∧ Exact plainHashes storedOnce := by
  refine ⟨by decide +kernel, ?_⟩
  exact artifacts_exact plainHashes storedOnce
    ⟨collectingStart, ⟨_, rfl⟩,
      Machine.steps_of_run looksCareful (fun _ _ => looksCareful_sound)
        storedOnce_meets rfl⟩

/-- A second request of the same name empties the temporary file of the first
one, which is then stored. -/
def twiceLabels : List (Label (List UInt8)) :=
  [.manifest ['a'] aManifest 0, .put aToken anAttempt aName 0,
    .put aToken anAttempt aName 0] ++ verifyLabels ++
    .upload 1 (.openPart true) :: storeLabels

def storedTwice : State (List UInt8) :=
  ((machine plainHashes).run collectingStart twiceLabels).getD collectingStart

theorem artifact_not_declared :
    ∃ state, (machine plainHashes).Reachable (fun _ _ => True) state ∧
      ¬ Exact plainHashes state := by
  have ran : (machine plainHashes).run collectingStart twiceLabels =
      some storedTwice := rfl
  have rows : storedTwice.rows = [⟨['r'], ['j'], anAttempt, aName, aName, 2,
      [1, 2], ['0']⟩] := by
    decide +kernel
  refine ⟨storedTwice, Machine.reachable_of_run ⟨_, rfl⟩ ran, fun exact => ?_⟩
  obtain ⟨file, there, size, -⟩ :=
    (exact.fits _ (by rw [rows]; exact List.mem_cons_self)).content
  have place : storedTwice.disk.files (anAttempt, aName) = some 0 := by
    decide +kernel
  have empty : storedTwice.disk.content 0 = [] := by decide +kernel
  cases place.symm.trans there
  rw [empty] at size
  cases size

end Rbo.Controller.ArtifactUploads
