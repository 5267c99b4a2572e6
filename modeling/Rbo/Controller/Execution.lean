import Rbo.Controller.Lifecycle

/-!
# The Controller as a machine

The steps are the synchronous segments of the Controller's handlers: what
runs between two awaits.  A handler that awaits leaves a task behind, and the
task goes on in a later step, with whatever its I/O returned.  A segment reads
the tables as they are when it starts, and has effects: writes of the tables,
frames to agents and writes of files.

What I/O, the scheduler's choice and the reads of snapshot files and of the
agents table return is part of the event.  A frame is sent when its agent is
connected.
-/

namespace Rbo.Controller.Execution

open Rbo.Foundation
open Rbo.Controller.Lifecycle

/-! ## Frames and effects -/

/-- The fence that a job-scoped frame carries. -/
structure LeaseHeader where
  attemptId : Nat
  leaseId : Nat
  leaseEpoch : Nat
  deriving DecidableEq

/-- The frames that the Controller sends. -/
inductive Outgoing where
  | leaseOffer
  | prepareSource
  | bundleDownload
  | runJob
  | cancelJob
  | logAck (sequence : Nat)
  | artifactUploadGrant
  | reconcileDecision (adopt : Bool)
  deriving DecidableEq

/-- The files that a handler writes for an attempt. -/
inductive AttemptFile where
  | bundle
  | snapshotArchive
  | logChunk (sequence : Nat)
  deriving DecidableEq

/-- What a segment does to the world outside its memory. -/
inductive Effect where
  | write (statement : Write)
  | send (agentId : Nat) (frame : Outgoing) (header : LeaseHeader)
  | file (attemptId : Nat) (file : AttemptFile)
  deriving DecidableEq

/-- The write of a table that an effect is, if it is one. -/
def Effect.statement : Effect → Option Write
  | .write statement => some statement
  | .send _ _ _ => none
  | .file _ _ => none

/-! ## What handlers wait for -/

/-- How the process of a local run ended. -/
inductive RunResult where
  | exit (code : Option Int)
  | timeout
  | durationComplete
  | logSuccess
  | logFailure
  deriving DecidableEq

/-- Where a local run awaits. -/
inductive LocalPhase where
  | preparing
  | materializing
  | writingScript
  | starting
  | running
  | collecting (result : RunResult)
  | closing
  | finalizing
  deriving DecidableEq

/-- Where the handling of a log chunk awaits. -/
inductive LogPhase where
  | queued
  | appending
  | appended
  deriving DecidableEq

/-- The source that a `source_need` handler produces. -/
inductive SourceKind where
  | bundle
  | fallback
  deriving DecidableEq

/-- What a `cleanup_complete` frame reports. -/
structure CleanupReport where
  exitCode : Option Int
  timedOut : Bool
  message : Option String
  deriving DecidableEq

/--
A handler that awaits.  The tasks of a dispatch carry the jobs that the sweep
they belong to dispatches after them.
-/
inductive Task where
  | sweep (jobs : List Nat)
  | dispatch (jobId : Nat) (rest : List Nat)
  | localWaiting (jobId : Nat) (rest : List Nat)
  | localAdmitted (jobId : Nat) (rest : List Nat)
  | localRun (phase : LocalPhase) (jobId attemptId : Nat) (rest : List Nat)
  | sourceNeed (agentId : Nat) (header : LeaseHeader) (kind : SourceKind)
      (written : Bool)
  | logChunk (agentId : Nat) (header : LeaseHeader) (sequence : Nat)
      (phase : LogPhase)
  | artifactGrant (agentId : Nat) (header : LeaseHeader)
  | cleanup (agentId : Nat) (header : LeaseHeader) (report : CleanupReport)
  deriving DecidableEq

inductive TimerKind where
  | grace
  | orphan
  | reconcile
  deriving DecidableEq

/-- What the Controller keeps in memory. -/
structure Memory where
  tasks : List Task
  connectedAgents : List Nat
  pendingCancels : List Nat
  activeCancels : List Nat
  cancelledRuns : List Nat
  admissionActive : Nat
  maxConcurrentJobs : Nat
  timers : List (TimerKind × Nat)
  clock : Nat
  deriving DecidableEq

/-- The Controller: its database and its memory. -/
structure ControllerState where
  db : Database
  memory : Memory
  deriving DecidableEq

/-- What a segment does. -/
structure Segment where
  effects : List Effect
  memory : Memory
  deriving DecidableEq

namespace Memory

/-- A task goes on as another one. -/
def replace (memory : Memory) (index : Nat) (task : Task) : Memory :=
  { memory with tasks := memory.tasks.set index task }

/-- A task ends, with whatever waits for it. -/
def drop (memory : Memory) (index : Nat) : Memory :=
  { memory with tasks := memory.tasks.eraseIdx index }

def spawn (memory : Memory) (task : Task) : Memory :=
  { memory with tasks := memory.tasks ++ [task] }

/-- A dispatch ends, and the sweep it belongs to goes on. -/
def finish (memory : Memory) (index : Nat) (rest : List Nat) : Memory :=
  if rest = [] then memory.drop index
  else memory.replace index (.sweep rest)

def clearTimer (memory : Memory) (kind : TimerKind) (attemptId : Nat) :
    Memory :=
  { memory with
    timers := memory.timers.filter fun timer => timer ≠ (kind, attemptId) }

def armTimer (memory : Memory) (kind : TimerKind) (attemptId : Nat) :
    Memory :=
  { memory with
    timers :=
      (memory.clearTimer kind attemptId).timers ++ [(kind, attemptId)] }

def clearAllTimersFor (memory : Memory) (attemptId : Nat) : Memory :=
  { memory with
    timers := memory.timers.filter fun timer => timer.2 ≠ attemptId }

def deletePendingCancel (memory : Memory) (jobId : Nat) : Memory :=
  { memory with
    pendingCancels := memory.pendingCancels.filter fun other =>
      other ≠ jobId }

def releaseAdmission (memory : Memory) : Memory :=
  { memory with admissionActive := memory.admissionActive - 1 }

variable (memory : Memory) (index : Nat)

@[simp]
theorem spawn_tasks (task : Task) :
    (memory.spawn task).tasks = memory.tasks ++ [task] :=
  rfl

theorem finish_tasks (rest : List Nat) :
    (memory.finish index rest).tasks =
      if rest = [] then memory.tasks.eraseIdx index
      else memory.tasks.set index (.sweep rest) := by
  unfold finish
  split <;> rfl

/-- Changes of the timers, one after the other, leave the tasks. -/
theorem foldl_tasks {Item : Type} (change : Memory → Item → Memory)
    (kept : ∀ memory item, (change memory item).tasks = memory.tasks)
    (items : List Item) :
    (items.foldl change memory).tasks = memory.tasks := by
  induction items generalizing memory with
  | nil => rfl
  | cons item items induction =>
    rw [List.foldl_cons, induction, kept]

end Memory

/-! ## Statements -/

def transitionJobState (jobId : Nat) (state : JobState)
    (fields : JobFields) : Effect :=
  .write (.updateJob jobId { fields with state := some state })

def transitionAttemptState (attemptId : Nat) (state : AttemptState)
    (outcome : Option (Option JobOutcome)) : Effect :=
  .write (.updateAttempt attemptId { state := some state, outcome := outcome })

def updateAttempt (attemptId : Nat) (fields : AttemptFields) : Effect :=
  .write (.updateAttempt attemptId fields)

/-- The fields of a job that ends. -/
def finished (outcome : JobOutcome) (category : Option ErrorCategory)
    (message : Option String) : JobFields where
  outcome := some (some outcome)
  failureCategory := some category
  failureMessage := some message

/-- An attempt ends, and its job with the same outcome. -/
def closeAttempt (attemptId jobId : Nat) (outcome : JobOutcome)
    (category : ErrorCategory) (message : String) : List Effect :=
  [transitionAttemptState attemptId .completed (some (some outcome)),
    transitionJobState jobId .completed
      (finished outcome (some category) (some message))]

/-! ## The fence -/

namespace ControllerState

def nothing (state : ControllerState) : Segment where
  effects := []
  memory := state.memory

/-- A segment that only has effects. -/
def only (state : ControllerState) (effects : List Effect) : Segment where
  effects := effects
  memory := state.memory

/-- A frame goes out when its agent is connected. -/
def sendFrame (state : ControllerState) (agentId : Nat) (frame : Outgoing)
    (header : LeaseHeader) : List Effect :=
  if agentId ∈ state.memory.connectedAgents then
    [.send agentId frame header]
  else
    []

/-- `isLeaseExpired`. -/
def leaseExpired (state : ControllerState) (attempt : AttemptRow) : Prop :=
  ∃ deadline ∈ attempt.leaseDeadline, deadline ≤ state.memory.clock

instance (state : ControllerState) (attempt : AttemptRow) :
    Decidable (state.leaseExpired attempt) :=
  inferInstanceAs (Decidable (∃ deadline ∈ attempt.leaseDeadline, _))

/--
`loadAttemptByLease` and `rejectStale`: the attempt that a frame names, when
the frame carries its fence, the lease has not expired and the attempt is in
an expected state.
-/
def acceptFrame (state : ControllerState) (agentId : Nat)
    (header : LeaseHeader) (expected : List AttemptState) :
    Option AttemptRow :=
  (state.db.getAttempt header.attemptId).filter fun attempt =>
    attempt.leaseId = header.leaseId ∧
      attempt.leaseEpoch = header.leaseEpoch ∧
      attempt.agentId = some agentId ∧ ¬ state.leaseExpired attempt ∧
      attempt.state ∈ expected

theorem acceptFrame_eq_some {state : ControllerState} {agentId : Nat}
    {header : LeaseHeader} {expected : List AttemptState}
    {attempt : AttemptRow} :
    state.acceptFrame agentId header expected = some attempt ↔
      state.db.getAttempt header.attemptId = some attempt ∧
        attempt.leaseId = header.leaseId ∧
        attempt.leaseEpoch = header.leaseEpoch ∧
        attempt.agentId = some agentId ∧ ¬ state.leaseExpired attempt ∧
        attempt.state ∈ expected := by
  unfold acceptFrame
  rw [Option.filter_eq_some_iff, decide_eq_true_iff]

end ControllerState

/-! ## Frames of agents -/

/-- What `lease_accept` finds when it prepares the source. -/
inductive PrepareLookup where
  | incompleteSnapshot
  | invalidOverlay
  | prepared
  deriving DecidableEq

/-- What `source_need` finds before it creates a bundle. -/
inductive BundleLookup where
  | missingRequestOrManifest
  | manifestUnreadable
  | missingBaseCommit
  | found
  deriving DecidableEq

/-- What `source_need` finds before it captures a full snapshot. -/
inductive FallbackLookup where
  | missingSnapshot
  | full
  | overlay
  deriving DecidableEq

inductive SourceNeed where
  | basePresent
  | bundle (lookup : BundleLookup)
  | fallback (lookup : FallbackLookup)
  deriving DecidableEq

/-- What a `job_exit` frame reports. -/
structure ExitReport where
  exitCode : Option Int
  outcome : JobOutcome
  failureCategory : Option ErrorCategory
  failureMessage : Option String
  deriving DecidableEq

/-- The job-scoped frames other than `recovery_report`. -/
inductive Frame where
  | leaseAccept (lookup : PrepareLookup)
  | leaseReject (reason : String)
  | sourceNeed (need : SourceNeed)
  | sourceReady
  | jobStarted (processIdentity : Option Nat)
  | logChunk (sequence : Nat)
  | jobExit (report : ExitReport)
  | artifactManifest (collection : Bool)
  | cleanupComplete (report : CleanupReport)
  deriving DecidableEq

/-- The attempt states in which the handler of a frame accepts it. -/
def Frame.expected : Frame → List AttemptState
  | .leaseAccept _ => [.leasing]
  | .leaseReject _ => [.leasing]
  | .sourceNeed _ => [.preparingSource]
  | .sourceReady => [.preparingSource]
  | .jobStarted _ => [.running]
  | .logChunk _ => [.running, .collectingArtifacts, .completed]
  | .jobExit _ =>
    [.leasing, .preparingSource, .running, .orphaned, .collectingArtifacts]
  | .artifactManifest _ => [.collectingArtifacts]
  | .cleanupComplete _ => [.collectingArtifacts]

def failAttemptPrepare (attemptId jobId : Nat) (category : ErrorCategory)
    (message : String) : List Effect :=
  closeAttempt attemptId jobId .failed category message

namespace ControllerState

variable (state : ControllerState) (agentId : Nat) (header : LeaseHeader)
  (attempt : AttemptRow)

def handleRemoteLeaseAccept (lookup : PrepareLookup) : Segment :=
  let moved :=
    [transitionAttemptState header.attemptId .preparingSource none,
      transitionJobState attempt.jobId .preparingSource {}]
  match lookup with
  | .incompleteSnapshot =>
    state.only
      (moved ++
        failAttemptPrepare header.attemptId attempt.jobId .materialization
          "Snapshot metadata missing size, sha256, or payload path")
  | .invalidOverlay =>
    state.only
      (moved ++
        failAttemptPrepare header.attemptId attempt.jobId .materialization
          "Invalid git_overlay manifest")
  | .prepared =>
    state.only (moved ++ state.sendFrame agentId .prepareSource header)

/-- Only this offer is abandoned: the job goes back to the queue. -/
def handleRemoteLeaseReject (reason : String) : Segment :=
  let abandoned :=
    [updateAttempt header.attemptId
        { leaseEpoch := some (attempt.leaseEpoch + 1) },
      transitionAttemptState header.attemptId .completed
        (some (some .failed))]
  match state.db.getJob attempt.jobId with
  | none => state.only abandoned
  | some job =>
    if job.queuePolicy = .failFast then
      state.only
        (abandoned ++
          [transitionJobState attempt.jobId .completed
            (finished .failed (some .noCapacity)
              (some ("Agent rejected lease offer: " ++ reason)))])
    else
      state.only
        (abandoned ++
          [transitionJobState attempt.jobId .queued
            { outcome := some none
              queuedAt := some (job.queuedAt.getD state.memory.clock)
              failureCategory := some none
              failureMessage := some none }])

def handleRemoteSourceNeed (need : SourceNeed) : Segment :=
  let fail (category : ErrorCategory) (message : String) : Segment :=
    state.only
      (failAttemptPrepare header.attemptId attempt.jobId category message)
  let suspend (kind : SourceKind) : Segment :=
    { effects := []
      memory := state.memory.spawn (.sourceNeed agentId header kind false) }
  match need with
  | .basePresent => state.nothing
  | .bundle lookup =>
    if agentId ∉ state.memory.connectedAgents then state.nothing
    else
      match lookup with
      | .missingRequestOrManifest =>
        fail .materialization
          "Cannot create bundle: missing job request or manifest"
      | .manifestUnreadable =>
        fail .materialization
          "Cannot create bundle: manifest unreadable"
      | .missingBaseCommit =>
        fail .materialization
          "Cannot create bundle: manifest missing base_commit"
      | .found => suspend .bundle
  | .fallback lookup =>
    if agentId ∉ state.memory.connectedAgents then state.nothing
    else
      match lookup with
      | .missingSnapshot =>
        fail .repoFetch "No snapshot available for full-mode fallback"
      | .full => state.only (state.sendFrame agentId .prepareSource header)
      | .overlay => suspend .fallback

def handleRemoteSourceReady : Segment :=
  state.only
    ([transitionAttemptState header.attemptId .running none,
      transitionJobState attempt.jobId .running {}] ++
      state.sendFrame agentId .runJob header)

def handleRemoteJobStarted (processIdentity : Option Nat) : Segment :=
  let identified :=
    match processIdentity with
    | none => []
    | some identity =>
      [updateAttempt header.attemptId
        { processIdentity := some identity }]
  state.only (identified ++ [.write (.insertEvent header.attemptId)])

/-- The process outcome is kept; the cleanup only finalizes the attempt. -/
def handleRemoteJobExit (report : ExitReport) : Segment :=
  state.only
    [transitionAttemptState header.attemptId .collectingArtifacts
        (some (some report.outcome)),
      updateAttempt header.attemptId {},
      .write
        (.updateJob attempt.jobId
          { exitCode := some report.exitCode
            failureCategory := some report.failureCategory
            failureMessage := some report.failureMessage }),
      transitionJobState attempt.jobId .collectingArtifacts {}]

def handleRemoteArtifactManifest (collection : Bool) : Segment where
  effects := if collection then [updateAttempt header.attemptId {}] else []
  memory := state.memory.spawn (.artifactGrant agentId header)

/-- An exit code in a message. -/
def exitText : Option Int → String
  | none => "null"
  | some code => toString code

/-- The outcome that `cleanup_complete` writes. -/
def cleanupOutcome (report : CleanupReport) : JobOutcome :=
  attempt.outcome.getD
    (if report.timedOut then .timedOut
    else if report.exitCode = some 0 then .succeeded else .failed)

/-- `cleanup_complete` after the log chunks before it are drained. -/
def completeCleanup (report : CleanupReport) : List Effect :=
  let outcome := cleanupOutcome attempt report
  let job := state.db.getJob attempt.jobId
  let processExit := job.bind JobRow.exitCode
  let exitCode :=
    if attempt.outcome.isSome then processExit
    else processExit.or report.exitCode
  let event :=
    if report.timedOut ∨
        (report.exitCode ≠ none ∧ report.exitCode ≠ some 0) then
      [Effect.write (.insertEvent header.attemptId)]
    else
      []
  event ++
    [transitionAttemptState header.attemptId .completed
        (some (some outcome)),
      transitionJobState attempt.jobId .cleaning {},
      transitionJobState attempt.jobId .completed
        { outcome := some (some outcome)
          exitCode := some exitCode
          failureCategory :=
            some
              ((job.bind JobRow.failureCategory).or
                (if outcome = .failed then some .processExit
                else if outcome = .timedOut then some .timeout else none))
          failureMessage :=
            some
              (((job.bind JobRow.failureMessage).or report.message).or
                (if outcome = .failed then
                  some ("Process exited with code " ++ exitText exitCode)
                else none)) }]

end ControllerState

/-- The segment that runs when a frame arrives. -/
def ControllerState.receive (state : ControllerState) (agentId : Nat)
    (header : LeaseHeader) (frame : Frame) : Segment :=
  match frame with
  | .logChunk sequence =>
    -- The fence is checked when the chunk's turn comes.
    { effects := []
      memory :=
        state.memory.spawn (.logChunk agentId header sequence .queued) }
  | _ =>
    match state.acceptFrame agentId header frame.expected with
    | none => state.nothing
    | some attempt =>
      match frame with
      | .leaseAccept lookup =>
        state.handleRemoteLeaseAccept agentId header attempt lookup
      | .leaseReject reason =>
        state.handleRemoteLeaseReject header attempt reason
      | .sourceNeed need =>
        state.handleRemoteSourceNeed agentId header attempt need
      | .sourceReady =>
        state.handleRemoteSourceReady agentId header attempt
      | .jobStarted identity =>
        state.handleRemoteJobStarted header identity
      | .logChunk _ => state.nothing
      | .jobExit report =>
        state.handleRemoteJobExit header attempt report
      | .artifactManifest collection =>
        state.handleRemoteArtifactManifest agentId header collection
      | .cleanupComplete report =>
        { effects := []
          memory := state.memory.spawn (.cleanup agentId header report) }

/-! ## Handlers that go on -/

/-- What the awaited I/O of a task returned. -/
inductive Completion where
  | done
  | failed (category : ErrorCategory) (message : String)
  | unavailable
  | remote (agentId : Nat)
  | localFallback
  | failFast (hint : Option String)
  | wait
  | finished (result : RunResult)
  deriving DecidableEq

/-- The log tasks of an attempt run one after the other. -/
def Task.logs (attemptId : Nat) : Task → Bool
  | .logChunk _ header _ _ => header.attemptId = attemptId
  | _ => false

namespace ControllerState

variable (state : ControllerState) (index : Nat)

/-- A task ends without an effect. -/
def dropTask : Segment where
  effects := []
  memory := state.memory.drop index

/-- `handleRemoteLogChunk` when the chunk's turn comes. -/
def startLogChunk (agentId : Nat) (header : LeaseHeader)
    (sequence : Nat) : Segment :=
  match state.acceptFrame agentId header
      (Frame.logChunk sequence).expected with
  | none => state.dropTask index
  | some attempt =>
    if sequence ≤ attempt.logAckedSequence then
      { effects := state.sendFrame agentId (.logAck sequence) header
        memory := state.memory.drop index }
    else if sequence ≠ attempt.logAckedSequence + 1 then
      state.dropTask index
    else
      { effects := []
        memory :=
          state.memory.replace index
            (.logChunk agentId header sequence .appending) }

/-- The later segments of `handleRemoteLogChunk`, without a check. -/
def resumeLogChunk (agentId : Nat) (header : LeaseHeader)
    (sequence : Nat) : LogPhase → Completion → Option Segment
  | .queued, .done => some (state.startLogChunk index agentId header sequence)
  | .appending, .done =>
    some
      { effects := [.file header.attemptId (.logChunk sequence)]
        memory :=
          state.memory.replace index
            (.logChunk agentId header sequence .appended) }
  | .appended, .done =>
    some
      { effects :=
          updateAttempt header.attemptId
              { logAckedSequence := some sequence } ::
            state.sendFrame agentId (.logAck sequence) header
        memory := state.memory.drop index }
  | _, .failed _ _ => some (state.dropTask index)
  | _, _ => none

/-- The later segments of `handleRemoteSourceNeed`, without a check. -/
def resumeSourceNeed (agentId : Nat) (header : LeaseHeader)
    (jobId : Nat) : SourceKind → Bool → Completion → Option Segment
  | .bundle, false, .done =>
    some
      { effects := [.file header.attemptId .bundle]
        memory :=
          state.memory.replace index
            (.sourceNeed agentId header .bundle true) }
  | .bundle, true, .done =>
    some
      { effects := state.sendFrame agentId .bundleDownload header
        memory := state.memory.drop index }
  | .bundle, _, .failed _ message =>
    some
      { effects :=
          failAttemptPrepare header.attemptId jobId .materialization
            ("Failed to create git bundle: " ++ message)
        memory := state.memory.drop index }
  | .fallback, false, .done =>
    some
      { effects := [.file header.attemptId .snapshotArchive]
        memory :=
          state.memory.replace index
            (.sourceNeed agentId header .fallback true) }
  | .fallback, true, .done =>
    some
      { effects := state.sendFrame agentId .prepareSource header
        memory := state.memory.drop index }
  | .fallback, false, .unavailable =>
    some
      { effects :=
          failAttemptPrepare header.attemptId jobId .repoFetch
            "Full snapshot fallback unavailable"
        memory := state.memory.drop index }
  | .fallback, _, .failed _ _ => some (state.dropTask index)
  | _, _, _ => none

/-- `handleRemoteArtifactManifest` after the missing objects are known. -/
def resumeArtifactGrant (agentId : Nat) (header : LeaseHeader) :
    Completion → Option Segment
  | .done =>
    some
      { effects := state.sendFrame agentId .artifactUploadGrant header
        memory := state.memory.drop index }
  | .failed _ _ => some (state.dropTask index)
  | _ => none

/-- `handleRemoteCleanupComplete` after the drain checks the fence again. -/
def resumeCleanup (agentId : Nat) (header : LeaseHeader)
    (report : CleanupReport) : Segment :=
  match state.acceptFrame agentId header
      (Frame.cleanupComplete report).expected with
  | none => state.dropTask index
  | some attempt =>
    { effects := state.completeCleanup header attempt report
      memory := state.memory.drop index }

/-! ## Dispatch -/

def leaseTtlSeconds : Nat := 300

/-- The row that `initiateRemoteAttempt` inserts. -/
def remoteAttempt (jobId agentId : Nat) : AttemptRow where
  jobId := jobId
  ordinal := state.db.maxOrdinal jobId + 1
  agentId := some agentId
  leaseId := state.db.attempts.length
  leaseEpoch := state.db.nextLeaseEpochForJob jobId
  leaseDeadline := some (state.memory.clock + leaseTtlSeconds)
  state := .leasing
  outcome := none
  logAckedSequence := 0
  processIdentity := none

/-- `initiateRemoteAttempt`, which throws when the agent is not connected. -/
def initiateRemoteAttempt (jobId agentId : Nat) : Option (List Effect) :=
  if state.db.getJob jobId = none ∨
      agentId ∉ state.memory.connectedAgents then
    none
  else
    let attempt := state.remoteAttempt jobId agentId
    some
      [.write (.insertAttempt attempt),
        transitionJobState jobId .leasing {},
        .send agentId .leaseOffer
          { attemptId := state.db.attempts.length
            leaseId := attempt.leaseId
            leaseEpoch := attempt.leaseEpoch }]

/-- Is a local run of a job refused where it looks at the job's row? -/
def refusesLocalRun (jobId : Nat) : Prop :=
  jobId ∈ state.memory.pendingCancels ∨
    ∀ job ∈ state.db.getJob jobId,
      job.terminal ∨ job.outcome = some .cancelled

instance (jobId : Nat) : Decidable (state.refusesLocalRun jobId) :=
  inferInstanceAs (Decidable (_ ∨ ∀ job ∈ state.db.getJob jobId, _))

/-- `dispatchJobExecution` after the source requirements are read. -/
def resumeDispatch (jobId : Nat) (rest : List Nat) :
    Completion → Option Segment
  | .remote agentId =>
    match state.initiateRemoteAttempt jobId agentId with
    | none => some (state.dropTask index)
    | some effects =>
      some
        { effects := effects, memory := state.memory.finish index rest }
  | .localFallback =>
    if state.refusesLocalRun jobId then
      some
        { effects := []
          memory :=
            (state.memory.deletePendingCancel jobId).finish index rest }
    else
      some
        { effects := []
          memory := state.memory.replace index (.localWaiting jobId rest) }
  | .failFast hint =>
    some
      { effects :=
          [transitionJobState jobId .completed
            (finished .failed (some .noMatchingAgent)
              (some
                (hint.getD
                  "No eligible agent available to execute job")))]
        memory := state.memory.finish index rest }
  | .wait =>
    some { effects := [], memory := state.memory.finish index rest }
  | .failed _ _ => some (state.dropTask index)
  | _ => none

/-- `tryDispatchQueuedJobs` goes on with the rows it read at its start. -/
def resumeSweep : List Nat → Segment
  | [] => state.dropTask index
  | jobId :: rest =>
    { effects := []
      memory := state.memory.replace index (.dispatch jobId rest) }

/-! ## Local runs -/

/-- `acquireAdmission`. -/
def admitLocalRun (jobId : Nat) (rest : List Nat) : Option Segment :=
  if state.memory.admissionActive < state.memory.maxConcurrentJobs then
    some
      { effects := []
        memory :=
          { state.memory.replace index (.localAdmitted jobId rest) with
            admissionActive := state.memory.admissionActive + 1 } }
  else
    none

/-- The row that `createAttempt` inserts for a local run. -/
def localAttempt (jobId : Nat) : AttemptRow where
  jobId := jobId
  ordinal := 1
  agentId := none
  leaseId := state.db.attempts.length
  leaseEpoch := state.db.nextLeaseEpochForJob jobId
  leaseDeadline := none
  state := .starting
  outcome := none
  logAckedSequence := 0
  processIdentity := none

/--
`runLocalJob` after a slot is free.  The insert throws when the job already
has an attempt with the ordinal, and the slot is not given back.
-/
def startLocalRun (jobId : Nat) (rest : List Nat) : Segment :=
  if state.refusesLocalRun jobId then
    { effects := []
      memory :=
        ((state.memory.releaseAdmission).deletePendingCancel jobId).finish
          index rest }
  else if ∃ pair ∈ state.db.attemptsOf jobId, pair.1.ordinal = 1 then
    state.dropTask index
  else
    { effects := [.write (.insertAttempt (state.localAttempt jobId))]
      memory :=
        state.memory.replace index
          (.localRun .preparing jobId state.db.attempts.length rest) }

/-- The outcome of a local run that reached its end. -/
def runOutcome (cancelled : Bool) (result : RunResult) : JobOutcome :=
  if cancelled then .cancelled
  else
    match result with
    | .timeout => .timedOut
    | .logFailure => .failed
    | .durationComplete => .succeeded
    | .logSuccess => .succeeded
    | .exit code => if code = some 0 then .succeeded else .failed

def RunResult.exitCode : RunResult → Option Int
  | .exit code => code
  | _ => none

/-- The failure message of a local run that reached its end. -/
def runMessage (outcome : JobOutcome) (result : RunResult) : Option String :=
  match outcome with
  | .failed =>
    match result with
    | .logFailure => some "Completion failure_pattern matched in logs"
    | _ => some ("Script exited with code " ++ exitText (RunResult.exitCode result))
  | .timedOut => some "Execution timed out"
  | .cancelled => some "Job cancelled"
  | _ => none

def runCategory : JobOutcome → Option ErrorCategory
  | .failed => some .processExit
  | .timedOut => some .timeout
  | .cancelled => some .cancelled
  | _ => none

/-- The catch of `runLocalJob`: the job's row is looked at again. -/
def catchLocalRun (jobId attemptId : Nat) (rest : List Nat)
    (category : ErrorCategory) (message : String) : Segment :=
  let cancelled : Prop :=
    attemptId ∈ state.memory.cancelledRuns ∨ category = .cancelled
  let outcome : JobOutcome := if cancelled then .cancelled else .failed
  let ended :=
    match state.db.getJob jobId with
    | none => []
    | some job =>
      if job.terminal then []
      else
        [transitionJobState jobId .cleaning {},
          transitionJobState jobId .completed
            (finished outcome (some category) (some message))]
  { effects :=
      transitionAttemptState attemptId .completed (some (some outcome)) ::
        ended
    memory :=
      state.memory.replace index
        (.localRun .finalizing jobId attemptId
          (if cancelled then rest else [])) }

/-- The end of `runLocalJob`, without a check. -/
def endLocalRun (jobId attemptId : Nat) (rest : List Nat)
    (result : RunResult) : Segment :=
  let outcome :=
    runOutcome (decide (attemptId ∈ state.memory.cancelledRuns)) result
  { effects :=
      [transitionAttemptState attemptId .completed (some (some outcome)),
        transitionJobState jobId .cleaning {},
        transitionJobState jobId .completed
          { outcome := some (some outcome)
            exitCode := some (RunResult.exitCode result)
            failureCategory := some (runCategory outcome)
            failureMessage := some (runMessage outcome result) }]
    memory :=
      state.memory.replace index
        (.localRun .closing jobId attemptId rest) }

/-- The child is running: from here on a cancel reaches it. -/
def superviseLocalRun (jobId attemptId : Nat) (rest : List Nat) : Segment :=
  let cancelled :=
    if jobId ∈ state.memory.pendingCancels then
      attemptId :: state.memory.cancelledRuns
    else
      state.memory.cancelledRuns
  { effects :=
      [transitionJobState jobId .running {},
        transitionAttemptState attemptId .running none]
    memory :=
      { state.memory.replace index
          (.localRun .running jobId attemptId rest) with
        activeCancels := attemptId :: state.memory.activeCancels
        cancelledRuns := cancelled } }

/-- The `finally` of `runLocalJob`. -/
def finalizeLocalRun (jobId attemptId : Nat) (rest : List Nat) : Segment where
  effects := []
  memory :=
    { ((state.memory.releaseAdmission).deletePendingCancel jobId).finish
        index rest with
      activeCancels :=
        state.memory.activeCancels.filter fun other => other ≠ attemptId
      cancelledRuns :=
        state.memory.cancelledRuns.filter fun other => other ≠ attemptId }

/-- The segments of `runLocalJob` from its first directory on. -/
def resumeLocalRun (jobId attemptId : Nat) (rest : List Nat) :
    LocalPhase → Completion → Option Segment
  | .preparing, .done =>
    if jobId ∈ state.memory.pendingCancels then
      some
        (state.catchLocalRun index jobId attemptId rest .cancelled
          "Job cancelled before materialization")
    else
      some
        { effects :=
            [transitionJobState jobId .matching {},
              transitionJobState jobId .leased {},
              transitionJobState jobId .materializing {}]
          memory :=
            state.memory.replace index
              (.localRun .materializing jobId attemptId rest) }
  | .preparing, .failed _ _ =>
    -- The directories are made before the `try`.
    some (state.dropTask index)
  | .materializing, .done =>
    if jobId ∈ state.memory.pendingCancels then
      some
        (state.catchLocalRun index jobId attemptId rest .cancelled
          "Job cancelled after materialization")
    else
      some
        { effects := []
          memory :=
            state.memory.replace index
              (.localRun .writingScript jobId attemptId rest) }
  | .writingScript, .done =>
    some
      { effects := [transitionJobState jobId .starting {}]
        memory :=
          state.memory.replace index
            (.localRun .starting jobId attemptId rest) }
  | .starting, .done =>
    some (state.superviseLocalRun index jobId attemptId rest)
  | .running, .finished result =>
    some
      { effects := [transitionJobState jobId .collectingArtifacts {}]
        memory :=
          state.memory.replace index
            (.localRun (.collecting result) jobId attemptId rest) }
  | .collecting result, .done =>
    some (state.endLocalRun index jobId attemptId rest result)
  | .closing, .done =>
    some
      { effects := []
        memory :=
          state.memory.replace index
            (.localRun .finalizing jobId attemptId rest) }
  | .finalizing, .done =>
    some (state.finalizeLocalRun index jobId attemptId rest)
  | .finalizing, .failed _ _ =>
    some (state.finalizeLocalRun index jobId attemptId rest)
  | _, .failed category message =>
    some (state.catchLocalRun index jobId attemptId rest category message)
  | _, _ => none

/-- A task goes on. -/
def resume (completion : Completion) : Option Segment :=
  match state.memory.tasks[index]? with
  | none => none
  | some (.sweep jobs) => some (state.resumeSweep index jobs)
  | some (.dispatch jobId rest) =>
    state.resumeDispatch index jobId rest completion
  | some (.localWaiting jobId rest) => state.admitLocalRun index jobId rest
  | some (.localAdmitted jobId rest) =>
    some (state.startLocalRun index jobId rest)
  | some (.localRun phase jobId attemptId rest) =>
    state.resumeLocalRun index jobId attemptId rest phase completion
  | some (.sourceNeed agentId header kind written) =>
    match state.db.getAttempt header.attemptId with
    | none => none
    | some attempt =>
      state.resumeSourceNeed index agentId header attempt.jobId kind
        written completion
  | some (.logChunk agentId header sequence phase) =>
    -- Only the first chunk of the attempt's chain is under way.
    if (state.memory.tasks.take index).any (Task.logs header.attemptId) then
      none
    else
      state.resumeLogChunk index agentId header sequence phase completion
  | some (.artifactGrant agentId header) =>
    state.resumeArtifactGrant index agentId header completion
  | some (.cleanup agentId header report) =>
    -- The drain waits for the chunks of the attempt.
    if state.memory.tasks.any (Task.logs header.attemptId) then none
    else some (state.resumeCleanup index agentId header report)

end ControllerState

/-! ## Requests of clients -/

/-- What the check of a confirmation token finds. -/
inductive ConfirmationVerdict where
  | valid
  | invalid
  | mismatch
  deriving DecidableEq

def confirmationTtlSeconds : Nat := 300

/-- A confirmation that came too late ends the job. -/
def expireConfirmation (jobId : Nat) : Effect :=
  transitionJobState jobId .completed
    (finished .cancelled (some .cancelled)
      (some "Confirmation expired before execution"))

namespace ControllerState

variable (state : ControllerState)

/-- The transaction of `handleJobSubmit`, and the dispatch it starts. -/
def handleJobSubmit (queuePolicy : QueuePolicy) (destructive : Bool) :
    Segment :=
  let jobId := state.db.jobs.length
  let created : List Effect :=
    [.write
        (.insertJob
          { state := .created
            outcome := none
            createdAt := state.memory.clock
            queuedAt := none
            exitCode := none
            failureCategory := none
            failureMessage := none
            queuePolicy := queuePolicy }),
      transitionJobState jobId .created {}]
  if destructive then
    state.only
      (created ++
        [transitionJobState jobId .awaitingConfirmation
          { queuedAt := some state.memory.clock }])
  else
    { effects :=
        created ++
          [transitionJobState jobId .queued
            { queuedAt := some state.memory.clock }]
      memory := state.memory.spawn (.dispatch jobId []) }

def handleJobConfirm (jobId : Nat) (verdict : ConfirmationVerdict) :
    Segment :=
  match state.db.getJob jobId with
  | none => state.nothing
  | some job =>
    if job.state ≠ .awaitingConfirmation then
      state.nothing
    else
      match verdict with
      | .valid =>
        { effects :=
            [transitionJobState jobId .queued
              { queuedAt := some state.memory.clock }]
          memory := state.memory.spawn (.dispatch jobId []) }
      | .invalid =>
        if ∃ queuedAt ∈ job.queuedAt,
            queuedAt + confirmationTtlSeconds ≤ state.memory.clock then
          state.only [expireConfirmation jobId]
        else
          state.nothing
      | .mismatch => state.nothing

/-- `requestJobCancel`, for a job without a remote attempt. -/
def requestJobCancel (jobId : Nat)
    (latest : Option (AttemptRow × Nat)) : Segment :=
  let pending :=
    { state.memory with
      pendingCancels := jobId :: state.memory.pendingCancels }
  let ended :=
    transitionJobState jobId .completed
      (finished .cancelled (some .cancelled)
        (some "Job cancelled before execution"))
  match latest with
  | none => { effects := [ended], memory := pending }
  | some (_, attemptId) =>
    if attemptId ∈ state.memory.activeCancels then
      { effects := []
        memory :=
          { pending with
            cancelledRuns := attemptId :: state.memory.cancelledRuns } }
    else
      { effects :=
          [transitionAttemptState attemptId .completed
            (some (some .cancelled)), ended]
        memory := pending }

def handleJobCancel (jobId : Nat) (reason : Option String) : Segment :=
  match state.db.getJob jobId with
  | none => state.nothing
  | some job =>
    if job.terminal then
      state.nothing
    else
      match state.db.getLatestAttempt jobId with
      | some (attempt, attemptId) =>
        match attempt.agentId with
        | none => state.requestJobCancel jobId (some (attempt, attemptId))
        | some agentId =>
          if attempt.live ∧
              agentId ∈ state.memory.connectedAgents then
            -- The agent reports the end of the attempt.
            state.only
              [.send agentId .cancelJob
                { attemptId := attemptId
                  leaseId := attempt.leaseId
                  leaseEpoch := attempt.leaseEpoch }]
          else
            state.only
              (closeAttempt attemptId jobId .cancelled .cancelled
                (reason.getD "Job cancelled (agent unreachable)"))
      | none => state.requestJobCancel jobId none

/-! ## Sweeps -/

/-- The names of the rows that satisfy a condition. -/
def attemptIds (accept : AttemptRow → Bool) : List (AttemptRow × Nat) :=
  state.db.attempts.zipIdx.filter fun pair => accept pair.1

theorem mem_attemptIds {state : ControllerState} {accept : AttemptRow → Bool}
    {pair : AttemptRow × Nat} :
    pair ∈ state.attemptIds accept ↔
      state.db.getAttempt pair.2 = some pair.1 ∧ accept pair.1 = true := by
  unfold attemptIds Database.getAttempt
  rw [List.mem_filter, List.mem_zipIdx_iff_getElem?]

def expireStaleLeases : List Effect :=
  (state.attemptIds fun attempt =>
      attempt.state ≠ .completed ∧ attempt.state ≠ .orphaned ∧
        state.leaseExpired attempt).flatMap
    fun pair =>
      closeAttempt pair.2 pair.1.jobId .failed .agentDisconnected
        "Lease expired during remote execution"

def expireStaleConfirmations : List Effect :=
  (state.db.jobs.zipIdx.filter fun pair =>
      pair.1.state = .awaitingConfirmation ∧
        pair.1.queuedAt.getD pair.1.createdAt + confirmationTtlSeconds ≤
          state.memory.clock).map
    fun pair => expireConfirmation pair.2

/-- The queued jobs; their order by time is the order of their names here. -/
def queuedJobs : List Nat :=
  (state.db.jobs.zipIdx.filter fun pair => pair.1.state = .queued).map
    Prod.snd

/-- `tryDispatchQueuedJobs`: the rows are read once. -/
def tryDispatchQueuedJobs : Segment :=
  match state.queuedJobs with
  | [] => state.nothing
  | jobId :: rest =>
    { effects := [], memory := state.memory.spawn (.dispatch jobId rest) }

/-! ## Recovery -/

def graceSeconds : Nat := 60
def orphanSeconds : Nat := 300

def renewActiveLease (agentId : Nat) : List Effect :=
  (state.attemptIds fun attempt =>
      attempt.agentId = some agentId ∧ attempt.state ≠ .completed ∧
        attempt.leaseDeadline ≠ none).map
    fun pair =>
      updateAttempt pair.2
        { leaseDeadline := some (state.memory.clock + leaseTtlSeconds) }

def markLost (attemptId jobId : Nat) : List Effect :=
  closeAttempt attemptId jobId .lost .agentDisconnected
    "Attempt lost during disconnect / restart reconciliation"

/-- `isPreStartDisconnect`. -/
def isPreStart (attempt : AttemptRow) : Prop :=
  attempt.processIdentity = none ∧
    attempt.state ∈
      [AttemptState.leasing, .preparingSource, .starting]

instance (attempt : AttemptRow) : Decidable (isPreStart attempt) :=
  inferInstanceAs (Decidable (_ ∧ _))

/-- The attempts of an agent that are not completed. -/
def liveAttemptsOf (agentId : Nat) : List (AttemptRow × Nat) :=
  state.attemptIds fun attempt =>
    attempt.agentId = some agentId ∧ attempt.state ≠ .completed

def onAgentDisconnect (agentId : Nat) : Segment where
  effects :=
    (state.liveAttemptsOf agentId).flatMap fun pair =>
      if isPreStart pair.1 then
        closeAttempt pair.2 pair.1.jobId .failed .agentDisconnected
          "Agent disconnected before script start"
      else
        [updateAttempt pair.2
          { leaseDeadline :=
              some
                (state.memory.clock + graceSeconds + orphanSeconds + 30) }]
  memory :=
    (state.liveAttemptsOf agentId).foldl
      (fun memory pair =>
        if isPreStart pair.1 then memory.clearAllTimersFor pair.2
        else memory.armTimer .grace pair.2)
      { state.memory with
        connectedAgents :=
          state.memory.connectedAgents.filter fun other => other ≠ agentId }

/-- `onAgentConnect` when the agent's process has restarted. -/
def onAgentRestarted (agentId : Nat) : Segment where
  effects :=
    (state.liveAttemptsOf agentId).flatMap fun pair =>
      markLost pair.2 pair.1.jobId
  memory :=
    (state.liveAttemptsOf agentId).foldl
      (fun memory pair => memory.clearAllTimersFor pair.2) state.memory

def onGraceElapsed (attemptId : Nat) : Segment :=
  let elapsed := state.memory.clearTimer .grace attemptId
  match state.db.getAttempt attemptId with
  | none => { effects := [], memory := elapsed }
  | some attempt =>
    if attempt.live then
      { effects := [updateAttempt attemptId { state := some .orphaned }]
        memory := elapsed.armTimer .orphan attemptId }
    else
      { effects := [], memory := elapsed }

def onOrphanTimeout (attemptId : Nat) : Segment :=
  let elapsed := state.memory.clearTimer .orphan attemptId
  match state.db.getAttempt attemptId with
  | none => { effects := [], memory := elapsed }
  | some attempt =>
    if attempt.state = .orphaned then
      { effects := markLost attemptId attempt.jobId
        memory := elapsed.clearAllTimersFor attemptId }
    else
      { effects := [], memory := elapsed }

def onReconcileDeadline (attemptId : Nat) : Segment :=
  let elapsed := state.memory.clearTimer .reconcile attemptId
  match state.db.getAttempt attemptId with
  | none => { effects := [], memory := elapsed }
  | some attempt =>
    if attempt.live then
      { effects := markLost attemptId attempt.jobId
        memory := elapsed.clearAllTimersFor attemptId }
    else
      { effects := [], memory := elapsed }

def onTimer : TimerKind → Nat → Segment
  | .grace, attemptId => state.onGraceElapsed attemptId
  | .orphan, attemptId => state.onOrphanTimeout attemptId
  | .reconcile, attemptId => state.onReconcileDeadline attemptId

end ControllerState

/-- What a `recovery_report` frame reports. -/
structure RecoveryReport where
  header : LeaseHeader
  awaitingUpload : Bool
  processIdentity : Nat
  deriving DecidableEq

/-- Why a reported attempt is not adopted. -/
inductive StaleReason where
  | attemptTerminalOrUnknown
  | agentMismatch
  | newerEpoch
  | leaseMismatch
  | processIdentityMismatch
  deriving DecidableEq

def StaleReason.name : StaleReason → String
  | .attemptTerminalOrUnknown => "attempt_terminal_or_unknown"
  | .agentMismatch => "agent_mismatch"
  | .newerEpoch => "newer_epoch"
  | .leaseMismatch => "lease_mismatch"
  | .processIdentityMismatch => "process_identity_mismatch"

/-- `decide` for an attempt that is not completed: nothing when it is adopted. -/
def staleReason (agentId : Nat) (attempt : AttemptRow)
    (report : RecoveryReport) : Option StaleReason :=
  if attempt.agentId ≠ some agentId then some .agentMismatch
  else if attempt.leaseEpoch ≠ report.header.leaseEpoch then
    some .newerEpoch
  else if attempt.leaseId ≠ report.header.leaseId then some .leaseMismatch
  else if attempt.processIdentity ≠ some report.processIdentity then
    some .processIdentityMismatch
  else none

theorem staleReason_eq_none {agentId : Nat} {attempt : AttemptRow}
    {report : RecoveryReport} :
    staleReason agentId attempt report = none ↔
      attempt.agentId = some agentId ∧
        attempt.leaseEpoch = report.header.leaseEpoch ∧
        attempt.leaseId = report.header.leaseId ∧
        attempt.processIdentity = some report.processIdentity := by
  unfold staleReason
  grind

namespace ControllerState

variable (state : ControllerState)

/-- `rearmOrphanWatchdog`. -/
def rearmOrphanWatchdog (memory : Memory) (attemptId : Nat)
    (attempt : AttemptRow) : Memory :=
  if attempt.state = .orphaned then memory.armTimer .orphan attemptId
  else memory.armTimer .grace attemptId

def markTerminateStaleFailed (attemptId jobId : Nat)
    (reason : StaleReason) : List Effect :=
  closeAttempt attemptId jobId .failed
    (if reason = .newerEpoch then .leaseExpired else .agentLost)
    (if reason = .newerEpoch then
      "Stale recovery_report rejected (newer lease epoch)"
    else "Stale recovery_report rejected (" ++ reason.name ++ ")")

def onRecoveryReport (agentId : Nat) (report : RecoveryReport) : Segment :=
  let attemptId := report.header.attemptId
  let cleared := state.memory.clearAllTimersFor attemptId
  let decision (adopt : Bool) : List Effect :=
    state.sendFrame agentId (.reconcileDecision adopt) report.header
  match state.db.getAttempt attemptId with
  | none => { effects := decision false, memory := cleared }
  | some attempt =>
    if ¬ attempt.live then
      { effects := decision false, memory := cleared }
    else if attempt.processIdentity = none then
      -- Never adopted before `job_started` has stored the identity.
      { effects := [updateAttempt attemptId {}]
        memory := rearmOrphanWatchdog cleared attemptId attempt }
    else
      match staleReason agentId attempt report with
      | none =>
        { effects :=
            decision true ++
              [updateAttempt attemptId
                { state :=
                    some
                      (if report.awaitingUpload then
                        .collectingArtifacts
                      else .running)
                  processIdentity := some report.processIdentity }]
          memory := cleared }
      | some .agentMismatch =>
        { effects := decision false ++ [updateAttempt attemptId {}]
          memory := rearmOrphanWatchdog cleared attemptId attempt }
      | some reason =>
        { effects :=
            decision false ++
              markTerminateStaleFailed attemptId attempt.jobId reason
          memory := cleared }

/-- The process starts again: its memory is lost, and every attempt waits. -/
def onControllerStartup : Segment where
  effects := []
  memory :=
    { state.memory with
      tasks := []
      connectedAgents := []
      pendingCancels := []
      activeCancels := []
      cancelledRuns := []
      admissionActive := 0
      timers :=
        (state.attemptIds fun attempt => attempt.state ≠ .completed).map
          fun pair => (.reconcile, pair.2) }

end ControllerState

/-! ## The machine -/

/-- What happens to the Controller. -/
inductive Event where
  | submit (queuePolicy : QueuePolicy) (destructive : Bool)
  | confirm (jobId : Nat) (verdict : ConfirmationVerdict)
  | cancel (jobId : Nat) (reason : Option String)
  | leaseSweep
  | sweepQueued
  | tick (seconds : Nat)
  | connect (agentId : Nat)
  | capabilities (agentId : Nat) (restarted : Bool)
  | heartbeat (agentId : Nat)
  | disconnect (agentId : Nat)
  | timer (kind : TimerKind) (attemptId : Nat)
  | recoveryReport (agentId : Nat) (report : RecoveryReport)
  | frame (agentId : Nat) (header : LeaseHeader) (frame : Frame)
  | resume (index : Nat) (completion : Completion)
  | restart
  deriving DecidableEq

/-- The segment of an event, when the event can happen. -/
def ControllerState.segment (state : ControllerState) :
    Event → Option Segment
  | .submit queuePolicy destructive =>
    some (state.handleJobSubmit queuePolicy destructive)
  | .confirm jobId verdict => some (state.handleJobConfirm jobId verdict)
  | .cancel jobId reason => some (state.handleJobCancel jobId reason)
  | .leaseSweep =>
    some
      (state.only
        (state.expireStaleLeases ++ state.expireStaleConfirmations))
  | .sweepQueued => some state.tryDispatchQueuedJobs
  | .tick seconds =>
    some
      { effects := []
        memory :=
          { state.memory with clock := state.memory.clock + seconds } }
  | .connect agentId =>
    some
      { effects := []
        memory :=
          { state.memory with
            connectedAgents := agentId :: state.memory.connectedAgents } }
  | .capabilities agentId restarted =>
    some
      (if restarted then state.onAgentRestarted agentId else state.nothing)
  | .heartbeat agentId => some (state.only (state.renewActiveLease agentId))
  | .disconnect agentId => some (state.onAgentDisconnect agentId)
  | .timer kind attemptId =>
    if (kind, attemptId) ∈ state.memory.timers then
      some (state.onTimer kind attemptId)
    else
      none
  | .recoveryReport agentId report =>
    some (state.onRecoveryReport agentId report)
  | .frame agentId header frame => some (state.receive agentId header frame)
  | .resume index completion => state.resume index completion
  | .restart => some state.onControllerStartup

/-- The writes of a segment, in their order. -/
def Segment.writes (segment : Segment) : List Write :=
  segment.effects.filterMap Effect.statement

def ControllerState.after (state : ControllerState) (segment : Segment) :
    ControllerState where
  db := state.db.writes segment.writes
  memory := segment.memory

def controllerMachine : Machine ControllerState Event where
  initial state :=
    ∃ maxConcurrentJobs,
      state =
        { db := Database.empty
          memory :=
            { tasks := []
              connectedAgents := []
              pendingCancels := []
              activeCancels := []
              cancelledRuns := []
              admissionActive := 0
              maxConcurrentJobs := maxConcurrentJobs
              timers := []
              clock := 0 } }
  step state event := (state.segment event).map state.after

end Rbo.Controller.Execution
