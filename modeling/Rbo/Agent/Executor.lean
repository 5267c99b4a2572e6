import Mathlib.Data.List.AList
import Mathlib.Data.List.Infix
import Rbo.Controller.Execution

/-!
# The executor of an agent

`AgentJobExecutor` keeps a runtime for each attempt that takes a slot, and
handles the Controller's frames.  Its steps are the segments of the handlers
between two awaits.  A handler goes on with the runtime it found when it was
called, which need not be in the map any more; a runtime is therefore named
by its place in a list, and the map leads from attempts to places.

What the disk, the network and the processes return is part of the event, and
so are the fields of a payload that the Controller's frames do not show here.
The channels of the session deliver every frame in order.
-/

namespace Rbo.Agent.Executor

open Rbo.Controller.Lifecycle (ErrorCategory JobOutcome)
open Rbo.Controller.Execution (CleanupReport ExitReport LeaseHeader Outgoing
  RecoveryReport RunResult SourceKind)

/-! ## Frames, runtimes and handlers -/

/-- The job-scoped frames of an agent. -/
inductive AgentFrame where
  | leaseAccept
  | leaseReject (reason : String)
  | sourceNeed (kind : SourceKind)
  | sourceReady
  | jobStarted
  | logChunk (sequence : Nat)
  | jobExit (report : ExitReport)
  | artifactManifest (collection : Bool)
  | cleanupComplete (report : CleanupReport)
  deriving DecidableEq

inductive Message where
  | frame (header : LeaseHeader) (frame : AgentFrame)
  | recoveryReport (report : RecoveryReport)
  deriving DecidableEq

inductive SourceMode where
  | full
  | gitOverlay
  deriving DecidableEq

/-- `AttemptRuntime`, as far as the handlers branch on it.  A pending upload
holds the lease of its request; `destructive` is
`isDestructiveOrHardwareRisk` of the lease's risk. -/
structure AttemptRuntime where
  offer : Option LeaseHeader
  prepare : Option SourceMode
  prepareReady : Bool
  runInProgress : Bool
  activeProcess : Bool
  cancelled : Bool
  pendingArtifactUpload : Option LeaseHeader
  pendingBundleDownload : Bool
  destructive : Bool
  leaseDeadline : Bool
  leaseTimer : Bool
  leaseExpired : Bool
  deriving DecidableEq

def createAttemptRuntime : AttemptRuntime where
  offer := none
  prepare := none
  prepareReady := false
  runInProgress := false
  activeProcess := false
  cancelled := false
  pendingArtifactUpload := none
  pendingBundleDownload := false
  destructive := false
  leaseDeadline := false
  leaseTimer := false
  leaseExpired := false

/-- Where a preparation awaits.  A settled wait for a bundle holds the error
it was rejected with. -/
inductive PreparePhase where
  | opening (mode : SourceMode)
  | downloading
  | renaming
  | materializing
  | mirroring
  | checkingCommit
  | awaitingBundle
  | bundleSettled (error : Option String)
  | importing
  | rechecking
  | checkingOut
  | overlayDownloading
  | applying
  deriving DecidableEq

/-- Where `handleRunJob` awaits.  A request for upload tokens is pending on
the runtime that the map held. -/
inductive RunPhase where
  | opening
  | spawning
  | killing
  | running
  | collecting
  | granting (pending : Nat)
  | granted (error : Option String)
  | uploading
  | publishing
  | closing
  deriving DecidableEq

/-- The metadata that an adoption reads. -/
structure AdoptedMetadata where
  header : LeaseHeader
  awaitingUpload : Bool
  lastExit : Option ExitReport
  artifacts : Option Nat
  collection : Bool
  destructive : Bool
  deadline : Bool
  deriving DecidableEq

/-- Where an adoption awaits. -/
inductive AdoptPhase where
  | replaying
  | verifying
  | granting (pending : Nat)
  | granted (error : Option String)
  | uploading
  deriving DecidableEq

/-- A handler that awaits; `waiting` is one that has nothing left to do. -/
inductive Task where
  | prepare (runtime : Nat) (header : LeaseHeader) (phase : PreparePhase)
  | run (runtime : Nat) (header : LeaseHeader) (phase : RunPhase)
  | clearing (attemptId : Nat)
  | cancelling (runtime : Nat) (header : LeaseHeader)
      (reason : Option String)
  | terminating (attemptId : Nat)
  | adopting (metadata : AdoptedMetadata) (phase : AdoptPhase)
  | waiting
  deriving DecidableEq

structure AgentState where
  maxJobs : Nat
  runtimes : List AttemptRuntime
  attempts : AList fun _ : Nat => Nat
  rejectedAttempts : List Nat
  tasks : List Task
  inbox : List (Outgoing × LeaseHeader)
  outbox : List Message

/-- What the payload of a frame and the disk bring to its handler. -/
structure Reception where
  underPressure : Bool
  spoolPressure : Bool
  destructive : Bool
  mode : SourceMode
  reason : Option String
  metadata : Option AdoptedMetadata
  deriving DecidableEq

/-- What an awaited operation returns. -/
inductive Completion where
  | done
  | missing
  | failed (error : String)
  | toolchainChanged (message : String)
  | secretMissing (message : String)
  | spawned (pastDeadline : Bool)
  | exited (result : RunResult) (spoolLimit : Option Nat)
  | verified (count : Nat)
  | cleaned (exitCode : Option Int) (timedOut : Bool)
  deriving DecidableEq

/-- `includes` of a string. -/
def includes (text word : String) : Bool :=
  decide (word.toList <:+: text.toList)

namespace AgentState

variable (agent : AgentState)

/-! ## Runtimes, the map and tasks -/

def sendFrame (header : LeaseHeader) (frame : AgentFrame) : AgentState :=
  { agent with outbox := agent.outbox ++ [.frame header frame] }

def modifyRuntime (runtime : Nat)
    (change : AttemptRuntime → AttemptRuntime) : AgentState :=
  { agent with runtimes := agent.runtimes.modify runtime change }

/-- The runtime of an attempt in the map, with its place. -/
def entry (attemptId : Nat) : Option (Nat × AttemptRuntime) :=
  (agent.attempts.lookup attemptId).bind fun runtime =>
    agent.runtimes[runtime]?.map fun found => (runtime, found)

def matchesReservedLease (header : LeaseHeader) :
    Option (Nat × AttemptRuntime) :=
  (agent.entry header.attemptId).filter fun entry =>
    entry.2.offer = some header

/-- `cancelSignal.cancelled` of a runtime. -/
def isCancelled (runtime : Nat) : Bool :=
  agent.runtimes[runtime]?.any AttemptRuntime.cancelled

/-- A task goes on as another one. -/
def replace (index : Nat) (task : Task) : AgentState :=
  { agent with tasks := agent.tasks.set index task }

def drop (index : Nat) : AgentState :=
  { agent with tasks := agent.tasks.eraseIdx index }

def spawn (task : Task) : AgentState :=
  { agent with tasks := agent.tasks ++ [task] }

end AgentState

/-- The wait for a bundle on a runtime ends. -/
def Task.settleBundle (runtime : Nat) (error : Option String) : Task → Task
  | .prepare waited header .awaitingBundle =>
    .prepare waited header
      (if waited = runtime then .bundleSettled error else .awaitingBundle)
  | task => task

/-- The wait for upload tokens on a runtime ends. -/
def Task.settleUpload (runtime : Nat) (error : Option String) : Task → Task
  | .run own header (.granting waited) =>
    .run own header
      (if waited = runtime then .granted error else .granting waited)
  | .adopting metadata (.granting waited) =>
    .adopting metadata
      (if waited = runtime then .granted error else .granting waited)
  | task => task

namespace AgentState

variable (agent : AgentState)

def settleBundle (runtime : Nat) (error : Option String) : AgentState :=
  { agent.modifyRuntime runtime fun found =>
      { found with pendingBundleDownload := false } with
    tasks := agent.tasks.map (Task.settleBundle runtime error) }

def settleUpload (runtime : Nat) (error : Option String) : AgentState :=
  { agent.modifyRuntime runtime fun found =>
      { found with pendingArtifactUpload := none } with
    tasks := agent.tasks.map (Task.settleUpload runtime error) }

def clearedError : Option String :=
  some "Error: attempt cleared"

/-- `clearAttempt` rejects what is pending on the runtime. -/
def clearAttempt (attemptId : Nat) : AgentState :=
  match agent.attempts.lookup attemptId with
  | none => agent
  | some runtime =>
    let timed :=
      agent.modifyRuntime runtime fun found =>
        { found with leaseTimer := false }
    let settled :=
      (timed.settleUpload runtime clearedError).settleBundle runtime
        clearedError
    { settled with attempts := agent.attempts.erase attemptId }

/-! ## Terminal frames -/

def sendCancelledTerminal (header : LeaseHeader) (message : String) :
    AgentState :=
  (agent.sendFrame header
    (.jobExit
      { exitCode := none
        outcome := .cancelled
        failureCategory := some .cancelled
        failureMessage := some message })).sendFrame header
    (.cleanupComplete
      { exitCode := none
        timedOut := false
        message := some message })

def failTerminal (header : LeaseHeader) (failureCategory : ErrorCategory)
    (failureMessage : String) : AgentState :=
  (agent.sendFrame header
    (.jobExit
      { exitCode := some 1
        outcome := .failed
        failureCategory := some failureCategory
        failureMessage := some failureMessage })).sendFrame header
    (.cleanupComplete
      { exitCode := some 1
        timedOut := false
        message := some failureMessage })

/-! ## Leases -/

def handleLeaseOffer (header : LeaseHeader) (input : Reception) :
    AgentState :=
  if header.attemptId ∈ agent.rejectedAttempts then agent
  else if agent.maxJobs ≤ agent.attempts.keys.length then
    agent.sendFrame header
      (.leaseReject
        ("Agent capacity limit reached (" ++ toString agent.maxJobs ++
          " active job max)"))
  else if input.underPressure then
    agent.sendFrame header
      (.leaseReject
        (if input.spoolPressure then
          "Agent refusing leases under log spool pressure"
        else "Agent refusing leases under disk pressure"))
  else
    let reserved :=
      { agent with
        runtimes :=
          agent.runtimes ++
            [{ createAttemptRuntime with
                offer := some header
                destructive := input.destructive
                leaseDeadline := true
                leaseTimer := true }]
        attempts :=
          agent.attempts.insert header.attemptId agent.runtimes.length }
    reserved.sendFrame header .leaseAccept

/-- `onLeaseExpired` when the deadline has passed; before it, the timer is
only armed again. -/
def onLeaseExpired (attemptId : Nat) : AgentState :=
  match agent.entry attemptId with
  | none => agent
  | some (runtime, found) =>
    if found.leaseExpired ∨ ¬ found.leaseDeadline then agent
    else if ¬ found.destructive then agent
    else
      let expired :=
        agent.modifyRuntime runtime fun found =>
          { found with leaseExpired := true, cancelled := true }
      if found.activeProcess then expired.spawn .waiting else expired

/-- `renewLeaseDeadline`: the timers of all leases are armed again. -/
def renewLeaseDeadline : AgentState :=
  agent.attempts.entries.foldl
    (fun renewing entry =>
      renewing.modifyRuntime entry.2 fun found =>
        if ¬ found.leaseDeadline ∨ found.leaseExpired then found
        else { found with leaseTimer := true })
    agent

/-! ## Preparing the source -/

def handlePrepareSource (header : LeaseHeader) (mode : SourceMode) :
    AgentState :=
  match agent.matchesReservedLease header with
  | none => agent
  | some (runtime, _) =>
    (agent.modifyRuntime runtime fun found =>
      { found with prepare := some mode, prepareReady := false }).spawn
        (.prepare runtime header (.opening mode))

end AgentState

/-- Is it a phase of `handlePrepareGitOverlay`? -/
def PreparePhase.overlay : PreparePhase → Bool
  | .opening mode => mode = .gitOverlay
  | .downloading => false
  | .renaming => false
  | .materializing => false
  | _ => true

namespace AgentState

variable (agent : AgentState) (index runtime : Nat) (header : LeaseHeader)

/-- The catch of a preparation: its attempt ends, unless it has lost its
lease. -/
def catchPrepare (phase : PreparePhase) (error : String) : AgentState :=
  match agent.matchesReservedLease header with
  | none => agent.replace index .waiting
  | some _ =>
    let ended :=
      if agent.isCancelled runtime ∨ includes error "cancelled" then
        agent.sendCancelledTerminal header
          "Job cancelled during prepare_source"
      else
        agent.failTerminal header
          (if phase.overlay ∧ includes error "fetch" then .repoFetch
          else .materialization)
          error
    ended.replace index (.clearing header.attemptId)

/-- A preparation goes on to its next await unless it is cancelled. -/
def checkCancelled (next : PreparePhase) : AgentState :=
  if agent.isCancelled runtime then
    agent.catchPrepare index runtime header next "Error: cancelled"
  else agent.replace index (.prepare runtime header next)

/-- The source is in place. -/
def finishPrepare : AgentState :=
  if agent.isCancelled runtime then
    (agent.sendCancelledTerminal header
      "Job cancelled during prepare_source").replace index
        (.clearing header.attemptId)
  else
    ((agent.modifyRuntime runtime fun found =>
      { found with prepareReady := true }).sendFrame header
        .sourceReady).drop index

/-- The base commit is missing: a bundle is asked for and awaited. -/
def waitForBundleDownload : AgentState :=
  let asked := agent.sendFrame header (.sourceNeed .bundle)
  if agent.runtimes[runtime]?.any AttemptRuntime.pendingBundleDownload then
    asked.replace index
      (.prepare runtime header
        (.bundleSettled (some "Error: bundle download already pending")))
  else
    (asked.modifyRuntime runtime fun found =>
      { found with pendingBundleDownload := true }).replace index
        (.prepare runtime header .awaitingBundle)

/-- The handler asks for a full snapshot and returns; the attempt keeps its
slot. -/
def escalate : AgentState :=
  (agent.sendFrame header (.sourceNeed .fallback)).drop index

/-- The segments of `handlePrepareSource` and `handlePrepareGitOverlay`. -/
def resumePrepare : PreparePhase → Completion → Option AgentState
  | .opening _, .failed _ =>
    -- The directory is made before the `try`.
    some (agent.drop index)
  | .opening .full, .missing =>
    some
      (agent.catchPrepare index runtime header (.opening .full)
        "Error: prepare_source missing expected size or sha256")
  | .opening .full, .done =>
    some (agent.checkCancelled index runtime header .downloading)
  | .downloading, .done =>
    some (agent.checkCancelled index runtime header .renaming)
  | .renaming, .done =>
    some (agent.replace index (.prepare runtime header .materializing))
  | .materializing, .done => some (agent.finishPrepare index runtime header)
  | .opening .gitOverlay, .done =>
    some (agent.checkCancelled index runtime header .mirroring)
  | .mirroring, .done =>
    some (agent.replace index (.prepare runtime header .checkingCommit))
  | .mirroring, .failed _ =>
    -- Without a mirror the commit is not looked for.
    some (agent.waitForBundleDownload index runtime header)
  | .checkingCommit, .missing =>
    some (agent.waitForBundleDownload index runtime header)
  | .checkingCommit, .done =>
    some (agent.replace index (.prepare runtime header .checkingOut))
  | .bundleSettled none, .done =>
    some (agent.checkCancelled index runtime header .importing)
  | .bundleSettled (some error), .done =>
    some
      (if agent.isCancelled runtime ∨ includes error "cancelled" then
        agent.catchPrepare index runtime header
          (.bundleSettled (some error)) "Error: cancelled"
      else agent.escalate index header)
  | .importing, .done =>
    some (agent.replace index (.prepare runtime header .rechecking))
  | .rechecking, .missing => some (agent.escalate index header)
  | .rechecking, .done =>
    some (agent.replace index (.prepare runtime header .checkingOut))
  | .checkingOut, .done =>
    some (agent.checkCancelled index runtime header .overlayDownloading)
  | .overlayDownloading, .done =>
    some (agent.checkCancelled index runtime header .applying)
  | .applying, .done => some (agent.finishPrepare index runtime header)
  | .awaitingBundle, _ => none
  | .bundleSettled _, _ => none
  | phase, .failed error =>
    some (agent.catchPrepare index runtime header phase error)
  | _, _ => none

def handleBundleDownload : AgentState :=
  match agent.matchesReservedLease header with
  | none => agent
  | some (runtime, found) =>
    if found.pendingBundleDownload then agent.settleBundle runtime none
    else agent

end AgentState

/-! ## Running a job -/

open Rbo.Controller.Execution.ControllerState (exitText) in
/-- The `job_exit` of a process that ended.  A spool that is full has the
number of its bytes. -/
def exitReport (cancelled : Bool) (result : RunResult)
    (spoolLimit : Option Nat) : ExitReport :=
  let exitCode :=
    match result with
    | .exit code => code
    | _ => none
  let outcome : JobOutcome :=
    if cancelled then .cancelled
    else if spoolLimit.isSome then .failed
    else
      match result with
      | .timeout => .timedOut
      | .logFailure => .failed
      | .durationComplete => .succeeded
      | .logSuccess => .succeeded
      | .exit code => if code = some 0 then .succeeded else .failed
  match spoolLimit, outcome with
  | some maxBytes, _ =>
    { exitCode := exitCode
      outcome := outcome
      failureCategory := some .logSpoolLimit
      failureMessage :=
        some ("Log spool exceeded " ++ toString maxBytes ++ " bytes") }
  | none, .failed =>
    { exitCode := exitCode
      outcome := outcome
      failureCategory := some .processExit
      failureMessage :=
        some
          (if result = .logFailure then
            "Completion failure_pattern matched in logs"
          else "Script exited with code " ++ exitText exitCode) }
  | none, .timedOut =>
    { exitCode := exitCode
      outcome := outcome
      failureCategory := some .timeout
      failureMessage := some "Execution timed out" }
  | none, _ =>
    { exitCode := exitCode
      outcome := outcome
      failureCategory := none
      failureMessage := none }

def leaseExpiredMessage : String :=
  "Lease expired — Agent self-terminated destructive/hardware job"

namespace AgentState

variable (agent : AgentState) (index runtime : Nat) (header : LeaseHeader)

def handleRunJob : AgentState :=
  match agent.matchesReservedLease header with
  | none => agent
  | some (runtime, found) =>
    if found.prepare = none then agent
    else
      (agent.modifyRuntime runtime fun found =>
        { found with runInProgress := true }).spawn
          (.run runtime header .opening)

/-- `requestArtifactUploadTokens`: the runtime that the request is pending
on, or the error. -/
def requestArtifactUploadTokens (collection : Bool) :
    AgentState × (Nat ⊕ String) :=
  match agent.entry header.attemptId with
  | none =>
    (agent, .inr "Error: attempt not active for artifact upload")
  | some (pending, found) =>
    if found.pendingArtifactUpload.isSome then
      (agent, .inr "Error: artifact upload already pending")
    else
      ((agent.modifyRuntime pending fun found =>
        { found with pendingArtifactUpload := some header }).sendFrame
          header (.artifactManifest collection), .inl pending)

/-- The run ends before its process is spawned. -/
def refuseRun (category : ErrorCategory) (message : String) : AgentState :=
  (agent.failTerminal header category message).replace index
    (.clearing header.attemptId)

/-- The catch of `handleRunJob`. -/
def catchRun (error : String) : AgentState :=
  (agent.failTerminal header .internal error).replace index
    (.run runtime header .closing)

/-- The process is spawned; a lease that has expired ends it at once. -/
def superviseRun (pastDeadline : Bool) : AgentState :=
  let started :=
    (agent.sendFrame header .jobStarted).modifyRuntime runtime fun found =>
      { found with activeProcess := true }
  match started.runtimes[runtime]? with
  | none => started.replace index (.run runtime header .running)
  | some found =>
    if found.destructive ∧ found.leaseDeadline ∧ pastDeadline then
      if found.leaseExpired then
        started.replace index (.run runtime header .killing)
      else
        (started.replace index
          (.run runtime header .running)).onLeaseExpired header.attemptId
    else started.replace index (.run runtime header .running)

def endRun (result : RunResult) (spoolLimit : Option Nat) : AgentState :=
  if agent.runtimes[runtime]?.any AttemptRuntime.leaseExpired then
    ((agent.sendFrame header
      (.jobExit
        { exitCode := none
          outcome := .failed
          failureCategory := some .leaseExpired
          failureMessage := some leaseExpiredMessage })).sendFrame header
      (.cleanupComplete
        { exitCode := none
          timedOut := false
          message := some leaseExpiredMessage })).replace index
      (.run runtime header .closing)
  else
    (agent.sendFrame header
      (.jobExit
        (exitReport (agent.isCancelled runtime) result spoolLimit))).replace
      index (.run runtime header .collecting)

/-- The segments of `handleRunJob`. -/
def resumeRun : RunPhase → Completion → Option AgentState
  | .opening, .failed _ =>
    -- The directories and the spool are opened before the `try`.
    some (agent.drop index)
  | .opening, .toolchainChanged message =>
    some (agent.refuseRun index header .toolchainChanged message)
  | .opening, .secretMissing message =>
    some
      (if agent.isCancelled runtime then
        (agent.sendCancelledTerminal header
          "Job cancelled before spawn").replace index
            (.clearing header.attemptId)
      else agent.refuseRun index header .secretMissing message)
  | .opening, .done =>
    some
      (if agent.isCancelled runtime then
        (agent.sendCancelledTerminal header
          "Job cancelled before spawn").replace index
            (.clearing header.attemptId)
      else agent.replace index (.run runtime header .spawning))
  | .spawning, .spawned pastDeadline =>
    some (agent.superviseRun index runtime header pastDeadline)
  | .killing, .done =>
    some (agent.replace index (.run runtime header .running))
  | .running, .exited result spoolLimit =>
    some (agent.endRun index runtime header result spoolLimit)
  | .collecting, .done =>
    match agent.requestArtifactUploadTokens header true with
    | (asked, .inl pending) =>
      some (asked.replace index (.run runtime header (.granting pending)))
    | (asked, .inr error) =>
      some (asked.catchRun index runtime header error)
  | .granted none, .done =>
    some (agent.replace index (.run runtime header .uploading))
  | .granted (some error), .done =>
    some (agent.catchRun index runtime header error)
  | .uploading, .cleaned exitCode timedOut =>
    some
      ((agent.sendFrame header
        (.cleanupComplete
          { exitCode := exitCode
            timedOut := timedOut
            message := none })).replace index
        (.run runtime header .publishing))
  | .publishing, .done =>
    some (agent.replace index (.run runtime header .closing))
  | .closing, .done =>
    some ((agent.clearAttempt header.attemptId).drop index)
  | .spawning, .failed error =>
    some (agent.catchRun index runtime header error)
  | .running, .failed error =>
    some (agent.catchRun index runtime header error)
  | .collecting, .failed error =>
    some (agent.catchRun index runtime header error)
  | _, _ => none

def handleArtifactUploadGrant : AgentState :=
  match agent.entry header.attemptId with
  | none => agent
  | some (runtime, found) =>
    if found.pendingArtifactUpload = some header then
      agent.settleUpload runtime none
    else agent

/-! ## Cancelling and terminating -/

def handleCancelJob (reason : Option String) : AgentState :=
  match agent.matchesReservedLease header with
  | none => agent
  | some (runtime, found) =>
    let cancelled :=
      agent.modifyRuntime runtime fun found =>
        { found with cancelled := true }
    if found.activeProcess then cancelled.spawn .waiting
    else if found.runInProgress then cancelled
    else
      let unblocked :=
        if found.pendingBundleDownload then
          cancelled.settleBundle runtime (some "Error: cancelled")
        else cancelled
      unblocked.spawn (.cancelling runtime header reason)

/-- `handleCancelJob` after the workspace is removed.  A preparation under way
is left to observe the signal. -/
def resumeCancel (reason : Option String) : AgentState :=
  match agent.runtimes[runtime]? with
  | none => agent.drop index
  | some found =>
    if found.prepare.isSome ∧ ¬ found.prepareReady then agent.drop index
    else
      ((agent.sendCancelledTerminal header
        (reason.getD
          "Job cancelled before process start")).clearAttempt
            header.attemptId).drop index

/-- `forceAbandonAttempt`. -/
def forceAbandonAttempt (attemptId : Nat) : AgentState :=
  match agent.attempts.lookup attemptId with
  | none => agent
  | some runtime =>
    let cancelled :=
      agent.modifyRuntime runtime fun found =>
        { found with cancelled := true }
    if agent.runtimes[runtime]?.any AttemptRuntime.activeProcess then
      cancelled.spawn (.terminating attemptId)
    else cancelled.clearAttempt attemptId

/-- What `terminate_stale` and `discardUnfencedLeftover` do. -/
def terminateAttempt (attemptId : Nat) : AgentState :=
  { agent with
    rejectedAttempts :=
      attemptId :: agent.rejectedAttempts }.forceAbandonAttempt attemptId

/-! ## Adopting -/

/-- The runtime under which an upload is resumed. -/
def resumeRuntime (metadata : AdoptedMetadata) : AgentState :=
  let adopt (found : AttemptRuntime) : AttemptRuntime :=
    { found with
      destructive := metadata.destructive
      leaseDeadline := found.leaseDeadline || metadata.deadline }
  match agent.entry metadata.header.attemptId with
  | some (runtime, _) => agent.modifyRuntime runtime adopt
  | none =>
    { agent with
      runtimes := agent.runtimes ++ [adopt createAttemptRuntime]
      attempts :=
        agent.attempts.insert metadata.header.attemptId
          agent.runtimes.length }

/-- The segments of an adoption.  It does not clear the attempt. -/
def resumeAdopt (metadata : AdoptedMetadata) :
    AdoptPhase → Completion → Option AgentState
  | .replaying, .failed _ => some (agent.drop index)
  | .replaying, .done =>
    if ¬ metadata.awaitingUpload then some (agent.drop index)
    else
      let resent :=
        match metadata.lastExit with
        | none => agent
        | some exit => agent.sendFrame metadata.header (.jobExit exit)
      if metadata.artifacts = none then some (resent.drop index)
      else some (resent.replace index (.adopting metadata .verifying))
  | .verifying, .verified count =>
    if count = 0 ∧ metadata.artifacts ≠ some 0 then
      some (agent.drop index)
    else
      match (agent.resumeRuntime metadata).requestArtifactUploadTokens
          metadata.header metadata.collection with
      | (asked, .inl pending) =>
        some
          (asked.replace index
            (.adopting metadata (.granting pending)))
      | (asked, .inr _) => some (asked.drop index)
  | .granted none, .done =>
    some (agent.replace index (.adopting metadata .uploading))
  | .granted (some _), .done => some (agent.drop index)
  | .uploading, .done => some (agent.drop index)
  | _, _ => none

/-- `handleReconcileDecision`. -/
def handleReconcileDecision (adopt : Bool)
    (metadata : Option AdoptedMetadata) : AgentState :=
  if ¬ adopt then agent.terminateAttempt header.attemptId
  else
    match metadata.filter fun found =>
        found.header.attemptId = header.attemptId with
    | none => agent
    | some metadata => agent.spawn (.adopting metadata .replaying)

/-! ## Events -/

/-- The handler of a frame.  Log acknowledgements concern the spool only. -/
def receive (frame : Outgoing) (input : Reception) : AgentState :=
  match frame with
  | .leaseOffer => agent.handleLeaseOffer header input
  | .prepareSource => agent.handlePrepareSource header input.mode
  | .bundleDownload => agent.handleBundleDownload header
  | .runJob => agent.handleRunJob header
  | .cancelJob => agent.handleCancelJob header input.reason
  | .logAck _ => agent
  | .artifactUploadGrant => agent.handleArtifactUploadGrant header
  | .reconcileDecision adopt =>
    agent.handleReconcileDecision header adopt input.metadata

/-- A suspended handler goes on. -/
def resume (completion : Completion) : Option AgentState :=
  match agent.tasks[index]? with
  | none => none
  | some (.prepare runtime header phase) =>
    agent.resumePrepare index runtime header phase completion
  | some (.run runtime header phase) =>
    agent.resumeRun index runtime header phase completion
  | some (.clearing attemptId) =>
    some ((agent.clearAttempt attemptId).drop index)
  | some (.cancelling runtime header reason) =>
    some (agent.resumeCancel index runtime header reason)
  | some (.terminating attemptId) =>
    some ((agent.clearAttempt attemptId).drop index)
  | some (.adopting metadata phase) =>
    agent.resumeAdopt index metadata phase completion
  | some .waiting => some (agent.drop index)

end AgentState

/-- What happens at an agent. -/
inductive AgentEvent where
  | receive (input : Reception)
  | resume (index : Nat) (completion : Completion)
  | leaseTimer (attemptId : Nat)
  | bundleTimer (runtime : Nat)
  | uploadTimer (attemptId : Nat)
  | renewLeases
  | sendLog (index sequence : Nat)
  | report (report : RecoveryReport)
  | discardLeftover (attemptId : Nat)
  | restart
  deriving DecidableEq

namespace AgentState

variable (agent : AgentState)

/-- The step of an event, when the event can happen. -/
def act : AgentEvent → Option AgentState
  | .receive input =>
    match agent.inbox with
    | [] => none
    | (frame, header) :: rest =>
      some ({ agent with inbox := rest }.receive header frame input)
  | .resume index completion => agent.resume index completion
  | .leaseTimer attemptId =>
    match agent.entry attemptId with
    | none => none
    | some (runtime, found) =>
      if found.leaseTimer then
        some
          ((agent.modifyRuntime runtime fun found =>
            { found with leaseTimer := false }).onLeaseExpired attemptId)
      else none
  | .bundleTimer runtime =>
    if agent.runtimes[runtime]?.any
        AttemptRuntime.pendingBundleDownload then
      some
        (agent.settleBundle runtime
          (some "Error: timed out waiting for bundle_download"))
    else none
  | .uploadTimer attemptId =>
    match agent.entry attemptId with
    | none => none
    | some (runtime, found) =>
      if found.pendingArtifactUpload.isSome then
        some
          (agent.settleUpload runtime
            (some "Error: timed out waiting for artifact upload tokens"))
      else none
  | .renewLeases => some agent.renewLeaseDeadline
  | .sendLog index sequence =>
    match agent.tasks[index]? with
    | some (.run _ header phase) =>
      if phase = .opening then none
      else some (agent.sendFrame header (.logChunk sequence))
    | _ => none
  | .report report =>
    some { agent with outbox := agent.outbox ++ [.recoveryReport report] }
  | .discardLeftover attemptId => some (agent.terminateAttempt attemptId)
  | .restart =>
    some
      { agent with
        runtimes := []
        attempts := ∅
        rejectedAttempts := []
        tasks := [] }

/-- Nothing is in flight, suspended or timed at an agent. -/
def Idle : Prop :=
  agent.tasks = [] ∧ agent.inbox = [] ∧ agent.outbox = [] ∧
    ∀ runtime ∈ agent.runtimes, runtime.leaseTimer = false ∧
      runtime.pendingBundleDownload = false ∧
      runtime.pendingArtifactUpload = none

instance : Decidable agent.Idle :=
  inferInstanceAs (Decidable (_ ∧ _))

end AgentState

/-! ## Slots that are taken and released -/

/-- A handler that may still put an attempt into the map. -/
def Task.takes (attemptId : Nat) : Task → Prop
  | .adopting metadata .replaying => metadata.header.attemptId = attemptId
  | .adopting metadata .verifying => metadata.header.attemptId = attemptId
  | _ => False

/-- A handler that ends only after it has cleared an attempt. -/
def Task.releases (attemptId : Nat) : Task → Prop
  | .run _ header phase => header.attemptId = attemptId ∧ phase ≠ .opening
  | .clearing name => name = attemptId
  | .terminating name => name = attemptId
  | _ => False

/-- A frame that makes the agent put an attempt into the map. -/
def takesFrame (attemptId : Nat) (sent : Outgoing × LeaseHeader) : Prop :=
  sent.2.attemptId = attemptId ∧
    (sent.1 = .leaseOffer ∨ sent.1 = .reconcileDecision true)

def releasesFrame (attemptId : Nat) (sent : Outgoing × LeaseHeader) : Prop :=
  sent.2.attemptId = attemptId ∧ sent.1 = .reconcileDecision false

namespace AgentState

/-- The agent may still put an attempt into the map. -/
def Takes (agent : AgentState) (attemptId : Nat) : Prop :=
  (∃ task ∈ agent.tasks, task.takes attemptId) ∨
    ∃ sent ∈ agent.inbox, takesFrame attemptId sent

/-- The agent is on the way to clear an attempt. -/
def Releases (agent : AgentState) (attemptId : Nat) : Prop :=
  (∃ task ∈ agent.tasks, task.releases attemptId) ∨
    ∃ sent ∈ agent.inbox, releasesFrame attemptId sent

end AgentState

/-- A step of an agent takes no slot that was not to be taken, and goes on
with the release of the slots it keeps. -/
structure Keeps (before after : AgentState) : Prop where
  takes : ∀ name, after.Takes name → before.Takes name
  entries : ∀ name, name ∈ after.attempts →
    name ∈ before.attempts ∨ before.Takes name
  releases : ∀ name, name ∈ after.attempts → before.Releases name →
    after.Releases name ∨ before.Takes name

section Steps

variable {agent before middle after : AgentState} {index runtime : Nat}
  {header : LeaseHeader} {task next : Task}

theorem Keeps.refl : Keeps agent agent where
  takes _ there := there
  entries _ there := Or.inl there
  releases _ _ releases := Or.inl releases

theorem Keeps.trans (first : Keeps before middle)
    (second : Keeps middle after) : Keeps before after where
  takes name there := first.takes name (second.takes name there)
  entries name there := by
    rcases second.entries name there with kept | taken
    · exact first.entries name kept
    · exact Or.inr (first.takes name taken)
  releases name there releasing := by
    rcases second.entries name there with kept | taken
    · rcases first.releases name kept releasing with still | taken
      · rcases second.releases name there still with last | taken
        · exact Or.inl last
        · exact Or.inr (first.takes name taken)
      · exact Or.inr taken
    · exact Or.inr (first.takes name taken)

/-- Steps that leave the map and the frames for the agent. -/
theorem keeps_of_tasks (attempts : ∀ name, name ∈ after.attempts →
      name ∈ before.attempts)
    (inbox : after.inbox = before.inbox)
    (takes : ∀ name, ∀ task ∈ after.tasks, task.takes name →
      ∃ other ∈ before.tasks, other.takes name)
    (releases : ∀ name, name ∈ after.attempts →
      ∀ task ∈ before.tasks, task.releases name →
        ∃ other ∈ after.tasks, other.releases name) :
    Keeps before after where
  takes name := by
    rintro (⟨task, there, taking⟩ | frames)
    · exact Or.inl (takes name task there taking)
    · exact Or.inr (inbox ▸ frames)
  entries name there := Or.inl (attempts name there)
  releases name there := by
    rintro (⟨task, found, releasing⟩ | frames)
    · exact Or.inl (Or.inl (releases name there task found releasing))
    · exact Or.inl (Or.inr (inbox.symm ▸ frames))

theorem keeps_of_same (attempts : after.attempts = before.attempts)
    (inbox : after.inbox = before.inbox)
    (tasks : after.tasks = before.tasks) : Keeps before after := by
  apply keeps_of_tasks _ inbox
  · rw [tasks]
    exact fun name task there taking => ⟨task, there, taking⟩
  · rw [tasks]
    exact fun name _ task there releasing => ⟨task, there, releasing⟩
  · rw [attempts]
    exact fun name there => there

theorem keeps_modifyRuntime (change : AttemptRuntime → AttemptRuntime) :
    Keeps agent (agent.modifyRuntime runtime change) :=
  keeps_of_same rfl rfl rfl

theorem keeps_sendFrame (frame : AgentFrame) :
    Keeps agent (agent.sendFrame header frame) :=
  keeps_of_same rfl rfl rfl

theorem keeps_replace (found : agent.tasks[index]? = some task)
    (takes : ∀ name, next.takes name → task.takes name)
    (releases : ∀ name, task.releases name → next.releases name) :
    Keeps agent (agent.replace index next) := by
  have inside := (List.getElem?_eq_some_iff.mp found).1
  refine keeps_of_tasks (fun _ there => there) rfl ?_ ?_
  · intro name other there taking
    rcases List.mem_or_eq_of_mem_set there with kept | rfl
    · exact ⟨other, kept, taking⟩
    · exact ⟨task, List.mem_of_getElem? found, takes name taking⟩
  · intro name _ other there releasing
    rcases List.mem_iff_getElem?.mp there with ⟨place, stored⟩
    by_cases same : index = place
    · subst same
      cases found.symm.trans stored
      refine ⟨next, ?_, releases name releasing⟩
      exact List.mem_set inside next
    · refine ⟨other, ?_, releasing⟩
      apply List.mem_iff_getElem?.mpr
      exact ⟨place, (List.getElem?_set_ne same).trans stored⟩

theorem keeps_drop (found : agent.tasks[index]? = some task)
    (gone : ∀ name, task.releases name → name ∉ agent.attempts) :
    Keeps agent (agent.drop index) := by
  refine keeps_of_tasks (fun _ there => there) rfl ?_ ?_
  · intro name other there taking
    exact ⟨other, List.mem_of_mem_eraseIdx there, taking⟩
  · intro name held other there releasing
    rcases List.mem_iff_getElem?.mp there with ⟨place, stored⟩
    by_cases same : place = index
    · subst same
      cases found.symm.trans stored
      exact absurd held (gone name releasing)
    · refine ⟨other, ?_, releasing⟩
      exact List.mem_eraseIdx_iff_getElem?.mpr ⟨place, same, stored⟩

theorem keeps_spawn (idle : ∀ name, ¬ next.takes name) :
    Keeps agent (agent.spawn next) := by
  refine keeps_of_tasks (fun _ there => there) rfl ?_ ?_
  · intro name other there taking
    rcases List.mem_append.mp there with kept | last
    · exact ⟨other, kept, taking⟩
    · cases List.mem_singleton.mp last
      exact absurd taking (idle name)
  · intro name _ other there releasing
    exact ⟨other, List.mem_append_left _ there, releasing⟩

/-- The tasks change, but not what they take and release. -/
theorem keeps_map {change : Task → Task}
    (tasks : after.tasks = before.tasks.map change)
    (attempts : ∀ name, name ∈ after.attempts → name ∈ before.attempts)
    (inbox : after.inbox = before.inbox)
    (takes : ∀ task name, (change task).takes name → task.takes name)
    (releases : ∀ task name, task.releases name →
      (change task).releases name) : Keeps before after := by
  apply keeps_of_tasks attempts inbox
  · rw [tasks]
    intro name task there taking
    rcases List.mem_map.mp there with ⟨other, kept, rfl⟩
    exact ⟨other, kept, takes other name taking⟩
  · rw [tasks]
    intro name _ task there releasing
    exact ⟨_, List.mem_map_of_mem there, releases task name releasing⟩

variable {error : Option String}

theorem takes_settleBundle {name : Nat} :
    (task.settleBundle runtime error).takes name → task.takes name := by
  unfold Task.settleBundle
  split
  · exact id
  · exact id

theorem releases_settleBundle {name : Nat} :
    (task.settleBundle runtime error).releases name ↔ task.releases name := by
  unfold Task.settleBundle
  split
  · exact Iff.rfl
  · exact Iff.rfl

theorem takes_settleUpload {name : Nat} :
    (task.settleUpload runtime error).takes name → task.takes name := by
  unfold Task.settleUpload
  split
  · exact id
  · split
    · exact False.elim
    · exact False.elim
  · exact id

theorem releases_settleUpload {name : Nat} :
    (task.settleUpload runtime error).releases name ↔ task.releases name := by
  unfold Task.settleUpload
  split
  · apply and_congr Iff.rfl
    apply iff_of_true
    · split <;> nofun
    · nofun
  · exact Iff.rfl
  · exact Iff.rfl

theorem keeps_settleBundle (error : Option String) :
    Keeps agent (agent.settleBundle runtime error) :=
  keeps_map rfl (fun _ there => there) rfl (fun _ _ => takes_settleBundle)
    (fun _ _ => releases_settleBundle.mpr)

theorem keeps_settleUpload (error : Option String) :
    Keeps agent (agent.settleUpload runtime error) :=
  keeps_map rfl (fun _ there => there) rfl (fun _ _ => takes_settleUpload)
    (fun _ _ => releases_settleUpload.mpr)

theorem keeps_clearAttempt (attemptId : Nat) :
    Keeps agent (agent.clearAttempt attemptId) := by
  unfold AgentState.clearAttempt
  split
  · exact .refl
  · apply Keeps.trans (keeps_modifyRuntime _)
    apply Keeps.trans (keeps_settleUpload _)
    apply Keeps.trans (keeps_settleBundle _)
    refine keeps_of_tasks ?_ rfl (fun _ task there taking =>
      ⟨task, there, taking⟩) fun _ _ task there releasing =>
        ⟨task, there, releasing⟩
    intro name there
    exact (AList.mem_erase.mp there).2

theorem not_mem_clearAttempt (attemptId : Nat) :
    attemptId ∉ (agent.clearAttempt attemptId).attempts := by
  unfold AgentState.clearAttempt
  split
  next missing => exact AList.lookup_eq_none.mp missing
  next => exact fun there => (AList.mem_erase.mp there).1 rfl

/-- Clearing leaves a handler at its place, with what it releases. -/
theorem getElem?_clearAttempt (attemptId : Nat)
    (found : agent.tasks[index]? = some task) :
    ∃ settled, (agent.clearAttempt attemptId).tasks[index]? = some settled ∧
      ∀ name, settled.releases name ↔ task.releases name := by
  unfold AgentState.clearAttempt
  split
  · exact ⟨task, found, fun _ => Iff.rfl⟩
  next runtime _ =>
    refine ⟨(task.settleUpload runtime
      AgentState.clearedError).settleBundle runtime
        AgentState.clearedError, ?_, ?_⟩
    · show ((agent.tasks.map _).map _)[index]? = _
      rw [List.getElem?_map, List.getElem?_map, found]
      rfl
    · intro name
      exact releases_settleBundle.trans releases_settleUpload

/-- A handler clears its attempt and ends. -/
theorem keeps_clear {attemptId : Nat}
    (found : agent.tasks[index]? = some task)
    (only : ∀ name, task.releases name → name = attemptId) :
    Keeps agent ((agent.clearAttempt attemptId).drop index) := by
  rcases getElem?_clearAttempt attemptId found with
    ⟨settled, stored, releases⟩
  apply (keeps_clearAttempt attemptId).trans (keeps_drop stored _)
  intro name releasing
  rw [only name ((releases name).mp releasing)]
  exact not_mem_clearAttempt attemptId

/-- An attempt that was to be taken is put into the map. -/
theorem Keeps.take {name : Nat} (keeps : Keeps before middle)
    (taken : before.Takes name) (tasks : after.tasks = middle.tasks)
    (inbox : after.inbox = middle.inbox)
    (entries : ∀ other, other ∈ after.attempts →
      other = name ∨ other ∈ middle.attempts) : Keeps before after := by
  have alike : (∀ other, after.Takes other ↔ middle.Takes other) ∧
      ∀ other, after.Releases other ↔ middle.Releases other := by
    unfold AgentState.Takes AgentState.Releases
    rw [tasks, inbox]
    exact ⟨fun _ => Iff.rfl, fun _ => Iff.rfl⟩
  constructor
  · intro other there
    exact keeps.takes other ((alike.1 other).mp there)
  · intro other there
    rcases entries other there with rfl | kept
    · exact Or.inr taken
    · exact keeps.entries other kept
  · intro other there releasing
    rcases entries other there with rfl | kept
    · exact Or.inr taken
    · rcases keeps.releases other kept releasing with still | taken
      · exact Or.inl ((alike.2 other).mpr still)
      · exact Or.inr taken

end Steps

/-! ## What the handlers keep -/

section Handlers

variable {agent sent after : AgentState} {index runtime : Nat}
  {header : LeaseHeader} {task next : Task}

/-- A handler sends frames, changes its runtime and goes on. -/
theorem keeps_advance (found : agent.tasks[index]? = some task)
    (attempts : sent.attempts = agent.attempts)
    (inbox : sent.inbox = agent.inbox) (tasks : sent.tasks = agent.tasks)
    (takes : ∀ name, next.takes name → task.takes name)
    (releases : ∀ name, task.releases name → next.releases name) :
    Keeps agent (sent.replace index next) := by
  apply (keeps_of_same attempts inbox tasks).trans
  exact keeps_replace (tasks ▸ found) takes releases

/-- A handler that releases nothing ends. -/
theorem keeps_finish (found : agent.tasks[index]? = some task)
    (attempts : sent.attempts = agent.attempts)
    (inbox : sent.inbox = agent.inbox) (tasks : sent.tasks = agent.tasks)
    (idle : ∀ name, ¬ task.releases name) :
    Keeps agent (sent.drop index) := by
  apply (keeps_of_same attempts inbox tasks).trans
  exact keeps_drop (tasks ▸ found) fun name releasing =>
    absurd releasing (idle name)

section Prepare

variable {phase : PreparePhase}
  (found : agent.tasks[index]? = some (.prepare runtime header phase))

include found

theorem keeps_prepareNext (next : PreparePhase) :
    Keeps agent (agent.replace index (.prepare runtime header next)) :=
  keeps_replace found (fun _ => id) fun _ => id

theorem keeps_catchPrepare (thrown : PreparePhase) (error : String) :
    Keeps agent (agent.catchPrepare index runtime header thrown error) := by
  unfold AgentState.catchPrepare
  split
  · exact keeps_replace found (fun _ => id) fun _ => False.elim
  · dsimp only
    split
    all_goals
      exact keeps_advance found rfl rfl rfl (fun _ => id)
        fun _ => False.elim

theorem keeps_checkCancelled (next : PreparePhase) :
    Keeps agent (agent.checkCancelled index runtime header next) := by
  unfold AgentState.checkCancelled
  split
  · exact keeps_catchPrepare found _ _
  · exact keeps_prepareNext found next

theorem keeps_finishPrepare :
    Keeps agent (agent.finishPrepare index runtime header) := by
  unfold AgentState.finishPrepare
  split
  · exact keeps_advance found rfl rfl rfl (fun _ => id) fun _ => False.elim
  · exact keeps_finish found rfl rfl rfl fun _ => id

theorem keeps_waitForBundleDownload :
    Keeps agent (agent.waitForBundleDownload index runtime header) := by
  unfold AgentState.waitForBundleDownload
  dsimp only
  split
  all_goals
    exact keeps_advance found rfl rfl rfl (fun _ => id) fun _ => id

theorem keeps_escalate : Keeps agent (agent.escalate index header) :=
  keeps_finish found rfl rfl rfl fun _ => id

theorem keeps_resumePrepare {completion : Completion}
    (went : agent.resumePrepare index runtime header phase completion =
      some after) : Keeps agent after := by
  unfold AgentState.resumePrepare at went
  split at went <;> cases went
  · exact keeps_finish found rfl rfl rfl fun _ => id
  · exact keeps_catchPrepare found _ _
  · exact keeps_checkCancelled found _
  · exact keeps_checkCancelled found _
  · exact keeps_prepareNext found _
  · exact keeps_finishPrepare found
  · exact keeps_checkCancelled found _
  · exact keeps_prepareNext found _
  · exact keeps_waitForBundleDownload found
  · exact keeps_waitForBundleDownload found
  · exact keeps_prepareNext found _
  · exact keeps_checkCancelled found _
  · split
    · exact keeps_catchPrepare found _ _
    · exact keeps_escalate found
  · exact keeps_prepareNext found _
  · exact keeps_escalate found
  · exact keeps_prepareNext found _
  · exact keeps_checkCancelled found _
  · exact keeps_checkCancelled found _
  · exact keeps_finishPrepare found
  · exact keeps_catchPrepare found _ _

end Prepare

theorem keeps_onLeaseExpired (attemptId : Nat) :
    Keeps agent (agent.onLeaseExpired attemptId) := by
  unfold AgentState.onLeaseExpired
  split
  · exact .refl
  · split
    · exact .refl
    · split
      · exact .refl
      · dsimp only
        split
        · apply (keeps_modifyRuntime _).trans
          exact keeps_spawn fun _ => id
        · exact keeps_modifyRuntime _

theorem keeps_renewLeaseDeadline : Keeps agent agent.renewLeaseDeadline := by
  unfold AgentState.renewLeaseDeadline
  apply List.foldlRecOn _ _ (motive := fun after => Keeps agent after)
    Keeps.refl
  intro renewing keeps entry _
  exact keeps.trans (keeps_modifyRuntime _)

theorem requestArtifactUploadTokens_same {collection : Bool}
    {pending : Nat ⊕ String}
    (asked : agent.requestArtifactUploadTokens header collection =
      (sent, pending)) :
    sent.attempts = agent.attempts ∧ sent.inbox = agent.inbox ∧
      sent.tasks = agent.tasks := by
  unfold AgentState.requestArtifactUploadTokens at asked
  split at asked
  · cases asked
    exact ⟨rfl, rfl, rfl⟩
  · split at asked
    all_goals
      cases asked
      exact ⟨rfl, rfl, rfl⟩

section Run

variable {phase : RunPhase}
  (found : agent.tasks[index]? = some (.run runtime header phase))

include found

theorem keeps_refuseRun (category : ErrorCategory) (message : String) :
    Keeps agent (agent.refuseRun index header category message) :=
  keeps_advance found rfl rfl rfl (fun _ => id) fun _ => And.left

/-- A run goes on with a phase after the first. -/
theorem keeps_runNext {next : RunPhase}
    (attempts : sent.attempts = agent.attempts)
    (inbox : sent.inbox = agent.inbox) (tasks : sent.tasks = agent.tasks)
    (later : next ≠ .opening) :
    Keeps agent (sent.replace index (.run runtime header next)) :=
  keeps_advance found attempts inbox tasks (fun _ => id)
    fun _ releases => ⟨releases.1, later⟩

theorem keeps_superviseRun (pastDeadline : Bool) :
    Keeps agent (agent.superviseRun index runtime header pastDeadline) := by
  unfold AgentState.superviseRun
  dsimp only
  split
  · exact keeps_runNext found rfl rfl rfl nofun
  · split
    · split
      · exact keeps_runNext found rfl rfl rfl nofun
      · apply Keeps.trans _ (keeps_onLeaseExpired _)
        exact keeps_runNext found rfl rfl rfl nofun
    · exact keeps_runNext found rfl rfl rfl nofun

theorem keeps_endRun (result : RunResult) (spoolLimit : Option Nat) :
    Keeps agent
      (agent.endRun index runtime header result spoolLimit) := by
  unfold AgentState.endRun
  split
  all_goals
    exact keeps_runNext found rfl rfl rfl nofun

theorem keeps_resumeRun {completion : Completion}
    (went : agent.resumeRun index runtime header phase completion =
      some after) : Keeps agent after := by
  have cancels : Keeps agent
      ((agent.sendCancelledTerminal header
        "Job cancelled before spawn").replace index
          (.clearing header.attemptId)) :=
    keeps_advance found rfl rfl rfl (fun _ => id) fun _ => And.left
  unfold AgentState.resumeRun at went
  split at went
  · cases went
    exact keeps_finish found rfl rfl rfl fun _ releases => releases.2 rfl
  · cases went
    exact keeps_refuseRun found _ _
  · cases went
    split
    · exact cancels
    · exact keeps_refuseRun found _ _
  · cases went
    split
    · exact cancels
    · exact keeps_runNext found rfl rfl rfl nofun
  · cases went
    exact keeps_superviseRun found _
  · cases went
    exact keeps_runNext found rfl rfl rfl nofun
  · cases went
    exact keeps_endRun found _ _
  · split at went
    next asked =>
      cases went
      rcases requestArtifactUploadTokens_same asked with
        ⟨attempts, inbox, tasks⟩
      exact keeps_runNext found attempts inbox tasks nofun
    next asked =>
      cases went
      rcases requestArtifactUploadTokens_same asked with
        ⟨attempts, inbox, tasks⟩
      exact keeps_runNext found attempts inbox tasks nofun
  · cases went
    exact keeps_runNext found rfl rfl rfl nofun
  · cases went
    exact keeps_runNext found rfl rfl rfl nofun
  · cases went
    exact keeps_runNext found rfl rfl rfl nofun
  · cases went
    exact keeps_runNext found rfl rfl rfl nofun
  · cases went
    exact keeps_clear found fun _ releases => releases.1.symm
  · cases went
    exact keeps_runNext found rfl rfl rfl nofun
  · cases went
    exact keeps_runNext found rfl rfl rfl nofun
  · cases went
    exact keeps_runNext found rfl rfl rfl nofun
  · cases went

end Run

theorem keeps_resumeCancel {reason : Option String}
    (found : agent.tasks[index]? =
      some (.cancelling runtime header reason)) :
    Keeps agent (agent.resumeCancel index runtime header reason) := by
  unfold AgentState.resumeCancel
  split
  · exact keeps_finish found rfl rfl rfl fun _ => id
  · split
    · exact keeps_finish found rfl rfl rfl fun _ => id
    · have terminal : Keeps agent (agent.sendCancelledTerminal header
          (reason.getD "Job cancelled before process start")) :=
        keeps_of_same rfl rfl rfl
      apply terminal.trans
      exact keeps_clear found fun _ => False.elim

theorem keeps_resumeAdopt {metadata : AdoptedMetadata} {phase : AdoptPhase}
    {completion : Completion}
    (found : agent.tasks[index]? = some (.adopting metadata phase))
    (went : agent.resumeAdopt index metadata phase completion =
      some after) : Keeps agent after := by
  have dropped : Keeps agent (agent.drop index) :=
    keeps_finish found rfl rfl rfl fun _ => id
  unfold AgentState.resumeAdopt at went
  split at went
  · cases went
    exact dropped
  · split at went
    · cases went
      exact dropped
    · have resent : ∀ sent : AgentState,
          sent = (match metadata.lastExit with
            | none => agent
            | some exit => agent.sendFrame metadata.header (.jobExit exit)) →
          sent.attempts = agent.attempts ∧ sent.inbox = agent.inbox ∧
            sent.tasks = agent.tasks := by
        rintro _ rfl
        split
        · exact ⟨rfl, rfl, rfl⟩
        · exact ⟨rfl, rfl, rfl⟩
      rcases resent _ rfl with ⟨attempts, inbox, tasks⟩
      dsimp only at went
      split at went
      · cases went
        exact keeps_finish found attempts inbox tasks fun _ => id
      · cases went
        exact keeps_advance found attempts inbox tasks (fun _ => id)
          fun _ => False.elim
  · split at went
    · cases went
      exact dropped
    · have member := List.mem_of_getElem? found
      have taking : agent.Takes metadata.header.attemptId :=
        Or.inl ⟨_, member, rfl⟩
      have resumed : Keeps agent (agent.resumeRuntime metadata) ∧
          (agent.resumeRuntime metadata).tasks = agent.tasks := by
        unfold AgentState.resumeRuntime
        dsimp only
        split
        · exact ⟨keeps_modifyRuntime _, rfl⟩
        · refine ⟨Keeps.refl.take taking rfl rfl ?_, rfl⟩
          exact fun other there => (AList.mem_insert _).mp there
      rcases resumed with ⟨keeps, kept⟩
      split at went
      next asked =>
        cases went
        rcases requestArtifactUploadTokens_same asked with
          ⟨attempts, inbox, tasks⟩
        exact keeps.trans
          (keeps_advance (kept.symm ▸ found) attempts inbox tasks
            (fun _ => False.elim) fun _ => False.elim)
      next asked =>
        cases went
        rcases requestArtifactUploadTokens_same asked with
          ⟨attempts, inbox, tasks⟩
        exact keeps.trans
          (keeps_finish (kept.symm ▸ found) attempts inbox tasks
            fun _ => id)
  · cases went
    exact keeps_replace found (fun _ => False.elim) fun _ => False.elim
  · cases went
    exact dropped
  · cases went
    exact dropped
  · cases went

/-- A suspended handler that goes on. -/
theorem keeps_resume {completion : Completion}
    (went : agent.resume index completion = some after) :
    Keeps agent after := by
  unfold AgentState.resume at went
  split at went
  · cases went
  next found => exact keeps_resumePrepare found went
  next found => exact keeps_resumeRun found went
  next found =>
    cases went
    exact keeps_clear found fun _ => Eq.symm
  next found =>
    cases went
    exact keeps_resumeCancel found
  next found =>
    cases went
    exact keeps_clear found fun _ => Eq.symm
  next found => exact keeps_resumeAdopt found went
  next found =>
    cases went
    exact keeps_finish found rfl rfl rfl fun _ => id

theorem keeps_handlePrepareSource (mode : SourceMode) :
    Keeps agent (agent.handlePrepareSource header mode) := by
  unfold AgentState.handlePrepareSource
  split
  · exact .refl
  · exact (keeps_modifyRuntime _).trans (keeps_spawn fun _ => id)

theorem keeps_handleBundleDownload :
    Keeps agent (agent.handleBundleDownload header) := by
  unfold AgentState.handleBundleDownload
  split
  · exact .refl
  · split
    · exact keeps_settleBundle _
    · exact .refl

theorem keeps_handleRunJob : Keeps agent (agent.handleRunJob header) := by
  unfold AgentState.handleRunJob
  split
  · exact .refl
  · split
    · exact .refl
    · exact (keeps_modifyRuntime _).trans (keeps_spawn fun _ => id)

theorem keeps_handleArtifactUploadGrant :
    Keeps agent (agent.handleArtifactUploadGrant header) := by
  unfold AgentState.handleArtifactUploadGrant
  split
  · exact .refl
  · split
    · exact keeps_settleUpload _
    · exact .refl

theorem keeps_handleCancelJob (reason : Option String) :
    Keeps agent (agent.handleCancelJob header reason) := by
  unfold AgentState.handleCancelJob
  split
  · exact .refl
  · apply (keeps_modifyRuntime _).trans
    dsimp only
    split
    · exact keeps_spawn fun _ => id
    · split
      · exact .refl
      · split
        · exact (keeps_settleBundle _).trans (keeps_spawn fun _ => id)
        · exact keeps_spawn fun _ => id

/-- An attempt that is abandoned leaves the map, or is about to. -/
theorem keeps_forceAbandonAttempt (attemptId : Nat) :
    Keeps agent (agent.forceAbandonAttempt attemptId) ∧
      (attemptId ∈ (agent.forceAbandonAttempt attemptId).attempts →
        (agent.forceAbandonAttempt attemptId).Releases attemptId) := by
  unfold AgentState.forceAbandonAttempt
  split
  next missing =>
    refine ⟨.refl, ?_⟩
    exact fun there => absurd there (AList.lookup_eq_none.mp missing)
  · dsimp only
    split
    · constructor
      · exact (keeps_modifyRuntime _).trans (keeps_spawn fun _ => id)
      · intro _
        exact Or.inl ⟨_, List.mem_append_right _ (.head _), rfl⟩
    · constructor
      · exact (keeps_modifyRuntime _).trans (keeps_clearAttempt attemptId)
      · exact fun there => absurd there (not_mem_clearAttempt attemptId)

theorem keeps_terminateAttempt (attemptId : Nat) :
    Keeps agent (agent.terminateAttempt attemptId) := by
  have rejected : Keeps agent
      { agent with
        rejectedAttempts := attemptId :: agent.rejectedAttempts } :=
    keeps_of_same rfl rfl rfl
  exact rejected.trans (keeps_forceAbandonAttempt attemptId).1

section Receive

variable {frame : Outgoing} {rest : List (Outgoing × LeaseHeader)}
  (waiting : agent.inbox = (frame, header) :: rest)

include waiting

theorem takes_taken {name : Nat}
    (takes : { agent with inbox := rest }.Takes name) : agent.Takes name := by
  rcases takes with tasks | ⟨sent, there, taking⟩
  · exact Or.inl tasks
  · exact Or.inr ⟨sent, waiting ▸ .tail _ there, taking⟩

theorem releases_taken {name : Nat} (releases : agent.Releases name) :
    releasesFrame name (frame, header) ∨
      { agent with inbox := rest }.Releases name := by
  rcases releases with tasks | ⟨sent, there, releasing⟩
  · exact Or.inr (Or.inl tasks)
  · rw [waiting] at there
    rcases List.mem_cons.mp there with rfl | later
    · exact Or.inl releasing
    · exact Or.inr (Or.inr ⟨sent, later, releasing⟩)

/-- A frame is taken that releases nothing. -/
theorem keeps_taken (silent : frame ≠ .reconcileDecision false) :
    Keeps agent { agent with inbox := rest } where
  takes _ := takes_taken waiting
  entries _ := Or.inl
  releases name _ releasing := by
    rcases releases_taken waiting releasing with head | still
    · exact absurd head.2 silent
    · exact Or.inl still

theorem keeps_handleLeaseOffer (offers : frame = .leaseOffer)
    (input : Reception) :
    Keeps agent
      ({ agent with inbox := rest }.handleLeaseOffer header input) := by
  have taken : Keeps agent { agent with inbox := rest } :=
    keeps_taken waiting (by rw [offers]; nofun)
  have taking : agent.Takes header.attemptId := by
    refine Or.inr ⟨(frame, header), ?_, rfl, Or.inl offers⟩
    rw [waiting]
    exact List.mem_cons_self
  unfold AgentState.handleLeaseOffer
  split
  · exact taken
  · split
    · exact taken.trans (keeps_sendFrame _)
    · split
      · exact taken.trans (keeps_sendFrame _)
      · apply Keeps.trans _ (keeps_sendFrame _)
        refine taken.take taking rfl rfl ?_
        exact fun other there => (AList.mem_insert _).mp there

theorem keeps_handleReconcileDecision {adopt : Bool}
    (decides : frame = .reconcileDecision adopt)
    (metadata : Option AdoptedMetadata) :
    Keeps agent
      ({ agent with inbox := rest }.handleReconcileDecision header adopt
        metadata) := by
  have member : (frame, header) ∈ agent.inbox := by
    rw [waiting]
    exact List.mem_cons_self
  unfold AgentState.handleReconcileDecision
  cases adopt with
  | false =>
    have keeps : Keeps { agent with inbox := rest }
        ({ agent with inbox := rest }.terminateAttempt
          header.attemptId) := keeps_terminateAttempt _
    constructor
    · exact fun name takes => takes_taken waiting (keeps.takes name takes)
    · intro name there
      rcases keeps.entries name there with kept | takes
      · exact Or.inl kept
      · exact Or.inr (takes_taken waiting takes)
    · intro name there releasing
      rcases releases_taken waiting releasing with ⟨same, _⟩ | still
      · subst same
        exact Or.inl ((keeps_forceAbandonAttempt _).2 there)
      · rcases keeps.releases name there still with later | takes
        · exact Or.inl later
        · exact Or.inr (takes_taken waiting takes)
  | true =>
    have taken : Keeps agent { agent with inbox := rest } :=
      keeps_taken waiting (by rw [decides]; nofun)
    rw [if_neg (by decide)]
    split
    · exact taken
    next found kept =>
      rcases Option.filter_eq_some_iff.mp kept with ⟨_, named⟩
      have taking : agent.Takes header.attemptId :=
        Or.inr ⟨(frame, header), member, rfl, Or.inr decides⟩
      constructor
      · rintro name (⟨task, there, takes⟩ | frames)
        · rcases List.mem_append.mp there with before | last
          · exact taken.takes name (Or.inl ⟨task, before, takes⟩)
          · cases List.mem_singleton.mp last
            have same : found.header.attemptId = name := takes
            rw [← same, of_decide_eq_true named]
            exact taking
        · exact taken.takes name (Or.inr frames)
      · exact taken.entries
      · intro name there releasing
        rcases taken.releases name there releasing with still | takes
        · left
          rcases still with ⟨task, kept, releases⟩ | frames
          · exact Or.inl
              ⟨task, List.mem_append_left _ kept, releases⟩
          · exact Or.inr frames
        · exact Or.inr takes

/-- The handler of the next frame. -/
theorem keeps_receive (input : Reception) :
    Keeps agent
      ({ agent with inbox := rest }.receive header frame input) := by
  cases frame with
  | leaseOffer => exact keeps_handleLeaseOffer waiting rfl input
  | prepareSource =>
    exact (keeps_taken waiting nofun).trans (keeps_handlePrepareSource _)
  | bundleDownload =>
    exact (keeps_taken waiting nofun).trans keeps_handleBundleDownload
  | runJob => exact (keeps_taken waiting nofun).trans keeps_handleRunJob
  | cancelJob =>
    exact (keeps_taken waiting nofun).trans (keeps_handleCancelJob _)
  | logAck sequence => exact keeps_taken waiting nofun
  | artifactUploadGrant =>
    exact (keeps_taken waiting nofun).trans keeps_handleArtifactUploadGrant
  | reconcileDecision adopt =>
    exact keeps_handleReconcileDecision waiting rfl _

end Receive

/-- Every step of an agent. -/
theorem keeps_act {event : AgentEvent} (went : agent.act event = some after) :
    Keeps agent after := by
  cases event with
  | receive input =>
    simp only [AgentState.act] at went
    split at went
    · cases went
    next waiting =>
      cases went
      exact keeps_receive waiting input
  | resume index completion => exact keeps_resume went
  | leaseTimer attemptId =>
    simp only [AgentState.act] at went
    split at went
    · cases went
    · split at went
      · cases went
        exact (keeps_modifyRuntime _).trans (keeps_onLeaseExpired _)
      · cases went
  | bundleTimer runtime =>
    simp only [AgentState.act] at went
    split at went
    · cases went
      exact keeps_settleBundle _
    · cases went
  | uploadTimer attemptId =>
    simp only [AgentState.act] at went
    split at went
    · cases went
    · split at went
      · cases went
        exact keeps_settleUpload _
      · cases went
  | renewLeases =>
    cases went
    exact keeps_renewLeaseDeadline
  | sendLog index sequence =>
    simp only [AgentState.act] at went
    split at went
    · split at went
      · cases went
      · cases went
        exact keeps_sendFrame _
    · cases went
  | report report =>
    cases went
    exact keeps_of_same rfl rfl rfl
  | discardLeftover attemptId =>
    cases went
    exact keeps_terminateAttempt attemptId
  | restart =>
    cases went
    refine keeps_of_tasks ?_ rfl ?_ ?_
    · exact fun name there => absurd there (AList.notMem_empty name)
    · exact fun _ _ there => absurd there List.not_mem_nil
    · exact fun name there => absurd there (AList.notMem_empty name)

end Handlers

end Rbo.Agent.Executor
