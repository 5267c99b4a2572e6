import Mathlib.Data.List.AList
import Rbo.Controller.Lifecycle

/-!
# The adoption of an attempt by its agent

On `reconcile_decision` the agent reads the attempt's metadata.  A decision to
adopt replays the spool and, when the process had exited, sends `job_exit`
again and resumes the upload from the staged artifacts.  Here is what this
path itself does; its awaits bring the contents of the staged files, the
upload grant and the outcomes of the uploads.
-/

namespace Rbo.Agent.Adoption

open Rbo.Controller.Lifecycle (ErrorCategory JobOutcome)

/-! ## Metadata, runtimes and frames -/

inductive MetadataStatus where
  | accepted
  | running
  | completedAwaitingUpload
  | orphaned
  | terminal
  deriving DecidableEq

inductive RiskLevel where
  | safe
  | normal
  | destructive
  | hardware
  deriving DecidableEq

/-- `AttemptExitRecord`. -/
structure ExitRecord where
  exitCode : Option Int
  outcome : JobOutcome
  failureCategory : Option ErrorCategory
  failureMessage : Option String
  deriving DecidableEq

/-- `AttemptArtifactManifestItem`. -/
structure ManifestItem where
  logicalName : String
  path : String
  sizeBytes : Nat
  sha256 : String
  deriving DecidableEq

structure AttemptMetadata where
  attemptId : Nat
  jobId : Nat
  leaseId : Nat
  leaseEpoch : Nat
  processIdentity : Option String
  status : MetadataStatus
  riskLevel : RiskLevel
  lastExit : Option ExitRecord
  leaseDeadline : Option Nat
  artifactManifest : Option (List ManifestItem)
  deriving DecidableEq

/-- The parts of an `AttemptRuntime` that the adoption sets. -/
structure AttemptRuntime where
  jobId : Nat
  leaseRisk : RiskLevel
  leaseDeadlineMs : Option Nat
  pendingArtifactUpload : Bool
  deriving DecidableEq

inductive Frame where
  | logChunk (sequence : Nat)
  | jobExit (exit : ExitRecord)
  | artifactManifest (artifacts : List ManifestItem)
  | cleanupComplete (exitCode : Option Int) (timedOut : Bool)
      (message : Option String)
  deriving DecidableEq

/-- A frame under the fence of its attempt. -/
structure Sent where
  attemptId : Nat
  leaseId : Nat
  leaseEpoch : Nat
  frame : Frame
  deriving DecidableEq

/-- The executor and the recovery coordinator of an agent, the frames it has
sent and the artifacts it has uploaded. -/
structure AgentState where
  executor : Bool
  socketOpen : Bool
  metadata : AList fun _ : Nat => AttemptMetadata
  attempts : AList fun _ : Nat => AttemptRuntime
  liveSenders : List Nat
  rejectedAttempts : List Nat
  sent : List Sent
  uploaded : List ManifestItem

inductive Action where
  | adopt
  | terminateStale
  deriving DecidableEq

structure ReconcileDecision where
  attemptId : Nat
  leaseId : Nat
  leaseEpoch : Nat
  action : Action
  resumeFromSequence : Option Nat
  deriving DecidableEq

/-- A staged file as `readFile` returns it. -/
structure StagedFile where
  sha256 : String
  sizeBytes : Nat
  deriving DecidableEq

/-- An artifact with its upload address and token. -/
structure UploadItem where
  artifact : ManifestItem
  uploadUrl : String
  uploadToken : String
  deriving DecidableEq

/-- What the awaits of one adoption bring.  Without a grant the request for
upload tokens times out. -/
structure World where
  replayed : List Nat
  replayFails : Bool
  readFile : String → Option StagedFile
  grant : Option (List UploadItem)
  uploads : UploadItem → Bool

inductive Settlement where
  | resolved
  | rejected
  deriving DecidableEq

/-! ## The handlers -/

namespace AgentState

variable (agent : AgentState)

/-- `sendFrame` and `sendJobScoped`. -/
def sendFrame (metadata : AttemptMetadata) (frame : Frame) : AgentState :=
  if agent.socketOpen then
    { agent with
      sent :=
        agent.sent ++
          [{ attemptId := metadata.attemptId
             leaseId := metadata.leaseId
             leaseEpoch := metadata.leaseEpoch
             frame := frame }] }
  else agent

def clearAttempt (attemptId : Nat) : AgentState :=
  if attemptId ∈ agent.attempts then
    { agent with
      attempts := agent.attempts.erase attemptId
      liveSenders := agent.liveSenders.filter fun name => name ≠ attemptId }
  else agent

/-- `resendJobExitIfCompleted`. -/
def resendJobExitIfCompleted (metadata : AttemptMetadata) : AgentState :=
  match metadata.lastExit with
  | none => agent
  | some exit => agent.sendFrame metadata (.jobExit exit)

/-- A staged file with the hash and the size of its manifest item. -/
def intact (world : World) (item : ManifestItem) : Bool :=
  match world.readFile item.path with
  | none => false
  | some file =>
    file.sha256 = item.sha256 ∧ file.sizeBytes = item.sizeBytes

/-- The runtime state under which the upload is resumed. -/
def resumeRuntime (metadata : AttemptMetadata) : AttemptRuntime :=
  let current : AttemptRuntime :=
    (agent.attempts.lookup metadata.attemptId).getD
      { jobId := metadata.jobId
        leaseRisk := .normal
        leaseDeadlineMs := none
        pendingArtifactUpload := false }
  { current with
    jobId := metadata.jobId
    leaseRisk := metadata.riskLevel
    leaseDeadlineMs := metadata.leaseDeadline.or current.leaseDeadlineMs }

/-- `requestArtifactUploadTokens`, up to its grant or its timeout. -/
def requestArtifactUploadTokens (metadata : AttemptMetadata)
    (artifacts : List ManifestItem) (world : World) :
    AgentState × Option (List UploadItem) :=
  match agent.attempts.lookup metadata.attemptId with
  | none => (agent, none)
  | some runtime =>
    if runtime.pendingArtifactUpload then (agent, none)
    else
      (agent.sendFrame metadata (.artifactManifest artifacts), world.grant)

/-- `resumeArtifactUpload`.  An upload that fails is logged. -/
def resumeArtifactUpload (metadata : AttemptMetadata) (world : World) :
    AgentState × Settlement :=
  match metadata.artifactManifest with
  | none => (agent, .resolved)
  | some items =>
    let verified := items.filter (intact world)
    if verified = [] ∧ items ≠ [] then (agent, .resolved)
    else
      let resumed :=
        { agent with
          attempts :=
            agent.attempts.insert metadata.attemptId
              (agent.resumeRuntime metadata) }
      match resumed.requestArtifactUploadTokens metadata verified world with
      | (requested, none) => (requested, .rejected)
      | (requested, some artifacts) =>
        ({ requested with
            uploaded :=
              requested.uploaded ++
                (artifacts.filter world.uploads).map
                  UploadItem.artifact }, .resolved)

/-- The replay by the live sender, or by one that is opened on the disk. -/
def replay (metadata : AttemptMetadata) (world : World) : AgentState :=
  let sends (agent : AgentState) :=
    world.replayed.foldl
      (fun sending sequence =>
        sending.sendFrame metadata (.logChunk sequence)) agent
  if metadata.attemptId ∈ agent.liveSenders then sends agent
  else if agent.socketOpen then
    sends
      { agent with liveSenders := metadata.attemptId :: agent.liveSenders }
  else agent

def writeAttemptMetadata (metadata : AttemptMetadata) : AgentState :=
  { agent with
    metadata := agent.metadata.insert metadata.attemptId metadata }

/-- `handleReconcileDecision` on `terminate_stale`. -/
def terminateStale (attemptId : Nat) : AgentState :=
  let rejected :=
    { agent with rejectedAttempts := attemptId :: agent.rejectedAttempts }
  let terminated :=
    if agent.executor then rejected.clearAttempt attemptId else rejected
  { terminated with metadata := terminated.metadata.erase attemptId }

/-- `handleReconcileDecision` on `adopt`. -/
def adopt (decision : ReconcileDecision) (metadata : AttemptMetadata)
    (world : World) : AgentState × Settlement :=
  let marked :=
    agent.writeAttemptMetadata
      { metadata with
        status :=
          if metadata.status = .completedAwaitingUpload then
            .completedAwaitingUpload
          else if decision.resumeFromSequence ≠ none then .running
          else metadata.status }
  let replayed := marked.replay metadata world
  if world.replayFails then (replayed, .rejected)
  else if metadata.status ≠ .completedAwaitingUpload ∨ ¬ agent.executor then
    (replayed, .resolved)
  else
    (replayed.resendJobExitIfCompleted metadata).resumeArtifactUpload
      metadata world

def handleReconcileDecision (decision : ReconcileDecision)
    (world : World) : AgentState × Settlement :=
  match decision.action with
  | .terminateStale => (agent.terminateStale decision.attemptId, .resolved)
  | .adopt =>
    match agent.metadata.lookup decision.attemptId with
    | none => (agent, .resolved)
    | some metadata => agent.adopt decision metadata world

end AgentState

/-! ## What an adoption sends and keeps -/

/-- A frame that completes the attempt on the Controller. -/
def Frame.completes : Frame → Prop
  | .cleanupComplete _ _ _ => True
  | _ => False

def Frame.exits : Frame → Prop
  | .jobExit _ => True
  | _ => False

/-- An adoption finishes its attempt: it sends `job_exit` and then
`cleanup_complete` for it, and takes it out of the attempts map. -/
def Finishes (before after : AgentState) (attemptId : Nat) : Prop :=
  (∃ fresh exit cleanup, after.sent = before.sent ++ fresh ∧
    [exit, cleanup].Sublist fresh ∧
    exit.attemptId = attemptId ∧ exit.frame.exits ∧
    cleanup.attemptId = attemptId ∧ cleanup.frame.completes) ∧
  ∀ name, name ∈ after.attempts ↔ name ∈ before.attempts ∧ name ≠ attemptId

/-- Frames are added that complete nothing. -/
def Adds (before after : AgentState) : Prop :=
  ∃ fresh, after.sent = before.sent ++ fresh ∧
    ∀ sent ∈ fresh, ¬ sent.frame.completes

section Frames

variable {agent before middle after : AgentState}
  {metadata : AttemptMetadata}

theorem Adds.of_same (same : after.sent = before.sent) :
    Adds before after :=
  ⟨[], by rw [same, List.append_nil], List.forall_mem_nil _⟩

theorem Adds.trans (first : Adds before middle)
    (second : Adds middle after) : Adds before after := by
  rcases first with ⟨early, sent, quiet⟩
  rcases second with ⟨late, later, still⟩
  refine ⟨early ++ late, ?_, ?_⟩
  · rw [later, sent, List.append_assoc]
  · intro frame member
    rcases List.mem_append.mp member with there | there
    · exact quiet frame there
    · exact still frame there

theorem adds_sendFrame {frame : Frame} (quiet : ¬ frame.completes) :
    Adds agent (agent.sendFrame metadata frame) := by
  unfold AgentState.sendFrame
  split
  · refine ⟨_, rfl, ?_⟩
    intro sent member
    rw [List.mem_singleton.mp member]
    exact quiet
  · exact .of_same rfl

theorem attempts_sendFrame {frame : Frame} :
    (agent.sendFrame metadata frame).attempts = agent.attempts := by
  unfold AgentState.sendFrame
  split <;> rfl

theorem replay_facts (world : World) :
    Adds agent (agent.replay metadata world) ∧
      (agent.replay metadata world).attempts = agent.attempts := by
  have sends : ∀ start : AgentState, start.sent = agent.sent →
      start.attempts = agent.attempts →
      let after := world.replayed.foldl (fun sending sequence =>
        sending.sendFrame metadata (.logChunk sequence)) start
      Adds agent after ∧ after.attempts = agent.attempts := by
    intro start sent attempts
    apply List.foldlRecOn world.replayed _
      (motive := fun sending : AgentState =>
        Adds agent sending ∧ sending.attempts = agent.attempts)
      ⟨.of_same sent, attempts⟩
    rintro sending ⟨adds, same⟩ sequence _
    exact ⟨adds.trans (adds_sendFrame id), attempts_sendFrame.trans same⟩
  unfold AgentState.replay
  dsimp only
  split
  · exact sends agent rfl rfl
  · split
    · exact sends _ rfl rfl
    · exact ⟨.of_same rfl, rfl⟩

theorem resendJobExit_facts :
    Adds agent (agent.resendJobExitIfCompleted metadata) ∧
      (agent.resendJobExitIfCompleted metadata).attempts =
        agent.attempts := by
  unfold AgentState.resendJobExitIfCompleted
  split
  · exact ⟨.of_same rfl, rfl⟩
  · exact ⟨adds_sendFrame id, attempts_sendFrame⟩

theorem requestArtifactUploadTokens_facts (artifacts : List ManifestItem)
    (world : World) :
    let requested :=
      (agent.requestArtifactUploadTokens metadata artifacts world).1
    Adds agent requested ∧ requested.attempts = agent.attempts := by
  unfold AgentState.requestArtifactUploadTokens
  split
  · exact ⟨.of_same rfl, rfl⟩
  · split
    · exact ⟨.of_same rfl, rfl⟩
    · exact ⟨adds_sendFrame id, attempts_sendFrame⟩

/-- A resumed upload enters its attempt into the map, or leaves the map. -/
theorem resumeArtifactUpload_facts (world : World) :
    let resumed := (agent.resumeArtifactUpload metadata world).1
    Adds agent resumed ∧
      (resumed.attempts = agent.attempts ∨
        resumed.attempts =
          agent.attempts.insert metadata.attemptId
            (agent.resumeRuntime metadata)) := by
  unfold AgentState.resumeArtifactUpload
  split
  · exact ⟨.of_same rfl, Or.inl rfl⟩
  next items _ =>
    dsimp only
    split
    · exact ⟨.of_same rfl, Or.inl rfl⟩
    · have facts := @requestArtifactUploadTokens_facts
        { agent with
          attempts := agent.attempts.insert metadata.attemptId
            (agent.resumeRuntime metadata) }
        metadata (items.filter (AgentState.intact world)) world
      split
      next requested equal =>
        rw [equal] at facts
        exact ⟨facts.1, Or.inr facts.2⟩
      next requested artifacts equal =>
        rw [equal] at facts
        exact ⟨facts.1, Or.inr facts.2⟩

/-- The metadata that an adoption writes back. -/
theorem adds_marked (status : MetadataStatus) :
    Adds agent (agent.writeAttemptMetadata { metadata with status }) :=
  .of_same rfl

/-- An adoption completes nothing, and the attempts that were there stay. -/
theorem adopt_facts (decision : ReconcileDecision) (world : World) :
    Adds agent (agent.adopt decision metadata world).1 ∧
      ∀ name ∈ agent.attempts,
        name ∈ (agent.adopt decision metadata world).1.attempts := by
  unfold AgentState.adopt
  generalize equal : agent.writeAttemptMetadata _ = marked
  have writes : Adds agent marked := by
    rw [← equal]
    exact adds_marked _
  have attempts : marked.attempts = agent.attempts := by
    rw [← equal]
    rfl
  rcases @replay_facts marked metadata world with ⟨replays, replayed⟩
  have keeps : (marked.replay metadata world).attempts = agent.attempts :=
    replayed.trans attempts
  dsimp only
  split
  · exact ⟨writes.trans replays, fun name there => keeps ▸ there⟩
  · split
    · exact ⟨writes.trans replays, fun name there => keeps ▸ there⟩
    · rcases @resendJobExit_facts (marked.replay metadata world) metadata with
        ⟨resends, resent⟩
      rcases @resumeArtifactUpload_facts
          ((marked.replay metadata world).resendJobExitIfCompleted metadata)
          metadata world with ⟨resumes, resumed⟩
      refine ⟨((writes.trans replays).trans resends).trans resumes, ?_⟩
      intro name there
      rw [← keeps, ← resent] at there
      rcases resumed with same | entered
      · exact same ▸ there
      · rw [entered]
        exact AList.mem_insert _ |>.mpr (Or.inr there)

theorem terminateStale_adds (attemptId : Nat) :
    Adds agent (agent.terminateStale attemptId) := by
  apply Adds.of_same
  unfold AgentState.terminateStale AgentState.clearAttempt
  dsimp only
  split
  · split <;> rfl
  · rfl

theorem handleReconcileDecision_adds (decision : ReconcileDecision)
    (world : World) :
    Adds agent (agent.handleReconcileDecision decision world).1 := by
  unfold AgentState.handleReconcileDecision
  split
  · exact terminateStale_adds decision.attemptId
  · split
    · exact .of_same rfl
    next metadata _ => exact (adopt_facts decision world).1

/-- After frames that complete nothing no attempt is finished. -/
theorem Adds.not_finishes (adds : Adds before after) (attemptId : Nat) :
    ¬ Finishes before after attemptId := by
  rcases adds with ⟨added, sent, quiet⟩
  rintro ⟨⟨fresh, exit, cleanup, finished, ordered, _, _, _, completes⟩, _⟩
  have same : fresh = added :=
    List.append_cancel_left (finished.symm.trans sent)
  have member : cleanup ∈ added := by
    rw [← same]
    exact ordered.subset (by simp)
  exact quiet cleanup member completes

end Frames

/-! ## An adoption does not finish its attempt -/

/-- No adoption finishes its attempt: nothing on its path sends
`cleanup_complete`, whatever was verified, granted and uploaded. -/
theorem adoption_never_finishes (agent : AgentState)
    (decision : ReconcileDecision) (world : World) :
    ¬ Finishes agent (agent.handleReconcileDecision decision world).1
      decision.attemptId :=
  (handleReconcileDecision_adds decision world).not_finishes
    decision.attemptId

/-- The report of one build, staged and intact. -/
def stagedReport : ManifestItem where
  logicalName := "report.txt"
  path := "artifacts/1/report.txt"
  sizeBytes := 4
  sha256 := "aa"

def finishedMetadata : AttemptMetadata where
  attemptId := 1
  jobId := 1
  leaseId := 1
  leaseEpoch := 1
  processIdentity := some "pid:42"
  status := .completedAwaitingUpload
  riskLevel := .normal
  lastExit :=
    some
      { exitCode := some 0
        outcome := .succeeded
        failureCategory := none
        failureMessage := none }
  leaseDeadline := none
  artifactManifest := some [stagedReport]

/-- An agent that was restarted after its process had exited. -/
def restartedAgent : AgentState where
  executor := true
  socketOpen := true
  metadata := AList.insert 1 finishedMetadata ∅
  attempts := ∅
  liveSenders := []
  rejectedAttempts := []
  sent := []
  uploaded := []

def adoptDecision : ReconcileDecision where
  attemptId := 1
  leaseId := 1
  leaseEpoch := 1
  action := .adopt
  resumeFromSequence := some 0

/-- The report is read back, granted and uploaded. -/
def uploadingWorld : World where
  replayed := []
  replayFails := false
  readFile := fun _ => some { sha256 := "aa", sizeBytes := 4 }
  grant :=
    some
      [{ artifact := stagedReport
         uploadUrl := "/artifacts"
         uploadToken := "token" }]
  uploads := fun _ => true

/-- With every artifact uploaded the adoption ends without
`cleanup_complete`, and the attempt holds a slot it did not hold before. -/
theorem uploaded_adoption_unfinished :
    let after := restartedAgent.handleReconcileDecision adoptDecision
      uploadingWorld
    after.2 = .resolved ∧
      after.1.sent.map Sent.frame =
        [.jobExit
          { exitCode := some 0
            outcome := .succeeded
            failureCategory := none
            failureMessage := none },
          .artifactManifest [stagedReport]] ∧
      after.1.uploaded = [stagedReport] ∧
      1 ∉ restartedAgent.attempts ∧ 1 ∈ after.1.attempts ∧
      ¬ Finishes restartedAgent after.1 1 := by
  refine ⟨by decide +kernel, by decide +kernel, by decide +kernel,
    by decide +kernel, by decide +kernel, ?_⟩
  exact (handleReconcileDecision_adds adoptDecision uploadingWorld).not_finishes 1

end Rbo.Agent.Adoption
