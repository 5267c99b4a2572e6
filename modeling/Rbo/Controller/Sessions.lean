import Mathlib.Data.List.AList
import Rbo.Controller.RecoveryReports
import Rbo.Controller.RoutineEffects

/-!
# The sessions of agents and their recovery scans

After an authentication both sides look for what an earlier session left: the
Controller fails the attempts of an agent whose `boot_id` has changed, and the
agent drops the attempts whose metadata name no process.  Meanwhile leases are
offered on the new session.  The Controller is composed here with its agents
over one ordered channel for each direction of a session.
-/

namespace Rbo.Controller.Sessions

open Rbo.Foundation
open Rbo.Controller.Lifecycle
open Rbo.Controller.Execution

/-! ## Agents, channels and sessions -/

/-- The agent and the session on which a lease was offered. -/
structure Offer where
  agentId : Nat
  session : Nat
  deriving DecidableEq

/-- The frames to an agent that matter here. -/
inductive Downward where
  | helloAck
  | leaseOffer (attemptId : Nat)
  deriving DecidableEq

/-- What `reportAll` reads of the metadata of an attempt. -/
structure Metadata where
  identified : Bool
  terminal : Bool
  deriving DecidableEq

/-- Metadata without a process identity, that is not terminal. -/
def Metadata.unfenced (metadata : Metadata) : Bool :=
  !metadata.identified && !metadata.terminal

/-- One `reportAll`: it lists the directory, reads the metadata it found, and
reports them one after the other. -/
inductive Scan where
  | listing
  | listed (names : List Nat)
  | reporting (rest : List (Nat × Metadata))
  deriving DecidableEq

/-- The process of an agent, and the metadata on its disk. -/
structure AgentProcess where
  bootId : Option Nat
  maxJobs : Nat
  attempts : List Nat
  rejectedAttempts : List Nat
  metadata : AList fun _ : Nat => Metadata
  scans : List Scan

/-- The Controller and its agents.  `session` counts the sessions of an agent,
and `offers` records where a lease was offered. -/
structure Plane where
  controller : ControllerState
  lastBootId : Nat → Option Nat
  session : Nat → Nat
  offers : Nat → Option Offer
  toAgent : Nat → List Downward
  toController : Nat → List (Option Nat)
  agents : Nat → AgentProcess

inductive PlaneEvent where
  | authenticate (agentId : Nat)
  | controller (event : Event)
  | capabilities (agentId : Nat)
  | receive (agentId : Nat) (underPressure : Bool)
  | readdir (agentId index : Nat)
  | readMetadata (agentId index : Nat)
  | report (agentId index : Nat)
  | spawned (agentId attemptId : Nat)
  | ended (agentId attemptId : Nat)
  | refreshCapabilities (agentId : Nat)
  | drop (agentId : Nat)
  | restartAgent (agentId : Nat) (bootId : Option Nat)
  deriving DecidableEq

/-! ## The agent -/

namespace AgentProcess

variable (agent : AgentProcess)

/-- `handleLeaseOffer`. -/
def handleLeaseOffer (attemptId : Nat) (underPressure : Bool) :
    AgentProcess :=
  if attemptId ∈ agent.rejectedAttempts ∨
      agent.maxJobs ≤ agent.attempts.length ∨ underPressure then agent
  else
    { agent with
      attempts := agent.attempts.insert attemptId
      metadata :=
        agent.metadata.insert attemptId
          { identified := false, terminal := false } }

def modifyScan (index : Nat) (scan : Scan) : AgentProcess :=
  { agent with scans := agent.scans.set index scan }

/-- The metadata that a scan reads for the names it found. -/
def listAttemptMetadata (names : List Nat) : List (Nat × Metadata) :=
  names.filterMap fun name =>
    (agent.metadata.lookup name).map fun metadata => (name, metadata)

/-- `discardUnfencedLeftover`. -/
def discardUnfencedLeftover (attemptId : Nat) : AgentProcess :=
  { agent with
    rejectedAttempts := attemptId :: agent.rejectedAttempts
    attempts := agent.attempts.filter fun name => name ≠ attemptId
    metadata := agent.metadata.erase attemptId }

/-- `emitRecoveryReport` of one attempt; a terminal one is skipped. -/
def emitRecoveryReport (attemptId : Nat) (metadata : Metadata) :
    AgentProcess :=
  if metadata.unfenced then agent.discardUnfencedLeftover attemptId
  else agent

/-- The process of an attempt is spawned, and its identity persisted. -/
def spawned (attemptId : Nat) : AgentProcess :=
  { agent with
    metadata :=
      agent.metadata.insert attemptId
        { identified := true, terminal := false } }

def ended (attemptId : Nat) : AgentProcess :=
  { agent with
    attempts := agent.attempts.filter fun name => name ≠ attemptId
    metadata := agent.metadata.erase attemptId }

/-- The process starts again; its disk is as it was. -/
def restarted (bootId : Option Nat) : AgentProcess :=
  { agent with
    bootId := bootId
    attempts := []
    rejectedAttempts := []
    scans := [] }

end AgentProcess

/-! ## The plane -/

/-- The leases that effects offer, with their agents. -/
def offered (effects : List Effect) : List (Nat × Nat) :=
  effects.filterMap fun
    | .send agentId .leaseOffer header => some (agentId, header.attemptId)
    | _ => none

namespace Plane

variable (plane : Plane)

def setAgent (agentId : Nat) (agent : AgentProcess) : Plane :=
  { plane with agents := Function.update plane.agents agentId agent }

/-- A lease is offered on the session of its agent. -/
def offer (lease : Nat × Nat) : Plane :=
  { plane with
    offers :=
      Function.update plane.offers lease.2
        (some { agentId := lease.1, session := plane.session lease.1 })
    toAgent :=
      Function.update plane.toAgent lease.1
        (plane.toAgent lease.1 ++ [.leaseOffer lease.2]) }

/-- A segment of the Controller, with the leases that it offers. -/
def runSegment (segment : Segment) : Plane :=
  (offered segment.effects).foldl offer
    { plane with controller := plane.controller.after segment }

/-- Does `onAgentConnect` find that the agent's process was restarted? -/
def restartDetected (agentId : Nat) (bootId : Option Nat) : Bool :=
  bootId.isSome && plane.lastBootId agentId != bootId

/-- A new session of an agent, on channels of its own. -/
def openSession (agentId : Nat) (frames : List Downward) : Plane :=
  { plane with
    session :=
      Function.update plane.session agentId (plane.session agentId + 1)
    toAgent := Function.update plane.toAgent agentId frames
    toController := Function.update plane.toController agentId [] }

/-- `capabilities`: `onAgentConnect`, then `updateAgentCapabilities`. -/
def onCapabilities (agentId : Nat) (bootId : Option Nat)
    (rest : List (Option Nat)) (segment : Segment) : Plane :=
  { plane.runSegment segment with
    lastBootId := Function.update plane.lastBootId agentId bootId
    toController := Function.update plane.toController agentId rest }

/-- The agent handles the next frame of its session. -/
def onReceive (agentId : Nat) (frame : Downward) (rest : List Downward)
    (underPressure : Bool) : Plane :=
  let taken :=
    { plane with toAgent := Function.update plane.toAgent agentId rest }
  let agent := plane.agents agentId
  match frame with
  | .helloAck =>
    { taken.setAgent agentId
        { agent with scans := agent.scans ++ [.listing] } with
      toController :=
        Function.update plane.toController agentId
          (plane.toController agentId ++ [agent.bootId]) }
  | .leaseOffer attemptId =>
    taken.setAgent agentId (agent.handleLeaseOffer attemptId underPressure)

end Plane

/-- The Controller and its agents, with every message that is in flight. -/
def planeMachine : Machine Plane PlaneEvent where
  initial plane :=
    controllerMachine.initial plane.controller ∧
      (plane.lastBootId = fun _ => none) ∧ (plane.offers = fun _ => none) ∧
      (plane.toAgent = fun _ => []) ∧ (plane.toController = fun _ => []) ∧
      ∀ agentId, (plane.agents agentId).attempts = [] ∧
        (plane.agents agentId).rejectedAttempts = [] ∧
        (plane.agents agentId).metadata = ∅ ∧
        (plane.agents agentId).scans = []
  step plane
    | .authenticate agentId =>
      (plane.controller.segment (.connect agentId)).map
        (plane.openSession agentId [.helloAck]).runSegment
    | .controller event =>
      match event with
      | .connect _ => none
      | .capabilities _ _ => none
      | other => (plane.controller.segment other).map plane.runSegment
    | .capabilities agentId =>
      match plane.toController agentId with
      | [] => none
      | bootId :: rest =>
        (plane.controller.segment
          (.capabilities agentId
            (plane.restartDetected agentId bootId))).map
          (plane.onCapabilities agentId bootId rest)
    | .receive agentId underPressure =>
      match plane.toAgent agentId with
      | [] => none
      | frame :: rest =>
        some (plane.onReceive agentId frame rest underPressure)
    | .readdir agentId index =>
      match (plane.agents agentId).scans[index]? with
      | some .listing =>
        some
          (plane.setAgent agentId
            ((plane.agents agentId).modifyScan index
              (.listed (plane.agents agentId).metadata.keys)))
      | _ => none
    | .readMetadata agentId index =>
      match (plane.agents agentId).scans[index]? with
      | some (.listed names) =>
        some
          (plane.setAgent agentId
            ((plane.agents agentId).modifyScan index
              (.reporting
                ((plane.agents agentId).listAttemptMetadata names))))
      | _ => none
    | .report agentId index =>
      match (plane.agents agentId).scans[index]? with
      | some (.reporting ((attemptId, metadata) :: rest)) =>
        some
          (plane.setAgent agentId
            (((plane.agents agentId).emitRecoveryReport attemptId
              metadata).modifyScan index (.reporting rest)))
      | _ => none
    | .spawned agentId attemptId =>
      if attemptId ∈ (plane.agents agentId).attempts then
        some
          (plane.setAgent agentId
            ((plane.agents agentId).spawned attemptId))
      else none
    | .ended agentId attemptId =>
      some
        (plane.setAgent agentId ((plane.agents agentId).ended attemptId))
    | .refreshCapabilities agentId =>
      some
        { plane with
          toController :=
            Function.update plane.toController agentId
              (plane.toController agentId ++
                [(plane.agents agentId).bootId]) }
    | .drop agentId =>
      some
        { plane with
          toAgent := Function.update plane.toAgent agentId []
          toController := Function.update plane.toController agentId [] }
    | .restartAgent agentId bootId =>
      some
        ((plane.openSession agentId []).setAgent agentId
          ((plane.agents agentId).restarted bootId))

/-! ## Leases are offered for new attempts -/

section Offers

variable {state : ControllerState} {db : Database}

theorem length_write (statement : Write) :
    db.attempts.length ≤ (db.write statement).attempts.length := by
  cases statement with
  | insertAttempt row =>
    show _ ≤ (db.attempts ++ [row]).length
    rw [List.length_append]
    exact Nat.le_add_right _ _
  | updateAttempt attemptId fields =>
    exact Nat.le_of_eq (List.length_modify _ _ _).symm
  | _ => exact Nat.le_refl _

theorem length_writes (statements : List Write) :
    db.attempts.length ≤ (db.writes statements).attempts.length := by
  induction statements generalizing db with
  | nil => exact Nat.le_refl _
  | cons statement statements induction =>
    exact Nat.le_trans (length_write statement) induction

theorem offered_of_none {effects : List Effect}
    (none : effects.any Effect.offers = false) : offered effects = [] := by
  unfold offered
  rw [List.filterMap_eq_nil_iff]
  intro effect member
  rw [List.any_eq_false] at none
  have silent := none effect member
  split
  · exact absurd rfl silent
  · rfl

theorem offered_of_routine {effects : List Effect}
    (routine : Routine effects) : offered effects = [] := by
  apply offered_of_none
  unfold Routine at routine
  rw [List.any_eq_false] at routine ⊢
  intro effect member offers
  apply routine effect member
  rw [offers, Bool.or_true, Bool.true_or]

/-- A segment offers no lease, or one for the attempt that it creates. -/
theorem offered_segment {event : Event} {segment : Segment}
    (taken : state.segment event = some segment) :
    offered segment.effects = [] ∨
      ∃ agentId,
        offered segment.effects = [(agentId, state.db.attempts.length)] ∧
          (state.after segment).db.attempts.length =
            state.db.attempts.length + 1 := by
  by_cases report : ∃ agentId report, event = .recoveryReport agentId report
  · rcases report with ⟨agentId, report, rfl⟩
    cases taken
    exact Or.inl (offered_of_none (offers_onRecoveryReport agentId report))
  by_cases frame : ∃ agentId header identity,
      event = .frame agentId header (.jobStarted identity)
  · rcases frame with ⟨agentId, header, identity, rfl⟩
    cases taken
    left
    apply offered_of_none
    unfold ControllerState.receive
    dsimp only
    split
    · rfl
    · cases identity <;> rfl
  rcases routine_segment
      (fun agentId header identity same =>
        frame ⟨agentId, header, identity, same⟩)
      (fun agentId reported same => report ⟨agentId, reported, same⟩)
      taken with routine | ⟨jobId, agentId, initiated⟩
  · exact Or.inl (offered_of_routine routine)
  · refine Or.inr ⟨agentId, ?_, ?_⟩
    · rw [(initiateRemoteAttempt_eq_some initiated).2]
      rfl
    · unfold ControllerState.after Segment.writes
      rw [(initiateRemoteAttempt_eq_some initiated).2]
      exact List.length_append

end Offers

/-! ## What every run keeps -/

/-- The attempts that a scan still names. -/
def Scan.names : Scan → List Nat
  | .listing => []
  | .listed names => names
  | .reporting rest => rest.map Prod.fst

/-- An agent knows only attempts below a limit, and its scans hold unfenced
metadata only of attempts that were offered on earlier sessions. -/
structure AgentSound (limit : Nat) (offers : Nat → Option Offer)
    (agentId session : Nat) (agent : AgentProcess) : Prop where
  attempts : ∀ name ∈ agent.attempts, name < limit
  metadata : ∀ name ∈ agent.metadata, name < limit
  scans : ∀ scan ∈ agent.scans, ∀ name ∈ scan.names, name < limit
  spared : ∀ rest, .reporting rest ∈ agent.scans → ∀ name metadata,
    (name, metadata) ∈ rest → metadata.unfenced = true →
    ∀ earlier, offers name = some { agentId, session := earlier } →
      earlier < session

structure Sound (limit : Nat) (plane : Plane) : Prop where
  offers : ∀ name offer, plane.offers name = some offer →
    name < limit ∧ offer.session ≤ plane.session offer.agentId
  frames : ∀ agentId name,
    .leaseOffer name ∈ plane.toAgent agentId → name < limit
  agents : ∀ agentId,
    AgentSound limit plane.offers agentId (plane.session agentId)
      (plane.agents agentId)

section Soundness

variable {limit more agentId session : Nat}
  {offers : Nat → Option Offer} {agent : AgentProcess} {plane : Plane}

/-- The frames of one agent are replaced. -/
theorem frames_update {toAgent : Nat → List Downward}
    {frames : List Downward}
    (below : ∀ other name, .leaseOffer name ∈ toAgent other → name < limit)
    (kept : ∀ name, .leaseOffer name ∈ frames → name < limit)
    (other name : Nat)
    (there : .leaseOffer name ∈
      Function.update toAgent agentId frames other) : name < limit := by
  by_cases same : other = agentId
  · subst same
    rw [Function.update_self] at there
    exact kept name there
  · rw [Function.update_of_ne same] at there
    exact below other name there

theorem AgentSound.mono (sound : AgentSound limit offers agentId session agent)
    (grows : limit ≤ more) :
    AgentSound more offers agentId session agent where
  attempts name there := Nat.lt_of_lt_of_le (sound.attempts name there) grows
  metadata name there := Nat.lt_of_lt_of_le (sound.metadata name there) grows
  scans scan there name named :=
    Nat.lt_of_lt_of_le (sound.scans scan there name named) grows
  spared := sound.spared

theorem AgentSound.session_le {later : Nat}
    (sound : AgentSound limit offers agentId session agent)
    (grows : session ≤ later) :
    AgentSound limit offers agentId later agent where
  attempts := sound.attempts
  metadata := sound.metadata
  scans := sound.scans
  spared rest there name metadata member unfenced earlier offered :=
    Nat.lt_of_lt_of_le
      (sound.spared rest there name metadata member unfenced earlier offered)
      grows

/-- The offer of a new attempt concerns no scan. -/
theorem AgentSound.offer {offer : Option Offer}
    (sound : AgentSound limit offers agentId session agent) :
    AgentSound limit (Function.update offers limit offer) agentId session
      agent where
  attempts := sound.attempts
  metadata := sound.metadata
  scans := sound.scans
  spared rest there name metadata member unfenced earlier offered := by
    have below : name < limit :=
      sound.scans _ there name
        (List.mem_map.mpr ⟨(name, metadata), member, rfl⟩)
    rw [Function.update_of_ne (Nat.ne_of_lt below)] at offered
    exact sound.spared rest there name metadata member unfenced earlier
      offered

theorem Sound.mono (sound : Sound limit plane) (grows : limit ≤ more) :
    Sound more plane where
  offers name offer offered :=
    ⟨Nat.lt_of_lt_of_le (sound.offers name offer offered).1 grows,
      (sound.offers name offer offered).2⟩
  frames agentId name there :=
    Nat.lt_of_lt_of_le (sound.frames agentId name there) grows
  agents agentId := (sound.agents agentId).mono grows

theorem sound_offer (sound : Sound limit plane) (owner : Nat) :
    Sound (limit + 1) (plane.offer (owner, limit)) := by
  refine ⟨?_, ?_, ?_⟩
  · intro name offer offered
    by_cases same : name = limit
    · subst same
      rw [show (plane.offer (owner, name)).offers name = _ from
        Function.update_self _ _ _] at offered
      rw [← Option.some.inj offered]
      exact ⟨Nat.lt_succ_self _, Nat.le_refl _⟩
    · rw [show (plane.offer (owner, limit)).offers name = _ from
        Function.update_of_ne same _ _] at offered
      rcases sound.offers name offer offered with ⟨below, before⟩
      exact ⟨Nat.lt_succ_of_lt below, before⟩
  · apply frames_update
    · intro agentId name there
      exact Nat.lt_succ_of_lt (sound.frames agentId name there)
    · intro name there
      rcases List.mem_append.mp there with before | last
      · exact Nat.lt_succ_of_lt (sound.frames owner name before)
      · cases List.mem_singleton.mp last
        exact Nat.lt_succ_self _
  · intro agentId
    exact (sound.agents agentId).offer.mono (Nat.le_succ _)

/-- A segment of the Controller keeps the plane sound. -/
theorem sound_runSegment {event : Event} {segment : Segment}
    (sound : Sound plane.controller.db.attempts.length plane)
    (taken : plane.controller.segment event = some segment) :
    Sound (plane.runSegment segment).controller.db.attempts.length
      (plane.runSegment segment) := by
  have after : Sound plane.controller.db.attempts.length
      { plane with controller := plane.controller.after segment } :=
    ⟨sound.offers, sound.frames, sound.agents⟩
  unfold Plane.runSegment
  rcases offered_segment taken with none | ⟨owner, one, longer⟩
  · rw [none]
    exact after.mono (length_writes _)
  · rw [one]
    show Sound (plane.controller.after segment).db.attempts.length _
    rw [longer]
    exact sound_offer after owner

/-- The agent of a plane changes. -/
theorem sound_setAgent (sound : Sound limit plane)
    (changed : AgentSound limit plane.offers agentId (plane.session agentId)
      agent) :
    Sound limit (plane.setAgent agentId agent) := by
  refine ⟨sound.offers, sound.frames, ?_⟩
  intro other
  show AgentSound limit plane.offers other (plane.session other)
    (Function.update plane.agents agentId agent other)
  by_cases same : other = agentId
  · subst same
    rw [Function.update_self]
    exact changed
  · rw [Function.update_of_ne same]
    exact sound.agents other

theorem sound_openSession {frames : List Downward}
    (sound : Sound limit plane)
    (plain : ∀ name, .leaseOffer name ∉ frames) :
    Sound limit (plane.openSession agentId frames) := by
  have later : ∀ other, plane.session other ≤
      (plane.openSession agentId frames).session other := by
    intro other
    show _ ≤ Function.update plane.session agentId _ other
    by_cases same : other = agentId
    · subst same
      rw [Function.update_self]
      exact Nat.le_succ _
    · rw [Function.update_of_ne same]
  refine ⟨?_, ?_, ?_⟩
  · intro name offer offered
    rcases sound.offers name offer offered with ⟨below, before⟩
    exact ⟨below, Nat.le_trans before (later _)⟩
  · exact frames_update sound.frames
      fun name there => absurd there (plain name)
  · intro other
    exact (sound.agents other).session_le (later other)

/-- An agent with other attempts and metadata, below the same limit. -/
theorem AgentSound.write {attempts rejectedAttempts : List Nat}
    {metadata : AList fun _ : Nat => Metadata}
    (sound : AgentSound limit offers agentId session agent)
    (attemptsBelow : ∀ name ∈ attempts, name < limit)
    (metadataBelow : ∀ name ∈ metadata, name < limit) :
    AgentSound limit offers agentId session
      { agent with attempts, rejectedAttempts, metadata } where
  attempts := attemptsBelow
  metadata := metadataBelow
  scans := sound.scans
  spared := sound.spared

/-- A scan is replaced by one that names and spares no more. -/
theorem AgentSound.modifyScan {index : Nat} {scan : Scan}
    (sound : AgentSound limit offers agentId session agent)
    (named : ∀ name ∈ scan.names, name < limit)
    (spared : ∀ rest, scan = .reporting rest → ∀ name metadata,
      (name, metadata) ∈ rest → metadata.unfenced = true →
      ∀ earlier, offers name = some { agentId, session := earlier } →
        earlier < session) :
    AgentSound limit offers agentId session
      (agent.modifyScan index scan) where
  attempts := sound.attempts
  metadata := sound.metadata
  scans other there := by
    rcases List.mem_or_eq_of_mem_set there with before | same
    · exact sound.scans other before
    · rw [same]
      exact named
  spared rest there := by
    rcases List.mem_or_eq_of_mem_set there with before | same
    · exact sound.spared rest before
    · exact spared rest same.symm

theorem agentSound_handleLeaseOffer {name : Nat} {underPressure : Bool}
    (sound : AgentSound limit offers agentId session agent)
    (below : name < limit) :
    AgentSound limit offers agentId session
      (agent.handleLeaseOffer name underPressure) := by
  unfold AgentProcess.handleLeaseOffer
  split
  · exact sound
  · apply sound.write
    · intro other there
      rcases List.mem_insert_iff.mp there with same | before
      · rw [same]
        exact below
      · exact sound.attempts other before
    · intro other there
      rcases (AList.mem_insert _).mp there with same | before
      · rw [same]
        exact below
      · exact sound.metadata other before

theorem agentSound_ended (name : Nat)
    (sound : AgentSound limit offers agentId session agent) :
    AgentSound limit offers agentId session (agent.ended name) := by
  apply sound.write
  · intro other there
    exact sound.attempts other (List.mem_filter.mp there).1
  · intro other there
    exact sound.metadata other ((AList.mem_erase.mp there).2)

theorem agentSound_emitRecoveryReport {name : Nat} {metadata : Metadata}
    (sound : AgentSound limit offers agentId session agent) :
    AgentSound limit offers agentId session
      (agent.emitRecoveryReport name metadata) := by
  unfold AgentProcess.emitRecoveryReport
    AgentProcess.discardUnfencedLeftover
  split
  · apply sound.write
    · intro other there
      exact sound.attempts other (List.mem_filter.mp there).1
    · intro other there
      exact sound.metadata other ((AList.mem_erase.mp there).2)
  · exact sound

theorem agentSound_spawned {name : Nat} (running : name ∈ agent.attempts)
    (sound : AgentSound limit offers agentId session agent) :
    AgentSound limit offers agentId session (agent.spawned name) := by
  apply sound.write sound.attempts
  intro other there
  rcases (AList.mem_insert _).mp there with same | before
  · rw [same]
    exact sound.attempts name running
  · exact sound.metadata other before

theorem agentSound_restarted {bootId : Option Nat}
    (sound : AgentSound limit offers agentId session agent) :
    AgentSound limit offers agentId session (agent.restarted bootId) where
  attempts _ := nofun
  metadata := sound.metadata
  scans _ := nofun
  spared _ := nofun

theorem mem_listAttemptMetadata {names : List Nat} {name : Nat}
    {metadata : Metadata} :
    (name, metadata) ∈ agent.listAttemptMetadata names ↔
      name ∈ names ∧ agent.metadata.lookup name = some metadata := by
  unfold AgentProcess.listAttemptMetadata
  rw [List.mem_filterMap]
  constructor
  · rintro ⟨other, there, found⟩
    rcases Option.map_eq_some_iff.mp found with ⟨read, looked, same⟩
    cases same
    exact ⟨there, looked⟩
  · rintro ⟨there, looked⟩
    exact ⟨name, there, by rw [looked]; rfl⟩

end Soundness

/-! ## Runs that spare the offers of their sessions -/

/-- The lease of an attempt was offered on the current session. -/
def Current (plane : Plane) (agentId name : Nat) : Prop :=
  plane.offers name =
    some { agentId, session := plane.session agentId }

/-- A changed boot id is handled before the agent has live attempts of its
session, and a scan reads no unfenced metadata of them. -/
def Spares (plane : Plane) : PlaneEvent → Prop
  | .capabilities agentId =>
    ∀ bootId rest, plane.toController agentId = bootId :: rest →
      plane.restartDetected agentId bootId = true →
      ∀ name row, Current plane agentId name →
        plane.controller.db.getAttempt name = some row →
        row.agentId = some agentId → ¬ row.live
  | .readMetadata agentId index =>
    ∀ names, (plane.agents agentId).scans[index]? =
        some (.listed names) →
      ∀ name ∈ names, ∀ metadata,
        (plane.agents agentId).metadata.lookup name = some metadata →
        metadata.unfenced = true → ¬ Current plane agentId name
  | _ => True

section Runs

variable {plane next : Plane} {event : PlaneEvent}

theorem sound_onReceive {agentId : Nat} {frame : Downward}
    {rest : List Downward} {underPressure : Bool} {limit : Nat}
    (sound : Sound limit plane)
    (waiting : plane.toAgent agentId = frame :: rest) :
    Sound limit (plane.onReceive agentId frame rest underPressure) := by
  have taken : Sound limit
      { plane with
        toAgent := Function.update plane.toAgent agentId rest } := by
    refine ⟨sound.offers, frames_update sound.frames ?_, sound.agents⟩
    intro name there
    apply sound.frames agentId name
    rw [waiting]
    exact .tail _ there
  unfold Plane.onReceive
  cases frame with
  | helloAck =>
    have agent := sound.agents agentId
    have scanning : AgentSound limit plane.offers agentId
        (plane.session agentId)
        { plane.agents agentId with
          scans := (plane.agents agentId).scans ++ [.listing] } := by
      refine ⟨agent.attempts, agent.metadata, ?_, ?_⟩
      · intro scan there
        rcases List.mem_append.mp there with before | last
        · exact agent.scans scan before
        · rw [List.mem_singleton.mp last]
          nofun
      · intro read there
        rcases List.mem_append.mp there with before | last
        · exact agent.spared read before
        · cases List.mem_singleton.mp last
    have set := sound_setAgent taken scanning
    exact ⟨set.offers, set.frames, set.agents⟩
  | leaseOffer name =>
    apply sound_setAgent taken
    apply agentSound_handleLeaseOffer (sound.agents agentId)
    apply sound.frames agentId name
    rw [waiting]
    exact List.mem_cons_self

theorem sound_step
    (sound : Sound plane.controller.db.attempts.length plane)
    (spares : Spares plane event)
    (step : planeMachine.step plane event = some next) :
    Sound next.controller.db.attempts.length next := by
  cases event with
  | authenticate agentId =>
    simp only [planeMachine] at step
    rcases Option.map_eq_some_iff.mp step with ⟨segment, taken, rfl⟩
    have opened : Sound plane.controller.db.attempts.length
        (plane.openSession agentId [.helloAck]) := by
      apply sound_openSession sound
      intro name there
      cases List.mem_singleton.mp there
    exact sound_runSegment opened taken
  | controller event =>
    simp only [planeMachine] at step
    split at step
    · cases step
    · cases step
    · rcases Option.map_eq_some_iff.mp step with ⟨segment, taken, rfl⟩
      exact sound_runSegment sound taken
  | capabilities agentId =>
    simp only [planeMachine] at step
    split at step
    · cases step
    · rcases Option.map_eq_some_iff.mp step with ⟨segment, taken, rfl⟩
      have ran := sound_runSegment sound taken
      exact ⟨ran.offers, ran.frames, ran.agents⟩
  | receive agentId underPressure =>
    simp only [planeMachine] at step
    split at step
    · cases step
    next frame rest waiting =>
      cases step
      have received : Sound plane.controller.db.attempts.length
          (plane.onReceive agentId frame rest underPressure) :=
        sound_onReceive sound waiting
      cases frame <;> exact received
  | readdir agentId index =>
    simp only [planeMachine] at step
    split at step
    · cases step
      apply sound_setAgent sound
      apply (sound.agents agentId).modifyScan
      · intro name there
        exact (sound.agents agentId).metadata name
          (AList.mem_keys.mpr there)
      · nofun
    · cases step
  | readMetadata agentId index =>
    simp only [planeMachine] at step
    split at step
    next names listed =>
      cases step
      apply sound_setAgent sound
      apply (sound.agents agentId).modifyScan
      · intro name there
        rcases List.mem_map.mp there with ⟨⟨_, metadata⟩, read, rfl⟩
        rcases mem_listAttemptMetadata.mp read with ⟨named, _⟩
        exact (sound.agents agentId).scans _
          (List.mem_of_getElem? listed) _ named
      · rintro rest ⟨⟩ name metadata read unfenced earlier offered
        rcases mem_listAttemptMetadata.mp read with ⟨named, looked⟩
        have older := (sound.offers name _ offered).2
        apply Nat.lt_of_le_of_ne older
        intro same
        have current : Current plane agentId name := by
          have now : earlier = plane.session agentId := same
          unfold Current
          rw [offered, now]
        exact spares names listed name named metadata looked unfenced
          current
    · cases step
  | report agentId index =>
    simp only [planeMachine] at step
    split at step
    next attemptId metadata rest there =>
      cases step
      have scanned := List.mem_of_getElem? there
      apply sound_setAgent sound
      apply (agentSound_emitRecoveryReport
        (sound.agents agentId)).modifyScan
      · intro name named
        exact (sound.agents agentId).scans _ scanned name
          (.tail _ named)
      · rintro _ ⟨⟩ name other read
        exact (sound.agents agentId).spared _ scanned name other
          (.tail _ read)
    · cases step
  | spawned agentId attemptId =>
    simp only [planeMachine] at step
    split at step
    next running =>
      cases step
      exact sound_setAgent sound
        (agentSound_spawned running (sound.agents agentId))
    next => cases step
  | ended agentId attemptId =>
    cases step
    exact sound_setAgent sound
      (agentSound_ended attemptId (sound.agents agentId))
  | refreshCapabilities agentId =>
    cases step
    exact ⟨sound.offers, sound.frames, sound.agents⟩
  | drop agentId =>
    cases step
    exact ⟨sound.offers, frames_update sound.frames nofun, sound.agents⟩
  | restartAgent agentId bootId =>
    cases step
    have opened : Sound plane.controller.db.attempts.length
        (plane.openSession agentId []) :=
      sound_openSession sound nofun
    exact sound_setAgent opened
      (agentSound_restarted (opened.agents agentId))

/-! ## What the two sweeps touch -/

/-- The boot id sweep spares an attempt that is over. -/
theorem getAttempt_spared {state : ControllerState} {agentId name : Nat}
    {row : AttemptRow} (stored : state.db.getAttempt name = some row)
    (ended : row.agentId = some agentId → ¬ row.live) :
    (state.after (state.onAgentRestarted agentId)).db.getAttempt name =
      some row := by
  have untouched :
      updatesOf name (state.onAgentRestarted agentId).effects = [] := by
    rw [List.eq_nil_iff_forall_not_mem]
    intro fields member
    rcases mem_updatesOf_flatMap.mp member with ⟨pair, swept, updated⟩
    rcases mem_liveAttemptsOf.mp swept with ⟨found, belongs, live⟩
    rw [show updatesOf name (ControllerState.markLost _ _) = _ from
      updatesOf_closeAttempt] at updated
    split at updated
    next same =>
      rw [same, stored, Option.some.injEq] at found
      rw [← found] at belongs live
      exact ended belongs live
    next => cases updated
  rw [getAttempt_after stored, untouched]
  rfl

/-- The boot id sweep completes every live attempt of the agent. -/
theorem getAttempt_swept {state : ControllerState} {agentId name : Nat}
    {row later : AttemptRow} (stored : state.db.getAttempt name = some row)
    (owned : row.agentId = some agentId) (live : row.live)
    (after : (state.after
      (state.onAgentRestarted agentId)).db.getAttempt name = some later) :
    later.state = .completed := by
  have each : ∀ fields ∈
      updatesOf name (state.onAgentRestarted agentId).effects,
      fields.state = some .completed := by
    intro fields member
    rcases mem_updatesOf_flatMap.mp member with ⟨pair, _, updated⟩
    rw [show updatesOf name (ControllerState.markLost _ _) = _ from
      updatesOf_closeAttempt] at updated
    split at updated
    · rw [List.mem_singleton.mp updated]
      rfl
    · cases updated
  have present :
      updatesOf name (state.onAgentRestarted agentId).effects ≠ [] := by
    apply List.ne_nil_of_mem
    apply mem_updatesOf_flatMap.mpr
    refine ⟨(row, name), mem_liveAttemptsOf.mpr ⟨stored, owned, live⟩, ?_⟩
    rw [show updatesOf name (ControllerState.markLost _ _) = _ from
      updatesOf_closeAttempt, if_pos rfl]
    exact List.mem_cons_self
  rw [getAttempt_after stored, Option.some.injEq] at after
  rw [← after, ← List.dropLast_append_getLast present, List.foldl_append]
  show (Option.getD _ _ : AttemptState) = _
  rw [each _ (List.getLast_mem present)]
  rfl

/-- An attempt of the current session survives a step: the handling of
`capabilities` leaves its row, and a report of a scan leaves it with its agent. -/
structure Survives (plane next : Plane) (event : PlaneEvent)
    (agentId name : Nat) : Prop where
  row : event = .capabilities agentId →
    next.controller.db.getAttempt name =
      plane.controller.db.getAttempt name
  attempts : ∀ index, event = .report agentId index →
    (name ∈ (next.agents agentId).attempts ↔
      name ∈ (plane.agents agentId).attempts)
  rejected : ∀ index, event = .report agentId index →
    (name ∈ (next.agents agentId).rejectedAttempts ↔
      name ∈ (plane.agents agentId).rejectedAttempts)
  metadata : ∀ index, event = .report agentId index →
    (next.agents agentId).metadata.lookup name =
      (plane.agents agentId).metadata.lookup name

theorem runSegment_controller (segment : Segment) :
    (plane.runSegment segment).controller =
      plane.controller.after segment := by
  unfold Plane.runSegment
  apply List.foldlRecOn (offered segment.effects) Plane.offer
    (motive := fun after =>
      after.controller = plane.controller.after segment) rfl
  rintro after same lease _
  exact same

theorem row_capabilities {agentId name : Nat}
    (sound : Sound plane.controller.db.attempts.length plane)
    (spares : Spares plane (.capabilities agentId))
    (step : planeMachine.step plane (.capabilities agentId) = some next)
    (current : Current plane agentId name) :
    next.controller.db.getAttempt name =
      plane.controller.db.getAttempt name := by
  simp only [planeMachine] at step
  split at step
  · cases step
  next bootId rest waiting =>
    rcases Option.map_eq_some_iff.mp step with ⟨segment, taken, rfl⟩
    show (plane.runSegment segment).controller.db.getAttempt name = _
    rw [runSegment_controller]
    cases taken
    cases detected : plane.restartDetected agentId bootId with
    | false => rfl
    | true =>
      have below := (sound.offers name _ current).1
      have stored : plane.controller.db.getAttempt name =
          some (plane.controller.db.attempts[name]) :=
        List.getElem?_eq_getElem below
      rw [if_pos rfl, stored]
      apply getAttempt_spared stored
      exact spares bootId rest waiting detected name _ current stored

/-- A scan drops nothing of the current session. -/
theorem survives_report {agentId index name : Nat}
    (sound : Sound plane.controller.db.attempts.length plane)
    (step : planeMachine.step plane (.report agentId index) = some next)
    (current : Current plane agentId name) :
    Survives plane next (.report agentId index) agentId name := by
  simp only [planeMachine] at step
  split at step
  next attemptId metadata rest there =>
    cases step
    have agent : ∀ changed : AgentProcess,
        (plane.setAgent agentId changed).agents agentId = changed :=
      fun changed => Function.update_self _ _ _
    by_cases unfenced : metadata.unfenced = true
    · have other : name ≠ attemptId := by
        rintro rfl
        exact Nat.lt_irrefl _
          ((sound.agents agentId).spared _ (List.mem_of_getElem? there)
            name metadata List.mem_cons_self unfenced _ current)
      have discards :
          (plane.agents agentId).emitRecoveryReport attemptId metadata =
            (plane.agents agentId).discardUnfencedLeftover attemptId :=
        if_pos unfenced
      refine ⟨nofun, ?_, ?_, ?_⟩
      · intro _ _
        rw [agent, discards]
        show name ∈ List.filter _ _ ↔ _
        rw [List.mem_filter, decide_eq_true_iff]
        exact and_iff_left other
      · intro _ _
        rw [agent, discards]
        show name ∈ attemptId :: _ ↔ _
        rw [List.mem_cons]
        exact or_iff_right other
      · intro _ _
        rw [agent, discards]
        exact AList.lookup_erase_ne other
    · have keeps :
          (plane.agents agentId).emitRecoveryReport attemptId metadata =
            plane.agents agentId :=
        if_neg unfenced
      refine ⟨nofun, ?_, ?_, ?_⟩
      all_goals
        intro _ _
        rw [agent, keeps]
        rfl
  · cases step

theorem sound_initial (initial : planeMachine.initial plane) :
    Sound plane.controller.db.attempts.length plane := by
  rcases initial with ⟨_, _, offers, frames, _, idle⟩
  refine ⟨?_, ?_, ?_⟩
  · intro name offer offered
    rw [offers] at offered
    cases offered
  · intro agentId name there
    rw [frames] at there
    cases there
  · intro agentId
    rcases idle agentId with ⟨attempts, _, metadata, scans⟩
    refine ⟨?_, ?_, ?_, ?_⟩
    · intro name there
      rw [attempts] at there
      cases there
    · intro name there
      rw [metadata] at there
      exact absurd there (AList.notMem_empty name)
    · intro scan there
      rw [scans] at there
      cases there
    · intro rest there
      rw [scans] at there
      cases there

end Runs

/--
In every run whose steps meet the condition, an attempt offered on the current
session of its agent survives the boot id sweep and the scan.  The sweep
leaves the attempts of the session alone exactly when the condition holds.
-/
theorem current_offers_survive (plane next : Plane) :
    (∀ event, planeMachine.Reachable Spares plane →
      Spares plane event → planeMachine.step plane event = some next →
      ∀ agentId name, Current plane agentId name →
        Survives plane next event agentId name) ∧
    ∀ agentId, planeMachine.Reachable Spares plane →
      planeMachine.step plane (.capabilities agentId) = some next →
      (Spares plane (.capabilities agentId) ↔
        ∀ name, Current plane agentId name →
          next.controller.db.getAttempt name =
            plane.controller.db.getAttempt name) := by
  have reachable_sound : ∀ plane, planeMachine.Reachable Spares plane →
      Sound plane.controller.db.attempts.length plane := by
    intro plane reachable
    exact reachable.invariant (fun _ initial => sound_initial initial)
      fun _ _ _ sound spares step => sound_step sound spares step
  constructor
  · intro event reachable spares step agentId name current
    have sound := reachable_sound plane reachable
    by_cases reports : ∃ index, event = .report agentId index
    · rcases reports with ⟨index, rfl⟩
      exact survives_report sound step current
    · have silent : ∀ index, event ≠ .report agentId index :=
        fun index same => reports ⟨index, same⟩
      refine ⟨?_, fun index same => absurd same (silent index),
        fun index same => absurd same (silent index),
        fun index same => absurd same (silent index)⟩
      rintro rfl
      exact row_capabilities sound spares step current
  · intro agentId reachable step
    have sound := reachable_sound plane reachable
    constructor
    · intro spares name current
      exact row_capabilities sound spares step current
    · intro kept bootId rest waiting detected name row current stored owned
        live
      have same := kept name current
      simp only [planeMachine, waiting, detected] at step
      rcases Option.map_eq_some_iff.mp step with ⟨segment, taken, rfl⟩
      cases taken
      rw [show (plane.onCapabilities agentId bootId rest _).controller =
        _ from runSegment_controller _, stored] at same
      exact live (getAttempt_swept stored owned live same)

/-! ## Two races after an authentication -/

/-- A plane on which nothing has happened; agents run process 5. -/
def freshPlane : Plane where
  controller := freshController
  lastBootId := fun _ => none
  session := fun _ => 0
  offers := fun _ => none
  toAgent := fun _ => []
  toController := fun _ => []
  agents := fun _ =>
    { bootId := some 5
      maxJobs := 1
      attempts := []
      rejectedAttempts := []
      metadata := ∅
      scans := [] }

theorem freshPlane_initial : planeMachine.initial freshPlane :=
  ⟨freshController_initial, rfl, rfl, rfl, rfl,
    fun _ => ⟨rfl, rfl, rfl, rfl⟩⟩

/-- A job is dispatched to agent 1. -/
def dispatchEvents : List PlaneEvent :=
  [.controller (.submit .wait false), .controller (.resume 0 (.remote 1))]

/-- Agent 1 comes back as process 6, and a lease is offered to it before its
capabilities are handled. -/
def restartedRun : List PlaneEvent :=
  [.authenticate 1, .receive 1 false, .capabilities 1, .drop 1,
      .restartAgent 1 (some 6), .authenticate 1] ++
    dispatchEvents ++ [.receive 1 false, .receive 1 false]

/-- A lease is offered to agent 1 while its scan lists the directory. -/
def scannedRun : List PlaneEvent :=
  [.authenticate 1, .receive 1 false, .capabilities 1] ++ dispatchEvents ++
    [.receive 1 false, .readdir 1 0, .readMetadata 1 0]

/-- The first attempt's row and offer, and what its agent holds of it. -/
structure OfferView where
  row : Option (AttemptState × Option JobOutcome)
  offer : Option Offer
  session : Nat
  attempts : List Nat
  rejected : List Nat
  deriving DecidableEq

def offerView (plane : Plane) : OfferView where
  row :=
    (plane.controller.db.getAttempt 0).map fun row => (row.state, row.outcome)
  offer := plane.offers 0
  session := plane.session 1
  attempts := (plane.agents 1).attempts
  rejected := (plane.agents 1).rejectedAttempts

/-- The attempt while its lease is offered, on some session. -/
def offeredView (session : Nat) : OfferView where
  row := some (.leasing, none)
  offer := some { agentId := 1, session := session }
  session := session
  attempts := [0]
  rejected := []

theorem view_of_run {before : List PlaneEvent} {event : PlaneEvent}
    {first last : OfferView}
    (went : (planeMachine.run freshPlane before).map offerView = some first)
    (more : (planeMachine.run freshPlane (before ++ [event])).map offerView =
      some last) :
    ∃ plane next, planeMachine.run freshPlane before = some plane ∧
      planeMachine.step plane event = some next ∧
      offerView plane = first ∧ offerView next = last := by
  rcases Option.map_eq_some_iff.mp went with ⟨plane, ran, view⟩
  rcases Option.map_eq_some_iff.mp more with ⟨next, stepped, later⟩
  rw [Machine.run_append, ran, Option.bind_some,
    Machine.run_single] at stepped
  exact ⟨plane, next, ran, stepped, view, later⟩

theorem current_of_view {plane : Plane} {session : Nat}
    (view : offerView plane = offeredView session) : Current plane 1 0 := by
  have offered : plane.offers 0 =
    some { agentId := 1, session := session } := congrArg OfferView.offer view
  have now : plane.session 1 = session := congrArg OfferView.session view
  unfold Current
  rw [offered, now]

/-- The boot id sweep loses an attempt whose lease was offered on the same
session, and a scan drops one. -/
theorem current_offers_lost :
    (∃ plane next,
      planeMachine.run freshPlane restartedRun = some plane ∧
        planeMachine.step plane (.capabilities 1) = some next ∧
        Current plane 1 0 ∧ (plane.agents 1).attempts = [0] ∧
        (next.controller.db.getAttempt 0).map
            (fun row => (row.state, row.outcome)) =
          some (.completed, some .lost)) ∧
      ∃ plane next,
        planeMachine.run freshPlane scannedRun = some plane ∧
          planeMachine.step plane (.report 1 0) = some next ∧
          Current plane 1 0 ∧ (plane.agents 1).attempts = [0] ∧
          (plane.controller.db.getAttempt 0).map
              (fun row => (row.state, row.outcome)) =
            some (.leasing, none) ∧
          (next.agents 1).attempts = [] ∧
          (next.agents 1).rejectedAttempts = [0] := by
  have swept : (planeMachine.run freshPlane restartedRun).map offerView =
      some (offeredView 3) := by
    decide +kernel
  have lost : (planeMachine.run freshPlane
      (restartedRun ++ [.capabilities 1])).map offerView =
      some { offeredView 3 with row := some (.completed, some .lost) } := by
    decide +kernel
  have scanned : (planeMachine.run freshPlane scannedRun).map offerView =
      some (offeredView 1) := by
    decide +kernel
  have dropped : (planeMachine.run freshPlane
      (scannedRun ++ [.report 1 0])).map offerView =
      some { offeredView 1 with attempts := [], rejected := [0] } := by
    decide +kernel
  constructor
  · rcases view_of_run swept lost with ⟨plane, next, ran, step, view, later⟩
    exact ⟨plane, next, ran, step, current_of_view view,
      congrArg OfferView.attempts view, congrArg OfferView.row later⟩
  · rcases view_of_run scanned dropped with
      ⟨plane, next, ran, step, view, later⟩
    exact ⟨plane, next, ran, step, current_of_view view,
      congrArg OfferView.attempts view, congrArg OfferView.row view,
      congrArg OfferView.attempts later, congrArg OfferView.rejected later⟩

/-- A lease is offered after the scan and the capabilities of its session, and
the same capabilities are sent once more. -/
def settledRun : List PlaneEvent :=
  [.authenticate 1, .receive 1 false, .capabilities 1, .readdir 1 0,
      .readMetadata 1 0] ++
    dispatchEvents ++ [.receive 1 false, .refreshCapabilities 1]

/-- Steps that look for attempts before there are any. -/
def looksEarly (plane : Plane) : PlaneEvent → Bool
  | .capabilities _ => plane.controller.db.attempts = []
  | .readMetadata agentId _ => (plane.agents agentId).metadata.keys = []
  | _ => true

theorem looksEarly_spares (plane : Plane) (event : PlaneEvent)
    (early : looksEarly plane event = true) : Spares plane event := by
  cases event with
  | capabilities agentId =>
    have none : plane.controller.db.attempts = [] :=
      of_decide_eq_true early
    intro bootId rest _ _ name row _ stored
    unfold Database.getAttempt at stored
    rw [none] at stored
    cases stored
  | readMetadata agentId index =>
    have none : (plane.agents agentId).metadata.keys = [] :=
      of_decide_eq_true early
    intro names _ name _ metadata found
    have there : name ∈ (plane.agents agentId).metadata := by
      rw [← AList.lookup_isSome, found]
      rfl
    rw [AList.mem_keys, none] at there
    cases there
  | _ => exact trivial

theorem current_offers_survive_settledRun :
    ∃ plane next, planeMachine.run freshPlane settledRun = some plane ∧
      planeMachine.step plane (.capabilities 1) = some next ∧
      Current plane 1 0 ∧ Survives plane next (.capabilities 1) 1 0 ∧
      (Spares plane (.capabilities 1) ↔
        ∀ name, Current plane 1 name →
          next.controller.db.getAttempt name =
            plane.controller.db.getAttempt name) := by
  have settled : (planeMachine.run freshPlane settledRun).map offerView =
      some (offeredView 1) := by
    decide +kernel
  have kept : (planeMachine.run freshPlane
      (settledRun ++ [.capabilities 1])).map offerView =
      some (offeredView 1) := by
    decide +kernel
  rcases view_of_run settled kept with ⟨plane, next, ran, step, view, later⟩
  have current := current_of_view view
  have reachable : planeMachine.Reachable Spares plane :=
    ⟨freshPlane, freshPlane_initial,
      Machine.steps_of_run looksEarly looksEarly_spares (by decide +kernel)
        ran⟩
  have boots : (planeMachine.run freshPlane settledRun).map
      (fun plane => (plane.toController 1, plane.lastBootId 1)) =
      some ([some 5], some 5) := by
    decide +kernel
  rw [ran, Option.map_some, Option.some.injEq, Prod.mk.injEq] at boots
  have spares : Spares plane (.capabilities 1) := by
    intro bootId rest waiting detected
    rw [boots.1] at waiting
    cases waiting
    unfold Plane.restartDetected at detected
    rw [boots.2] at detected
    cases detected
  exact ⟨plane, next, ran, step, current,
    (current_offers_survive plane next).1 _ reachable spares step 1 0 current,
    (current_offers_survive plane next).2 1 reachable step⟩

end Rbo.Controller.Sessions
