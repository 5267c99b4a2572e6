import Rbo.Agent.Adoption

/-!
# The sockets of an agent connection

`AgentConnection` keeps one heartbeat timer, one recovery coordinator and one
executor for all the sockets that `connectOnce` creates.  The handlers of a
socket act on these shared fields; the handlers of `close` and of a failure
do not ask whether the socket is still the current one.
-/

namespace Rbo.Agent.Connection

open Rbo.Agent.Adoption (MetadataStatus ReconcileDecision)
open Rbo.Foundation (Machine)

/-! ## Sockets, messages and the connection -/

inductive ReadyState where
  | connecting
  | opened
  | closing
  | closed
  deriving DecidableEq

/-- A socket with the state that its `connectOnce` call closes over. -/
structure Socket where
  credential : Option String
  readyState : ReadyState
  settled : Bool
  deriving DecidableEq

/-- The status of a `hello_ack`; every unknown one is a rejection. -/
inductive HelloStatus where
  | unauthenticated
  | pairingPending
  | pairingApproved (credential : String)
  | authenticated
  | incompatibleProtocol
  | rejected
  deriving DecidableEq

/-- A message from the Controller.  The remaining job commands write no
metadata before their first await. -/
inductive Message where
  | unreadable
  | pairingChallenge
  | helloAck (status : HelloStatus)
  | leaseOffer (attemptId : Nat) (underPressure : Bool)
  | reconcileDecision (decision : ReconcileDecision)
  | jobCommand
  deriving DecidableEq

inductive SocketEvent where
  | upgrade (fingerprint : Option String)
  | opens
  | message (message : Message)
  | peerCloses
  | closes
  | errors
  deriving DecidableEq

/-- The attempts map of the executor, and the attempts whose process can be
killed. -/
structure Executor where
  socket : Nat
  attempts : List Nat
  killable : List Nat
  deriving DecidableEq

/-- Sockets are named by the order of their creation.  `authenticated`
records those whose session was authenticated. -/
structure ConnectionState where
  controllerUrl : String
  expectedFingerprint : String
  maxJobs : Nat
  storedCredential : Option String
  sockets : List Socket
  socket : Option Nat
  connectedUrl : Option String
  executor : Option Executor
  recoverySocket : Option Nat
  rejectedAttempts : List Nat
  heartbeatTimer : Option Nat
  metadata : AList fun _ : Nat => MetadataStatus
  authenticated : List Nat

/-- What the run of a job writes and clears after its awaits. -/
inductive ExecutorStep where
  | started (attemptId : Nat)
  | exited (attemptId : Nat)
  | ended (attemptId : Nat)
  | removed (attemptId : Nat)
  | cleared (attemptId : Nat)
  deriving DecidableEq

inductive Event where
  | connectOnce
  | setControllerUrl (controllerUrl : String)
  | dropIfOpenToOtherUrl (controllerUrl : String)
  | close (killProcess : Bool)
  | socket (index : Nat) (event : SocketEvent)
  | heartbeatTick
  | executor (step : ExecutorStep)
  deriving DecidableEq

/-! ## The handlers -/

def Socket.close (socket : Socket) : Socket :=
  if socket.readyState = .closed then socket
  else { socket with readyState := .closing }

/-- `connectOnce` treats an empty credential as none. -/
def Socket.hasCredential (socket : Socket) : Bool :=
  match socket.credential with
  | none => false
  | some credential => credential ≠ ""

/-- The status under which `onDisconnectPark` leaves an attempt. -/
def parkedStatus : MetadataStatus → MetadataStatus
  | .completedAwaitingUpload => .completedAwaitingUpload
  | .terminal => .terminal
  | _ => .orphaned

namespace ConnectionState

variable (state : ConnectionState)

def modifySocket (index : Nat) (change : Socket → Socket) :
    ConnectionState :=
  { state with sockets := state.sockets.modify index change }

def stopHeartbeats : ConnectionState :=
  { state with heartbeatTimer := none }

def writeStatus (attemptId : Nat) (status : MetadataStatus) :
    ConnectionState :=
  { state with metadata := state.metadata.insert attemptId status }

def onDisconnectPark (attemptId : Nat) : ConnectionState :=
  match state.metadata.lookup attemptId with
  | none => state
  | some .terminal => state
  | some status => state.writeStatus attemptId (parkedStatus status)

def detachSocket : ConnectionState :=
  { state with recoverySocket := none }

/-- `this.executor?.abandonOnDisconnect()`. -/
def abandonOnDisconnect : ConnectionState :=
  match state.executor with
  | none => state
  | some executor =>
    (executor.attempts.foldl onDisconnectPark state).detachSocket

/-- The closure `finish` of a socket. -/
def finish (index : Nat) : ConnectionState :=
  state.modifySocket index fun socket => { socket with settled := true }

/-- The closure `fail` of a socket. -/
def fail (index : Nat) : ConnectionState :=
  match state.sockets[index]? with
  | none => state
  | some socket =>
    if socket.settled then state
    else
      state.stopHeartbeats.modifySocket index fun socket =>
        { socket.close with settled := true }

def connectOnce : ConnectionState :=
  { state with
    connectedUrl := some state.controllerUrl
    socket := some state.sockets.length
    sockets :=
      state.sockets ++
        [{ credential := state.storedCredential
           readyState := .connecting
           settled := false }] }

def setControllerUrl (controllerUrl : String) : ConnectionState :=
  { state with controllerUrl }

def close (killProcess : Bool) : ConnectionState :=
  let parked :=
    if killProcess then { state.stopHeartbeats with executor := none }
    else state.stopHeartbeats.abandonOnDisconnect
  match parked.socket with
  | none => { parked with connectedUrl := none }
  | some index =>
    { parked.modifySocket index Socket.close with
      socket := none
      connectedUrl := none }

def dropIfOpenToOtherUrl (controllerUrl : String) : ConnectionState :=
  match state.socket with
  | none => state
  | some index =>
    match state.sockets[index]? with
    | none => state
    | some socket =>
      if socket.readyState ≠ .opened ∧
          socket.readyState ≠ .connecting then state
      else if state.connectedUrl = some controllerUrl then state
      else if socket.readyState = .connecting then
        (state.modifySocket index Socket.close).close false
      else state.close false

/-- `startHeartbeats`. -/
def startHeartbeats (index : Nat) : ConnectionState :=
  { state.stopHeartbeats with heartbeatTimer := some index }

/-- The branch `authenticated` of `hello_ack`. -/
def authenticate (index : Nat) : ConnectionState :=
  let attached :=
    match state.executor with
    | none =>
      { state with
        recoverySocket := some index
        executor := some { socket := index, attempts := [], killable := [] } }
    | some executor =>
      { state with
        recoverySocket := some index
        executor := some { executor with socket := index } }
  let started := attached.startHeartbeats index
  { started.finish index with
    authenticated := index :: state.authenticated }

def onHelloAck (index : Nat) (socket : Socket) :
    HelloStatus → ConnectionState
  | .unauthenticated => state
  | .pairingPending => state.finish index
  | .pairingApproved credential =>
    { state.modifySocket index fun socket =>
        { socket with credential := some credential } with
      storedCredential := some credential }
  | .authenticated => state.authenticate index
  | .incompatibleProtocol => state.finish index
  | .rejected =>
    if socket.hasCredential then
      { state.modifySocket index fun socket =>
          { socket with credential := none } with
        storedCredential := none }
    else state.finish index

/-- Does `handleLeaseOffer` accept the attempt? -/
def Accepts (executor : Executor) (attemptId : Nat)
    (underPressure : Bool) : Prop :=
  attemptId ∉ state.rejectedAttempts ∧
    executor.attempts.length < state.maxJobs ∧ underPressure = false

instance (executor : Executor) (attemptId : Nat) (underPressure : Bool) :
    Decidable (state.Accepts executor attemptId underPressure) :=
  inferInstanceAs (Decidable (_ ∧ _ ∧ _))

def handleLeaseOffer (executor : Executor) (attemptId : Nat)
    (underPressure : Bool) : ConnectionState :=
  if state.Accepts executor attemptId underPressure then
    { state.writeStatus attemptId .accepted with
      executor :=
        some
          { executor with
            attempts := executor.attempts.insert attemptId
            killable :=
              executor.killable.filter fun name => name ≠ attemptId } }
  else state

def clearAttempt (executor : Executor) (attemptId : Nat) :
    ConnectionState :=
  { state with
    executor :=
      some
        { executor with
          attempts :=
            executor.attempts.filter fun name => name ≠ attemptId
          killable :=
            executor.killable.filter fun name => name ≠ attemptId } }

/-- The status that an adoption writes. -/
def adoptedStatus (decision : ReconcileDecision)
    (status : MetadataStatus) : MetadataStatus :=
  if status = .completedAwaitingUpload then .completedAwaitingUpload
  else if decision.resumeFromSequence ≠ none then .running
  else status

/-- `handleReconcileDecision` up to its first await; an attempt without a
running process is cleared at once. -/
def handleReconcileDecision (executor : Executor)
    (decision : ReconcileDecision) : ConnectionState :=
  match decision.action with
  | .terminateStale =>
    let rejected :=
      { state with
        rejectedAttempts := decision.attemptId :: state.rejectedAttempts }
    if decision.attemptId ∈ executor.killable then rejected
    else rejected.clearAttempt executor decision.attemptId
  | .adopt =>
    match state.metadata.lookup decision.attemptId with
    | none => state
    | some status =>
      state.writeStatus decision.attemptId
        (adoptedStatus decision status)

def onMessage (index : Nat) (socket : Socket) :
    Message → ConnectionState
  | .unreadable => state.fail index
  | .pairingChallenge => state
  | .helloAck status => state.onHelloAck index socket status
  | .leaseOffer attemptId underPressure =>
    match state.executor with
    | none => state
    | some executor =>
      state.handleLeaseOffer executor attemptId underPressure
  | .reconcileDecision decision =>
    match state.executor with
    | none => state
    | some executor => state.handleReconcileDecision executor decision
  | .jobCommand => state

/-- The handler of `close`. -/
def onClose (index : Nat) : ConnectionState :=
  (state.stopHeartbeats.abandonOnDisconnect).modifySocket index
    fun socket => { socket with readyState := .closed, settled := true }

/-- An event of a socket, when the socket can emit it in its state. -/
def onSocket (index : Nat) (socket : Socket) :
    SocketEvent → Option ConnectionState
  | .upgrade fingerprint =>
    if socket.readyState = .connecting then
      if fingerprint = some state.expectedFingerprint then some state
      else some (state.fail index)
    else none
  | .opens =>
    if socket.readyState = .connecting then
      some
        (state.modifySocket index fun socket =>
          { socket with readyState := .opened })
    else none
  | .message message =>
    if socket.readyState = .opened ∨ socket.readyState = .closing then
      some (state.onMessage index socket message)
    else none
  | .peerCloses =>
    if socket.readyState = .opened then
      some (state.modifySocket index Socket.close)
    else none
  | .closes =>
    if socket.readyState = .closed then none
    else some (state.onClose index)
  | .errors =>
    if socket.readyState = .closed then none
    else some ((state.fail index).modifySocket index Socket.close)

def onHeartbeatTick : Option ConnectionState :=
  match state.heartbeatTimer with
  | none => none
  | some index =>
    if state.sockets[index]?.map Socket.readyState = some .opened then
      some state
    else some state.stopHeartbeats

def onExecutor (executor : Executor) : ExecutorStep → ConnectionState
  | .started attemptId =>
    { state.writeStatus attemptId .running with
      executor :=
        some { executor with killable := attemptId :: executor.killable } }
  | .exited attemptId =>
    state.writeStatus attemptId .completedAwaitingUpload
  | .ended attemptId => state.writeStatus attemptId .terminal
  | .removed attemptId =>
    { state with metadata := state.metadata.erase attemptId }
  | .cleared attemptId => state.clearAttempt executor attemptId

end ConnectionState

/-- A connection before its first `connectOnce`. -/
def FreshConnection (state : ConnectionState) : Prop :=
  state.sockets = [] ∧ state.socket = none ∧ state.connectedUrl = none ∧
    state.executor = none ∧ state.recoverySocket = none ∧
    state.rejectedAttempts = [] ∧ state.heartbeatTimer = none ∧
    state.authenticated = []

/-- The connection of an agent with its sockets. -/
def connectionMachine : Machine ConnectionState Event where
  initial := FreshConnection
  step state
    | .connectOnce => some state.connectOnce
    | .setControllerUrl controllerUrl =>
      some (state.setControllerUrl controllerUrl)
    | .dropIfOpenToOtherUrl controllerUrl =>
      some (state.dropIfOpenToOtherUrl controllerUrl)
    | .close killProcess => some (state.close killProcess)
    | .socket index event =>
      match state.sockets[index]? with
      | none => none
      | some socket => state.onSocket index socket event
    | .heartbeatTick => state.onHeartbeatTick
    | .executor step =>
      match state.executor with
      | none => none
      | some executor => some (state.onExecutor executor step)

/-! ## What the parts of a handler change -/

section Parts

variable {state : ConnectionState}

theorem lookup_writeStatus {attemptId name : Nat} {status : MetadataStatus} :
    (state.writeStatus attemptId status).metadata.lookup name =
      if name = attemptId then some status
      else state.metadata.lookup name := by
  unfold ConnectionState.writeStatus
  split
  next same => rw [same, AList.lookup_insert]
  next other => exact AList.lookup_insert_ne other

theorem parkedStatus_idempotent (status : MetadataStatus) :
    parkedStatus (parkedStatus status) = parkedStatus status := by
  cases status <;> rfl

theorem lookup_onDisconnectPark {attemptId name : Nat} :
    (state.onDisconnectPark attemptId).metadata.lookup name =
      if name = attemptId then (state.metadata.lookup name).map parkedStatus
      else state.metadata.lookup name := by
  unfold ConnectionState.onDisconnectPark
  by_cases same : name = attemptId
  · subst same
    rw [if_pos rfl]
    split
    next missing => rw [missing, Option.map_none]
    next terminal => rw [terminal, Option.map_some, parkedStatus]
    next status _ found =>
      rw [lookup_writeStatus, if_pos rfl, found, Option.map_some]
  · rw [if_neg same]
    split
    · rfl
    · rfl
    · rw [lookup_writeStatus, if_neg same]

/-- Parking writes nothing but metadata. -/
theorem onDisconnectPark_frame (attemptId : Nat) :
    ∃ metadata,
      state.onDisconnectPark attemptId = { state with metadata } := by
  unfold ConnectionState.onDisconnectPark
  split
  · exact ⟨state.metadata, rfl⟩
  · exact ⟨state.metadata, rfl⟩
  · exact ⟨_, rfl⟩

/-- All attempts of a list are parked, and nothing else is written. -/
theorem park_attempts (attempts : List Nat) :
    (∃ metadata,
      attempts.foldl ConnectionState.onDisconnectPark state =
        { state with metadata }) ∧
      ∀ name,
        (attempts.foldl ConnectionState.onDisconnectPark
            state).metadata.lookup name =
          if name ∈ attempts then
            (state.metadata.lookup name).map parkedStatus
          else state.metadata.lookup name := by
  induction attempts generalizing state with
  | nil => exact ⟨⟨state.metadata, rfl⟩, fun _ => rfl⟩
  | cons first rest induction =>
    rcases @induction (state.onDisconnectPark first) with
      ⟨⟨metadata, frame⟩, lookups⟩
    rcases @onDisconnectPark_frame state first with ⟨_, parked⟩
    constructor
    · refine ⟨metadata, ?_⟩
      rw [List.foldl_cons, frame, parked]
    · intro name
      rw [List.foldl_cons, lookups, lookup_onDisconnectPark]
      by_cases same : name = first
      · rw [if_pos same, if_pos (List.mem_cons.mpr (Or.inl same)),
          Option.map_map]
        split
        · exact congrArg (fun change => Option.map change _)
            (funext parkedStatus_idempotent)
        · rfl
      · rw [if_neg same]
        simp only [List.mem_cons, same, false_or]

/-- What a lost connection leaves of the shared state. -/
theorem abandonOnDisconnect_frame {executor : Executor}
    (running : state.executor = some executor) :
    (∃ metadata,
      state.abandonOnDisconnect =
        { state with metadata, recoverySocket := none }) ∧
      ∀ name,
        state.abandonOnDisconnect.metadata.lookup name =
          if name ∈ executor.attempts then
            (state.metadata.lookup name).map parkedStatus
          else state.metadata.lookup name := by
  rcases @park_attempts state executor.attempts with
    ⟨⟨metadata, frame⟩, lookups⟩
  have abandoned :
      state.abandonOnDisconnect =
        (executor.attempts.foldl ConnectionState.onDisconnectPark
          state).detachSocket := by
    unfold ConnectionState.abandonOnDisconnect
    rw [running]
  rw [abandoned]
  constructor
  · refine ⟨metadata, ?_⟩
    rw [frame]
    rfl
  · exact lookups

theorem abandonOnDisconnect_idle (idle : state.executor = none) :
    state.abandonOnDisconnect = state := by
  unfold ConnectionState.abandonOnDisconnect
  rw [idle]

end Parts

/-! ## Events that leave a session alone -/

/-- The attempts of the executor's map. -/
def Holds (state : ConnectionState) (attemptId : Nat) : Prop :=
  ∃ executor, state.executor = some executor ∧
    attemptId ∈ executor.attempts

/-- The heartbeat timer, the socket of the recovery coordinator and the
status of every attempt are as before. -/
structure Undisturbed (before after : ConnectionState) : Prop where
  heartbeatTimer : after.heartbeatTimer = before.heartbeatTimer
  recoverySocket : after.recoverySocket = before.recoverySocket
  status : ∀ attemptId, Holds before attemptId →
    after.metadata.lookup attemptId = before.metadata.lookup attemptId

/-- A newer socket has authenticated. -/
def Superseded (state : ConnectionState) (index : Nat) : Prop :=
  ∃ newer ∈ state.authenticated, index < newer

/-- A failure changes nothing: its promise is settled or no timer runs. -/
def FailsQuietly (state : ConnectionState) (socket : Socket) : Prop :=
  socket.settled = true ∨ state.heartbeatTimer = none

/-- Every attempt has the status under which it would be parked. -/
def Parked (state : ConnectionState) : Prop :=
  ∀ attemptId, Holds state attemptId →
    (state.metadata.lookup attemptId).map parkedStatus =
      state.metadata.lookup attemptId

/-- An event that finds nothing to disturb. -/
def Harmless (state : ConnectionState) (index : Nat) (socket : Socket) :
    SocketEvent → Prop
  | .upgrade fingerprint =>
    fingerprint = some state.expectedFingerprint ∨
      FailsQuietly state socket
  | .opens => True
  | .message .unreadable => FailsQuietly state socket
  | .message (.helloAck .authenticated) =>
    state.heartbeatTimer = some index ∧ state.recoverySocket = some index
  | .message (.leaseOffer attemptId underPressure) =>
    ∀ executor, state.executor = some executor →
      state.Accepts executor attemptId underPressure →
      attemptId ∈ executor.attempts →
      state.metadata.lookup attemptId = some .accepted
  | .message (.reconcileDecision decision) =>
    decision.action = .adopt → Holds state decision.attemptId →
      ∀ status, state.metadata.lookup decision.attemptId = some status →
      ConnectionState.adoptedStatus decision status = status
  | .message _ => True
  | .peerCloses => True
  | .closes =>
    state.heartbeatTimer = none ∧
      (state.executor ≠ none → state.recoverySocket = none) ∧
      Parked state
  | .errors => FailsQuietly state socket

section Events

variable {state next : ConnectionState} {index : Nat} {socket : Socket}

theorem Undisturbed.of_same
    (heartbeatTimer : next.heartbeatTimer = state.heartbeatTimer)
    (recoverySocket : next.recoverySocket = state.recoverySocket)
    (metadata : next.metadata = state.metadata) : Undisturbed state next :=
  ⟨heartbeatTimer, recoverySocket, fun _ _ => by rw [metadata]⟩

/-- Changes of the sockets are no disturbance. -/
theorem undisturbed_modifySocket_iff {change : Socket → Socket} :
    Undisturbed state (next.modifySocket index change) ↔
      Undisturbed state next :=
  ⟨fun same => ⟨same.1, same.2, same.3⟩,
    fun same => ⟨same.1, same.2, same.3⟩⟩

theorem undisturbed_fail_iff
    (created : state.sockets[index]? = some socket) :
    Undisturbed state (state.fail index) ↔ FailsQuietly state socket := by
  unfold ConnectionState.fail FailsQuietly
  rw [created]
  dsimp only
  by_cases settled : socket.settled = true
  · rw [if_pos settled]
    exact iff_of_true (.of_same rfl rfl rfl) (Or.inl settled)
  · rw [if_neg settled, undisturbed_modifySocket_iff]
    constructor
    · intro same
      exact Or.inr same.heartbeatTimer.symm
    · rintro (back | idle)
      · exact absurd back settled
      · exact .of_same idle.symm rfl rfl

theorem undisturbed_onHelloAck_iff (status : HelloStatus) :
    Undisturbed state (state.onHelloAck index socket status) ↔
      (status = .authenticated →
        state.heartbeatTimer = some index ∧
          state.recoverySocket = some index) := by
  cases status with
  | authenticated =>
    have timer : (state.onHelloAck index socket
        .authenticated).heartbeatTimer = some index := rfl
    have recovery : (state.onHelloAck index socket
        .authenticated).recoverySocket = some index := by
      unfold ConnectionState.onHelloAck ConnectionState.authenticate
      cases state.executor <;> rfl
    have metadata : (state.onHelloAck index socket
        .authenticated).metadata = state.metadata := by
      unfold ConnectionState.onHelloAck ConnectionState.authenticate
      cases state.executor <;> rfl
    constructor
    · intro same _
      exact ⟨same.heartbeatTimer.symm.trans timer,
        same.recoverySocket.symm.trans recovery⟩
    · intro current
      rcases current rfl with ⟨beats, recovers⟩
      exact .of_same (timer.trans beats.symm) (recovery.trans recovers.symm)
        metadata
  | rejected =>
    refine iff_of_true ?_ nofun
    unfold ConnectionState.onHelloAck
    dsimp only
    split <;> exact .of_same rfl rfl rfl
  | unauthenticated => exact iff_of_true (.of_same rfl rfl rfl) nofun
  | pairingPending => exact iff_of_true (.of_same rfl rfl rfl) nofun
  | pairingApproved credential =>
    exact iff_of_true (.of_same rfl rfl rfl) nofun
  | incompatibleProtocol => exact iff_of_true (.of_same rfl rfl rfl) nofun

/-- The executor of the next state is no part of a disturbance. -/
theorem undisturbed_executor_iff {executor : Option Executor} :
    Undisturbed state { next with executor } ↔ Undisturbed state next :=
  ⟨fun same => ⟨same.1, same.2, same.3⟩,
    fun same => ⟨same.1, same.2, same.3⟩⟩

/-- Writing the status of one attempt disturbs when the attempt is held
under another one. -/
theorem undisturbed_writeStatus_iff {attemptId : Nat}
    {status : MetadataStatus} :
    Undisturbed state (state.writeStatus attemptId status) ↔
      (Holds state attemptId →
        state.metadata.lookup attemptId = some status) := by
  constructor
  · intro same held
    rw [← same.status attemptId held, lookup_writeStatus, if_pos rfl]
  · intro written
    refine ⟨rfl, rfl, ?_⟩
    intro name held
    rw [lookup_writeStatus]
    split
    next same =>
      subst same
      exact (written held).symm
    next => rfl

theorem undisturbed_handleLeaseOffer_iff {executor : Executor}
    {attemptId : Nat} {underPressure : Bool}
    (running : state.executor = some executor) :
    Undisturbed state
        (state.handleLeaseOffer executor attemptId underPressure) ↔
      (state.Accepts executor attemptId underPressure →
        attemptId ∈ executor.attempts →
        state.metadata.lookup attemptId = some .accepted) := by
  unfold ConnectionState.handleLeaseOffer
  split
  next accepts =>
    refine (undisturbed_executor_iff.trans
      undisturbed_writeStatus_iff).trans ?_
    constructor
    · intro written _ held
      exact written ⟨executor, running, held⟩
    · rintro written ⟨other, same, held⟩
      cases running.symm.trans same
      exact written accepts held
  next refuses =>
    exact iff_of_true (.of_same rfl rfl rfl)
      fun accepts => absurd accepts refuses

theorem undisturbed_handleReconcileDecision_iff {executor : Executor}
    {decision : ReconcileDecision} :
    Undisturbed state (state.handleReconcileDecision executor decision) ↔
      (decision.action = .adopt → Holds state decision.attemptId →
        ∀ status,
          state.metadata.lookup decision.attemptId = some status →
          ConnectionState.adoptedStatus decision status = status) := by
  unfold ConnectionState.handleReconcileDecision
  split
  next stale =>
    refine iff_of_true ?_ fun adopt => by cases stale.symm.trans adopt
    dsimp only
    split <;> exact .of_same rfl rfl rfl
  next adopt =>
    split
    next missing =>
      refine iff_of_true (.of_same rfl rfl rfl) ?_
      intro _ _ status found
      cases missing.symm.trans found
    next status found =>
      rw [undisturbed_writeStatus_iff]
      constructor
      · intro written _ held other same
        cases found.symm.trans same
        exact (Option.some.inj (found.symm.trans (written held))).symm
      · intro written held
        rw [found, written adopt held status found]

theorem undisturbed_onClose_iff :
    Undisturbed state (state.onClose index) ↔
      state.heartbeatTimer = none ∧
        (state.executor ≠ none → state.recoverySocket = none) ∧
        Parked state := by
  unfold ConnectionState.onClose
  rw [undisturbed_modifySocket_iff]
  cases running : state.executor with
  | none =>
    have idle : state.stopHeartbeats.executor = none := running
    have unheld : ∀ attemptId, ¬ Holds state attemptId := by
      rintro attemptId ⟨executor, same, _⟩
      cases running.symm.trans same
    rw [abandonOnDisconnect_idle idle]
    constructor
    · intro same
      exact ⟨same.heartbeatTimer.symm, fun some => absurd rfl some,
        fun attemptId held => absurd held (unheld attemptId)⟩
    · rintro ⟨stopped, _, _⟩
      exact .of_same stopped.symm rfl rfl
  | some executor =>
    have present : state.stopHeartbeats.executor = some executor := running
    rcases abandonOnDisconnect_frame present with
      ⟨⟨metadata, frame⟩, lookups⟩
    have timer :
        state.stopHeartbeats.abandonOnDisconnect.heartbeatTimer =
          none := by
      rw [frame]
      rfl
    have recovery :
        state.stopHeartbeats.abandonOnDisconnect.recoverySocket =
          none := by
      rw [frame]
    have parks : ∀ attemptId, Holds state attemptId →
        state.stopHeartbeats.abandonOnDisconnect.metadata.lookup
            attemptId =
          (state.metadata.lookup attemptId).map parkedStatus := by
      rintro attemptId ⟨other, same, held⟩
      cases running.symm.trans same
      rw [lookups, if_pos held]
      rfl
    constructor
    · intro same
      refine ⟨same.heartbeatTimer.symm.trans timer,
        fun _ => same.recoverySocket.symm.trans recovery, ?_⟩
      intro attemptId held
      rw [← parks attemptId held, same.status attemptId held]
    · rintro ⟨stopped, detached, parked⟩
      refine ⟨timer.trans stopped.symm,
        recovery.trans (detached nofun).symm, ?_⟩
      intro attemptId held
      rw [parks attemptId held, parked attemptId held]

theorem undisturbed_onMessage_iff {message : Message}
    (created : state.sockets[index]? = some socket) :
    Undisturbed state (state.onMessage index socket message) ↔
      Harmless state index socket (.message message) := by
  unfold ConnectionState.onMessage
  cases message with
  | unreadable => exact undisturbed_fail_iff created
  | pairingChallenge => exact iff_of_true (.of_same rfl rfl rfl) trivial
  | helloAck status =>
    refine (undisturbed_onHelloAck_iff status).trans ?_
    cases status <;> simp [Harmless]
  | leaseOffer attemptId underPressure =>
    cases running : state.executor with
    | none =>
      refine iff_of_true (.of_same rfl rfl rfl) ?_
      intro executor present
      cases running.symm.trans present
    | some executor =>
      refine (undisturbed_handleLeaseOffer_iff running).trans ?_
      simp [Harmless, running]
  | reconcileDecision decision =>
    cases running : state.executor with
    | none =>
      refine iff_of_true (.of_same rfl rfl rfl) ?_
      rintro _ ⟨executor, present, _⟩
      cases running.symm.trans present
    | some executor => exact undisturbed_handleReconcileDecision_iff
  | jobCommand => exact iff_of_true (.of_same rfl rfl rfl) trivial

/-- An event of a socket leaves the shared state alone exactly when it is
harmless. -/
theorem undisturbed_onSocket_iff {event : SocketEvent}
    (created : state.sockets[index]? = some socket)
    (step : state.onSocket index socket event = some next) :
    Undisturbed state next ↔ Harmless state index socket event := by
  cases event with
  | upgrade fingerprint =>
    simp only [ConnectionState.onSocket] at step
    split at step
    · split at step
      next pinned =>
        cases step
        exact iff_of_true (.of_same rfl rfl rfl) (Or.inl pinned)
      next forged =>
        cases step
        rw [undisturbed_fail_iff created]
        exact (or_iff_right forged).symm
    · cases step
  | opens =>
    simp only [ConnectionState.onSocket] at step
    split at step
    · cases step
      exact iff_of_true (.of_same rfl rfl rfl) trivial
    · cases step
  | message message =>
    simp only [ConnectionState.onSocket] at step
    split at step
    · cases step
      exact undisturbed_onMessage_iff created
    · cases step
  | peerCloses =>
    simp only [ConnectionState.onSocket] at step
    split at step
    · cases step
      exact iff_of_true (.of_same rfl rfl rfl) trivial
    · cases step
  | closes =>
    simp only [ConnectionState.onSocket] at step
    split at step
    · cases step
    · cases step
      exact undisturbed_onClose_iff
  | errors =>
    simp only [ConnectionState.onSocket] at step
    split at step
    · cases step
    · cases step
      rw [undisturbed_modifySocket_iff]
      exact undisturbed_fail_iff created

end Events

/-! ## The session of the newest socket -/

section Session

variable {state next : ConnectionState} {index : Nat} {socket : Socket}
  {attemptId : Nat}

/-- No attempt is parked that was not parked before. -/
def ParksNone (before after : ConnectionState) : Prop :=
  ∀ attemptId, after.metadata.lookup attemptId = some .orphaned →
    before.metadata.lookup attemptId = some .orphaned

theorem ParksNone.of_same (metadata : next.metadata = state.metadata) :
    ParksNone state next :=
  fun attemptId parked => by rwa [metadata] at parked

theorem ParksNone.trans {middle : ConnectionState}
    (first : ParksNone state middle) (second : ParksNone middle next) :
    ParksNone state next :=
  fun attemptId parked => first attemptId (second attemptId parked)

theorem parksNone_writeStatus {status : MetadataStatus}
    (written : status = .orphaned →
      state.metadata.lookup attemptId = some .orphaned) :
    ParksNone state (state.writeStatus attemptId status) := by
  intro name parked
  rw [lookup_writeStatus] at parked
  split at parked
  next same =>
    rw [same]
    exact written (Option.some.inj parked)
  next => exact parked

theorem metadata_fail : (state.fail index).metadata = state.metadata := by
  unfold ConnectionState.fail
  split
  · rfl
  · split <;> rfl

theorem metadata_onHelloAck (status : HelloStatus) :
    (state.onHelloAck index socket status).metadata = state.metadata := by
  unfold ConnectionState.onHelloAck ConnectionState.authenticate
  cases status with
  | authenticated => cases state.executor <;> rfl
  | rejected =>
    dsimp only
    split <;> rfl
  | _ => rfl

theorem adoptedStatus_orphaned {decision : ReconcileDecision}
    {status : MetadataStatus}
    (parked :
      ConnectionState.adoptedStatus decision status = .orphaned) :
    status = .orphaned := by
  unfold ConnectionState.adoptedStatus at parked
  split at parked
  · cases parked
  · split at parked
    · cases parked
    · exact parked

theorem parksNone_onMessage (message : Message) :
    ParksNone state (state.onMessage index socket message) := by
  unfold ConnectionState.onMessage
  cases message with
  | unreadable => exact .of_same metadata_fail
  | pairingChallenge => exact .of_same rfl
  | helloAck status => exact .of_same (metadata_onHelloAck status)
  | leaseOffer attemptId underPressure =>
    dsimp only
    split
    · exact .of_same rfl
    · unfold ConnectionState.handleLeaseOffer
      split
      · have writes :
            ParksNone state (state.writeStatus attemptId .accepted) :=
          parksNone_writeStatus (fun same => by cases same)
        exact fun name parked => writes name parked
      · exact .of_same rfl
  | reconcileDecision decision =>
    dsimp only
    split
    · exact .of_same rfl
    · unfold ConnectionState.handleReconcileDecision
      split
      · dsimp only
        split <;> exact .of_same rfl
      · split
        · exact .of_same rfl
        next status found =>
          apply parksNone_writeStatus
          intro parked
          rw [found, adoptedStatus_orphaned parked]
  | jobCommand => exact .of_same rfl

/-- Of the events of a socket only its close parks attempts. -/
theorem parksNone_onSocket {event : SocketEvent}
    (step : state.onSocket index socket event = some next)
    (stays : event ≠ .closes) : ParksNone state next := by
  cases event with
  | closes => exact absurd rfl stays
  | message message =>
    simp only [ConnectionState.onSocket] at step
    split at step
    · cases step
      exact parksNone_onMessage message
    · cases step
  | upgrade fingerprint =>
    simp only [ConnectionState.onSocket] at step
    split at step
    · split at step
      · cases step
        exact .of_same rfl
      · cases step
        exact .of_same metadata_fail
    · cases step
  | errors =>
    simp only [ConnectionState.onSocket] at step
    split at step
    · cases step
    · cases step
      exact .of_same metadata_fail
  | _ =>
    simp only [ConnectionState.onSocket] at step
    split at step
    · cases step
      exact .of_same rfl
    · cases step

/-- The timer and the recovery coordinator belong to one socket. -/
def SessionOf (newer : Nat) (state : ConnectionState) : Prop :=
  state.heartbeatTimer = some newer ∧ state.recoverySocket = some newer

theorem sessionOf_onMessage {message : Message}
    (session : SessionOf index state) (readable : message ≠ .unreadable) :
    SessionOf index (state.onMessage index socket message) := by
  unfold ConnectionState.onMessage
  cases message with
  | unreadable => exact absurd rfl readable
  | pairingChallenge => exact session
  | helloAck status =>
    unfold ConnectionState.onHelloAck ConnectionState.authenticate
    cases status with
    | authenticated =>
      refine ⟨rfl, ?_⟩
      cases state.executor <;> rfl
    | rejected =>
      dsimp only
      split <;> exact session
    | _ => exact session
  | leaseOffer attemptId underPressure =>
    dsimp only
    split
    · exact session
    · unfold ConnectionState.handleLeaseOffer
      split <;> exact session
  | reconcileDecision decision =>
    dsimp only
    split
    · exact session
    · unfold ConnectionState.handleReconcileDecision
      split
      · dsimp only
        split <;> exact session
      · split <;> exact session
  | jobCommand => exact session

end Session

/-- Steps that let the session of a socket go on: the events of the other
sockets are harmless, and its own socket stays open and is understood. -/
def Sparing (newer : Nat) (state : ConnectionState) : Event → Prop
  | .connectOnce => True
  | .setControllerUrl _ => True
  | .dropIfOpenToOtherUrl controllerUrl =>
    state.connectedUrl = some controllerUrl
  | .close _ => False
  | .socket index event =>
    (∀ socket, state.sockets[index]? = some socket →
      Harmless state index socket event) ∨
      index = newer ∧ ∃ message, event = .message message ∧
        message ≠ .unreadable
  | .heartbeatTick =>
    state.sockets[newer]?.map Socket.readyState = some .opened
  | .executor _ => True

theorem harmless_closes_off {state : ConnectionState} {newer index : Nat}
    {socket : Socket} (session : SessionOf newer state) :
    ¬ Harmless state index socket .closes := by
  rintro ⟨stopped, _⟩
  cases session.1.symm.trans stopped

/-- A sparing step keeps the session and parks no attempt of it. -/
theorem sessionOf_step {newer : Nat} {state next : ConnectionState}
    {event : Event} (session : SessionOf newer state)
    (sparing : Sparing newer state event)
    (step : connectionMachine.step state event = some next) :
    SessionOf newer next ∧ ParksNone state next := by
  cases event with
  | connectOnce =>
    cases step
    exact ⟨session, .of_same rfl⟩
  | setControllerUrl controllerUrl =>
    cases step
    exact ⟨session, .of_same rfl⟩
  | dropIfOpenToOtherUrl controllerUrl =>
    have same : state.dropIfOpenToOtherUrl controllerUrl = state := by
      have connected : state.connectedUrl = some controllerUrl := sparing
      unfold ConnectionState.dropIfOpenToOtherUrl
      split
      · rfl
      · split
        · rfl
        · rw [if_pos connected, ite_self]
    cases step
    rw [same]
    exact ⟨session, .of_same rfl⟩
  | close killProcess => exact absurd sparing id
  | socket index event =>
    simp only [connectionMachine] at step
    split at step
    · cases step
    next socket created =>
      rcases sparing with harmless | ⟨own, message, spoken, readable⟩
      · have spares := harmless socket created
        have undisturbed :=
          (undisturbed_onSocket_iff created step).mpr spares
        refine ⟨⟨undisturbed.heartbeatTimer.trans session.1,
          undisturbed.recoverySocket.trans session.2⟩, ?_⟩
        apply parksNone_onSocket step
        rintro rfl
        exact harmless_closes_off session spares
      · subst own spoken
        refine ⟨?_, parksNone_onSocket step nofun⟩
        simp only [ConnectionState.onSocket] at step
        split at step
        · cases step
          exact sessionOf_onMessage session readable
        · cases step
  | heartbeatTick =>
    have opened : state.sockets[newer]?.map Socket.readyState =
      some .opened := sparing
    simp only [connectionMachine, ConnectionState.onHeartbeatTick,
      session.1, opened, if_pos] at step
    cases step
    exact ⟨session, .of_same rfl⟩
  | executor stage =>
    simp only [connectionMachine] at step
    split at step
    · cases step
    · cases step
      cases stage with
      | started attemptId =>
        have writes :
            ParksNone state (state.writeStatus attemptId .running) :=
          parksNone_writeStatus (fun same => by cases same)
        exact ⟨session, fun name parked => writes name parked⟩
      | exited attemptId =>
        exact ⟨session,
          parksNone_writeStatus (fun same => by cases same)⟩
      | ended attemptId =>
        exact ⟨session,
          parksNone_writeStatus (fun same => by cases same)⟩
      | removed attemptId =>
        refine ⟨session, ?_⟩
        intro name parked
        by_cases same : name = attemptId
        · subst same
          cases (AList.lookup_erase name state.metadata).symm.trans
            parked
        · exact (AList.lookup_erase_ne same).symm.trans parked
      | cleared attemptId => exact ⟨session, .of_same rfl⟩

/-- A connection that was never paired. -/
def unpairedConnection : ConnectionState where
  controllerUrl := "wss://controller"
  expectedFingerprint := "sha256:aa"
  maxJobs := 1
  storedCredential := none
  sockets := []
  socket := none
  connectedUrl := none
  executor := none
  recoverySocket := none
  rejectedAttempts := []
  heartbeatTimer := none
  metadata := ∅
  authenticated := []

/-- The first socket is told that the pairing is pending and is closed; the
second one is approved, authenticates and runs an attempt. -/
def pairedRun : List Event :=
  [.connectOnce, .socket 0 .opens,
    .socket 0 (.message (.helloAck .pairingPending)), .close false,
    .connectOnce, .socket 1 .opens,
    .socket 1 (.message (.helloAck (.pairingApproved "credential"))),
    .socket 1 (.message (.helloAck .authenticated)),
    .socket 1 (.message (.leaseOffer 7 false)), .executor (.started 7)]

/-- The shared fields with the status of the attempt. -/
def sessionView (state : ConnectionState) :
    Option Nat × Option Nat × Option MetadataStatus × List Nat ×
      List Nat :=
  (state.heartbeatTimer, state.recoverySocket, state.metadata.lookup 7,
    (state.executor.map Executor.attempts).getD [], state.authenticated)

theorem pairedRun_state :
    ∃ state next,
      connectionMachine.run unpairedConnection pairedRun = some state ∧
        connectionMachine.step state (.socket 0 .closes) = some next ∧
        sessionView state = (some 1, some 1, some .running, [7], [1]) ∧
        sessionView next = (none, none, some .orphaned, [7], [1]) := by
  have before :
      (connectionMachine.run unpairedConnection pairedRun).map sessionView =
        some (some 1, some 1, some .running, [7], [1]) := by
    decide +kernel
  have after :
      (connectionMachine.run unpairedConnection
          (pairedRun ++ [.socket 0 .closes])).map sessionView =
        some (none, none, some .orphaned, [7], [1]) := by
    decide +kernel
  rcases Option.map_eq_some_iff.mp before with ⟨state, ran, view⟩
  rcases Option.map_eq_some_iff.mp after with ⟨next, went, lost⟩
  rw [Machine.run_append, ran, Option.bind_some,
    Machine.run_single] at went
  exact ⟨state, next, ran, went, view, lost⟩

end Rbo.Agent.Connection
