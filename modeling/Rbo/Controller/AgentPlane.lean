import Mathlib.Data.List.AList
import Rbo.Controller.RecoveryReports

/-!
# The sockets of the agents

An agent says hello with a credential, answers the challenge and is then
connected through the socket it did so on.  The table of connected agents is
keyed by the agent, while the handler of a socket's close event knows only the
last agent that was authenticated there.
-/

namespace Rbo.Controller.AgentPlane

open Rbo.Foundation
open Rbo.Controller

/-! ## Sockets and sessions -/

/-- An entry of `connectedAgents`. -/
structure ConnectedAgent where
  agentId : Nat
  socket : Nat
  lastHeartbeatAt : Nat
  deriving DecidableEq

abbrev ConnectedAgents := AList fun _ : Nat => ConnectedAgent

/-- What the handlers of one socket share. -/
structure Session where
  authenticated : Option ConnectedAgent
  pendingNonce : Option Nat
  pendingCredential : Option String
  terminated : Bool
  closed : Bool
  deriving DecidableEq

/-- The agent plane; `latest` records the last socket on which each agent was
authenticated, which the source does not keep. -/
structure Plane where
  sessions : List Session
  connectedAgents : ConnectedAgents
  nextNonce : Nat
  clock : Nat
  latest : AList fun _ : Nat => Nat

structure VersionHandshake where
  minVersion : Int
  maxVersion : Int
  deriving DecidableEq

def wireProtocolMinVersion : Int := 1

def wireProtocolMaxVersion : Int := 1

def negotiateProtocolVersion (agent : VersionHandshake) : Option Int :=
  let lowest := max wireProtocolMinVersion agent.minVersion
  let highest := min wireProtocolMaxVersion agent.maxVersion
  if lowest ≤ highest then some highest else none

/-- The messages of a socket.  A challenge response carries the agent that
`verifyAgentCredential` and the signature of the nonce vouch for. -/
inductive Message where
  | invalidJson
  | hello (versions : VersionHandshake) (credential : Option String)
  | challengeResponse (verified : Option Nat)
  | capabilities (restarted : Bool)
  | heartbeat
  | frame (header : Execution.LeaseHeader) (frame : Execution.Frame)
  | recoveryReport (report : Execution.RecoveryReport)
  | other
  deriving DecidableEq

inductive Event where
  | connection
  | message (socket : Nat) (message : Message)
  | checkHeartbeats (timeout : Nat)
  | tick (milliseconds : Nat)
  | close (socket : Nat)
  deriving DecidableEq

namespace Plane

variable (plane : Plane)

def setSession (socket : Nat) (session : Session) : Plane :=
  { plane with sessions := plane.sessions.set socket session }

/-- `terminate` or `close` on a socket; its close event follows. -/
def terminate (socket : Nat) : Plane :=
  { plane with
    sessions :=
      plane.sessions.modify socket fun session =>
        { session with terminated := true } }

/-- An agent is installed under its socket. -/
def install (agent : ConnectedAgent) : Plane :=
  { plane with
    connectedAgents := plane.connectedAgents.insert agent.agentId agent
    latest := plane.latest.insert agent.agentId agent.socket }

/-- `challenge_response` of a verified agent.  The new session is installed
before the socket of the previous one is terminated. -/
def authenticate (socket : Nat) (session : Session) (agentId : Nat) :
    Plane :=
  let authenticated : ConnectedAgent :=
    { agentId := agentId
      socket := socket
      lastHeartbeatAt := plane.clock }
  let installed :=
    (plane.setSession socket
      { session with
        authenticated := some authenticated
        pendingNonce := none
        pendingCredential := none }).install authenticated
  match plane.connectedAgents.lookup agentId with
  | none => installed
  | some previous =>
    if previous.socket ≠ socket then installed.terminate previous.socket
    else installed

def handleHello (socket : Nat) (session : Session)
    (versions : VersionHandshake) (credential : Option String) :
    Plane :=
  match negotiateProtocolVersion versions with
  | none => plane
  | some _ =>
    match credential with
    | none => plane
    | some credential =>
      if credential = "" then plane
      else
        { plane.setSession socket
            { session with
              pendingNonce := some plane.nextNonce
              pendingCredential := some credential } with
          nextNonce := plane.nextNonce + 1 }

def handleChallengeResponse (socket : Nat) (session : Session)
    (verified : Option Nat) : Plane :=
  if session.pendingNonce = none ∨ session.pendingCredential = none then
    plane
  else
    match verified with
    | none =>
      plane.setSession socket
        { session with
          pendingNonce := none
          pendingCredential := none }
    | some agentId => plane.authenticate socket session agentId

/-- A heartbeat of an authenticated agent.  The session and its entry in the
table are one object. -/
def handleHeartbeat (socket : Nat) (session : Session)
    (agent : ConnectedAgent) : Plane :=
  let beating := { agent with lastHeartbeatAt := plane.clock }
  let alive :=
    plane.setSession socket { session with authenticated := some beating }
  match plane.connectedAgents.lookup agent.agentId with
  | none => alive
  | some current =>
    if current.socket = socket then
      { alive with
        connectedAgents :=
          plane.connectedAgents.insert agent.agentId beating }
    else alive

/-- The message handler of a socket. -/
def handleMessage (socket : Nat) (session : Session) :
    Message → Plane
  | .invalidJson => plane.terminate socket
  | .hello versions credential =>
    plane.handleHello socket session versions credential
  | .challengeResponse verified =>
    plane.handleChallengeResponse socket session verified
  | .heartbeat =>
    match session.authenticated with
    | none => plane
    | some agent => plane.handleHeartbeat socket session agent
  | _ => plane

def checkHeartbeats (timeout : Nat) : Plane :=
  plane.connectedAgents.entries.foldl
    (fun after entry =>
      if timeout < plane.clock - entry.2.lastHeartbeatAt then
        after.terminate entry.2.socket
      else after) plane

/-- The handler of a socket's close event. -/
def handleClose (socket : Nat) (session : Session) : Plane :=
  let closed := plane.setSession socket { session with closed := true }
  match session.authenticated with
  | none => closed
  | some agent =>
    match plane.connectedAgents.lookup agent.agentId with
    | none => closed
    | some current =>
      if current.socket ≠ socket then closed
      else
        { closed with
          connectedAgents := plane.connectedAgents.erase agent.agentId }

/-- The session of a socket whose close event has not been handled. -/
def openSession (socket : Nat) : Option Session :=
  plane.sessions[socket]?.filter fun session => !session.closed

def next : Event → Option Plane
  | .connection =>
    some
      { plane with
        sessions :=
          plane.sessions ++
            [{ authenticated := none
               pendingNonce := none
               pendingCredential := none
               terminated := false
               closed := false }] }
  | .message socket message =>
    (plane.openSession socket).map fun session =>
      plane.handleMessage socket session message
  | .checkHeartbeats timeout => some (plane.checkHeartbeats timeout)
  | .tick milliseconds =>
    some { plane with clock := plane.clock + milliseconds }
  | .close socket =>
    (plane.openSession socket).map fun session =>
      plane.handleClose socket session

end Plane

def freshPlane : Plane where
  sessions := []
  connectedAgents := ∅
  nextNonce := 0
  clock := 0
  latest := ∅

def planeMachine : Machine Plane Event where
  initial plane := plane = freshPlane
  step := Plane.next

/-! ## What a step changes -/

/-- The agent that a socket is authenticated as, and whether its close event
was handled. -/
def Plane.view (plane : Plane) (socket : Nat) :
    Option (Option ConnectedAgent × Bool) :=
  plane.sessions[socket]?.map fun session =>
    (session.authenticated, session.closed)

/-- Planes that differ in nonces, clocks and terminations only. -/
structure Alike (plane next : Plane) : Prop where
  view : ∀ socket, next.view socket = plane.view socket
  connectedAgents : next.connectedAgents = plane.connectedAgents
  latest : next.latest = plane.latest

section Views

variable {plane next : Plane} {socket : Nat} {session : Session}

theorem Alike.refl : Alike plane plane :=
  ⟨fun _ => rfl, rfl, rfl⟩

theorem Alike.trans {last : Plane} (first : Alike plane next)
    (second : Alike next last) : Alike plane last :=
  ⟨fun socket => (second.view socket).trans (first.view socket),
    second.connectedAgents.trans first.connectedAgents,
    second.latest.trans first.latest⟩

theorem openSession_eq_some :
    plane.openSession socket = some session ↔
      plane.sessions[socket]? = some session ∧ session.closed = false := by
  unfold Plane.openSession
  rw [Option.filter_eq_some_iff, Bool.not_eq_true']

theorem view_of_open (opened : plane.openSession socket = some session) :
    plane.view socket = some (session.authenticated, false) := by
  rcases openSession_eq_some.mp opened with ⟨stored, still⟩
  unfold Plane.view
  rw [stored, Option.map_some, still]

theorem view_setSession (opened : plane.openSession socket = some session)
    (changed : Session) (other : Nat) :
    (plane.setSession socket changed).view other =
      if other = socket then some (changed.authenticated, changed.closed)
      else plane.view other := by
  rcases openSession_eq_some.mp opened with ⟨stored, _⟩
  have inside : socket < plane.sessions.length :=
    (List.getElem?_eq_some_iff.mp stored).1
  unfold Plane.view Plane.setSession
  dsimp only
  by_cases same : other = socket
  · subst same
    rw [if_pos rfl, List.getElem?_set_self inside, Option.map_some]
  · rw [if_neg same, List.getElem?_set_ne (Ne.symm same)]

/-- A session that keeps its agent and is not closed looks the same. -/
theorem alike_setSession (opened : plane.openSession socket = some session)
    {changed : Session}
    (same : changed.authenticated = session.authenticated)
    (still : changed.closed = session.closed) :
    Alike plane (plane.setSession socket changed) := by
  refine ⟨?_, rfl, rfl⟩
  intro other
  rw [view_setSession opened]
  split
  next own =>
    rw [own, view_of_open opened, same, still,
      (openSession_eq_some.mp opened).2]
  next => rfl

theorem alike_terminate (name : Nat) : Alike plane (plane.terminate name) := by
  refine ⟨?_, rfl, rfl⟩
  intro other
  unfold Plane.view Plane.terminate
  dsimp only
  rw [List.getElem?_modify, Option.map_eq_map, Option.map_map]
  congr 1
  funext session
  show ((if name = other then _ else session : Session).authenticated,
    (if name = other then _ else session : Session).closed) = _
  split <;> rfl

theorem alike_checkHeartbeats (timeout : Nat) :
    Alike plane (plane.checkHeartbeats timeout) := by
  apply List.foldlRecOn _ _ (motive := fun after => Alike plane after)
    Alike.refl
  intro after alike entry _
  split
  · exact alike.trans (alike_terminate _)
  · exact alike

theorem alike_handleHello (opened : plane.openSession socket = some session)
    (versions : VersionHandshake) (credential : Option String) :
    Alike plane (plane.handleHello socket session versions credential) := by
  unfold Plane.handleHello
  split
  · exact Alike.refl
  · split
    · exact Alike.refl
    next given =>
      split
      · exact Alike.refl
      · have challenged : Alike plane (plane.setSession socket
            { session with
              pendingNonce := some plane.nextNonce
              pendingCredential := some given }) :=
          alike_setSession opened rfl rfl
        exact ⟨challenged.view, rfl, rfl⟩

/-- An authentication installs the agent under its socket. -/
theorem view_authenticate
    (opened : plane.openSession socket = some session) (agentId : Nat) :
    let agent : ConnectedAgent :=
      { agentId := agentId
        socket := socket
        lastHeartbeatAt := plane.clock }
    let next := plane.authenticate socket session agentId
    (∀ other, next.view other =
      if other = socket then some (some agent, false)
      else plane.view other) ∧
    next.connectedAgents = plane.connectedAgents.insert agentId agent ∧
    next.latest = plane.latest.insert agentId socket := by
  intro agent
  have still := (openSession_eq_some.mp opened).2
  have installed : ∀ other,
      ((plane.setSession socket
        { session with
          authenticated := some agent
          pendingNonce := none
          pendingCredential := none }).install agent).view other =
        if other = socket then some (some agent, false)
        else plane.view other := by
    intro other
    rw [← still]
    exact view_setSession opened _ other
  unfold Plane.authenticate
  dsimp only
  split
  · exact ⟨installed, rfl, rfl⟩
  · split
    · have terminated : ∀ name, Alike
          ((plane.setSession socket
            { session with
              authenticated := some agent
              pendingNonce := none
              pendingCredential := none }).install agent)
          (((plane.setSession socket
            { session with
              authenticated := some agent
              pendingNonce := none
              pendingCredential := none }).install agent).terminate name) :=
        alike_terminate
      exact ⟨fun other => (terminated _).view other ▸ installed other,
        rfl, rfl⟩
    · exact ⟨installed, rfl, rfl⟩

end Views

/-! ## The table and the sockets -/

/-- Every entry refers to an open socket, on which its agent is
authenticated. -/
def Open (plane : Plane) : Prop :=
  ∀ agentId entry, plane.connectedAgents.lookup agentId = some entry →
    entry.agentId = agentId ∧
      plane.view entry.socket = some (some entry, false)

/-- An agent has an entry for the last socket it was authenticated on, while
that socket is open. -/
def Latest (plane : Plane) : Prop :=
  ∀ agentId socket authenticated,
    plane.latest.lookup agentId = some socket →
    plane.view socket = some (authenticated, false) →
    ∃ entry, plane.connectedAgents.lookup agentId = some entry ∧
      entry.socket = socket

/-- `connectedAgents` mirrors the open authenticated sockets. -/
structure Mirrors (plane : Plane) : Prop where
  gone : ∀ socket session, plane.sessions[socket]? = some session →
    session.closed = true → ∀ agentId entry,
      plane.connectedAgents.lookup agentId = some entry →
      entry.socket ≠ socket
  latest : ∀ agentId socket session,
    plane.latest.lookup agentId = some socket →
    plane.sessions[socket]? = some session → session.closed = false →
    ∃ entry, plane.connectedAgents.lookup agentId = some entry ∧
      entry.socket = socket

/-- A socket is authenticated as another agent only when the entry of its
agent does not refer to it. -/
def KeepsAgent (plane : Plane) : Event → Prop
  | .message socket (.challengeResponse (some agentId)) =>
    ∀ session agent current,
      plane.openSession socket = some session →
      session.pendingNonce ≠ none → session.pendingCredential ≠ none →
      session.authenticated = some agent → agent.agentId ≠ agentId →
      plane.connectedAgents.lookup agent.agentId = some current →
      current.socket ≠ socket
  | _ => True

section Invariants

variable {plane next : Plane} {socket : Nat} {session : Session}

theorem Open.of_alike (opened : Open plane) (alike : Alike plane next) :
    Open next := by
  intro agentId entry found
  rw [alike.connectedAgents] at found
  rw [alike.view]
  exact opened agentId entry found

theorem Latest.of_alike (latest : Latest plane) (alike : Alike plane next) :
    Latest next := by
  intro agentId socket authenticated last seen
  rw [alike.latest] at last
  rw [alike.view] at seen
  rw [alike.connectedAgents]
  exact latest agentId socket authenticated last seen

theorem mirrors_of_invariants (opened : Open plane)
    (latest : Latest plane) : Mirrors plane := by
  constructor
  · rintro socket session stored closed agentId entry found rfl
    have seen := (opened agentId entry found).2
    unfold Plane.view at seen
    rw [stored, Option.map_some, Option.some.injEq, Prod.mk.injEq,
      closed] at seen
    exact absurd seen.2 (by decide)
  · intro agentId socket session last stored still
    apply latest agentId socket session.authenticated last
    unfold Plane.view
    rw [stored, Option.map_some, still]

theorem latest_authenticate (latest : Latest plane)
    (opening : plane.openSession socket = some session) (agentId : Nat) :
    Latest (plane.authenticate socket session agentId) := by
  rcases view_authenticate opening agentId with ⟨view, table, lasts⟩
  intro name other authenticated last seen
  rw [lasts] at last
  rw [table]
  by_cases same : name = agentId
  · subst same
    rw [AList.lookup_insert, Option.some.injEq] at last
    exact ⟨_, AList.lookup_insert _, last⟩
  · rw [AList.lookup_insert_ne same] at last ⊢
    rw [view] at seen
    by_cases own : other = socket
    · subst own
      exact latest name other _ last (view_of_open opening)
    · rw [if_neg own] at seen
      exact latest name other authenticated last seen

theorem open_authenticate (opened : Open plane)
    (opening : plane.openSession socket = some session) {agentId : Nat}
    (keeps : ∀ agent current, session.authenticated = some agent →
      agent.agentId ≠ agentId →
      plane.connectedAgents.lookup agent.agentId = some current →
      current.socket ≠ socket) :
    Open (plane.authenticate socket session agentId) := by
  rcases view_authenticate opening agentId with ⟨view, table, _⟩
  intro name entry found
  rw [table] at found
  rw [view]
  by_cases same : name = agentId
  · subst same
    rw [AList.lookup_insert, Option.some.injEq] at found
    subst found
    exact ⟨rfl, if_pos rfl⟩
  · rw [AList.lookup_insert_ne same] at found
    rcases opened name entry found with ⟨named, seen⟩
    refine ⟨named, ?_⟩
    rw [if_neg, seen]
    intro own
    rw [own, view_of_open opening, Option.some.injEq, Prod.mk.injEq] at seen
    apply keeps entry entry seen.1 _ (named ▸ found) own
    rw [named]
    exact same

/-- A heartbeat renews the session and the entry that is the same object. -/
theorem view_handleHeartbeat
    (opening : plane.openSession socket = some session)
    (agent : ConnectedAgent) :
    let beating := { agent with lastHeartbeatAt := plane.clock }
    let next := plane.handleHeartbeat socket session agent
    (∀ other, next.view other =
      if other = socket then some (some beating, false)
      else plane.view other) ∧
    next.latest = plane.latest ∧
    ∀ name, next.connectedAgents.lookup name =
      if name = agent.agentId ∧
          ∃ current, plane.connectedAgents.lookup name = some current ∧
            current.socket = socket then some beating
      else plane.connectedAgents.lookup name := by
  intro beating
  have renewed : ∀ other,
      (plane.setSession socket
        { session with authenticated := some beating }).view other =
        if other = socket then some (some beating, false)
        else plane.view other := by
    intro other
    rw [← (openSession_eq_some.mp opening).2]
    exact view_setSession opening _ other
  unfold Plane.handleHeartbeat
  dsimp only
  split
  next absent =>
    refine ⟨renewed, rfl, ?_⟩
    intro name
    rw [if_neg]
    · rfl
    · rintro ⟨rfl, current, found, _⟩
      rw [absent] at found
      cases found
  next current found =>
    split
    next own =>
      refine ⟨renewed, rfl, ?_⟩
      intro name
      by_cases same : name = agent.agentId
      · subst same
        rw [if_pos ⟨rfl, current, found, own⟩]
        exact AList.lookup_insert _
      · rw [if_neg fun both => same both.1]
        exact AList.lookup_insert_ne same
    next other =>
      refine ⟨renewed, rfl, ?_⟩
      intro name
      rw [if_neg]
      · rfl
      · rintro ⟨rfl, again, there, own⟩
        rw [found, Option.some.injEq] at there
        exact other (there ▸ own)

theorem open_handleHeartbeat (opened : Open plane)
    (opening : plane.openSession socket = some session)
    {agent : ConnectedAgent} (is : session.authenticated = some agent) :
    Open (plane.handleHeartbeat socket session agent) := by
  rcases view_handleHeartbeat opening agent with ⟨view, _, table⟩
  have own : plane.view socket = some (some agent, false) :=
    is ▸ view_of_open opening
  intro name entry found
  rw [table] at found
  split at found
  next renewed =>
    rcases renewed with ⟨named, current, there, at_socket⟩
    cases found
    have seen := (opened name current there).2
    rw [at_socket, own, Option.some.injEq, Prod.mk.injEq,
      Option.some.injEq] at seen
    refine ⟨named.symm, ?_⟩
    rw [view, if_pos]
    rw [← at_socket, ← seen.1]
  next kept =>
    rcases opened name entry found with ⟨named, seen⟩
    refine ⟨named, ?_⟩
    rw [view, if_neg, seen]
    intro at_socket
    rw [at_socket, own, Option.some.injEq, Prod.mk.injEq,
      Option.some.injEq] at seen
    apply kept
    rw [seen.1]
    exact ⟨named.symm, entry, found, at_socket⟩

theorem latest_handleHeartbeat (latest : Latest plane)
    (opening : plane.openSession socket = some session)
    {agent : ConnectedAgent} (own : agent.socket = socket) :
    Latest (plane.handleHeartbeat socket session agent) := by
  rcases view_handleHeartbeat opening agent with ⟨view, lasts, table⟩
  intro name other authenticated last seen
  rw [lasts] at last
  have before : ∃ earlier, plane.view other = some (earlier, false) := by
    rw [view] at seen
    split at seen
    next same => exact ⟨_, same ▸ view_of_open opening⟩
    next => exact ⟨_, seen⟩
  rcases before with ⟨earlier, still⟩
  rcases latest name other earlier last still with ⟨entry, found, there⟩
  rw [table]
  split
  next renewed =>
    rcases renewed with ⟨_, current, again, at_socket⟩
    rw [found, Option.some.injEq] at again
    refine ⟨_, rfl, own.trans ?_⟩
    rw [← at_socket, ← again, there]
  next => exact ⟨entry, found, there⟩

/-- A close event drops the entry of the agent when it is for this socket. -/
theorem view_handleClose (opening : plane.openSession socket = some session) :
    let next := plane.handleClose socket session
    (∀ other, next.view other =
      if other = socket then some (session.authenticated, true)
      else plane.view other) ∧
    next.latest = plane.latest ∧
    ∀ name, next.connectedAgents.lookup name =
      if session.authenticated.map ConnectedAgent.agentId = some name ∧
          (plane.connectedAgents.lookup name).map ConnectedAgent.socket =
            some socket then none
      else plane.connectedAgents.lookup name := by
  have closed : ∀ other,
      (plane.setSession socket { session with closed := true }).view other =
        if other = socket then some (session.authenticated, true)
        else plane.view other := view_setSession opening _
  unfold Plane.handleClose
  dsimp only
  split
  next anonymous =>
    refine ⟨closed, rfl, ?_⟩
    intro name
    rw [if_neg]
    · rfl
    · rw [anonymous]
      nofun
  next agent is =>
    rw [is] at closed ⊢
    split
    next absent =>
      refine ⟨closed, rfl, ?_⟩
      intro name
      rw [if_neg]
      · rfl
      · rintro ⟨named, found⟩
        rw [← Option.some.inj named, absent] at found
        cases found
    next current found =>
      split
      next elsewhere =>
        refine ⟨closed, rfl, ?_⟩
        intro name
        rw [if_neg]
        · rfl
        · rintro ⟨named, there⟩
          rw [← Option.some.inj named, found] at there
          exact elsewhere (Option.some.inj there)
      next here =>
        refine ⟨closed, rfl, ?_⟩
        intro name
        by_cases same : agent.agentId = name
        · subst same
          rw [if_pos]
          · exact AList.lookup_erase _ _
          · rw [found]
            exact ⟨rfl, congrArg some (Decidable.not_not.mp here)⟩
        · rw [if_neg fun both => same (Option.some.inj both.1)]
          exact AList.lookup_erase_ne (Ne.symm same)

theorem open_handleClose (opened : Open plane)
    (opening : plane.openSession socket = some session) :
    Open (plane.handleClose socket session) := by
  rcases view_handleClose opening with ⟨view, _, table⟩
  intro name entry found
  rw [table] at found
  split at found
  · cases found
  next kept =>
    rcases opened name entry found with ⟨named, seen⟩
    refine ⟨named, ?_⟩
    rw [view, if_neg, seen]
    intro own
    rw [own, view_of_open opening, Option.some.injEq,
      Prod.mk.injEq] at seen
    apply kept
    rw [seen.1, found]
    exact ⟨congrArg some named, congrArg some own⟩

theorem latest_handleClose (latest : Latest plane)
    (opening : plane.openSession socket = some session) :
    Latest (plane.handleClose socket session) := by
  rcases view_handleClose opening with ⟨view, lasts, table⟩
  intro name other authenticated last seen
  rw [lasts] at last
  rw [view] at seen
  split at seen
  · cases seen
  next elsewhere =>
    rcases latest name other authenticated last seen with
      ⟨entry, found, there⟩
    refine ⟨entry, ?_, there⟩
    rw [table, if_neg, found]
    rintro ⟨_, own⟩
    rw [found, Option.map_some, Option.some.injEq, there] at own
    exact elsewhere own

/-- A session carries its own socket. -/
def OwnSocket (plane : Plane) : Prop :=
  ∀ socket agent closed, plane.view socket = some (some agent, closed) →
    agent.socket = socket

theorem OwnSocket.of_alike (own : OwnSocket plane)
    (alike : Alike plane next) : OwnSocket next := by
  intro socket agent closed seen
  rw [alike.view] at seen
  exact own socket agent closed seen

/-- A challenge response is idle, or it authenticates an agent. -/
theorem handleChallengeResponse_cases
    (opening : plane.openSession socket = some session)
    (verified : Option Nat) :
    Alike plane (plane.handleChallengeResponse socket session verified) ∨
      ∃ agentId, verified = some agentId ∧ session.pendingNonce ≠ none ∧
        session.pendingCredential ≠ none ∧
        plane.handleChallengeResponse socket session verified =
          plane.authenticate socket session agentId := by
  unfold Plane.handleChallengeResponse
  split
  · exact Or.inl Alike.refl
  next pending =>
    rw [not_or] at pending
    cases verified with
    | none => exact Or.inl (alike_setSession opening rfl rfl)
    | some agentId =>
      exact Or.inr ⟨agentId, rfl, pending.1, pending.2, rfl⟩

/-- What a step does to the sockets and the table. -/
inductive Does (plane : Plane) : Event → Plane → Prop
  | idle {event : Event} {next : Plane} (alike : Alike plane next) :
      Does plane event next
  | opens : Does plane .connection
      { plane with
        sessions := plane.sessions ++
          [{ authenticated := none
             pendingNonce := none
             pendingCredential := none
             terminated := false
             closed := false }] }
  | authenticates {socket agentId : Nat} {session : Session}
      (opening : plane.openSession socket = some session)
      (nonce : session.pendingNonce ≠ none)
      (credential : session.pendingCredential ≠ none) :
      Does plane (.message socket (.challengeResponse (some agentId)))
        (plane.authenticate socket session agentId)
  | beats {socket : Nat} {session : Session} {agent : ConnectedAgent}
      (opening : plane.openSession socket = some session)
      (is : session.authenticated = some agent) :
      Does plane (.message socket .heartbeat)
        (plane.handleHeartbeat socket session agent)
  | closes {socket : Nat} {session : Session}
      (opening : plane.openSession socket = some session) :
      Does plane (.close socket) (plane.handleClose socket session)

theorem does_of_step {event : Event}
    (step : planeMachine.step plane event = some next) :
    Does plane event next := by
  cases event with
  | connection =>
    cases step
    exact .opens
  | message socket message =>
    rcases Option.map_eq_some_iff.mp step with ⟨session, opening, rfl⟩
    cases message with
    | invalidJson => exact .idle (alike_terminate socket)
    | hello versions credential =>
      exact .idle (alike_handleHello opening versions credential)
    | challengeResponse verified =>
      rcases handleChallengeResponse_cases opening verified with
        alike | ⟨agentId, rfl, nonce, credential, authenticates⟩
      · exact .idle alike
      · show Does plane _
          (plane.handleChallengeResponse socket session (some agentId))
        rw [authenticates]
        exact .authenticates opening nonce credential
    | heartbeat =>
      show Does plane _ (match session.authenticated with
        | none => plane
        | some agent => plane.handleHeartbeat socket session agent)
      split
      · exact .idle Alike.refl
      next agent is => exact .beats opening is
    | _ => exact .idle Alike.refl
  | checkHeartbeats timeout =>
    cases step
    exact .idle (alike_checkHeartbeats timeout)
  | tick milliseconds =>
    cases step
    exact .idle ⟨fun _ => rfl, rfl, rfl⟩
  | close socket =>
    rcases Option.map_eq_some_iff.mp step with ⟨session, opening, rfl⟩
    exact .closes opening

theorem view_connection {fresh : Session} {other : Nat}
    {seen : Option ConnectedAgent × Bool}
    (there : ({ plane with
      sessions := plane.sessions ++ [fresh] } : Plane).view other =
        some seen) :
    plane.view other = some seen ∨
      other = plane.sessions.length ∧
        seen = (fresh.authenticated, fresh.closed) := by
  unfold Plane.view at there ⊢
  dsimp only at there
  rw [List.getElem?_append] at there
  split at there
  · exact Or.inl there
  next beyond =>
    rcases Option.map_eq_some_iff.mp there with ⟨session, stored, rfl⟩
    rw [List.getElem?_singleton] at stored
    split at stored
    · cases stored
      right
      exact ⟨by omega, rfl⟩
    · cases stored

theorem step_ownSocket {event : Event} (own : OwnSocket plane)
    (step : planeMachine.step plane event = some next) : OwnSocket next := by
  cases does_of_step step with
  | idle alike => exact own.of_alike alike
  | opens =>
    intro socket agent closed seen
    rcases view_connection seen with before | ⟨_, fresh⟩
    · exact own socket agent closed before
    · cases fresh
  | authenticates opening _ _ =>
    rcases view_authenticate opening _ with ⟨view, _, _⟩
    intro other agent closed seen
    rw [view] at seen
    split at seen
    next same =>
      cases seen
      exact same.symm
    next => exact own other agent closed seen
  | beats opening is =>
    rcases view_handleHeartbeat opening _ with ⟨view, _, _⟩
    intro other agent closed seen
    rw [view] at seen
    split at seen
    next same =>
      cases seen
      have before := view_of_open opening
      rw [is] at before
      exact (own _ _ _ before).trans same.symm
    next => exact own other agent closed seen
  | closes opening =>
    rcases view_handleClose opening with ⟨view, _, _⟩
    intro other agent closed seen
    rw [view] at seen
    split at seen
    next same =>
      have before := view_of_open opening
      rw [(Prod.mk.inj (Option.some.inj seen)).1] at before
      exact (own _ _ _ before).trans same.symm
    next => exact own other agent closed seen

/-- The last socket of an agent is a socket. -/
def LatestExists (plane : Plane) : Prop :=
  ∀ agentId socket, plane.latest.lookup agentId = some socket →
    plane.view socket ≠ none

theorem step_latest {event : Event} (own : OwnSocket plane)
    (known : LatestExists plane) (latest : Latest plane)
    (step : planeMachine.step plane event = some next) : Latest next := by
  cases does_of_step step with
  | idle alike => exact latest.of_alike alike
  | opens =>
    intro agentId socket authenticated last seen
    rcases view_connection seen with before | ⟨beyond, _⟩
    · exact latest agentId socket authenticated last before
    · apply absurd _ (known agentId socket last)
      unfold Plane.view
      rw [beyond, List.getElem?_eq_none (Nat.le_refl _)]
      rfl
  | authenticates opening _ _ => exact latest_authenticate latest opening _
  | beats opening is =>
    apply latest_handleHeartbeat latest opening
    exact own _ _ _ (is ▸ view_of_open opening)
  | closes opening => exact latest_handleClose latest opening

theorem step_known {event : Event} (known : LatestExists plane)
    (step : planeMachine.step plane event = some next) :
    LatestExists next := by
  cases does_of_step step with
  | idle alike =>
    intro agentId socket last
    rw [alike.latest] at last
    rw [alike.view]
    exact known agentId socket last
  | opens =>
    intro agentId socket last missing
    apply known agentId socket last
    unfold Plane.view at missing ⊢
    rw [Option.map_eq_none_iff, List.getElem?_eq_none_iff] at missing ⊢
    dsimp only at missing
    rw [List.length_append] at missing
    omega
  | authenticates opening _ _ =>
    rcases view_authenticate opening _ with ⟨view, _, lasts⟩
    intro name other last
    rw [view]
    split
    · nofun
    next elsewhere =>
      rw [lasts] at last
      apply known name other
      rw [AList.lookup_insert_ne] at last
      · exact last
      · rintro rfl
        rw [AList.lookup_insert, Option.some.injEq] at last
        exact elsewhere last.symm
  | beats opening is =>
    rcases view_handleHeartbeat opening _ with ⟨view, lasts, _⟩
    intro name other last
    rw [lasts] at last
    rw [view]
    split
    · nofun
    · exact known name other last
  | closes opening =>
    rcases view_handleClose opening with ⟨view, lasts, _⟩
    intro name other last
    rw [lasts] at last
    rw [view]
    split
    · nofun
    · exact known name other last

theorem step_open {event : Event} (opened : Open plane)
    (keeps : KeepsAgent plane event)
    (step : planeMachine.step plane event = some next) : Open next := by
  cases does_of_step step with
  | idle alike => exact opened.of_alike alike
  | opens =>
    intro agentId entry found
    rcases opened agentId entry found with ⟨named, seen⟩
    refine ⟨named, ?_⟩
    unfold Plane.view at seen ⊢
    rcases Option.map_eq_some_iff.mp seen with ⟨session, stored, facts⟩
    dsimp only
    rw [List.getElem?_append_left
      (List.getElem?_eq_some_iff.mp stored).1, stored]
    exact congrArg some facts
  | authenticates opening nonce credential =>
    apply open_authenticate opened opening
    intro agent current is other found
    exact keeps _ agent current opening nonce credential is other found
  | beats opening is => exact open_handleHeartbeat opened opening is
  | closes opening => exact open_handleClose opened opening

end Invariants

/-- What every run keeps. -/
structure Kept (plane : Plane) : Prop where
  own : OwnSocket plane
  known : LatestExists plane
  latest : Latest plane

theorem kept_step {plane next : Plane} {event : Event} (kept : Kept plane)
    (step : planeMachine.step plane event = some next) : Kept next :=
  ⟨step_ownSocket kept.own step, step_known kept.known step,
    step_latest kept.own kept.known kept.latest step⟩

theorem kept_freshPlane : Kept freshPlane := by
  constructor
  · intro socket agent closed seen
    cases seen
  · intro agentId socket last
    cases last
  · intro agentId socket authenticated last
    cases last

/-- A reachable table and its sockets. -/
theorem reachable_open {plane : Plane}
    (reachable : planeMachine.Reachable KeepsAgent plane) :
    Kept plane ∧ Open plane := by
  have preserved : ∀ plane event next, Kept plane ∧ Open plane →
      KeepsAgent plane event →
      planeMachine.step plane event = some next → Kept next ∧ Open next :=
    fun _ _ _ both keeps step =>
      ⟨kept_step both.1 step, step_open both.2 keeps step⟩
  apply reachable.invariant _ preserved
  rintro initial rfl
  refine ⟨kept_freshPlane, ?_⟩
  intro agentId entry found
  cases found

/-- Closing a socket that changed its agent leaves the old agent's entry,
unless that entry was for another socket. -/
theorem closed_iff {plane next closed : Plane} {socket agentId : Nat}
    (opened : Open plane)
    (step : planeMachine.step plane
      (.message socket (.challengeResponse (some agentId))) = some next)
    (closing : planeMachine.step next (.close socket) = some closed) :
    (∀ name entry, closed.connectedAgents.lookup name = some entry →
        entry.socket ≠ socket) ↔
      KeepsAgent plane
        (.message socket (.challengeResponse (some agentId))) := by
  rcases Option.map_eq_some_iff.mp closing with ⟨session, closes, rfl⟩
  constructor
  · intro gone before agent current opening nonce credential is other found
      here
    have authenticates :
        next = plane.authenticate socket before agentId := by
      rcases Option.map_eq_some_iff.mp step with ⟨same, again, rfl⟩
      rw [opening, Option.some.injEq] at again
      subst again
      show plane.handleChallengeResponse socket before (some agentId) = _
      unfold Plane.handleChallengeResponse
      rw [if_neg (not_or.mpr ⟨nonce, credential⟩)]
    subst authenticates
    rcases view_authenticate opening agentId with ⟨view, table, _⟩
    rcases view_handleClose closes with ⟨_, _, remains⟩
    have renamed := view_of_open closes
    rw [view, if_pos rfl, Option.some.injEq, Prod.mk.injEq] at renamed
    apply gone agent.agentId current _ here
    rw [remains, if_neg, table, AList.lookup_insert_ne other, found]
    rintro ⟨named, _⟩
    rw [← renamed.1, Option.map_some, Option.some.injEq] at named
    exact other named.symm
  · intro keeps name entry found
    have after := open_handleClose (step_open opened keeps step) closes
    have seen := (after name entry found).2
    rcases view_handleClose closes with ⟨view, _, _⟩
    rintro rfl
    rw [view, if_pos rfl] at seen
    exact absurd (Prod.mk.inj (Option.some.inj seen)).2 (by decide)

/--
Where a socket is authenticated as another agent only after the entry of its
agent has moved to another socket, the table mirrors the open authenticated
sockets in every reachable state.  And only there: after any other
authentication, closing the socket leaves an entry that refers to it.
-/
theorem connectedAgents_mirrors (plane : Plane) :
    (planeMachine.Reachable KeepsAgent plane → Mirrors plane) ∧
    ∀ next closed socket agentId,
      planeMachine.Reachable KeepsAgent plane →
      planeMachine.step plane
        (.message socket (.challengeResponse (some agentId))) = some next →
      planeMachine.step next (.close socket) = some closed →
      ((∀ name entry, closed.connectedAgents.lookup name = some entry →
          entry.socket ≠ socket) ↔
        KeepsAgent plane
          (.message socket (.challengeResponse (some agentId)))) := by
  constructor
  · intro reachable
    rcases reachable_open reachable with ⟨kept, opened⟩
    exact mirrors_of_invariants opened kept.latest
  · intro next closed socket agentId reachable step closing
    exact closed_iff (reachable_open reachable).2 step closing

/-! ## The Controller's handlers -/

section Calls

variable {plane next : Plane} {state after : Execution.ControllerState}

end Calls

/-- The hello and the answer of an agent with a credential. -/
def authentication (socket agentId : Nat) : List Event :=
  [.message socket
      (.hello { minVersion := 1, maxVersion := 1 } (some "credential")),
    .message socket (.challengeResponse (some agentId))]

/-- A socket is authenticated once, or as the same agent again. -/
def authenticatesOnce (plane : Plane) : Event → Bool
  | .message socket (.challengeResponse (some agentId)) =>
    (plane.openSession socket).all fun session =>
      session.authenticated.all fun agent => agent.agentId = agentId
  | _ => true

theorem keepsAgent_of_once (plane : Plane) (event : Event)
    (once : authenticatesOnce plane event = true) :
    KeepsAgent plane event := by
  cases event with
  | message socket message =>
    cases message with
    | challengeResponse verified =>
      cases verified with
      | none => trivial
      | some agentId =>
        intro session agent current opening _ _ is other
        have met : (plane.openSession socket).all (fun session =>
            session.authenticated.all fun agent =>
              agent.agentId = agentId) = true := once
        rw [opening, Option.all_some, is, Option.all_some,
          decide_eq_true_iff] at met
        exact absurd met other
    | _ => trivial
  | _ => trivial

/-- Agent 1 reconnects on another socket while agent 2 is connected. -/
theorem connectedAgents_mirrors_reconnected :
    ∃ plane,
      planeMachine.run freshPlane
          ([.connection, .connection, .connection] ++
            authentication 0 1 ++ authentication 1 2 ++
            authentication 2 1 ++ [.close 0]) = some plane ∧
      (plane.connectedAgents.lookup 1).map ConnectedAgent.socket = some 2 ∧
      Mirrors plane := by
  have ran :
      (planeMachine.run freshPlane
          ([.connection, .connection, .connection] ++
            authentication 0 1 ++ authentication 1 2 ++
            authentication 2 1 ++ [.close 0])).map
        (fun plane =>
          (plane.connectedAgents.lookup 1).map ConnectedAgent.socket) =
        some (some 2) := by
    decide +kernel
  rcases Option.map_eq_some_iff.mp ran with ⟨plane, run, seen⟩
  refine ⟨plane, run, seen, ?_⟩
  apply (connectedAgents_mirrors plane).1
  exact ⟨freshPlane, rfl,
    Machine.steps_of_run authenticatesOnce keepsAgent_of_once
      (by decide +kernel) run⟩

/-- A socket on which two agents were authenticated leaves the entry of the
first when it closes. -/
theorem entry_of_closed_socket :
    ∃ plane,
      planeMachine.Reachable (fun _ _ => True) plane ∧
      planeMachine.run freshPlane
          ([.connection] ++ authentication 0 1 ++ authentication 0 2 ++
            [.close 0]) = some plane ∧
      ¬ Mirrors plane := by
  have ran :
      (planeMachine.run freshPlane
          ([.connection] ++ authentication 0 1 ++ authentication 0 2 ++
            [.close 0])).map
        (fun plane =>
          ((plane.connectedAgents.lookup 1).map ConnectedAgent.socket,
            plane.sessions[0]?.map Session.closed)) =
        some (some 0, some true) := by
    decide +kernel
  rcases Option.map_eq_some_iff.mp ran with ⟨plane, run, seen⟩
  refine ⟨plane, Machine.reachable_of_run rfl run, run, ?_⟩
  intro mirrors
  rcases Option.map_eq_some_iff.mp (Prod.mk.inj seen).1 with
    ⟨entry, found, own⟩
  rcases Option.map_eq_some_iff.mp (Prod.mk.inj seen).2 with
    ⟨session, stored, closed⟩
  exact mirrors.gone 0 session stored closed 1 entry found own

end Rbo.Controller.AgentPlane
