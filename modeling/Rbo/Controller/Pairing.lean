import Mathlib.Data.List.Sort
import Rbo.Foundation.Run

/-!
# Pairing and the credentials of agents

A device asks to be paired, an operator approves or rejects its request, and a
device whose request was approved claims a credential when it connects again.
A credential is a token that the Controller has signed; it carries a version,
and only the last version of an agent verifies.

Times are instants in milliseconds, which the texts of `toISOString` order in
the same way.  The history of a state is not stored by the program.
-/

namespace Rbo.Controller.Pairing

open Rbo.Foundation

/-! ## The tables -/

inductive RequestState where
  | pending
  | approved
  | claimed
  | rejected
  | expired
  deriving DecidableEq

structure PairingRequestRow where
  id : List Char
  devicePublicKey : List Char
  deviceThumbprint : List Char
  displayName : List Char
  hostname : Option (List Char)
  metadataJson : Option (List Char)
  oneTimeCode : List Char
  state : RequestState
  agentId : Option (List Char)
  createdAt : Nat
  expiresAt : Nat
  resolvedAt : Option Nat
  deriving DecidableEq

/-- The columns of `agents` that pairing reads or fills in. -/
structure AgentRow where
  id : List Char
  displayName : List Char
  hostname : Option (List Char)
  pairedAt : Nat
  devicePublicKey : Option (List Char)
  deviceThumbprint : Option (List Char)
  credentialVersion : Nat
  revokedAt : Option Nat
  deriving DecidableEq

structure Tables where
  requests : List PairingRequestRow
  agents : List AgentRow
  deriving DecidableEq

inductive PairingError where
  | unknownRequest (id : List Char)
  | notPending (state : RequestState)
  | requestExpired
  | unknownAgent (id : List Char)
  | agentRevoked (id : List Char)
  | noDeviceKey (id : List Char)
  -- A primary key that is there already.
  | constraint
  deriving DecidableEq

/-- A key as the agent plane lets it in: the text names a public key, so that
it is not empty. -/
structure DeviceKey where
  pem : List Char
  nonempty : pem ≠ []

/-- What is neither `null` nor empty. -/
def truthy (text : Option (List Char)) : Bool :=
  text.any fun text => text ≠ []

/-! ## Tokens -/

structure JwtClaims where
  sub : Option (List Char)
  aud : List Char
  exp : Option Nat
  iat : Option Nat
  deviceThumbprint : Option (List Char)
  credentialVersion : Option Nat
  deriving DecidableEq

/-- Signatures and the encoding of the parts of a token. -/
structure Jwt (Part : Type) where
  header : Part
  payload : JwtClaims → Part
  readAlg : Part → Option (List Char)
  readClaims : Part → Option JwtClaims
  cryptoSign : Part → Part → Part
  cryptoVerify : Part → Part → Part → Bool

/-- A token, cut at its dots. -/
abbrev Token (Part : Type) := List Part

def edDsa : List Char := ['E', 'd', 'D', 'S', 'A']

section Tokens

variable {Part : Type} (jwt : Jwt Part)

/-- What was encoded is read, and what was signed verifies. -/
structure Jwt.Lawful : Prop where
  alg : jwt.readAlg jwt.header = some edDsa
  claims : ∀ claims, jwt.readClaims (jwt.payload claims) = some claims
  signed : ∀ payload, jwt.cryptoVerify jwt.header payload
    (jwt.cryptoSign jwt.header payload) = true

/-- The token of claims, which are to hold the time of signing. -/
def signEdDsaJwt (claims : JwtClaims) : Token Part :=
  [jwt.header, jwt.payload claims,
    jwt.cryptoSign jwt.header (jwt.payload claims)]

/-- The claims of a token whose signature verifies. -/
def openJwt : Token Part → Option JwtClaims
  | [header, payload, signature] =>
    if jwt.readAlg header ≠ some edDsa then none
    else if jwt.cryptoVerify header payload signature then
      jwt.readClaims payload
    else none
  | _ => none

def verifyEdDsaJwt (token : Token Part) (now : Nat) : Option JwtClaims :=
  (openJwt jwt token).filter fun claims =>
    claims.exp.any fun exp => now / 1000 < exp

end Tokens

/-- `publicKeyThumbprint`, over the digest of a trimmed text in hexadecimal. -/
def publicKeyThumbprint (hexDigest : List Char → List Char)
    (pem : List Char) : List Char :=
  ['s', 'h', 'a', '2', '5', '6', ':'] ++ hexDigest pem

/-! ## Requests -/

def pairingTtlMs : Nat := 15 * 60 * 1000

def getPairingRequest (tables : Tables) (id : List Char) :
    Option PairingRequestRow :=
  tables.requests.find? fun row => row.id = id

/-- A pending or approved row. -/
def PairingRequestRow.live (row : PairingRequestRow) : Bool :=
  row.state = .pending ∨ row.state = .approved

/-- A live row past its `expires_at`. -/
def PairingRequestRow.stale (now : Nat) (row : PairingRequestRow) : Bool :=
  row.live && row.expiresAt ≤ now

/-- The rows after an update of those that meet a condition. -/
def updateRows {Row : Type} (chosen : Row → Bool) (change : Row → Row)
    (rows : List Row) : List Row :=
  rows.map fun row => if chosen row then change row else row

def Tables.resolve (tables : Tables) (id : List Char) (state : RequestState)
    (now : Nat) : Tables :=
  { tables with
    requests := updateRows (fun row => row.id = id)
      (fun row => { row with state := state, resolvedAt := some now })
      tables.requests }

def expireStalePairingRequests (tables : Tables) (now : Nat) : Tables :=
  { tables with
    requests := updateRows (PairingRequestRow.stale now)
      (fun row => { row with
        state := .expired
        resolvedAt := some (row.resolvedAt.getD now) })
      tables.requests }

def listPairingRequests (tables : Tables) (state : Option RequestState)
    (now : Nat) : List PairingRequestRow × Tables :=
  let tables := expireStalePairingRequests tables now
  let rows := tables.requests.filter fun row => state.all (row.state = ·)
  (rows.insertionSort fun first second => first.createdAt ≤ second.createdAt,
    tables)

structure CreatePairingInput where
  devicePublicKeyPem : DeviceKey
  displayName : List Char
  hostname : Option (List Char)
  metadata : Option (List Char)

/-- The id and the number that a new request draws, and the clock at the sweep,
at the look for a live request and at the two times of the new row. -/
structure CreateDraws where
  id : List Char
  random : Nat
  sweptAt : Nat
  soughtAt : Nat
  createdAt : Nat
  expiresFrom : Nat
  deriving DecidableEq

/-- `String(randomInt(0, 1_000_000)).padStart(6, '0')`. -/
def oneTimeCode (random : Nat) : List Char :=
  (Nat.toDigits 10 (random % 1000000)).leftpad 6 '0'

def newRequest (hexDigest : List Char → List Char)
    (input : CreatePairingInput) (draws : CreateDraws) : PairingRequestRow where
  id := draws.id
  devicePublicKey := input.devicePublicKeyPem.pem
  deviceThumbprint := publicKeyThumbprint hexDigest
    input.devicePublicKeyPem.pem
  displayName := input.displayName
  hostname := input.hostname
  metadataJson := input.metadata
  oneTimeCode := oneTimeCode draws.random
  state := .pending
  agentId := none
  createdAt := draws.createdAt
  expiresAt := draws.expiresFrom + pairingTtlMs
  resolvedAt := none

/-- A device key has one live request at a time. -/
def createPairingRequest (hexDigest : List Char → List Char)
    (tables : Tables) (input : CreatePairingInput) (draws : CreateDraws) :
    Except PairingError PairingRequestRow × Tables :=
  let tables := expireStalePairingRequests tables draws.sweptAt
  let thumbprint := publicKeyThumbprint hexDigest input.devicePublicKeyPem.pem
  let existing := tables.requests.find? fun row =>
    row.deviceThumbprint = thumbprint && row.live &&
      draws.soughtAt < row.expiresAt
  match existing with
  | some row => (.ok row, tables)
  | none =>
    if (getPairingRequest tables draws.id).isSome then
      (.error .constraint, tables)
    else
      let row := newRequest hexDigest input draws
      (.ok row, { tables with requests := tables.requests ++ [row] })

/-- The id that a new agent draws, and the clock at the check of the expiry, at
the end of an expired request and at the two times of an approval. -/
structure ApproveDraws where
  agentId : List Char
  checkedAt : Nat
  expiredAt : Nat
  pairedAt : Nat
  resolvedAt : Nat
  deriving DecidableEq

def newAgent (request : PairingRequestRow) (draws : ApproveDraws) :
    AgentRow where
  id := draws.agentId
  displayName := request.displayName
  hostname := request.hostname
  pairedAt := draws.pairedAt
  devicePublicKey := some request.devicePublicKey
  deviceThumbprint := some request.deviceThumbprint
  credentialVersion := 0
  revokedAt := none

def approvePairingRequest (tables : Tables) (requestId : List Char)
    (draws : ApproveDraws) : Except PairingError (List Char) × Tables :=
  match getPairingRequest tables requestId with
  | none => (.error (.unknownRequest requestId), tables)
  | some request =>
    if request.state ≠ .pending then
      (.error (.notPending request.state), tables)
    else if request.expiresAt ≤ draws.checkedAt then
      (.error .requestExpired,
        tables.resolve requestId .expired draws.expiredAt)
    else if tables.agents.any (·.id = draws.agentId) then
      (.error .constraint, tables)
    else
      (.ok draws.agentId,
        { agents := tables.agents ++ [newAgent request draws]
          requests := updateRows (fun row => row.id = requestId)
            (fun row => { row with
              state := .approved
              agentId := some draws.agentId
              resolvedAt := some draws.resolvedAt })
            tables.requests })

/-- Rejects a request in any state. -/
def rejectPairingRequest (tables : Tables) (requestId : List Char)
    (now : Nat) : Except PairingError Unit × Tables :=
  match getPairingRequest tables requestId with
  | none => (.error (.unknownRequest requestId), tables)
  | some _ => (.ok (), tables.resolve requestId .rejected now)

/-! ## Credentials -/

def credentialTtlSeconds : Nat := 30 * 24 * 3600

def getAgentSecurityRow (tables : Tables) (agentId : List Char) :
    Option AgentRow :=
  tables.agents.find? fun agent => agent.id = agentId

/-- The clock at the two times of a token. -/
structure IssueDraws where
  expiresFrom : Nat
  issuedAt : Nat
  deriving DecidableEq

def credentialClaims (controllerId : List Char) (agent : AgentRow)
    (draws : IssueDraws) : JwtClaims where
  sub := some agent.id
  aud := controllerId
  exp := some (draws.expiresFrom / 1000 + credentialTtlSeconds)
  iat := some (draws.issuedAt / 1000)
  deviceThumbprint := agent.deviceThumbprint
  credentialVersion := some (agent.credentialVersion + 1)

/-- `issueAgentCredential`, which answers with the claims that it signs.
Issuing rotates: the older credentials of the agent stop verifying. -/
def issueAgentCredential (controllerId : List Char) (tables : Tables)
    (agentId : List Char) (draws : IssueDraws) :
    Except PairingError JwtClaims × Tables :=
  match getAgentSecurityRow tables agentId with
  | none => (.error (.unknownAgent agentId), tables)
  | some agent =>
    if agent.revokedAt.isSome then
      (.error (.agentRevoked agentId), tables)
    else if ¬ truthy agent.deviceThumbprint then
      (.error (.noDeviceKey agentId), tables)
    else
      (.ok (credentialClaims controllerId agent draws),
        { tables with
          agents := updateRows (fun row => row.id = agentId)
            (fun row => { row with
              credentialVersion := agent.credentialVersion + 1 })
            tables.agents })

structure ClaimResult where
  requestId : List Char
  agentId : List Char
  credential : JwtClaims
  deriving DecidableEq

/-- The credential is delivered once to a device that connects again. -/
def claimApprovedPairing (hexDigest : List Char → List Char)
    (controllerId : List Char) (tables : Tables)
    (devicePublicKeyPem : DeviceKey) (draws : IssueDraws) (resolvedAt : Nat) :
    Except PairingError (Option ClaimResult) × Tables :=
  let thumbprint := publicKeyThumbprint hexDigest devicePublicKeyPem.pem
  let request := tables.requests.find? fun row =>
    row.deviceThumbprint = thumbprint && row.state = .approved &&
      row.agentId.isSome
  let paired := request.bind fun row =>
    row.agentId.map fun agentId => (row, agentId)
  match paired with
  | none => (.ok none, tables)
  | some (request, agentId) =>
    if agentId = [] then (.ok none, tables)
    else
      match issueAgentCredential controllerId tables agentId draws with
      | (.error failure, tables) => (.error failure, tables)
      | (.ok credential, tables) =>
        (.ok (some { requestId := request.id, agentId, credential }),
          tables.resolve request.id .claimed resolvedAt)

structure VerifiedCredential where
  agentId : List Char
  devicePublicKeyPem : List Char
  credentialVersion : Nat
  deriving DecidableEq

def verifyAgentCredential {Part : Type} (jwt : Jwt Part)
    (hexDigest : List Char → List Char) (controllerId : List Char)
    (tables : Tables) (credential : Token Part) (now : Nat) :
    Option VerifiedCredential := do
  let claims ← verifyEdDsaJwt jwt credential now
  guard (claims.aud = controllerId)
  let sub ← claims.sub
  let agent ← getAgentSecurityRow tables sub
  guard (agent.revokedAt = none ∧ truthy agent.devicePublicKey ∧
    truthy agent.deviceThumbprint)
  guard (claims.credentialVersion = some agent.credentialVersion)
  guard (claims.deviceThumbprint = agent.deviceThumbprint)
  let pem ← agent.devicePublicKey
  guard (some (publicKeyThumbprint hexDigest pem) = agent.deviceThumbprint)
  return {
    agentId := agent.id
    devicePublicKeyPem := pem
    credentialVersion := agent.credentialVersion }

def revokeAgent (tables : Tables) (agentId : List Char) (now : Nat) :
    Except PairingError Unit × Tables :=
  if tables.agents.any (·.id = agentId) then
    (.ok (), { tables with
      agents := updateRows (fun row => row.id = agentId)
        (fun row => { row with revokedAt := some now }) tables.agents })
  else (.error (.unknownAgent agentId), tables)

/-! ## The machine -/

/-- What happened to requests and agents, and what was signed. -/
inductive PairingEvent where
  | approved (requestId agentId : List Char)
  | rejected (requestId : List Char)
  | expired (requestId : List Char)
  | claimed (requestId : List Char) (claims : JwtClaims)
  | issued (agentId : List Char) (claims : JwtClaims)
  | revoked (agentId : List Char)
  | signed (claims : JwtClaims)
  deriving DecidableEq

/-- The newest event comes first. -/
structure PairingState where
  tables : Tables
  history : List PairingEvent
  deriving DecidableEq

def PairingState.record (state : PairingState) (tables : Tables)
    (events : List PairingEvent) : PairingState where
  tables := tables
  history := events ++ state.history

inductive Operation where
  | list (state : Option RequestState) (now : Nat)
  | create (input : CreatePairingInput) (draws : CreateDraws)
  | approve (requestId : List Char) (draws : ApproveDraws)
  | reject (requestId : List Char) (now : Nat)
  | claim (key : DeviceKey) (draws : IssueDraws) (resolvedAt : Nat)
  | issue (agentId : List Char) (draws : IssueDraws)
  | revoke (agentId : List Char) (now : Nat)
  -- A confirmation or a cursor, which has no credential version.
  | sign (claims : JwtClaims)

/-- The rows that a sweep ends. -/
def sweptEvents (tables : Tables) (now : Nat) : List PairingEvent :=
  (tables.requests.filter (PairingRequestRow.stale now)).map fun row =>
    .expired row.id

def approveEvents (requestId : List Char) :
    Except PairingError (List Char) → List PairingEvent
  | .ok agentId => [.approved requestId agentId]
  | .error .requestExpired => [.expired requestId]
  | .error _ => []

def claimEvents :
    Except PairingError (Option ClaimResult) → List PairingEvent
  | .ok (some claim) =>
    [.claimed claim.requestId claim.credential,
      .issued claim.agentId claim.credential]
  | _ => []

/-- The event of an operation that did not throw. -/
def okEvents {Answer : Type} (event : Answer → PairingEvent) :
    Except PairingError Answer → List PairingEvent
  | .ok answer => [event answer]
  | .error _ => []

/-- The operations keep their tables when they throw. -/
def pairingMachine (hexDigest : List Char → List Char)
    (controllerId : List Char) : Machine PairingState Operation where
  initial state := state = { tables := ⟨[], []⟩, history := [] }
  step state
    | .list wanted now =>
      some (state.record (listPairingRequests state.tables wanted now).2
        (sweptEvents state.tables now))
    | .create input draws =>
      some (state.record
        (createPairingRequest hexDigest state.tables input draws).2
        (sweptEvents state.tables draws.sweptAt))
    | .approve requestId draws =>
      let result := approvePairingRequest state.tables requestId draws
      some (state.record result.2 (approveEvents requestId result.1))
    | .reject requestId now =>
      let result := rejectPairingRequest state.tables requestId now
      some (state.record result.2
        (okEvents (fun _ => .rejected requestId) result.1))
    | .claim key draws resolvedAt =>
      let result := claimApprovedPairing hexDigest controllerId state.tables
        key draws resolvedAt
      some (state.record result.2 (claimEvents result.1))
    | .issue agentId draws =>
      let result :=
        issueAgentCredential controllerId state.tables agentId draws
      some (state.record result.2 (okEvents (.issued agentId) result.1))
    | .revoke agentId now =>
      let result := revokeAgent state.tables agentId now
      some (state.record result.2
        (okEvents (fun _ => .revoked agentId) result.1))
    | .sign claims =>
      if claims.credentialVersion = none then
        some (state.record state.tables [.signed claims])
      else none

/-! ## What an operation can do -/

def Operation.rejecting : Operation → Option (List Char)
  | .reject requestId _ => some requestId
  | _ => none

/-- One change of the tables with its event, when the operation rejects a
request or none. -/
inductive Move (hexDigest : List Char → List Char)
    (controllerId : List Char) (rejecting : Option (List Char))
    (state : PairingState) : PairingState → Prop
  | sweep (now : Nat) :
      Move hexDigest controllerId rejecting state
        (state.record (expireStalePairingRequests state.tables now)
          (sweptEvents state.tables now))
  | add (row : PairingRequestRow) (pending : row.state = .pending)
      (keyed : row.devicePublicKey ≠ [])
      (hashed : row.deviceThumbprint =
        publicKeyThumbprint hexDigest row.devicePublicKey)
      (fresh : ∀ other ∈ state.tables.requests, other.id ≠ row.id) :
      Move hexDigest controllerId rejecting state
        (state.record { state.tables with
          requests := state.tables.requests ++ [row] } [])
  | expire (row : PairingRequestRow) (now : Nat)
      (member : row ∈ state.tables.requests) (pending : row.state = .pending) :
      Move hexDigest controllerId rejecting state
        (state.record (state.tables.resolve row.id .expired now)
          [.expired row.id])
  | approve (row : PairingRequestRow) (draws : ApproveDraws)
      (member : row ∈ state.tables.requests) (pending : row.state = .pending)
      (fresh : ∀ other ∈ state.tables.agents, other.id ≠ draws.agentId) :
      Move hexDigest controllerId rejecting state
        (state.record
          { agents := state.tables.agents ++ [newAgent row draws]
            requests := updateRows (fun other => other.id = row.id)
              (fun row => { row with
                state := .approved
                agentId := some draws.agentId
                resolvedAt := some draws.resolvedAt })
              state.tables.requests }
          [.approved row.id draws.agentId])
  | reject (row : PairingRequestRow) (now : Nat)
      (member : row ∈ state.tables.requests)
      (named : rejecting = some row.id) :
      Move hexDigest controllerId rejecting state
        (state.record (state.tables.resolve row.id .rejected now)
          [.rejected row.id])
  | issue (agent : AgentRow) (draws : IssueDraws)
      (member : agent ∈ state.tables.agents) (kept : agent.revokedAt = none) :
      Move hexDigest controllerId rejecting state
        (state.record
          { state.tables with
            agents := updateRows (fun row => row.id = agent.id)
              (fun row => { row with
                credentialVersion := agent.credentialVersion + 1 })
              state.tables.agents }
          [.issued agent.id (credentialClaims controllerId agent draws)])
  | claim (row : PairingRequestRow) (claims : JwtClaims) (now : Nat)
      (member : row ∈ state.tables.requests)
      (approved : row.state = .approved) :
      Move hexDigest controllerId rejecting state
        (state.record (state.tables.resolve row.id .claimed now)
          [.claimed row.id claims])
  | revoke (agent : AgentRow) (now : Nat)
      (member : agent ∈ state.tables.agents) :
      Move hexDigest controllerId rejecting state
        (state.record
          { state.tables with
            agents := updateRows (fun row => row.id = agent.id)
              (fun row => { row with revokedAt := some now })
              state.tables.agents }
          [.revoked agent.id])
  | sign (claims : JwtClaims) (other : claims.credentialVersion = none) :
      Move hexDigest controllerId rejecting state
        (state.record state.tables [.signed claims])

section Moves

variable {hexDigest : List Char → List Char} {controllerId : List Char}
  {rejecting : Option (List Char)} {state next : PairingState}

/-- At most two moves, one after the other. -/
inductive Moves (hexDigest : List Char → List Char)
    (controllerId : List Char) (rejecting : Option (List Char))
    (state : PairingState) : PairingState → Prop
  | none : Moves hexDigest controllerId rejecting state state
  | one {next : PairingState}
      (move : Move hexDigest controllerId rejecting state next) :
      Moves hexDigest controllerId rejecting state next
  | two {middle next : PairingState}
      (first : Move hexDigest controllerId rejecting state middle)
      (second : Move hexDigest controllerId rejecting middle next) :
      Moves hexDigest controllerId rejecting state next

theorem getPairingRequest_some {tables : Tables} {id : List Char}
    {row : PairingRequestRow} (found : getPairingRequest tables id = some row) :
    row ∈ tables.requests ∧ row.id = id :=
  ⟨List.mem_of_find?_eq_some found,
    of_decide_eq_true (List.find?_some found :)⟩

theorem getAgentSecurityRow_some {tables : Tables} {id : List Char}
    {agent : AgentRow} (found : getAgentSecurityRow tables id = some agent) :
    agent ∈ tables.agents ∧ agent.id = id :=
  ⟨List.mem_of_find?_eq_some found,
    of_decide_eq_true (List.find?_some found :)⟩

theorem moves_create (input : CreatePairingInput) (draws : CreateDraws) :
    Moves hexDigest controllerId rejecting state
      (state.record (createPairingRequest hexDigest state.tables input draws).2
        (sweptEvents state.tables draws.sweptAt)) := by
  have swept : Move hexDigest controllerId rejecting state _ :=
    .sweep draws.sweptAt
  unfold createPairingRequest
  dsimp only
  split
  · exact .one swept
  · split
    · exact .one swept
    · rename_i unknown
      refine .two swept (.add (newRequest hexDigest input draws) rfl
        input.devicePublicKeyPem.nonempty rfl ?_)
      intro other member same
      apply unknown
      rw [getPairingRequest, List.find?_isSome]
      exact ⟨other, member, decide_eq_true same⟩

theorem moves_approve (requestId : List Char) (draws : ApproveDraws) :
    Moves hexDigest controllerId rejecting state
      (state.record (approvePairingRequest state.tables requestId draws).2
        (approveEvents requestId
          (approvePairingRequest state.tables requestId draws).1)) := by
  unfold approvePairingRequest
  split
  · exact .none
  · rename_i row found
    obtain ⟨member, rfl⟩ := getPairingRequest_some found
    split
    · exact .none
    · rename_i pending
      rw [not_not] at pending
      split
      · exact .one (.expire row draws.expiredAt member pending)
      · split
        · exact .none
        · rename_i unknown
          refine .one (.approve row draws member pending ?_)
          intro other agent same
          exact unknown (List.any_eq_true.mpr
            ⟨other, agent, decide_eq_true same⟩)

theorem moves_reject (requestId : List Char) (now : Nat) :
    Moves hexDigest controllerId (some requestId) state
      (state.record (rejectPairingRequest state.tables requestId now).2
        (okEvents (fun _ => .rejected requestId)
          (rejectPairingRequest state.tables requestId now).1)) := by
  unfold rejectPairingRequest
  split
  · exact .none
  · rename_i row found
    obtain ⟨member, rfl⟩ := getPairingRequest_some found
    exact .one (.reject row now member rfl)

/-- A credential is issued, or nothing happens. -/
theorem issueAgentCredential_cases (agentId : List Char)
    (draws : IssueDraws) :
    (∃ failure, issueAgentCredential controllerId state.tables agentId draws =
        (.error failure, state.tables)) ∨
      ∃ claims tables,
        issueAgentCredential controllerId state.tables agentId draws =
            (.ok claims, tables) ∧
          tables.requests = state.tables.requests ∧
          Move hexDigest controllerId rejecting state
            (state.record tables [.issued agentId claims]) := by
  unfold issueAgentCredential
  split
  · exact .inl ⟨_, rfl⟩
  · rename_i agent found
    obtain ⟨member, rfl⟩ := getAgentSecurityRow_some found
    split
    · exact .inl ⟨_, rfl⟩
    · rename_i kept
      split
      · exact .inl ⟨_, rfl⟩
      · exact .inr ⟨_, _, rfl, rfl, .issue agent draws member
          (Option.not_isSome_iff_eq_none.mp kept)⟩

theorem moves_issue (agentId : List Char) (draws : IssueDraws) :
    Moves hexDigest controllerId rejecting state
      (state.record
        (issueAgentCredential controllerId state.tables agentId draws).2
        (okEvents (.issued agentId)
          (issueAgentCredential controllerId state.tables agentId
            draws).1)) := by
  rcases issueAgentCredential_cases agentId draws with
    ⟨failure, failed⟩ | ⟨claims, tables, issued, -, move⟩
  · rw [failed]
    exact .none
  · rw [issued]
    exact .one move

theorem moves_claim (key : DeviceKey) (draws : IssueDraws)
    (resolvedAt : Nat) :
    Moves hexDigest controllerId rejecting state
      (state.record
        (claimApprovedPairing hexDigest controllerId state.tables key draws
          resolvedAt).2
        (claimEvents (claimApprovedPairing hexDigest controllerId state.tables
          key draws resolvedAt).1)) := by
  unfold claimApprovedPairing
  dsimp only
  split
  · exact .none
  · rename_i row agentId found
    obtain ⟨request, isFound, paired⟩ := Option.bind_eq_some_iff.mp found
    obtain ⟨id, -, same⟩ := Option.map_eq_some_iff.mp paired
    obtain ⟨rfl, rfl⟩ := Prod.mk.inj same
    have member := List.mem_of_find?_eq_some isFound
    have chosen := List.find?_some isFound
    simp only [Bool.and_eq_true, decide_eq_true_eq] at chosen
    split
    · exact .none
    · rcases issueAgentCredential_cases id draws with
        ⟨failure, failed⟩ | ⟨claims, tables, issued, requests, move⟩
      · rw [failed]
        exact .none
      · rw [issued]
        exact .two move (.claim request claims resolvedAt
          (requests ▸ member) chosen.1.2)

theorem moves_revoke (agentId : List Char) (now : Nat) :
    Moves hexDigest controllerId rejecting state
      (state.record (revokeAgent state.tables agentId now).2
        (okEvents (fun _ => .revoked agentId)
          (revokeAgent state.tables agentId now).1)) := by
  unfold revokeAgent
  split
  · rename_i known
    obtain ⟨agent, member, same⟩ := List.any_eq_true.mp known
    obtain rfl := of_decide_eq_true same
    exact .one (.revoke agent now member)
  · exact .none

/-- Every step makes at most two moves. -/
theorem moves_of_step {operation : Operation}
    (stepped : (pairingMachine hexDigest controllerId).step state operation =
      some next) :
    Moves hexDigest controllerId operation.rejecting state next := by
  cases operation with
  | list wanted now =>
    cases stepped
    exact .one (.sweep now)
  | create input draws =>
    cases stepped
    exact moves_create input draws
  | approve requestId draws =>
    cases stepped
    exact moves_approve requestId draws
  | reject requestId now =>
    cases stepped
    exact moves_reject requestId now
  | claim key draws resolvedAt =>
    cases stepped
    exact moves_claim key draws resolvedAt
  | issue agentId draws =>
    cases stepped
    exact moves_issue agentId draws
  | revoke agentId now =>
    cases stepped
    exact moves_revoke agentId now
  | sign claims =>
    obtain ⟨other, same⟩ := Option.ite_none_right_eq_some.mp stepped
    cases same
    exact .one (.sign claims other)

end Moves

/-! ## Requests and their history -/

/-- An event that ends a request. -/
def PairingEvent.closes (id : List Char) : PairingEvent → Prop
  | .rejected requestId => requestId = id
  | .expired requestId => requestId = id
  | .claimed requestId _ => requestId = id
  | _ => False

/-- A claim comes behind an approval, and behind no event that ends the
request. -/
def Claimable (id : List Char) (earlier : List PairingEvent) : Prop :=
  (∃ agentId, .approved id agentId ∈ earlier) ∧
    ∀ event ∈ earlier, ¬ event.closes id

def PairingEvent.follows (earlier : List PairingEvent) : PairingEvent → Prop
  | .claimed id _ => Claimable id earlier
  | _ => True

/-- Every event may follow the earlier ones. -/
def Orderly : List PairingEvent → Prop
  | [] => True
  | event :: earlier => event.follows earlier ∧ Orderly earlier

/-- The requests are those of the history. -/
structure RequestsAgree (hexDigest : List Char → List Char)
    (requests : List PairingRequestRow) (history : List PairingEvent) :
    Prop where
  unique : (requests.map PairingRequestRow.id).Nodup
  known : ∀ event ∈ history, ∀ id, event.closes id →
    ∃ row ∈ requests, row.id = id
  unclosed : ∀ row ∈ requests, row.live = true →
    ∀ event ∈ history, ¬ event.closes row.id
  approved : ∀ row ∈ requests, row.state = .approved →
    ∃ agentId, .approved row.id agentId ∈ history
  keyed : ∀ row ∈ requests, row.devicePublicKey ≠ []
  hashed : ∀ row ∈ requests, row.deviceThumbprint =
    publicKeyThumbprint hexDigest row.devicePublicKey

section Rows

variable {Row : Type} {chosen : Row → Bool} {change : Row → Row}
  {rows : List Row}

theorem mem_updateRows {row : Row} :
    row ∈ updateRows chosen change rows ↔
      ∃ old ∈ rows, (if chosen old then change old else old) = row :=
  List.mem_map

/-- A change that keeps a column keeps it in every row. -/
theorem map_updateRows {Column : Type} {column : Row → Column}
    (kept : ∀ row, column (change row) = column row) :
    (updateRows chosen change rows).map column = rows.map column := by
  unfold updateRows
  rw [List.map_map]
  refine List.map_congr_left fun row _ => ?_
  rw [Function.comp_apply]
  split
  · exact kept row
  · rfl

theorem mem_updateRows_of_unchosen {row : Row} (member : row ∈ rows)
    (unchosen : chosen row = false) : row ∈ updateRows chosen change rows :=
  mem_updateRows.mpr ⟨row, member, if_neg (by rw [unchosen]; nofun)⟩

end Rows

section Requests

variable {hexDigest : List Char → List Char}
  {requests : List PairingRequestRow} {history : List PairingEvent}

theorem RequestsAgree.eq_of_id
    (agree : RequestsAgree hexDigest requests history)
    {first second : PairingRequestRow} (member : first ∈ requests)
    (other : second ∈ requests) (same : first.id = second.id) :
    first = second :=
  List.inj_on_of_nodup_map agree.unique member other same

/-- An event that ends no request changes nothing here. -/
theorem RequestsAgree.extend
    (agree : RequestsAgree hexDigest requests history)
    {event : PairingEvent} (idle : ∀ id, ¬ event.closes id) :
    RequestsAgree hexDigest requests (event :: history) where
  unique := agree.unique
  known := by
    intro other member id closes
    rcases List.mem_cons.mp member with rfl | old
    · exact absurd closes (idle id)
    · exact agree.known other old id closes
  unclosed := by
    intro row inside live other member
    rcases List.mem_cons.mp member with rfl | old
    · exact idle row.id
    · exact agree.unclosed row inside live other old
  approved := by
    intro row inside approved
    obtain ⟨agentId, member⟩ := agree.approved row inside approved
    exact ⟨agentId, List.mem_cons_of_mem _ member⟩
  keyed := agree.keyed
  hashed := agree.hashed

theorem not_live_iff {row : PairingRequestRow} :
    row.live = false ↔ row.state ≠ .pending ∧ row.state ≠ .approved := by
  unfold PairingRequestRow.live
  rw [decide_eq_false_iff_not, not_or]

/-- Ending the chosen rows, with events that end these rows alone. -/
theorem RequestsAgree.close
    (agree : RequestsAgree hexDigest requests history)
    {chosen : PairingRequestRow → Bool} {ended : RequestState}
    {resolved : PairingRequestRow → Option Nat}
    {events : List PairingEvent}
    (final : ended ≠ .pending ∧ ended ≠ .approved)
    (closing : ∀ event ∈ events, ∀ id, event.closes id →
      ∃ row ∈ requests, chosen row = true ∧ row.id = id) :
    RequestsAgree hexDigest
      (updateRows chosen
        (fun row => { row with state := ended, resolvedAt := resolved row })
        requests)
      (events ++ history) where
  unique := by
    rw [map_updateRows]
    · exact agree.unique
    · exact fun _ => rfl
  known := by
    intro event member id closes
    have old : ∃ row ∈ requests, row.id = id := by
      rcases List.mem_append.mp member with new | old
      · obtain ⟨row, inside, -, same⟩ := closing event new id closes
        exact ⟨row, inside, same⟩
      · exact agree.known event old id closes
    obtain ⟨row, inside, rfl⟩ := old
    refine ⟨_, mem_updateRows.mpr ⟨row, inside, rfl⟩, ?_⟩
    split <;> rfl
  unclosed := by
    intro row inside live
    obtain ⟨old, member, rfl⟩ := mem_updateRows.mp inside
    split at live
    · exact absurd live (Bool.eq_false_iff.mp (not_live_iff.mpr final))
    · rename_i unchosen
      rw [if_neg unchosen]
      intro event happened closes
      rcases List.mem_append.mp happened with new | earlier
      · obtain ⟨other, isRow, isChosen, same⟩ := closing event new _ closes
        rw [agree.eq_of_id isRow member same] at isChosen
        exact unchosen isChosen
      · exact agree.unclosed old member live event earlier closes
  approved := by
    intro row inside approved
    obtain ⟨old, member, rfl⟩ := mem_updateRows.mp inside
    split at approved
    · exact absurd approved final.2
    · rename_i unchosen
      rw [if_neg unchosen]
      obtain ⟨agentId, happened⟩ := agree.approved old member approved
      exact ⟨agentId, List.mem_append_right _ happened⟩
  keyed := by
    intro row inside
    obtain ⟨old, member, rfl⟩ := mem_updateRows.mp inside
    split <;> exact agree.keyed old member
  hashed := by
    intro row inside
    obtain ⟨old, member, rfl⟩ := mem_updateRows.mp inside
    split <;> exact agree.hashed old member

theorem RequestsAgree.add
    (agree : RequestsAgree hexDigest requests history)
    {row : PairingRequestRow} (pending : row.state = .pending)
    (keyed : row.devicePublicKey ≠ [])
    (hashed : row.deviceThumbprint =
      publicKeyThumbprint hexDigest row.devicePublicKey)
    (fresh : ∀ other ∈ requests, other.id ≠ row.id) :
    RequestsAgree hexDigest (requests ++ [row]) history := by
  have cases : ∀ other ∈ requests ++ [row],
      other ∈ requests ∨ other = row := by
    intro other member
    rcases List.mem_append.mp member with old | new
    · exact .inl old
    · exact .inr (List.mem_singleton.mp new)
  refine ⟨?_, ?_, ?_, ?_, ?_, ?_⟩
  · rw [List.map_append, List.map_singleton, List.nodup_append]
    refine ⟨agree.unique, List.nodup_singleton _, ?_⟩
    intro id listed other new
    obtain ⟨old, member, rfl⟩ := List.mem_map.mp listed
    rw [List.mem_singleton.mp new]
    exact fresh old member
  · intro event happened id closes
    obtain ⟨old, member, same⟩ := agree.known event happened id closes
    exact ⟨old, List.mem_append_left _ member, same⟩
  · intro other member live event happened closes
    rcases cases other member with old | rfl
    · exact agree.unclosed other old live event happened closes
    · obtain ⟨old, known, same⟩ := agree.known event happened _ closes
      exact fresh old known same
  · intro other member approved
    rcases cases other member with old | rfl
    · exact agree.approved other old approved
    · rw [pending] at approved
      cases approved
  · intro other member
    rcases cases other member with old | rfl
    · exact agree.keyed other old
    · exact keyed
  · intro other member
    rcases cases other member with old | rfl
    · exact agree.hashed other old
    · exact hashed

theorem RequestsAgree.approve
    (agree : RequestsAgree hexDigest requests history)
    {row : PairingRequestRow} (draws : ApproveDraws) (member : row ∈ requests)
    (pending : row.state = .pending) :
    RequestsAgree hexDigest
      (updateRows (fun other => other.id = row.id)
        (fun row => { row with
          state := .approved
          agentId := some draws.agentId
          resolvedAt := some draws.resolvedAt })
        requests)
      (.approved row.id draws.agentId :: history) where
  unique := by
    rw [map_updateRows]
    · exact agree.unique
    · exact fun _ => rfl
  known := by
    intro event happened id closes
    rcases List.mem_cons.mp happened with rfl | earlier
    · cases closes
    · obtain ⟨old, isRow, rfl⟩ := agree.known event earlier id closes
      refine ⟨_, mem_updateRows.mpr ⟨old, isRow, rfl⟩, ?_⟩
      split <;> rfl
  unclosed := by
    intro other inside live event happened closes
    obtain ⟨old, isRow, rfl⟩ := mem_updateRows.mp inside
    rcases List.mem_cons.mp happened with rfl | earlier
    · cases closes
    · split at live
      · rename_i chosen
        have same : old = row :=
          agree.eq_of_id isRow member (of_decide_eq_true chosen)
        rw [if_pos chosen, same] at closes
        refine agree.unclosed row member ?_ event earlier closes
        exact decide_eq_true (.inl pending)
      · rename_i unchosen
        rw [if_neg unchosen] at closes
        exact agree.unclosed old isRow live event earlier closes
  approved := by
    intro other inside approved
    obtain ⟨old, isRow, rfl⟩ := mem_updateRows.mp inside
    split at approved
    · rename_i chosen
      rw [if_pos chosen]
      refine ⟨draws.agentId, ?_⟩
      dsimp only
      rw [of_decide_eq_true chosen]
      exact List.mem_cons_self
    · rename_i unchosen
      rw [if_neg unchosen]
      obtain ⟨agentId, happened⟩ := agree.approved old isRow approved
      exact ⟨agentId, List.mem_cons_of_mem _ happened⟩
  keyed := by
    intro other inside
    obtain ⟨old, isRow, rfl⟩ := mem_updateRows.mp inside
    split <;> exact agree.keyed old isRow
  hashed := by
    intro other inside
    obtain ⟨old, isRow, rfl⟩ := mem_updateRows.mp inside
    split <;> exact agree.hashed old isRow

end Requests

/-! ## Agents and their credentials -/

def PairingEvent.issues (agentId : List Char) :
    PairingEvent → Option JwtClaims
  | .issued other claims => if other = agentId then some claims else none
  | _ => none

/-- The claims of the credentials of an agent, the last one first. -/
def issuedTo (history : List PairingEvent) (agentId : List Char) :
    List JwtClaims :=
  history.filterMap (PairingEvent.issues agentId)

/-- The versions count from one. -/
def Numbered : List JwtClaims → Prop
  | [] => True
  | claims :: earlier =>
    claims.credentialVersion = some (earlier.length + 1) ∧ Numbered earlier

def PairingEvent.ofRequest : PairingEvent → Bool
  | .issued _ _ => false
  | .revoked _ => false
  | .signed _ => false
  | _ => true

/-- A credential of an agent. -/
structure CredentialOf (controllerId : List Char) (agent : AgentRow)
    (claims : JwtClaims) : Prop where
  sub : claims.sub = some agent.id
  aud : claims.aud = controllerId
  thumbprint : claims.deviceThumbprint = agent.deviceThumbprint

/-- The agents are those of the history. -/
structure AgentsAgree (hexDigest : List Char → List Char)
    (controllerId : List Char) (agents : List AgentRow)
    (history : List PairingEvent) : Prop where
  unique : (agents.map AgentRow.id).Nodup
  known : ∀ id, (∀ agent ∈ agents, agent.id ≠ id) →
    issuedTo history id = [] ∧ .revoked id ∉ history
  version : ∀ agent ∈ agents,
    agent.credentialVersion = (issuedTo history agent.id).length
  revoked : ∀ agent ∈ agents,
    agent.revokedAt ≠ none ↔ .revoked agent.id ∈ history
  keyed : ∀ agent ∈ agents, ∃ pem, pem ≠ [] ∧
    agent.devicePublicKey = some pem ∧
    agent.deviceThumbprint = some (publicKeyThumbprint hexDigest pem)
  credentials : ∀ agent ∈ agents, ∀ claims ∈ issuedTo history agent.id,
    CredentialOf controllerId agent claims
  numbered : ∀ id, Numbered (issuedTo history id)
  others : ∀ claims, .signed claims ∈ history →
    claims.credentialVersion = none

section Agents

variable {hexDigest : List Char → List Char} {controllerId : List Char}
  {agents : List AgentRow} {history : List PairingEvent}

theorem issuedTo_append {events : List PairingEvent} {agentId : List Char}
    (requests : ∀ event ∈ events, event.ofRequest = true) :
    issuedTo (events ++ history) agentId = issuedTo history agentId := by
  unfold issuedTo
  have none_ : events.filterMap (PairingEvent.issues agentId) = [] := by
    refine List.filterMap_eq_nil_iff.mpr fun event member => ?_
    have isRequest := requests event member
    cases event with
    | issued => cases isRequest
    | _ => rfl
  rw [List.filterMap_append, none_, List.nil_append]

theorem issuedTo_issued {agentId other : List Char} {claims : JwtClaims} :
    issuedTo (.issued agentId claims :: history) other =
      if agentId = other then claims :: issuedTo history other
      else issuedTo history other := by
  unfold issuedTo
  by_cases same : agentId = other
  · rw [if_pos same]
    exact List.filterMap_cons_some (if_pos same)
  · rw [if_neg same]
    exact List.filterMap_cons_none (if_neg same)

section

variable (agree : AgentsAgree hexDigest controllerId agents history)

include agree

theorem AgentsAgree.eq_of_id {first second : AgentRow}
    (member : first ∈ agents) (other : second ∈ agents)
    (same : first.id = second.id) :
    first = second :=
  List.inj_on_of_nodup_map agree.unique member other same

/-- Events of requests change nothing here. -/
theorem AgentsAgree.extend {events : List PairingEvent}
    (requests : ∀ event ∈ events, event.ofRequest = true) :
    AgentsAgree hexDigest controllerId agents (events ++ history) := by
  have revokes : ∀ id, PairingEvent.revoked id ∈ events ++ history ↔
      .revoked id ∈ history := by
    intro id
    rw [List.mem_append]
    exact or_iff_right fun new => absurd (requests _ new) nofun
  have signs : ∀ claims, PairingEvent.signed claims ∈ events ++ history →
      .signed claims ∈ history := by
    intro claims member
    rw [List.mem_append] at member
    exact member.resolve_left fun new => absurd (requests _ new) nofun
  refine ⟨agree.unique, ?_, ?_, ?_, agree.keyed, ?_, ?_, ?_⟩
  · intro id unknown
    rw [issuedTo_append requests, revokes]
    exact agree.known id unknown
  · intro agent member
    rw [issuedTo_append requests]
    exact agree.version agent member
  · intro agent member
    rw [revokes]
    exact agree.revoked agent member
  · intro agent member
    rw [issuedTo_append requests]
    exact agree.credentials agent member
  · intro id
    rw [issuedTo_append requests]
    exact agree.numbered id
  · exact fun claims member => agree.others claims (signs claims member)

theorem AgentsAgree.add {agent : AgentRow}
    (fresh : ∀ other ∈ agents, other.id ≠ agent.id)
    (keyed : ∃ pem, pem ≠ [] ∧ agent.devicePublicKey = some pem ∧
      agent.deviceThumbprint = some (publicKeyThumbprint hexDigest pem))
    (unissued : agent.credentialVersion = 0)
    (unrevoked : agent.revokedAt = none) :
    AgentsAgree hexDigest controllerId (agents ++ [agent]) history := by
  have cases : ∀ other ∈ agents ++ [agent],
      other ∈ agents ∨ other = agent := by
    intro other member
    rcases List.mem_append.mp member with old | new
    · exact .inl old
    · exact .inr (List.mem_singleton.mp new)
  obtain ⟨unknown, notRevoked⟩ := agree.known agent.id fresh
  refine ⟨?_, ?_, ?_, ?_, ?_, ?_, agree.numbered, agree.others⟩
  · rw [List.map_append, List.map_singleton, List.nodup_append]
    refine ⟨agree.unique, List.nodup_singleton _, ?_⟩
    intro id listed other new
    obtain ⟨old, member, rfl⟩ := List.mem_map.mp listed
    rw [List.mem_singleton.mp new]
    exact fresh old member
  · intro id absent
    exact agree.known id fun other member =>
      absent other (List.mem_append_left _ member)
  · intro other member
    rcases cases other member with old | rfl
    · exact agree.version other old
    · rw [unissued, unknown]
      rfl
  · intro other member
    rcases cases other member with old | rfl
    · exact agree.revoked other old
    · exact iff_of_false (fun some_ => some_ unrevoked) notRevoked
  · intro other member
    rcases cases other member with old | rfl
    · exact agree.keyed other old
    · exact keyed
  · intro other member
    rcases cases other member with old | rfl
    · exact agree.credentials other old
    · intro claims issued
      rw [unknown] at issued
      cases issued

theorem AgentsAgree.issue {agent : AgentRow} (draws : IssueDraws)
    (member : agent ∈ agents) :
    AgentsAgree hexDigest controllerId
      (updateRows (fun row => row.id = agent.id)
        (fun row => { row with
          credentialVersion := agent.credentialVersion + 1 })
        agents)
      (.issued agent.id (credentialClaims controllerId agent draws) ::
        history) := by
  -- A row is that of the agent, with a new version, or unchanged.
  have cases : ∀ row ∈ updateRows (fun row => row.id = agent.id)
        (fun row => { row with
          credentialVersion := agent.credentialVersion + 1 }) agents,
      row = { agent with
          credentialVersion := agent.credentialVersion + 1 } ∨
        row ∈ agents ∧ row.id ≠ agent.id := by
    intro row inside
    obtain ⟨old, isRow, rfl⟩ := mem_updateRows.mp inside
    split
    · rename_i chosen
      rw [agree.eq_of_id isRow member (of_decide_eq_true chosen)]
      exact .inl rfl
    · rename_i unchosen
      exact .inr ⟨isRow, fun same => unchosen (decide_eq_true same)⟩
  have issued : issuedTo (.issued agent.id
        (credentialClaims controllerId agent draws) :: history) agent.id =
      credentialClaims controllerId agent draws ::
        issuedTo history agent.id := by
    rw [issuedTo_issued, if_pos rfl]
  have elsewhere : ∀ id, id ≠ agent.id → issuedTo (.issued agent.id
        (credentialClaims controllerId agent draws) :: history) id =
      issuedTo history id := by
    intro id other
    rw [issuedTo_issued, if_neg (Ne.symm other)]
  have revokes : ∀ id, PairingEvent.revoked id ∈ (.issued agent.id
        (credentialClaims controllerId agent draws) :: history) ↔
      .revoked id ∈ history := by
    intro id
    rw [List.mem_cons]
    exact or_iff_right nofun
  refine ⟨?_, ?_, ?_, ?_, ?_, ?_, ?_, ?_⟩
  · rw [map_updateRows]
    · exact agree.unique
    · exact fun _ => rfl
  · intro id unknown
    have absent : ∀ other ∈ agents, other.id ≠ id := by
      intro other isRow
      have kept := unknown _ (mem_updateRows.mpr ⟨other, isRow, rfl⟩)
      split at kept <;> exact kept
    rw [elsewhere id fun same => absent agent member same.symm, revokes]
    exact agree.known id absent
  · intro row inside
    rcases cases row inside with rfl | ⟨isRow, other⟩
    · dsimp only
      rw [issued, List.length_cons, agree.version agent member]
    · rw [elsewhere row.id other]
      exact agree.version row isRow
  · intro row inside
    rw [revokes]
    rcases cases row inside with rfl | ⟨isRow, -⟩
    · exact agree.revoked agent member
    · exact agree.revoked row isRow
  · intro row inside
    rcases cases row inside with rfl | ⟨isRow, -⟩
    · exact agree.keyed agent member
    · exact agree.keyed row isRow
  · intro row inside claims isIssued
    rcases cases row inside with rfl | ⟨isRow, other⟩
    · dsimp only at isIssued
      rw [issued] at isIssued
      rcases List.mem_cons.mp isIssued with rfl | earlier
      · exact ⟨rfl, rfl, rfl⟩
      · have credential := agree.credentials agent member claims earlier
        exact ⟨credential.sub, credential.aud, credential.thumbprint⟩
    · rw [elsewhere row.id other] at isIssued
      exact agree.credentials row isRow claims isIssued
  · intro id
    by_cases same : id = agent.id
    · rw [same, issued]
      refine ⟨?_, agree.numbered agent.id⟩
      rw [← agree.version agent member]
      rfl
    · rw [elsewhere id same]
      exact agree.numbered id
  · intro claims happened
    rcases List.mem_cons.mp happened with new | old
    · cases new
    · exact agree.others claims old

theorem AgentsAgree.revoke {agent : AgentRow} (now : Nat)
    (member : agent ∈ agents) :
    AgentsAgree hexDigest controllerId
      (updateRows (fun row => row.id = agent.id)
        (fun row => { row with revokedAt := some now }) agents)
      (.revoked agent.id :: history) := by
  have cases : ∀ row ∈ updateRows (fun row => row.id = agent.id)
        (fun row => { row with revokedAt := some now }) agents,
      row = { agent with revokedAt := some now } ∨
        row ∈ agents ∧ row.id ≠ agent.id := by
    intro row inside
    obtain ⟨old, isRow, rfl⟩ := mem_updateRows.mp inside
    split
    · rename_i chosen
      rw [agree.eq_of_id isRow member (of_decide_eq_true chosen)]
      exact .inl rfl
    · rename_i unchosen
      exact .inr ⟨isRow, fun same => unchosen (decide_eq_true same)⟩
  have issued : ∀ id, issuedTo (.revoked agent.id :: history) id =
      issuedTo history id := fun _ => rfl
  refine ⟨?_, ?_, ?_, ?_, ?_, ?_, agree.numbered, ?_⟩
  · rw [map_updateRows]
    · exact agree.unique
    · exact fun _ => rfl
  · intro id unknown
    have absent : ∀ other ∈ agents, other.id ≠ id := by
      intro other isRow
      have kept := unknown _ (mem_updateRows.mpr ⟨other, isRow, rfl⟩)
      split at kept <;> exact kept
    obtain ⟨unissued, unrevoked⟩ := agree.known id absent
    refine ⟨unissued, fun happened => ?_⟩
    rcases List.mem_cons.mp happened with new | old
    · cases new
      exact absent agent member rfl
    · exact unrevoked old
  · intro row inside
    rw [issued]
    rcases cases row inside with rfl | ⟨isRow, -⟩
    · exact agree.version agent member
    · exact agree.version row isRow
  · intro row inside
    rcases cases row inside with rfl | ⟨isRow, other⟩
    · exact iff_of_true (Option.some_ne_none _) List.mem_cons_self
    · rw [agree.revoked row isRow, List.mem_cons]
      refine (or_iff_right fun new => ?_).symm
      exact other (PairingEvent.revoked.inj new)
  · intro row inside
    rcases cases row inside with rfl | ⟨isRow, -⟩
    · exact agree.keyed agent member
    · exact agree.keyed row isRow
  · intro row inside claims isIssued
    rw [issued] at isIssued
    rcases cases row inside with rfl | ⟨isRow, -⟩
    · have credential := agree.credentials agent member claims isIssued
      exact ⟨credential.sub, credential.aud, credential.thumbprint⟩
    · exact agree.credentials row isRow claims isIssued
  · intro claims happened
    rcases List.mem_cons.mp happened with new | old
    · cases new
    · exact agree.others claims old

theorem AgentsAgree.sign {claims : JwtClaims}
    (other : claims.credentialVersion = none) :
    AgentsAgree hexDigest controllerId agents
      (.signed claims :: history) := by
  have revokes : ∀ id, PairingEvent.revoked id ∈ (.signed claims :: history) ↔
      .revoked id ∈ history := by
    intro id
    rw [List.mem_cons]
    exact or_iff_right nofun
  refine ⟨agree.unique, ?_, agree.version, ?_, agree.keyed,
    agree.credentials, agree.numbered, ?_⟩
  · intro id unknown
    rw [revokes]
    exact agree.known id unknown
  · intro agent member
    rw [revokes]
    exact agree.revoked agent member
  · intro signed happened
    rcases List.mem_cons.mp happened with new | old
    · cases new
      exact other
    · exact agree.others signed old

end

end Agents

/-! ## Runs -/

section Runs

variable {hexDigest : List Char → List Char} {controllerId : List Char}
  {rejecting : Option (List Char)} {state next : PairingState}

/-- What holds in every state of a run. -/
structure Consistent (hexDigest : List Char → List Char)
    (controllerId : List Char) (state : PairingState) : Prop where
  requests : RequestsAgree hexDigest state.tables.requests state.history
  agents : AgentsAgree hexDigest controllerId state.tables.agents state.history
  orderly : Orderly state.history

/-- Events that claim nothing may follow any. -/
theorem orderly_append {history events : List PairingEvent}
    (orderly : Orderly history)
    (unclaiming : ∀ event ∈ events, ∀ id claims,
      event ≠ .claimed id claims) : Orderly (events ++ history) := by
  induction events with
  | nil => exact orderly
  | cons event events induction =>
    refine ⟨?_, induction fun other member =>
      unclaiming other (List.mem_cons_of_mem _ member)⟩
    cases event with
    | claimed id claims =>
      exact absurd rfl (unclaiming _ List.mem_cons_self id claims)
    | _ => trivial

theorem mem_sweptEvents {tables : Tables} {now : Nat}
    {event : PairingEvent} (member : event ∈ sweptEvents tables now) :
    ∃ row ∈ tables.requests, row.stale now = true ∧
      event = .expired row.id := by
  obtain ⟨row, chosen, rfl⟩ := List.mem_map.mp member
  obtain ⟨isRow, stale⟩ := List.mem_filter.mp chosen
  exact ⟨row, isRow, stale, rfl⟩

variable {row : PairingRequestRow}

/-- Ending one row, with an event that ends it. -/
theorem Consistent.resolve {ended : RequestState} {now : Nat}
    {event : PairingEvent}
    (consistent : Consistent hexDigest controllerId state)
    (member : row ∈ state.tables.requests)
    (final : ended ≠ .pending ∧ ended ≠ .approved)
    (ofRequest : event.ofRequest = true)
    (closing : ∀ id, event.closes id → row.id = id)
    (follows : event.follows state.history) :
    Consistent hexDigest controllerId
      (state.record (state.tables.resolve row.id ended now) [event]) where
  requests := by
    refine consistent.requests.close final ?_
    intro other inside id closes
    rw [List.mem_singleton.mp inside] at closes
    exact ⟨row, member, decide_eq_true rfl, closing id closes⟩
  agents := consistent.agents.extend fun other inside => by
    rw [List.mem_singleton.mp inside]
    exact ofRequest
  orderly := ⟨follows, consistent.orderly⟩

/-- A move keeps the tables and the history consistent. -/
theorem Consistent.move (consistent : Consistent hexDigest controllerId state)
    (move : Move hexDigest controllerId rejecting state next) :
    Consistent hexDigest controllerId next := by
  cases move with
  | sweep now =>
    have swept : ∀ event ∈ sweptEvents state.tables now,
        ∃ row ∈ state.tables.requests, row.stale now = true ∧
          event = .expired row.id := fun _ => mem_sweptEvents
    refine ⟨consistent.requests.close ⟨nofun, nofun⟩ ?_,
      consistent.agents.extend ?_, orderly_append consistent.orderly ?_⟩
    · intro event member id closes
      obtain ⟨row, isRow, stale, rfl⟩ := swept event member
      exact ⟨row, isRow, stale, closes⟩
    · intro event member
      obtain ⟨row, -, -, rfl⟩ := swept event member
      rfl
    · intro event member id claims
      obtain ⟨row, -, -, rfl⟩ := swept event member
      nofun
  | add row pending keyed hashed fresh =>
    exact ⟨consistent.requests.add pending keyed hashed fresh,
      consistent.agents, consistent.orderly⟩
  | expire row now member pending =>
    exact consistent.resolve member ⟨nofun, nofun⟩ rfl
      (fun _ closes => closes) trivial
  | approve row draws member pending fresh =>
    refine ⟨consistent.requests.approve draws member pending, ?_,
      ⟨trivial, consistent.orderly⟩⟩
    refine @AgentsAgree.extend _ _ _ _
      (consistent.agents.add fresh ?_ rfl rfl) [_] ?_
    · refine ⟨row.devicePublicKey, consistent.requests.keyed row member, rfl,
        ?_⟩
      exact congrArg some (consistent.requests.hashed row member)
    · intro event inside
      rw [List.mem_singleton.mp inside]
      rfl
  | reject row now member named =>
    exact consistent.resolve member ⟨nofun, nofun⟩ rfl
      (fun _ closes => closes) trivial
  | issue agent draws member kept =>
    exact ⟨consistent.requests.extend fun _ => not_false,
      consistent.agents.issue draws member, ⟨trivial, consistent.orderly⟩⟩
  | claim row claims now member approved =>
    refine consistent.resolve member ⟨nofun, nofun⟩ rfl
      (fun _ closes => closes) ⟨?_, ?_⟩
    · exact consistent.requests.approved row member approved
    · exact consistent.requests.unclosed row member
        (decide_eq_true (.inr approved))
  | revoke agent now member =>
    exact ⟨consistent.requests.extend fun _ => not_false,
      consistent.agents.revoke now member, ⟨trivial, consistent.orderly⟩⟩
  | sign claims other =>
    exact ⟨consistent.requests.extend fun _ => not_false,
      consistent.agents.sign other, ⟨trivial, consistent.orderly⟩⟩

theorem Consistent.moves (consistent : Consistent hexDigest controllerId state)
    (moves : Moves hexDigest controllerId rejecting state next) :
    Consistent hexDigest controllerId next := by
  cases moves with
  | none => exact consistent
  | one move => exact consistent.move move
  | two first second => exact (consistent.move first).move second

theorem consistent_initial :
    Consistent hexDigest controllerId
      { tables := ⟨[], []⟩, history := [] } where
  requests := by
    constructor <;> simp
  agents := by
    constructor <;> simp [Numbered, issuedTo]
  orderly := trivial

theorem consistent_of_reachable
    {allowed : PairingState → Operation → Prop}
    (reachable :
      (pairingMachine hexDigest controllerId).Reachable allowed state) :
    Consistent hexDigest controllerId state := by
  refine reachable.invariant ?_ ?_
  · rintro _ rfl
    exact consistent_initial
  · intro state operation next consistent _ stepped
    exact consistent.moves (moves_of_step stepped)

/-! ## What becomes of a request -/

/-- A request that has ended stays as it is, unless it is rejected. -/
theorem kept_of_move (consistent : Consistent hexDigest controllerId state)
    (member : row ∈ state.tables.requests) (ended : row.live = false)
    (unrejected : rejecting ≠ some row.id)
    (move : Move hexDigest controllerId rejecting state next) :
    row ∈ next.tables.requests := by
  -- The row that a move changes is another one.
  have other : ∀ changed ∈ state.tables.requests, changed.live = true →
      decide (row.id = changed.id) = false := by
    intro changed isRow live
    refine decide_eq_false fun same => ?_
    rw [← consistent.requests.eq_of_id member isRow same, ended] at live
    cases live
  cases move with
  | sweep now =>
    refine mem_updateRows_of_unchosen member ?_
    unfold PairingRequestRow.stale
    rw [ended, Bool.false_and]
  | add => exact List.mem_append_left _ member
  | expire changed now isRow pending =>
    exact mem_updateRows_of_unchosen member
      (other changed isRow (decide_eq_true (.inl pending)))
  | approve changed draws isRow pending =>
    exact mem_updateRows_of_unchosen member
      (other changed isRow (decide_eq_true (.inl pending)))
  | reject changed now isRow named =>
    refine mem_updateRows_of_unchosen member (decide_eq_false fun same => ?_)
    exact unrejected (same ▸ named)
  | claim changed claims now isRow approved =>
    exact mem_updateRows_of_unchosen member
      (other changed isRow (decide_eq_true (.inr approved)))
  | issue => exact member
  | revoke => exact member
  | sign => exact member

theorem kept_of_moves (consistent : Consistent hexDigest controllerId state)
    (member : row ∈ state.tables.requests) (ended : row.live = false)
    (unrejected : rejecting ≠ some row.id)
    (moves : Moves hexDigest controllerId rejecting state next) :
    row ∈ next.tables.requests := by
  cases moves with
  | none => exact member
  | one move => exact kept_of_move consistent member ended unrejected move
  | two first second =>
    exact kept_of_move (consistent.move first)
      (kept_of_move consistent member ended unrejected first) ended
      unrejected second

/-- The operation does not reject the request. -/
def Spares (id : List Char) (_ : PairingState) (operation : Operation) :
    Prop :=
  operation.rejecting ≠ some id

/-- A request that has ended stays as it is in every run that does not reject
it. -/
theorem kept_of_steps (consistent : Consistent hexDigest controllerId state)
    (member : row ∈ state.tables.requests) (ended : row.live = false)
    (steps : (pairingMachine hexDigest controllerId).Steps (Spares row.id)
      state next) :
    row ∈ next.tables.requests := by
  have both : Consistent hexDigest controllerId next ∧
      row ∈ next.tables.requests := by
    induction steps with
    | refl => exact ⟨consistent, member⟩
    | tail _ last induction =>
      obtain ⟨operation, spares, stepped⟩ := last
      have moves := moves_of_step stepped
      exact ⟨induction.1.moves moves,
        kept_of_moves induction.1 induction.2 ended spares moves⟩
  exact both.2

def PairingEvent.claims (id : List Char) : PairingEvent → Bool
  | .claimed requestId _ => requestId = id
  | _ => false

theorem closes_of_claims {id : List Char} {event : PairingEvent}
    (claims : event.claims id = true) : event.closes id := by
  cases event with
  | claimed requestId => exact (of_decide_eq_true claims : requestId = id)
  | _ => cases claims

theorem claimable_of_orderly {later earlier : List PairingEvent}
    {id : List Char} {claims : JwtClaims}
    (orderly : Orderly (later ++ .claimed id claims :: earlier)) :
    Claimable id earlier := by
  induction later with
  | nil => exact orderly.1
  | cons event later induction => exact induction orderly.2

/-- A request is claimed once. -/
theorem countP_claims_le_one {history : List PairingEvent}
    (orderly : Orderly history) (id : List Char) :
    history.countP (PairingEvent.claims id) ≤ 1 := by
  induction history with
  | nil => exact Nat.zero_le 1
  | cons event earlier induction =>
    by_cases claims : event.claims id = true
    · rw [List.countP_cons_of_pos claims]
      have unclaimed : earlier.countP (PairingEvent.claims id) = 0 := by
        rw [List.countP_eq_zero]
        intro other member claimed
        cases event with
        | claimed requestId credential =>
          obtain rfl : requestId = id := of_decide_eq_true claims
          exact orderly.1.2 other member (closes_of_claims claimed)
        | _ => cases claims
      rw [unclaimed]
    · rw [List.countP_cons_of_neg claims]
      exact induction orderly.2

end Runs

/-! ## What verifies -/

/-- What opens was signed by the Controller. -/
def Unforged {Part : Type} (jwt : Jwt Part) (history : List PairingEvent)
    (token : Token Part) : Prop :=
  ∀ claims, openJwt jwt token = some claims →
    .signed claims ∈ history ∨ ∃ agentId, .issued agentId claims ∈ history

def Accepts {Part : Type} (jwt : Jwt Part)
    (hexDigest : List Char → List Char) (controllerId : List Char)
    (tables : Tables) (token : Token Part) (now : Nat) : Prop :=
  (verifyAgentCredential jwt hexDigest controllerId tables token now).isSome =
    true

instance {Part : Type} (jwt : Jwt Part) (hexDigest : List Char → List Char)
    (controllerId : List Char) (tables : Tables) (token : Token Part)
    (now : Nat) :
    Decidable (Accepts jwt hexDigest controllerId tables token now) :=
  inferInstanceAs (Decidable (_ = _))

/-- The claims were not past their expiry. -/
def InTime (claims : JwtClaims) (now : Nat) : Prop :=
  ∃ exp, claims.exp = some exp ∧ now / 1000 < exp

section Verification

variable {Part : Type} {jwt : Jwt Part} {hexDigest : List Char → List Char}
  {controllerId : List Char} {tables : Tables}
  {history : List PairingEvent}

theorem openJwt_signEdDsaJwt (lawful : jwt.Lawful) (claims : JwtClaims) :
    openJwt jwt (signEdDsaJwt jwt claims) = some claims := by
  unfold openJwt signEdDsaJwt
  dsimp only
  rw [if_neg (not_not.mpr lawful.alg), if_pos (lawful.signed _),
    lawful.claims]

variable {claims : JwtClaims}

theorem verifyEdDsaJwt_eq_some {token : Token Part} {now : Nat} :
    verifyEdDsaJwt jwt token now = some claims ↔
      openJwt jwt token = some claims ∧ InTime claims now := by
  unfold verifyEdDsaJwt InTime
  rw [Option.filter_eq_some_iff, Option.any_eq_true]
  simp only [decide_eq_true_eq]

theorem mem_issuedTo {agentId : List Char} :
    claims ∈ issuedTo history agentId ↔
      .issued agentId claims ∈ history := by
  unfold issuedTo
  rw [List.mem_filterMap]
  constructor
  · rintro ⟨event, member, issues⟩
    cases event with
    | issued other carried =>
      obtain ⟨rfl, same⟩ := Option.ite_none_right_eq_some.mp issues
      cases same
      exact member
    | _ => cases issues
  · exact fun member => ⟨_, member, if_pos rfl⟩

/-- The versions before a place are smaller. -/
theorem Numbered.version_le {credentials : List JwtClaims}
    (numbered : Numbered credentials) (member : claims ∈ credentials) :
    ∃ version, claims.credentialVersion = some version ∧
      version ≤ credentials.length := by
  induction credentials with
  | nil => cases member
  | cons first earlier induction =>
    rcases List.mem_cons.mp member with rfl | inside
    · exact ⟨_, numbered.1, Nat.le_refl _⟩
    · obtain ⟨version, is, small⟩ := induction numbered.2 inside
      exact ⟨version, is, Nat.le_succ_of_le small⟩

/-- The last credential is the one with the last version. -/
theorem Numbered.head_iff {credentials : List JwtClaims}
    (numbered : Numbered credentials) (member : claims ∈ credentials) :
    claims.credentialVersion = some credentials.length ↔
      credentials.head? = some claims := by
  cases credentials with
  | nil => cases member
  | cons first earlier =>
    rw [List.head?_cons, Option.some.injEq, List.length_cons]
    constructor
    · intro last
      rcases List.mem_cons.mp member with rfl | inside
      · rfl
      · obtain ⟨version, is, small⟩ := numbered.2.version_le inside
        rw [is, Option.some.injEq] at last
        omega
    · rintro rfl
      exact numbered.1

theorem truthy_some {text : List Char} (nonempty : text ≠ []) :
    truthy (some text) = true :=
  decide_eq_true nonempty

/-- What verifies names an agent that is not revoked and its version. -/
theorem accepts_iff
    (agree : AgentsAgree hexDigest controllerId tables.agents history)
    {token : Token Part} {now : Nat} :
    Accepts jwt hexDigest controllerId tables token now ↔
      ∃ claims, verifyEdDsaJwt jwt token now = some claims ∧
        ∃ agent ∈ tables.agents, agent.revokedAt = none ∧
          claims.credentialVersion = some agent.credentialVersion ∧
          CredentialOf controllerId agent claims := by
  unfold Accepts verifyAgentCredential
  simp only [Option.isSome_iff_exists, Option.bind_eq_bind,
    Option.bind_eq_some_iff, Option.guard_eq_some', Option.pure_def,
    exists_const]
  constructor
  · rintro ⟨_, claims, verified, aud, sub, named, agent, found, ⟨kept, -⟩,
      version, thumbprint, -⟩
    obtain ⟨member, rfl⟩ := getAgentSecurityRow_some found
    exact ⟨claims, verified, agent, member, kept, version,
      ⟨named, aud, thumbprint⟩⟩
  · rintro ⟨claims, verified, agent, member, kept, version, credential⟩
    obtain ⟨pem, nonempty, key, hashed⟩ := agree.keyed agent member
    have found : getAgentSecurityRow tables agent.id = some agent := by
      cases isFound : getAgentSecurityRow tables agent.id with
      | none =>
        have absent := List.find?_eq_none.mp isFound agent member
        exact absurd (decide_eq_true rfl) absent
      | some other =>
        obtain ⟨isAgent, same⟩ := getAgentSecurityRow_some isFound
        rw [agree.eq_of_id isAgent member same]
    refine ⟨_, claims, verified, credential.aud, agent.id, credential.sub,
      agent, found, ⟨kept, ?_, ?_⟩, version, credential.thumbprint, pem, key,
      hashed.symm, rfl⟩
    · rw [key]
      exact truthy_some nonempty
    · rw [hashed]
      exact truthy_some (List.cons_ne_nil _ _)

/-- A credential is accepted while it is the last one of an agent that is not
revoked, until it expires. -/
theorem accepts_issued_iff (lawful : jwt.Lawful)
    (agree : AgentsAgree hexDigest controllerId tables.agents history)
    {agentId : List Char} (issued : claims ∈ issuedTo history agentId)
    (now : Nat) :
    Accepts jwt hexDigest controllerId tables (signEdDsaJwt jwt claims) now ↔
      (issuedTo history agentId).head? = some claims ∧
        .revoked agentId ∉ history ∧ InTime claims now := by
  have known : ∃ agent ∈ tables.agents, agent.id = agentId := by
    by_contra unknown
    simp only [not_exists, not_and] at unknown
    rw [(agree.known agentId unknown).1] at issued
    cases issued
  obtain ⟨agent, member, rfl⟩ := known
  have credential := agree.credentials agent member claims issued
  have last : claims.credentialVersion = some agent.credentialVersion ↔
      (issuedTo history agent.id).head? = some claims := by
    rw [agree.version agent member]
    exact (agree.numbered agent.id).head_iff issued
  have kept : agent.revokedAt = none ↔ .revoked agent.id ∉ history := by
    rw [← agree.revoked agent member, not_not]
  rw [accepts_iff agree, ← last, ← kept]
  constructor
  · rintro ⟨opened, verified, other, isAgent, unrevoked, version, named⟩
    obtain ⟨opens, inTime⟩ := verifyEdDsaJwt_eq_some.mp verified
    rw [openJwt_signEdDsaJwt lawful, Option.some.injEq] at opens
    subst opens
    have same : other = agent := by
      refine agree.eq_of_id isAgent member ?_
      rw [← Option.some.injEq, ← named.sub, ← credential.sub]
    subst same
    exact ⟨version, unrevoked, inTime⟩
  · rintro ⟨version, unrevoked, inTime⟩
    exact ⟨claims, verifyEdDsaJwt_eq_some.mpr
      ⟨openJwt_signEdDsaJwt lawful claims, inTime⟩, agent, member, unrevoked,
      version, credential⟩

/-- No other token is accepted. -/
theorem issued_of_accepts
    (agree : AgentsAgree hexDigest controllerId tables.agents history)
    {token : Token Part} {now : Nat} (unforged : Unforged jwt history token)
    (accepts : Accepts jwt hexDigest controllerId tables token now) :
    ∃ agentId claims, openJwt jwt token = some claims ∧
      (issuedTo history agentId).head? = some claims := by
  obtain ⟨claims, verified, agent, member, -, version, named⟩ :=
    (accepts_iff agree).mp accepts
  obtain ⟨opens, -⟩ := verifyEdDsaJwt_eq_some.mp verified
  rcases unforged claims opens with other | ⟨agentId, issued⟩
  · rw [agree.others claims other] at version
    cases version
  · have isIssued := mem_issuedTo.mpr issued
    have same : agentId = agent.id := by
      by_cases known : ∃ owner ∈ tables.agents, owner.id = agentId
      · obtain ⟨owner, isAgent, rfl⟩ := known
        have credential := agree.credentials owner isAgent claims isIssued
        rw [← Option.some.injEq, ← credential.sub, named.sub]
      · simp only [not_exists, not_and] at known
        rw [(agree.known agentId known).1] at isIssued
        cases isIssued
    subst same
    refine ⟨agent.id, claims, opens, ?_⟩
    rw [agree.version agent member] at version
    exact ((agree.numbered agent.id).head_iff isIssued).mp version

end Verification

/-! ## What pairing promises -/

/-- What holds of a state of a run: a request is claimed at most once, behind
an approval and behind no rejection and no expiry that was noticed; what has
ended stays as it is unless it is rejected; and the credential that verifies is
the last one of its agent. -/
structure Promises {Part : Type} (jwt : Jwt Part)
    (hexDigest : List Char → List Char) (controllerId : List Char)
    (state : PairingState) : Prop where
  once : ∀ id, state.history.countP (PairingEvent.claims id) ≤ 1
  claimable : ∀ later earlier id claims,
    state.history = later ++ .claimed id claims :: earlier →
    Claimable id earlier
  kept : ∀ row ∈ state.tables.requests, row.live = false → ∀ next,
    (pairingMachine hexDigest controllerId).Steps (Spares row.id) state next →
    row ∈ next.tables.requests
  last : ∀ agentId, ∀ claims ∈ issuedTo state.history agentId, ∀ now,
    Accepts jwt hexDigest controllerId state.tables (signEdDsaJwt jwt claims)
        now ↔
      (issuedTo state.history agentId).head? = some claims ∧
        .revoked agentId ∉ state.history ∧ InTime claims now
  onlyIssued : ∀ token now, Unforged jwt state.history token →
    Accepts jwt hexDigest controllerId state.tables token now →
    ∃ agentId claims, openJwt jwt token = some claims ∧
      (issuedTo state.history agentId).head? = some claims

/-- A signature that repeats the payload. -/
def plainJwt : Jwt (Option JwtClaims) where
  header := none
  payload := some
  readAlg := fun part => if part = none then some edDsa else none
  readClaims := fun part => part
  cryptoSign := fun _ payload => payload
  cryptoVerify := fun _ payload signature => signature = payload

theorem lawful_plainJwt : plainJwt.Lawful where
  alg := rfl
  claims := fun _ => rfl
  signed := fun _ => decide_eq_true rfl

def deviceKey : DeviceKey where
  pem := ['k']
  nonempty := List.cons_ne_nil _ _

/-- A request that is approved at once and claimed behind its expiry. -/
def lateClaim : List Operation :=
  [.create { devicePublicKeyPem := deviceKey, displayName := ['d']
             hostname := none, metadata := none }
      { id := ['p'], random := 7, sweptAt := 0, soughtAt := 0, createdAt := 0
        expiresFrom := 0 },
    .approve ['p'] { agentId := ['a'], checkedAt := 1, expiredAt := 1
                     pairedAt := 1, resolvedAt := 1 },
    .claim deviceKey { expiresFrom := 900001, issuedAt := 900001 } 900001]

def emptyState : PairingState where
  tables := ⟨[], []⟩
  history := []

def claimedState : PairingState :=
  ((pairingMachine id ['c']).run emptyState lateClaim).getD emptyState

theorem reachable_claimedState :
    (pairingMachine id ['c']).Reachable (fun _ _ => True) claimedState :=
  Machine.reachable_of_run (by rfl)
    (rfl : (pairingMachine id ['c']).run emptyState lateClaim =
      some claimedState)

end Rbo.Controller.Pairing
