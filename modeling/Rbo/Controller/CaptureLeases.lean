import Mathlib.Algebra.Ring.Int.Defs
import Mathlib.Logic.Function.Basic
import Rbo.Controller.Lifecycle
import Rbo.Foundation.IsoDate
import Rbo.Foundation.Statements

/-!
# Capture leases

A submission is reserved under the key (client, request) before its snapshot
is captured, and one owner at a time holds the lease to capture it.  The
lease is a row of `snapshot_capture_leases`; every operation on it is a few
SQL statements, and any statement may fail.

The database outlives its callers: the results are about every sequence of
calls on it, with arbitrary clocks, owners and failures.
-/

namespace Rbo.Controller.CaptureLeases

open Rbo.Foundation
open Rbo.Controller.Lifecycle (ErrorCategory JobState)

/-! ## Rows -/

structure CaptureLeaseKey where
  clientId : String
  clientRequestId : String
  deriving DecidableEq

structure CaptureLeaseIdentity where
  key : CaptureLeaseKey
  ownerToken : String
  fencingGeneration : Nat
  deriving DecidableEq

/-- A row of `snapshot_capture_leases`, beside its key. -/
structure CaptureLease where
  ownerToken : String
  fencingGeneration : Nat
  expiresAt : String
  createdAt : String
  updatedAt : String
  deriving DecidableEq

inductive SubmissionState where
  | capturing
  | captured
  | failed
  deriving DecidableEq

/-- An `RboError`, and the JSON that `toJSON` makes of it. -/
structure RboError where
  category : ErrorCategory
  message : String
  retryable : Bool
  details : List (String × String)
  deriving DecidableEq

/-- What a call can throw. -/
inductive Thrown where
  | rbo (error : RboError)
  | other (message : String)
  deriving DecidableEq

/-- `RboError.validation`. -/
def validation (message : String) (details : List (String × String)) :
    Thrown :=
  .rbo ⟨.validation, message, false, details⟩

/-- `RboError.internal`. -/
def internal (message : String) : Thrown :=
  .rbo ⟨.internal, message, false, []⟩

/-- The answer to an accepted `job_submit`; absent members are `none`. -/
structure SubmitResponse where
  jobId : String
  state : JobState
  snapshotId : String
  contentId : String
  confirmationToken : Option String
  requiresOperatorConfirmation : Option Bool
  message : Option String
  secretWarnings : List String
  deriving DecidableEq

/-- A row of `job_submissions`, beside its key.  The JSON columns hold the
value whose text the source stores. -/
structure SubmissionRow where
  state : SubmissionState
  jobId : Option String
  responseJson : Option SubmitResponse
  errorJson : Option RboError
  createdAt : String
  updatedAt : String
  deriving DecidableEq

/-- A row of `jobs`, with the columns a submission writes. -/
structure JobRow where
  id : String
  key : CaptureLeaseKey
  state : JobState
  snapshotId : Option String
  deriving DecidableEq

/-- A row of `snapshots`, with the columns that name its files. -/
structure SnapshotRow where
  id : String
  contentId : String
  manifestPath : String
  payloadPath : String
  deriving DecidableEq

structure Tables where
  submissions : CaptureLeaseKey → Option SubmissionRow
  captureLeases : CaptureLeaseKey → Option CaptureLease
  jobs : List JobRow
  snapshots : List SnapshotRow

/-- A database without rows. -/
def Tables.empty : Tables where
  submissions := fun _ => none
  captureLeases := fun _ => none
  jobs := []
  snapshots := []

abbrev Sql := Program Tables Thrown

/-- Is the submission of the key still being captured? -/
def Tables.capturing (tables : Tables) (key : CaptureLeaseKey) : Bool :=
  match tables.submissions key with
  | some row => row.state = .capturing
  | none => false

/-! ## Statements -/

/-- Insert the row of a key unless it has one; the number of rows made. -/
def insertOrIgnore {Row : Type} (table : CaptureLeaseKey → Option Row)
    (key : CaptureLeaseKey) (row : Row) :
    Nat × (CaptureLeaseKey → Option Row) :=
  match table key with
  | some _ => (0, table)
  | none => (1, Function.update table key (some row))

/-- Update the row of a key if it meets a condition; the rows changed. -/
def updateWhere {Row : Type} (table : CaptureLeaseKey → Option Row)
    (key : CaptureLeaseKey) (condition : Row → Bool) (set : Row → Row) :
    Nat × (CaptureLeaseKey → Option Row) :=
  match table key with
  | some row =>
    if condition row then (1, Function.update table key (some (set row)))
    else (0, table)
  | none => (0, table)

/-- A statement on `job_submissions`. -/
def onSubmissions
    (change : Tables →
      Nat × (CaptureLeaseKey → Option SubmissionRow)) : Sql Nat :=
  Program.statement fun tables =>
    .ok ((change tables).1, { tables with submissions := (change tables).2 })

/-- A statement on `snapshot_capture_leases`. -/
def onLeases
    (change : Tables → Nat × (CaptureLeaseKey → Option CaptureLease)) :
    Sql Nat :=
  Program.statement fun tables =>
    .ok ((change tables).1,
      { tables with captureLeases := (change tables).2 })

/-! ## Submissions -/

def getSubmission (key : CaptureLeaseKey) : Sql (Option SubmissionRow) :=
  Program.query fun tables => tables.submissions key

structure ReserveResult where
  created : Bool
  submission : SubmissionRow
  deriving DecidableEq

/-- The insert of `reserveSubmission`. -/
def insertSubmission (key : CaptureLeaseKey) (timestamp : String) :
    Sql Nat :=
  onSubmissions fun tables =>
    insertOrIgnore tables.submissions key
      ⟨.capturing, none, none, none, timestamp, timestamp⟩

def reserveSubmission (key : CaptureLeaseKey) (timestamp : String) :
    Sql ReserveResult := do
  let changes ← insertSubmission key timestamp
  match ← getSubmission key with
  | none => throw (internal "Failed to reserve job submission")
  | some submission => return ⟨changes = 1, submission⟩

/-- The terminal state of a submission, with the payload of its column. -/
inductive Completion where
  | captured (response : SubmitResponse)
  | failed (error : RboError)
  deriving DecidableEq

/-- The row after `completeSubmission`; an absent job keeps the old one. -/
def Completion.apply (completion : Completion) (jobId : Option String)
    (timestamp : String) (row : SubmissionRow) : SubmissionRow :=
  match completion with
  | .captured response =>
    { row with
      state := .captured, responseJson := some response,
      jobId := jobId <|> row.jobId, updatedAt := timestamp }
  | .failed error =>
    { row with
      state := .failed, errorJson := some error,
      jobId := jobId <|> row.jobId, updatedAt := timestamp }

def SubmissionState.text : SubmissionState → String
  | .capturing => "capturing"
  | .captured => "captured"
  | .failed => "failed"

def Completion.text : Completion → String
  | .captured _ => SubmissionState.text .captured
  | .failed _ => SubmissionState.text .failed

def CaptureLeaseKey.details (key : CaptureLeaseKey) :
    List (String × String) :=
  [("client_id", key.clientId), ("client_request_id", key.clientRequestId)]

/-- The update of `completeSubmission`; a job id refers to a row of
`jobs`. -/
def completeRow (key : CaptureLeaseKey) (completion : Completion)
    (jobId : Option String) (timestamp : String) : Sql Nat :=
  Program.statement fun tables =>
    if jobId.all fun id => tables.jobs.any fun job => job.id = id then
      let changed := updateWhere tables.submissions key (fun _ => true)
        (completion.apply jobId timestamp)
      .ok (changed.1, { tables with submissions := changed.2 })
    else .error (.other "FOREIGN KEY constraint failed")

def completeSubmission (key : CaptureLeaseKey) (completion : Completion)
    (jobId : Option String) (timestamp : String) : Sql SubmissionRow := do
  match ← getSubmission key with
  | none => throw (validation "Unknown job submission" key.details)
  | some existing =>
    if existing.state = .capturing then
      let _ ← completeRow key completion jobId timestamp
      match ← getSubmission key with
      | none => throw (internal "Submission disappeared during update")
      | some updated => return updated
    else
      throw (validation
        ("Submission is already terminal (" ++ existing.state.text ++
          ") and cannot transition to " ++ completion.text) key.details)

/-! ## Leases -/

/-- A number given as a time to live: whole, or anything else. -/
inductive Ttl where
  | whole (value : Int)
  | other
  deriving DecidableEq

structure CaptureLeaseOptions where
  ttlMs : Option Ttl
  now : Option Date
  ownerToken : Option String
  deriving DecidableEq

/-- What a call takes from outside: the system clock, the timestamp of its
row and the random owner token. -/
structure Ambient where
  now : Date
  timestamp : String
  randomToken : String
  deriving DecidableEq

inductive RefusalReason where
  | active
  | terminal
  | missing
  deriving DecidableEq

structure CaptureLeaseResult where
  acquired : Bool
  reason : Option RefusalReason
  reclaimed : Bool
  lease : Option CaptureLease
  submission : Option SubmissionRow
  deriving DecidableEq

def clock (options : CaptureLeaseOptions) (ambient : Ambient) :
    Except Thrown Int :=
  match (options.now.getD ambient.now).time with
  | none => .error (.other "Invalid capture lease clock")
  | some time => .ok time

def defaultCaptureLeaseTtlMs : Int := 30000

def ttl (options : CaptureLeaseOptions) : Except Thrown Int :=
  match options.ttlMs.getD (.whole defaultCaptureLeaseTtlMs) with
  | .whole value =>
    if 0 < value ∧ value ≤ 2 ^ 53 - 1 then .ok value
    else .error (.other "Capture lease TTL must be a positive safe integer")
  | .other =>
    .error (.other "Capture lease TTL must be a positive safe integer")

def newOwnerToken (options : CaptureLeaseOptions) (ambient : Ambient) :
    String :=
  options.ownerToken.getD ambient.randomToken

def toISOString (date : Date) : Except Thrown String :=
  match date.toISOString? with
  | some text => .ok text
  | none => .error (.other "Invalid time value")

/-- The current time and the expiry of a lease given now. -/
structure LeaseTimes where
  currentIso : String
  expiresAt : String
  deriving DecidableEq

def leaseTimes (options : CaptureLeaseOptions) (ambient : Ambient) :
    Except Thrown LeaseTimes := do
  let current ← clock options ambient
  let currentIso ← toISOString (.ofTime current)
  let life ← ttl options
  let expiresAt ← toISOString (.ofTime (current + life))
  return ⟨currentIso, expiresAt⟩

def getCaptureLease (key : CaptureLeaseKey) : Sql (Option CaptureLease) :=
  Program.query fun tables => tables.captureLeases key

/-- Does the row belong to this owner and generation? -/
def CaptureLease.heldBy (lease : CaptureLease) (ownerToken : String)
    (fencingGeneration : Nat) : Bool :=
  lease.ownerToken = ownerToken ∧
    lease.fencingGeneration = fencingGeneration

/-- The insert of `acquireCaptureLease`. -/
def insertLease (key : CaptureLeaseKey) (ownerToken : String)
    (times : LeaseTimes) : Sql Nat :=
  onLeases fun tables =>
    if tables.capturing key then
      insertOrIgnore tables.captureLeases key
        ⟨ownerToken, 1, times.expiresAt, times.currentIso,
          times.currentIso⟩
    else (0, tables.captureLeases)

/-- The update of `reclaimExpiredCaptureLease`. -/
def reclaimRow (key : CaptureLeaseKey) (expectedOwner : String)
    (expectedGeneration : Nat) (ownerToken : String) (times : LeaseTimes) :
    Sql Nat :=
  onLeases fun tables =>
    updateWhere tables.captureLeases key
      (fun lease => lease.heldBy expectedOwner expectedGeneration ∧
        lease.expiresAt ≤ times.currentIso ∧ tables.capturing key)
      (fun lease =>
        { lease with
          ownerToken := ownerToken
          fencingGeneration := lease.fencingGeneration + 1
          expiresAt := times.expiresAt, updatedAt := times.currentIso })

/-- The update of `renewCaptureLease`. -/
def renewRow (identity : CaptureLeaseIdentity) (times : LeaseTimes) :
    Sql Nat :=
  onLeases fun tables =>
    updateWhere tables.captureLeases identity.key
      (fun lease =>
        lease.heldBy identity.ownerToken identity.fencingGeneration ∧
          times.currentIso < lease.expiresAt ∧
          tables.capturing identity.key)
      (fun lease =>
        { lease with
          expiresAt := times.expiresAt, updatedAt := times.currentIso })

/-- The expiry of a released lease. -/
def releasedAt : String := "1970-01-01T00:00:00.000Z"

/-- The update of `releaseCaptureLease`. -/
def releaseRow (identity : CaptureLeaseIdentity) (timestamp : String) :
    Sql Nat :=
  onLeases fun tables =>
    updateWhere tables.captureLeases identity.key
      (fun lease =>
        lease.heldBy identity.ownerToken identity.fencingGeneration)
      (fun lease =>
        { lease with expiresAt := releasedAt, updatedAt := timestamp })

/-- Reclaim an expired lease from the owner and generation that were seen. -/
def reclaimExpiredCaptureLease (key : CaptureLeaseKey)
    (expectedOwner : String) (expectedGeneration : Nat)
    (options : CaptureLeaseOptions) (ambient : Ambient) : Sql Bool := do
  let times ← liftExcept (leaseTimes options ambient)
  let changes ← reclaimRow key expectedOwner expectedGeneration
    (newOwnerToken options ambient) times
  return changes = 1

/-- Acquire a new lease, or reclaim an expired one. -/
def acquireCaptureLease (key : CaptureLeaseKey)
    (options : CaptureLeaseOptions) (ambient : Ambient) :
    Sql CaptureLeaseResult := do
  match ← getSubmission key with
  | none => return ⟨false, some .missing, false, none, none⟩
  | some submission =>
    if submission.state = .capturing then
      let times ← liftExcept (leaseTimes options ambient)
      let ownerToken := newOwnerToken options ambient
      let changes ← insertLease key ownerToken times
      if changes = 1 then
        let lease ← getCaptureLease key
        return ⟨true, none, false, lease, some submission⟩
      else
        match ← getCaptureLease key with
        | none =>
          return ⟨false, some .missing, false, none, some submission⟩
        | some previous =>
          let reclaimed ← reclaimExpiredCaptureLease key
            previous.ownerToken previous.fencingGeneration
            { options with
              ownerToken := some ownerToken
              now := some (options.now.getD ambient.now) } ambient
          let lease ← getCaptureLease key
          if reclaimed then
            return ⟨true, none, true, lease, some submission⟩
          else
            return ⟨false, some .active, false, lease, some submission⟩
    else
      let lease ← getCaptureLease key
      return ⟨false, some .terminal, false, lease, some submission⟩

/-- Reserve the key and acquire its lease; a terminal reservation is
returned as it is. -/
def reserveCaptureLease (key : CaptureLeaseKey)
    (options : CaptureLeaseOptions) (ambient : Ambient) :
    Sql CaptureLeaseResult := do
  let reservation ← reserveSubmission key ambient.timestamp
  if reservation.submission.state = .capturing then
    acquireCaptureLease key options ambient
  else
    let lease ← getCaptureLease key
    return ⟨false, some .terminal, false, lease,
      some reservation.submission⟩

/-- Renew only the current owner, while its lease has not expired. -/
def renewCaptureLease (identity : CaptureLeaseIdentity)
    (options : CaptureLeaseOptions) (ambient : Ambient) :
    Sql (Option CaptureLease) := do
  let times ← liftExcept (leaseTimes options ambient)
  let changes ← renewRow identity times
  if changes = 1 then getCaptureLease identity.key else return none

/-- Mark the lease of this owner and generation released; the row stays. -/
def releaseCaptureLease (identity : CaptureLeaseIdentity)
    (ambient : Ambient) : Sql Bool := do
  let changes ← releaseRow identity ambient.timestamp
  return changes = 1

/-- The row that `hasCaptureLeaseAuthority` looks for. -/
def Tables.authorizes (tables : Tables) (identity : CaptureLeaseIdentity)
    (nowIso : String) : Bool :=
  match tables.captureLeases identity.key with
  | some lease =>
    lease.heldBy identity.ownerToken identity.fencingGeneration ∧
      nowIso < lease.expiresAt ∧ tables.capturing identity.key
  | none => false

def hasCaptureLeaseAuthority (identity : CaptureLeaseIdentity)
    (now : Date) : Sql Bool :=
  match now.time with
  | none => throw (.other "Invalid capture lease clock")
  | some time =>
    Program.query fun tables =>
      tables.authorizes identity (Date.isoText time)

/-! ## Calls -/

/-- A call on the leases, with everything it is given. -/
inductive Call where
  | reserve (key : CaptureLeaseKey) (options : CaptureLeaseOptions)
      (ambient : Ambient)
  | acquire (key : CaptureLeaseKey) (options : CaptureLeaseOptions)
      (ambient : Ambient)
  | renew (identity : CaptureLeaseIdentity) (options : CaptureLeaseOptions)
      (ambient : Ambient)
  | reclaim (key : CaptureLeaseKey) (expectedOwner : String)
      (expectedGeneration : Nat) (options : CaptureLeaseOptions)
      (ambient : Ambient)
  | release (identity : CaptureLeaseIdentity) (ambient : Ambient)
  | complete (key : CaptureLeaseKey) (completion : Completion)
      (jobId : Option String) (timestamp : String)
  | hasAuthority (identity : CaptureLeaseIdentity) (now : Date)
  deriving DecidableEq

/-- What the calls return. -/
inductive Answer where
  | result (result : CaptureLeaseResult)
  | renewed (lease : Option CaptureLease)
  | reclaimed (done : Bool)
  | released (done : Bool)
  | submission (row : SubmissionRow)
  | authority (held : Bool)
  deriving DecidableEq

def Call.program : Call → Sql Answer
  | .reserve key options ambient =>
    .result <$> reserveCaptureLease key options ambient
  | .acquire key options ambient =>
    .result <$> acquireCaptureLease key options ambient
  | .renew identity options ambient =>
    .renewed <$> renewCaptureLease identity options ambient
  | .reclaim key owner generation options ambient =>
    .reclaimed <$>
      reclaimExpiredCaptureLease key owner generation options ambient
  | .release identity ambient =>
    .released <$> releaseCaptureLease identity ambient
  | .complete key completion jobId timestamp =>
    .submission <$> completeSubmission key completion jobId timestamp
  | .hasAuthority identity now =>
    .authority <$> hasCaptureLeaseAuthority identity now

def Call.key : Call → CaptureLeaseKey
  | .reserve key _ _ => key
  | .acquire key _ _ => key
  | .renew identity _ _ => identity.key
  | .reclaim key _ _ _ _ => key
  | .release identity _ => identity.key
  | .complete key _ _ _ => key
  | .hasAuthority identity _ => identity.key

/-- Does the answer say that the caller was given a lease? -/
def Answer.gives : Answer → Bool
  | .result answer => answer.acquired
  | .renewed lease => lease.isSome
  | .reclaimed done => done
  | _ => false

/-- The database under calls in any order; a label is a call and the
failures its statements meet. -/
def leases : Machine Tables (Call × List (Option Thrown)) where
  initial tables := ∀ key, tables.submissions key = none ∧
    tables.captureLeases key = none
  step tables label :=
    some (label.1.program.execute tables label.2).2

/-! ## Tables under single statements -/

variable {tables : Tables}

theorem capturing_iff {key : CaptureLeaseKey} :
    tables.capturing key = true ↔
      ∃ row, tables.submissions key = some row ∧ row.state = .capturing := by
  unfold Tables.capturing
  cases tables.submissions key with
  | none => simp
  | some row => simp

@[simp]
theorem heldBy_iff {lease : CaptureLease} {owner : String}
    {generation : Nat} :
    lease.heldBy owner generation = true ↔
      lease.ownerToken = owner ∧ lease.fencingGeneration = generation := by
  simp [CaptureLease.heldBy]

theorem insertOrIgnore_apply {Row : Type}
    (table : CaptureLeaseKey → Option Row) (key other : CaptureLeaseKey)
    (row : Row) :
    (insertOrIgnore table key row).2 other =
      if other = key then some ((table key).getD row) else table other := by
  unfold insertOrIgnore
  split
  next existing found =>
    by_cases same : other = key
    · simp [same, found]
    · simp [same]
  next missing =>
    by_cases same : other = key
    · simp [same, missing]
    · simp [same]

theorem updateWhere_apply {Row : Type}
    (table : CaptureLeaseKey → Option Row) (key other : CaptureLeaseKey)
    (condition : Row → Bool) (set : Row → Row) :
    (updateWhere table key condition set).2 other =
      if other = key then
        (table key).map fun row => if condition row then set row else row
      else table other := by
  unfold updateWhere
  split
  next row found =>
    by_cases same : other = key <;> by_cases met : condition row = true <;>
      simp [same, found, met]
  next missing =>
    by_cases same : other = key <;> simp [same, missing]

theorem updateWhere_changes {Row : Type}
    {table : CaptureLeaseKey → Option Row} {key : CaptureLeaseKey}
    {condition : Row → Bool} {set : Row → Row}
    (changed : (updateWhere table key condition set).1 = 1) :
    ∃ row, table key = some row ∧ condition row = true := by
  unfold updateWhere at changed
  split at changed
  next row found =>
    by_cases met : condition row = true
    · exact ⟨row, found, met⟩
    · simp [met] at changed
  next => cases changed

/-! ## Fencing -/

/-- The later row is of the same owner and generation, or of a later
generation. -/
def CaptureLease.Follows (later earlier : CaptureLease) : Prop :=
  later.heldBy earlier.ownerToken earlier.fencingGeneration ∨
    earlier.fencingGeneration < later.fencingGeneration

/-- How the rows of a key may change: a terminal submission stays as it is,
and a lease is only followed by leases of its owner or of later
generations. -/
structure Evolves (key : CaptureLeaseKey) (before after : Tables) :
    Prop where
  terminal : ∀ row, before.submissions key = some row →
    row.state ≠ .capturing → after.submissions key = some row
  lease : ∀ lease, before.captureLeases key = some lease →
    ∃ later, after.captureLeases key = some later ∧ later.Follows lease

theorem follows_refl (lease : CaptureLease) : lease.Follows lease := by
  left
  simp

theorem follows_trans {first second third : CaptureLease}
    (next : second.Follows first) (last : third.Follows second) :
    third.Follows first := by
  simp only [CaptureLease.Follows, heldBy_iff] at *
  rcases next with same | newer
  · rw [← same.1, ← same.2]
    exact last
  · right
    rcases last with same | newest <;> omega

instance (key : CaptureLeaseKey) : IsPreorder Tables (Evolves key) where
  refl _ := ⟨fun _ found _ => found, fun lease found =>
    ⟨lease, found, follows_refl lease⟩⟩
  trans _ _ _ first second := by
    constructor
    · intro row found ended
      exact second.terminal row (first.terminal row found ended) ended
    · intro lease found
      rcases first.lease lease found with ⟨middle, held, next⟩
      rcases second.lease middle held with ⟨later, holds, last⟩
      exact ⟨later, holds, follows_trans next last⟩

/-- A relation that the lease statements respect, whatever they are given;
`completeSubmission` is not among them. -/
structure LeaseLaw (relation : Tables → Tables → Prop) : Prop where
  insertSubmission : ∀ key timestamp,
    (insertSubmission key timestamp).Respects relation
  insertLease : ∀ key owner times,
    (insertLease key owner times).Respects relation
  reclaimRow : ∀ key expected generation owner times,
    (reclaimRow key expected generation owner times).Respects relation
  renewRow : ∀ identity times, (renewRow identity times).Respects relation
  releaseRow : ∀ identity timestamp,
    (releaseRow identity timestamp).Respects relation

/-- A relation that the statements of a reservation respect. -/
structure ReserveLaw (relation : Tables → Tables → Prop) : Prop where
  insertSubmission : ∀ key timestamp,
    (insertSubmission key timestamp).Respects relation
  insertLease : ∀ key owner times,
    (insertLease key owner times).Respects relation
  reclaimRow : ∀ key expected generation owner times,
    (reclaimRow key expected generation owner times).Respects relation

theorem LeaseLaw.reserveLaw {relation : Tables → Tables → Prop}
    (law : LeaseLaw relation) :
    ReserveLaw relation :=
  ⟨law.insertSubmission, law.insertLease, law.reclaimRow⟩

section LeaseLaw

open Program

variable {relation : Tables → Tables → Prop} [IsPreorder Tables relation]

section

variable (law : ReserveLaw relation) (key : CaptureLeaseKey)

include law key

theorem ReserveLaw.reserveSubmission (timestamp : String) :
    (reserveSubmission key timestamp).Respects relation := by
  apply respects_bind (law.insertSubmission key timestamp)
  intro changes
  apply respects_bind (respects_query _)
  intro found
  cases found with
  | none => exact respects_throw _
  | some submission => exact respects_pure _

theorem ReserveLaw.reclaim (owner : String) (generation : Nat)
    (options : CaptureLeaseOptions) (ambient : Ambient) :
    (reclaimExpiredCaptureLease key owner generation options
      ambient).Respects relation := by
  apply respects_bind (respects_liftExcept _)
  intro times
  apply respects_bind (law.reclaimRow _ _ _ _ _)
  intro changes
  exact respects_pure _

theorem ReserveLaw.acquire (options : CaptureLeaseOptions) (ambient : Ambient) :
    (acquireCaptureLease key options ambient).Respects relation := by
  apply respects_bind (respects_query _)
  intro found
  cases found with
  | none => exact respects_pure _
  | some submission =>
    show Respects relation (ite _ _ _)
    split
    · apply respects_bind (respects_liftExcept _)
      intro times
      apply respects_bind (law.insertLease _ _ _)
      intro changes
      split
      · exact respects_bind (respects_query _) fun _ => respects_pure _
      · apply respects_bind (respects_query _)
        intro previous
        cases previous with
        | none => exact respects_pure _
        | some previous =>
          apply respects_bind (law.reclaim _ _ _ _ _)
          intro reclaimed
          apply respects_bind (respects_query _)
          intro lease
          split
          · exact respects_pure _
          · exact respects_pure _
    · exact respects_bind (respects_query _) fun _ => respects_pure _

theorem ReserveLaw.reserve (options : CaptureLeaseOptions) (ambient : Ambient) :
    (reserveCaptureLease key options ambient).Respects relation := by
  apply respects_bind (law.reserveSubmission key ambient.timestamp)
  intro reservation
  split
  · exact law.acquire key options ambient
  · exact respects_bind (respects_query _) fun _ => respects_pure _

end

theorem LeaseLaw.renew (law : LeaseLaw relation)
    (identity : CaptureLeaseIdentity) (options : CaptureLeaseOptions)
    (ambient : Ambient) :
    (renewCaptureLease identity options ambient).Respects relation := by
  apply respects_bind (respects_liftExcept _)
  intro times
  apply respects_bind (law.renewRow identity times)
  intro changes
  split
  · exact respects_query _
  · exact respects_pure _

theorem LeaseLaw.release (law : LeaseLaw relation)
    (identity : CaptureLeaseIdentity) (ambient : Ambient) :
    (releaseCaptureLease identity ambient).Respects relation :=
  respects_bind (law.releaseRow identity ambient.timestamp)
    fun _ => respects_pure _

theorem respects_hasAuthority (identity : CaptureLeaseIdentity)
    (now : Date) :
    (hasCaptureLeaseAuthority identity now).Respects relation := by
  unfold hasCaptureLeaseAuthority
  split
  · exact respects_throw _
  · exact respects_query _

/-- Every call respects the relation, once `completeSubmission` does. -/
theorem LeaseLaw.call (law : LeaseLaw relation) (call : Call)
    (completes : ∀ key completion jobId timestamp,
      call = .complete key completion jobId timestamp →
      (completeSubmission key completion jobId timestamp).Respects
        relation) :
    call.program.Respects relation := by
  cases call with
  | reserve key options ambient =>
    exact respects_map _ (law.reserveLaw.reserve key options ambient)
  | acquire key options ambient =>
    exact respects_map _ (law.reserveLaw.acquire key options ambient)
  | renew identity options ambient =>
    exact respects_map _ (law.renew identity options ambient)
  | reclaim key owner generation options ambient =>
    exact respects_map _
      (law.reserveLaw.reclaim key owner generation options ambient)
  | release identity ambient =>
    exact respects_map _ (law.release identity ambient)
  | complete key completion jobId timestamp =>
    exact respects_map _ (completes key completion jobId timestamp rfl)
  | hasAuthority identity now =>
    exact respects_map _ (respects_hasAuthority identity now)

end LeaseLaw

/-! ## The lease of a key evolves -/

section Evolution

open Program

theorem respects_onLeases {relation : Tables → Tables → Prop}
    [IsPreorder Tables relation]
    {change : Tables → Nat × (CaptureLeaseKey → Option CaptureLease)}
    (related : ∀ tables, relation tables
      { tables with captureLeases := (change tables).2 }) :
    (onLeases change).Respects relation := by
  apply respects_statement
  intro tables changes after result
  simp only [Except.ok.injEq, Prod.mk.injEq] at result
  rw [← result.2]
  exact related tables

theorem respects_onSubmissions {relation : Tables → Tables → Prop}
    [IsPreorder Tables relation]
    {change : Tables → Nat × (CaptureLeaseKey → Option SubmissionRow)}
    (related : ∀ tables, relation tables
      { tables with submissions := (change tables).2 }) :
    (onSubmissions change).Respects relation := by
  apply respects_statement
  intro tables changes after result
  simp only [Except.ok.injEq, Prod.mk.injEq] at result
  rw [← result.2]
  exact related tables

/-- A statement on the leases whose rows follow the old ones. -/
theorem evolves_leases {key : CaptureLeaseKey} {tables : Tables}
    {table : CaptureLeaseKey → Option CaptureLease}
    (follows : ∀ lease, tables.captureLeases key = some lease →
      ∃ later, table key = some later ∧ later.Follows lease) :
    Evolves key tables { tables with captureLeases := table } :=
  ⟨fun _ found _ => found, follows⟩

/-- An update that keeps the identity or advances the generation. -/
theorem evolves_updateWhere {key target : CaptureLeaseKey} {tables : Tables}
    {condition : CaptureLease → Bool} {set : CaptureLease → CaptureLease}
    (follows : ∀ lease, (set lease).Follows lease) :
    Evolves key tables
      { tables with captureLeases :=
        (updateWhere tables.captureLeases target condition set).2 } := by
  apply evolves_leases
  intro lease found
  rw [updateWhere_apply]
  split
  next same =>
    rw [← same, found]
    by_cases met : condition lease = true
    · exact ⟨set lease, by simp [met], follows lease⟩
    · exact ⟨lease, by simp [met], follows_refl lease⟩
  next => exact ⟨lease, found, follows_refl lease⟩

theorem evolves_law (key : CaptureLeaseKey) : LeaseLaw (Evolves key) where
  insertSubmission target timestamp := by
    apply respects_onSubmissions
    intro tables
    constructor
    · intro row found _
      show (insertOrIgnore tables.submissions target _).2 key = some row
      rw [insertOrIgnore_apply]
      split
      next same => rw [← same, found, Option.getD_some]
      next => exact found
    · intro lease found
      exact ⟨lease, found, follows_refl lease⟩
  insertLease target owner times := by
    apply respects_onLeases
    intro tables
    apply evolves_leases
    intro lease found
    refine ⟨lease, ?_, follows_refl lease⟩
    split
    · rw [insertOrIgnore_apply]
      split
      next same => rw [← same, found, Option.getD_some]
      next => exact found
    · exact found
  reclaimRow target expected generation owner times := by
    apply respects_onLeases
    intro tables
    apply evolves_updateWhere
    intro lease
    right
    exact Nat.lt_succ_self _
  renewRow identity times := by
    apply respects_onLeases
    intro tables
    apply evolves_updateWhere
    intro lease
    left
    simp
  releaseRow identity timestamp := by
    apply respects_onLeases
    intro tables
    apply evolves_updateWhere
    intro lease
    left
    simp

/-- `completeSubmission` writes only the row it found capturing. -/
theorem guarantees_completeSubmission (key : CaptureLeaseKey)
    (completion : Completion) (jobId : Option String) (timestamp : String)
    (tables : Tables)
    {condition : Except Thrown SubmissionRow → Tables → Prop}
    (fails : ∀ failure, condition (.error failure) tables)
    (writes : ∀ row answer, tables.submissions key = some row →
      row.state = .capturing →
      condition answer
        { tables with
          submissions := Function.update tables.submissions key
            (some (completion.apply jobId timestamp row)) }) :
    (completeSubmission key completion jobId timestamp).Guarantees
      condition tables := by
  apply guarantees_query_bind fails
  cases found : tables.submissions key with
  | none => exact guarantees_throw _ (fails _)
  | some row =>
    show Guarantees (ite _ _ _) condition tables
    split
    next capturing =>
      apply guarantees_statement_bind fails
      intro changes after result
      split at result
      · simp only [Except.ok.injEq, Prod.mk.injEq, updateWhere, found,
          if_true] at result
        rw [← result.2]
        apply guarantees_query_bind
        · intro failure
          exact writes row _ found capturing
        · simp only [Function.update_self]
          exact guarantees_pure _ (writes row _ found capturing)
      · cases result
    next => exact guarantees_throw _ (fails _)

theorem evolves_completeSubmission (key target : CaptureLeaseKey)
    (completion : Completion) (jobId : Option String) (timestamp : String) :
    (completeSubmission target completion jobId timestamp).Respects
      (Evolves key) := by
  intro tables
  apply guarantees_completeSubmission
  · intro failure
    exact refl_of (Evolves key) tables
  · intro row answer found capturing
    constructor
    · intro other present ended
      by_cases same : key = target
      · rw [same, found, Option.some.injEq] at present
        rw [← present] at ended
        exact absurd capturing ended
      · show Function.update tables.submissions target _ key = some other
        rw [Function.update_of_ne same]
        exact present
    · intro lease held
      exact ⟨lease, held, follows_refl lease⟩

/-- Whatever a call does, the rows of every key evolve. -/
theorem call_evolves (call : Call) (key : CaptureLeaseKey) :
    call.program.Respects (Evolves key) :=
  (evolves_law key).call call fun _ _ _ _ _ =>
    evolves_completeSubmission key _ _ _ _

/-- The rows of every key evolve along every run. -/
theorem steps_evolve {allowed : Tables → Call × List (Option Thrown) → Prop}
    {tables later : Tables}
    (steps : leases.Steps allowed tables later) (key : CaptureLeaseKey) :
    Evolves key tables later := by
  induction steps with
  | refl => exact refl_of (Evolves key) tables
  | tail _ last earlier =>
    rcases last with ⟨label, _, stepped⟩
    simp only [leases, Option.some.injEq] at stepped
    rw [← stepped]
    exact trans_of (Evolves key) earlier
      ((call_evolves label.1 key).execute _ _)

end Evolution

/-! ## Who is given a lease -/

/-- The lease is as it was, or the same owner released it. -/
def UntouchedOrReleased (before after : Option CaptureLease) : Prop :=
  after = before ∨
    ∃ lease released, before = some lease ∧ after = some released ∧
      released.heldBy lease.ownerToken lease.fencingGeneration ∧
      released.expiresAt = releasedAt

/-- Nothing is done for a submission that is not being captured: its lease
is left alone or released. -/
structure Spares (key : CaptureLeaseKey) (before after : Tables) :
    Prop where
  keeps : before.capturing key = true → after.capturing key = true
  lease : after.capturing key = false →
    UntouchedOrReleased (before.captureLeases key) (after.captureLeases key)

theorem untouchedOrReleased_trans {first second third : Option CaptureLease}
    (next : UntouchedOrReleased first second)
    (last : UntouchedOrReleased second third) :
    UntouchedOrReleased first third := by
  rcases last with same | ⟨middle, final, seen, left, held, expired⟩
  · rw [same]
    exact next
  · right
    rcases next with same | ⟨lease, released, found, stored, owned, _⟩
    · exact ⟨middle, final, same ▸ seen, left, held, expired⟩
    · rw [stored, Option.some.injEq] at seen
      refine ⟨lease, final, found, left, ?_, expired⟩
      rw [← seen] at held
      rw [heldBy_iff] at held owned ⊢
      exact ⟨held.1.trans owned.1, held.2.trans owned.2⟩

instance (key : CaptureLeaseKey) : IsPreorder Tables (Spares key) where
  refl _ := ⟨id, fun _ => .inl rfl⟩
  trans _ middle _ first second := by
    refine ⟨fun captured => second.keeps (first.keeps captured), ?_⟩
    intro ended
    have stopped : middle.capturing key = false := by
      cases captured : middle.capturing key with
      | false => rfl
      | true => rw [second.keeps captured] at ended; cases ended
    exact untouchedOrReleased_trans (first.lease stopped)
      (second.lease ended)

section Giving

open Program

/-- A guarded update spares what does not meet its guard. -/
theorem spares_updateWhere {key target : CaptureLeaseKey} {tables : Tables}
    {condition : CaptureLease → Bool} {set : CaptureLease → CaptureLease}
    (guarded : ∀ lease, condition lease = true →
      tables.capturing target = true ∨
        UntouchedOrReleased (some lease) (some (set lease))) :
    Spares key tables
      { tables with captureLeases :=
        (updateWhere tables.captureLeases target condition set).2 } := by
  refine ⟨id, ?_⟩
  intro ended
  show UntouchedOrReleased _ ((updateWhere _ target condition set).2 key)
  rw [updateWhere_apply]
  split
  next same =>
    rw [← same]
    cases found : tables.captureLeases key with
    | none => exact .inl rfl
    | some lease =>
      by_cases met : condition lease = true
      · rcases guarded lease met with captured | released
        · rw [← same] at captured
          exact absurd (captured.symm.trans ended) (by decide)
        · simpa [met] using released
      · exact .inl (by simp [met])
  next => exact .inl rfl

theorem capturing_insertSubmission (tables : Tables)
    (key target : CaptureLeaseKey) (timestamp : String)
    (captured : tables.capturing key = true) :
    Tables.capturing { tables with submissions :=
      (insertOrIgnore tables.submissions target
        ⟨.capturing, none, none, none, timestamp, timestamp⟩).2 } key =
      true := by
  rw [capturing_iff] at captured ⊢
  rcases captured with ⟨row, found, capturing⟩
  refine ⟨row, ?_, capturing⟩
  simp only [insertOrIgnore_apply]
  split
  next same => rw [← same, found, Option.getD_some]
  next => exact found

theorem spares_law (key : CaptureLeaseKey) : LeaseLaw (Spares key) where
  insertSubmission target timestamp := by
    apply respects_onSubmissions
    intro tables
    exact ⟨capturing_insertSubmission tables key target timestamp,
      fun _ => .inl rfl⟩
  insertLease target owner times := by
    apply respects_onLeases
    intro tables
    refine ⟨id, ?_⟩
    intro ended
    have ended : tables.capturing key = false := ended
    left
    simp only
    split
    next captured =>
      rw [insertOrIgnore_apply]
      split
      next same =>
        rw [same, captured] at ended
        cases ended
      next => rfl
    next => rfl
  reclaimRow target expected generation owner times := by
    apply respects_onLeases
    intro tables
    apply spares_updateWhere
    intro lease met
    left
    simp only [Bool.decide_and, Bool.and_eq_true, decide_eq_true_eq] at met
    exact met.2.2
  renewRow identity times := by
    apply respects_onLeases
    intro tables
    apply spares_updateWhere
    intro lease met
    left
    simp only [Bool.decide_and, Bool.and_eq_true, decide_eq_true_eq] at met
    exact met.2.2
  releaseRow identity timestamp := by
    apply respects_onLeases
    intro tables
    apply spares_updateWhere
    intro lease met
    right
    right
    refine ⟨lease, _, rfl, rfl, ?_, rfl⟩
    simp

/-- The submission is capturing if the answer says that a lease was
given. -/
def GivenWhileCapturing {Result : Type} (key : CaptureLeaseKey)
    (given : Result → Bool) (result : Result) (after : Tables) : Prop :=
  given result = true → after.capturing key = true

theorem gives_reclaim (key : CaptureLeaseKey) (owner : String)
    (generation : Nat) (options : CaptureLeaseOptions) (ambient : Ambient)
    (tables : Tables) :
    (reclaimExpiredCaptureLease key owner generation options
      ambient).Returns (GivenWhileCapturing key id) tables := by
  apply returns_bind
  apply returns_liftExcept
  intro times _
  apply returns_bind
  apply returns_statement
  intro changes after result
  cases result
  apply returns_pure
  intro given
  rcases updateWhere_changes (of_decide_eq_true given) with ⟨lease, _, met⟩
  simp only [Bool.decide_and, Bool.and_eq_true, decide_eq_true_eq] at met
  exact met.2.2

theorem gives_acquire (key : CaptureLeaseKey)
    (options : CaptureLeaseOptions) (ambient : Ambient) (tables : Tables) :
    (acquireCaptureLease key options ambient).Returns
      (GivenWhileCapturing key CaptureLeaseResult.acquired) tables := by
  apply returns_bind
  apply returns_query
  cases tables.submissions key with
  | none => exact returns_pure _ nofun
  | some submission =>
    show Returns (ite _ _ _) _ tables
    split
    · apply returns_bind
      apply returns_liftExcept
      intro times _
      apply returns_bind
      apply returns_statement
      intro changes after result
      cases result
      split
      next inserted =>
        have captured : tables.capturing key = true := by
          by_contra stopped
          simp [stopped] at inserted
        apply returns_bind
        apply returns_query
        exact returns_pure _ fun _ => captured
      next =>
        apply returns_bind
        apply returns_query
        split
        · exact returns_pure _ nofun
        next previous _ =>
          apply returns_bind
          refine (gives_reclaim key _ _ _ _ _).imp ?_
          intro reclaimed final given
          apply returns_bind
          apply returns_query
          cases reclaimed with
          | true => exact returns_pure _ given
          | false => exact returns_pure _ nofun
    · apply returns_bind
      apply returns_query
      exact returns_pure _ nofun

theorem gives_reserve (key : CaptureLeaseKey)
    (options : CaptureLeaseOptions) (ambient : Ambient) (tables : Tables) :
    (reserveCaptureLease key options ambient).Returns
      (GivenWhileCapturing key CaptureLeaseResult.acquired) tables := by
  apply returns_bind
  refine (returns_true _).imp ?_
  intro reservation after _
  split
  · exact gives_acquire key options ambient after
  · apply returns_bind
    apply returns_query
    exact returns_pure _ nofun

theorem gives_renew (identity : CaptureLeaseIdentity)
    (options : CaptureLeaseOptions) (ambient : Ambient) (tables : Tables) :
    (renewCaptureLease identity options ambient).Returns
      (GivenWhileCapturing identity.key Option.isSome) tables := by
  apply returns_bind
  apply returns_liftExcept
  intro times _
  apply returns_bind
  apply returns_statement
  intro changes after result
  cases result
  split
  next renewed =>
    rcases updateWhere_changes renewed with ⟨lease, _, met⟩
    simp only [Bool.decide_and, Bool.and_eq_true,
      decide_eq_true_eq] at met
    exact returns_query fun _ => met.2.2
  next => exact returns_pure _ nofun

/-- A call that is given a lease leaves its submission capturing. -/
theorem call_gives (call : Call) (tables : Tables) :
    call.program.Returns (GivenWhileCapturing call.key Answer.gives)
      tables := by
  cases call with
  | reserve key options ambient =>
    exact returns_map (gives_reserve key options ambient tables)
  | acquire key options ambient =>
    exact returns_map (gives_acquire key options ambient tables)
  | renew identity options ambient =>
    exact returns_map (gives_renew identity options ambient tables)
  | reclaim key owner generation options ambient =>
    exact returns_map
      (gives_reclaim key owner generation options ambient tables)
  | release identity ambient =>
    exact returns_map ((returns_true _).imp fun _ _ _ => nofun)
  | complete key completion jobId timestamp =>
    exact returns_map ((returns_true _).imp fun _ _ _ => nofun)
  | hasAuthority identity now =>
    exact returns_map ((returns_true _).imp fun _ _ _ => nofun)

/-- A call leaves the lease of a submission that is not capturing alone, or
releases it. -/
theorem call_spares (call : Call) (key : CaptureLeaseKey)
    (tables : Tables) :
    call.program.Guarantees
      (fun _ after => after.capturing key = false →
        UntouchedOrReleased (tables.captureLeases key)
          (after.captureLeases key)) tables := by
  by_cases completes : ∃ target completion jobId timestamp,
      call = .complete target completion jobId timestamp
  · rcases completes with ⟨target, completion, jobId, timestamp, rfl⟩
    apply guarantees_map
    apply guarantees_completeSubmission
    · intro failure _
      exact .inl rfl
    · intro row answer _ _ _
      exact .inl rfl
  · refine ((spares_law key).call call ?_ tables).imp ?_
    · intro target completion jobId timestamp same
      exact absurd ⟨target, completion, jobId, timestamp, same⟩ completes
    · intro answer after spares
      exact spares.lease

end Giving

/-! ## Mutual exclusion -/

/-- Does `hasCaptureLeaseAuthority` answer yes, when it can be asked? -/
def Tables.Authoritative (tables : Tables) (identity : CaptureLeaseIdentity)
    (now : Date) : Prop :=
  ((hasCaptureLeaseAuthority identity now).execute tables []).1 = .ok true

instance (tables : Tables) (identity : CaptureLeaseIdentity) (now : Date) :
    Decidable (tables.Authoritative identity now) :=
  inferInstanceAs (Decidable (_ = _))

/-- Is this owner and generation the one the row of the key names? -/
def Tables.Names (tables : Tables) (identity : CaptureLeaseIdentity) :
    Prop :=
  ∃ lease, tables.captureLeases identity.key = some lease ∧
    lease.heldBy identity.ownerToken identity.fencingGeneration = true

variable {identity : CaptureLeaseIdentity}

theorem authoritative_names {now : Date}
    (authoritative : tables.Authoritative identity now) :
    tables.Names identity ∧ tables.capturing identity.key = true := by
  unfold Tables.Authoritative hasCaptureLeaseAuthority at authoritative
  split at authoritative
  · cases authoritative
  next time _ =>
    have authorized : tables.authorizes identity (Date.isoText time) =
        true := Except.ok.inj authoritative
    unfold Tables.authorizes at authorized
    split at authorized
    next lease found =>
      simp only [Bool.decide_and, Bool.and_eq_true,
        decide_eq_true_eq] at authorized
      exact ⟨⟨lease, found, authorized.1⟩, authorized.2.2⟩
    next => cases authorized

/-- A row names one owner and generation. -/
theorem names_unique {other : CaptureLeaseIdentity}
    (first : tables.Names identity) (second : tables.Names other)
    (same : identity.key = other.key) : identity = other := by
  rcases first with ⟨lease, found, held⟩
  rcases second with ⟨row, seen, owned⟩
  rw [same, seen, Option.some.injEq] at found
  rw [heldBy_iff] at held owned
  cases identity
  cases other
  simp_all

/-- An identity that the row no longer names does not come back. -/
theorem names_superseded {later final : Tables}
    (first : Evolves identity.key tables later)
    (second : Evolves identity.key later final)
    (named : tables.Names identity) (superseded : ¬ later.Names identity) :
    ¬ final.Names identity := by
  rcases named with ⟨lease, found, held⟩
  rcases first.lease lease found with ⟨next, stored, follows⟩
  rcases second.lease next stored with ⟨last, kept, ends⟩
  rintro ⟨row, seen, owned⟩
  rw [kept, Option.some.injEq] at seen
  simp only [CaptureLease.Follows, heldBy_iff] at *
  have advanced : lease.fencingGeneration < next.fencingGeneration := by
    rcases follows with same | newer
    · exact absurd ⟨next, stored, by
        rw [heldBy_iff]
        exact ⟨same.1.trans held.1, same.2.trans held.2⟩⟩ superseded
    · exact newer
  rw [← seen] at owned
  rcases ends with same | newer <;> omega

/-- The generation of a key, 0 before it has a lease. -/
def Tables.generation (tables : Tables) (key : CaptureLeaseKey) : Nat :=
  ((tables.captureLeases key).map CaptureLease.fencingGeneration).getD 0

theorem generation_le {later : Tables} {key : CaptureLeaseKey}
    (evolves : Evolves key tables later) :
    tables.generation key ≤ later.generation key := by
  unfold Tables.generation
  cases found : tables.captureLeases key with
  | none => exact Nat.zero_le _
  | some lease =>
    rcases evolves.lease lease found with ⟨next, stored, follows⟩
    rw [stored]
    simp only [CaptureLease.Follows, heldBy_iff] at follows
    simp only [Option.map_some, Option.getD_some]
    omega

/-- From any state of the database, whatever calls come in whatever order
and at whatever times: one owner and generation of a key is authoritative at
most, generations never go back and advance with every change of owner, what
was superseded or has ended is never authoritative again, and a lease is only
given while the submission is being captured. -/
theorem captureLease_exclusive_fenced {tables later : Tables}
    (steps : leases.Steps (fun _ _ => True) tables later)
    (key : CaptureLeaseKey) :
    (∀ identity other now moment, identity.key = key → other.key = key →
      later.Authoritative identity now → later.Authoritative other moment →
      identity = other) ∧
    tables.generation key ≤ later.generation key ∧
    (∀ lease next, tables.captureLeases key = some lease →
      later.captureLeases key = some next →
      next.ownerToken ≠ lease.ownerToken →
      lease.fencingGeneration < next.fencingGeneration) ∧
    (∀ identity, identity.key = key → tables.Names identity →
      ¬ later.Names identity →
      ∀ final now, leases.Steps (fun _ _ => True) later final →
        ¬ final.Authoritative identity now) ∧
    (∀ row, later.submissions key = some row → row.state ≠ .capturing →
      ∀ final identity now, leases.Steps (fun _ _ => True) later final →
        identity.key = key → ¬ final.Authoritative identity now) ∧
    (∀ (call : Call) failures answer after,
      call.program.execute later failures = (answer, after) →
      (∀ value, answer = .ok value → value.gives = true →
        after.capturing call.key = true) ∧
      (after.capturing key = false →
        UntouchedOrReleased (later.captureLeases key)
          (after.captureLeases key))) := by
  have evolves := steps_evolve steps key
  refine ⟨?_, generation_le evolves, ?_, ?_, ?_, ?_⟩
  · intro identity other now moment ofKey otherKey first second
    exact names_unique (authoritative_names first).1
      (authoritative_names second).1 (ofKey.trans otherKey.symm)
  · intro lease next found stored changed
    rcases evolves.lease lease found with ⟨row, kept, follows⟩
    rw [stored, Option.some.injEq] at kept
    rw [← kept] at follows
    simp only [CaptureLease.Follows, heldBy_iff] at follows
    rcases follows with same | newer
    · exact absurd same.1 changed
    · exact newer
  · intro identity ofKey named superseded final now rest authoritative
    rw [← ofKey] at evolves
    exact names_superseded evolves (steps_evolve rest identity.key) named
      superseded (authoritative_names authoritative).1
  · intro row found ended final identity now rest ofKey authoritative
    have captured := (authoritative_names authoritative).2
    rw [ofKey, capturing_iff] at captured
    rcases captured with ⟨last, seen, capturing⟩
    rw [(steps_evolve rest key).terminal row found ended,
      Option.some.injEq] at seen
    rw [← seen] at capturing
    exact ended capturing
  · intro call failures answer after executed
    have given := call_gives call later failures
    have spared := call_spares call key later failures
    rw [executed] at given spared
    exact ⟨given, spared⟩

/-- One owner captures, its lease expires and a second owner reclaims it:
the first is never authoritative again. -/
theorem captureLease_exclusive_fenced_reclaimed :
    let key : CaptureLeaseKey := ⟨"client", "request"⟩
    let granted (time : Int) (owner : String) : CaptureLeaseOptions :=
      ⟨some (.whole 10000), some (.ofTime time), some owner⟩
    let ambient : Ambient := ⟨.ofTime 0, "", ""⟩
    let first := ((Call.reserve key (granted 0 "one")
      ambient).program.execute Tables.empty []).2
    let second := ((Call.acquire key (granted 10000 "two")
      ambient).program.execute first []).2
    first.Authoritative ⟨key, "one", 1⟩ (.ofTime 0) ∧
    second.Authoritative ⟨key, "two", 2⟩ (.ofTime 0) ∧
    ∀ final now, leases.Steps (fun _ _ => True) second final →
      ¬ final.Authoritative ⟨key, "one", 1⟩ now := by
  intro key granted ambient first second
  have taken : second.Authoritative ⟨key, "two", 2⟩ (.ofTime 0) := by
    decide +kernel
  have held : first.Authoritative ⟨key, "one", 1⟩ (.ofTime 0) := by
    decide +kernel
  refine ⟨held, taken, ?_⟩
  intro final now rest
  have reclaimed : leases.Steps (fun _ _ => True) first second :=
    .single ⟨(Call.acquire key (granted 10000 "two") ambient, []),
      trivial, rfl⟩
  have fenced := captureLease_exclusive_fenced reclaimed key
  refine fenced.2.2.2.1 _ rfl (authoritative_names held).1 ?_ final now rest
  intro named
  have same := names_unique named (authoritative_names taken).1 rfl
  exact absurd (congrArg CaptureLeaseIdentity.fencingGeneration same)
    (by decide)

end Rbo.Controller.CaptureLeases
