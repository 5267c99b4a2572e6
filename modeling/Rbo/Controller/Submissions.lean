import Mathlib.Data.List.Pairwise
import Rbo.Controller.CaptureLeases

/-!
# Job submissions

`handleJobSubmit` reserves its key, captures a snapshot under the capture
lease, publishes the captured files and commits the job, the snapshot and the
terminal submission in one transaction.  Between two awaits it runs alone;
at every await other calls run, its own lease may expire, and the process
may stop.

The calls are kept with the database, also when they have returned, so that
what they answered can be compared with what they left behind.
-/

namespace Rbo.Controller.Submissions

open Rbo.Foundation
open Rbo.Controller.Lifecycle (JobState)
open Rbo.Controller.CaptureLeases

/-! ## The transaction -/

inductive RiskLevel where
  | safe
  | normal
  | destructive
  | hardware
  deriving DecidableEq

def RiskLevel.text : RiskLevel → String
  | .safe => "safe"
  | .normal => "normal"
  | .destructive => "destructive"
  | .hardware => "hardware"

def isDestructiveRisk (level : RiskLevel) : Bool :=
  level = .destructive ∨ level = .hardware

/-- What `captureAndPersistSnapshot` returns, with the paths its candidates
get when they are published. -/
structure Captured where
  snapshotId : String
  contentId : String
  secretWarnings : List String
  manifestPath : String
  payloadPath : String
  riskLevel : RiskLevel
  deriving DecidableEq

def persistSnapshot (row : SnapshotRow) : Sql Unit :=
  Program.statement fun tables =>
    if tables.snapshots.any fun existing => existing.id = row.id then
      .error (.other "UNIQUE constraint failed: snapshots.id")
    else .ok ((), { tables with snapshots := tables.snapshots ++ [row] })

def getJob (jobId : String) : Sql (Option JobRow) :=
  Program.query fun tables => tables.jobs.find? fun job => job.id = jobId

/-- The insert of `createJob`: identifiers and keys are unique. -/
def insertJob (row : JobRow) : Sql Unit :=
  Program.statement fun tables =>
    if tables.jobs.any fun job => job.id = row.id ∨ job.key = row.key then
      .error (.other "UNIQUE constraint failed: jobs")
    else .ok ((), { tables with jobs := tables.jobs ++ [row] })

def createJob (jobId : String) (key : CaptureLeaseKey) (state : JobState) :
    Sql JobRow := do
  insertJob ⟨jobId, key, state, none⟩
  match ← getJob jobId with
  | none => throw (.other "Failed to create job")
  | some row => return row

/-- Move the job, and set its snapshot if one is given. -/
def moveJob (jobId : String) (state : JobState)
    (snapshotId : Option String) (job : JobRow) : JobRow :=
  if job.id = jobId then
    { job with state := state, snapshotId := snapshotId <|> job.snapshotId }
  else job

def transitionJobState (jobId : String) (state : JobState)
    (snapshotId : Option String) : Sql JobRow := do
  Program.command fun tables =>
    { tables with jobs := tables.jobs.map (moveJob jobId state snapshotId) }
  match ← getJob jobId with
  | none =>
    throw (.other ("Job not found after transition: " ++ jobId))
  | some row => return row

/-- The state of a new job: risky ones wait for a confirmation. -/
def submittedState (level : RiskLevel) : JobState :=
  if isDestructiveRisk level then .awaitingConfirmation else .queued

/-- The response to an accepted submission. -/
def submitResponse (jobId : String) (captured : Captured) (strict : Bool)
    (token : String) : SubmitResponse :=
  let risky := isDestructiveRisk captured.riskLevel
  { jobId := jobId
    state := submittedState captured.riskLevel
    snapshotId := captured.snapshotId
    contentId := captured.contentId
    confirmationToken := if risky ∧ ¬ strict then some token else none
    requiresOperatorConfirmation :=
      if risky ∧ strict then some true else none
    message :=
      if risky ∧ strict then
        some ("Job has risk_level '" ++ captured.riskLevel.text ++
          "'. Operator confirmation required via 'rbo jobs confirm " ++
          jobId ++ "'.")
      else none
    secretWarnings := captured.secretWarnings }

def leaseLost (message : String) : Thrown :=
  .rbo ⟨.leaseExpired, message, true, []⟩

/-- What the commit takes from outside. -/
structure CommitInput where
  ambient : Ambient
  strict : Bool
  token : String
  deriving DecidableEq

/-- The lifecycle transaction of `handleJobSubmit`. -/
def commitSubmission (lease : CaptureLeaseIdentity) (jobId : String)
    (captured : Captured) (input : CommitInput) : Sql SubmitResponse :=
  Program.transaction do
    let held ← hasCaptureLeaseAuthority lease input.ambient.now
    if held then
      persistSnapshot ⟨captured.snapshotId, captured.contentId,
        captured.manifestPath, captured.payloadPath⟩
      let job ← createJob jobId lease.key .created
      let _ ← transitionJobState job.id job.state (some captured.snapshotId)
      let _ ← transitionJobState job.id
        (submittedState captured.riskLevel) none
      let response := submitResponse job.id captured input.strict input.token
      let _ ← completeSubmission lease.key (.captured response)
        (some job.id) input.ambient.timestamp
      return response
    else
      throw (leaseLost "Snapshot capture lease lost before database commit")

/-! ## The failure path -/

/-- The JSON of a thrown error; anything unknown can be retried. -/
def errorPayload : Thrown → RboError
  | .rbo error => error
  | .other message => ⟨.internal, message, true, []⟩

def failSubmissionIfCaptureLeaseIsAuthoritative
    (lease : CaptureLeaseIdentity) (payload : RboError)
    (timestamp : String) : Sql Bool := do
  let changes ← onSubmissions fun tables =>
    updateWhere tables.submissions lease.key
      (fun _ => tables.authorizes lease timestamp)
      (fun row =>
        { row with
          state := .failed, errorJson := some payload
          updatedAt := timestamp })
  return changes = 1

/-- The end of the catch block: record the failure or release the lease. -/
def recordFailure (lease : CaptureLeaseIdentity) (payload : RboError)
    (ambient : Ambient) : Sql RboError := do
  if payload.retryable then
    let _ ← releaseCaptureLease lease ambient
    return payload
  else
    let failed ← failSubmissionIfCaptureLeaseIsAuthoritative lease payload
      ambient.timestamp
    if failed then
      let _ ← releaseCaptureLease lease ambient
      return payload
    else
      return ⟨.leaseExpired,
        "Snapshot capture lease lost before recording terminal " ++
          "capture failure", true, []⟩

/-! ## Calls -/

/-- How a call ends. -/
inductive Outcome where
  | job (response : SubmitResponse)
  | error (payload : RboError)
  | threw (thrown : Thrown)
  deriving DecidableEq

/-- Where a call stands: at which await, or how it ended. -/
inductive Phase where
  | capturing (lease : CaptureLeaseIdentity)
  | flushing (lease : CaptureLeaseIdentity) (captured : Captured)
      (index : Nat)
  | publishing (lease : CaptureLeaseIdentity) (captured : Captured)
      (index : Nat)
  | flushingDirectory (lease : CaptureLeaseIdentity) (captured : Captured)
  | cleaning (lease : CaptureLeaseIdentity) (candidate : Bool)
      (thrown : Thrown)
  | finished (outcome : Outcome)
  | lost
  deriving DecidableEq

/-- A call of `handleJobSubmit`, with the identifiers it has generated. -/
structure SubmitCall where
  key : CaptureLeaseKey
  jobId : Option String
  snapshotId : Option String
  phase : Phase
  deriving DecidableEq

structure SubmitState where
  tables : Tables
  calls : List SubmitCall

/-- Archive, manifest, secret warnings and git requirements. -/
def candidateCount : Nat := 4

def reasonText : RefusalReason → String
  | .active => "active"
  | .terminal => "terminal"
  | .missing => "missing"

/-- The part of `handleJobSubmit` before its first await. -/
def openSubmission (key : CaptureLeaseKey) (ambient : Ambient) :
    Sql (Except Outcome CaptureLeaseIdentity) := do
  let reserve ← reserveCaptureLease key ⟨none, none, none⟩ ambient
  if reserve.acquired then
    match reserve.lease with
    | none =>
      throw (internal "Capture lease reservation returned no lease")
    | some lease =>
      return .ok ⟨key, lease.ownerToken, lease.fencingGeneration⟩
  else
    match reserve.submission with
    | none =>
      throw (internal "Capture lease reservation returned no submission")
    | some existing =>
      match existing.state, existing.responseJson, existing.errorJson with
      | .capturing, _, _ =>
        throw (validation "Submission is still capturing snapshot"
          [("client_request_id", key.clientRequestId)])
      | .captured, some response, _ => return .error (.job response)
      | .failed, _, some error => return .error (.error error)
      | _, _, _ =>
        throw (validation "Submission cannot acquire a capture lease"
          [("client_request_id", key.clientRequestId),
            ("reason", reasonText (reserve.reason.getD .missing))])

/-- The call that was opened, from the answer of its first segment. -/
def openedCall (key : CaptureLeaseKey) (jobId : String) :
    Except Thrown (Except Outcome CaptureLeaseIdentity) → SubmitCall
  | .error thrown => ⟨key, none, none, .finished (.threw thrown)⟩
  | .ok (.error outcome) => ⟨key, none, none, .finished outcome⟩
  | .ok (.ok lease) => ⟨key, some jobId, none, .capturing lease⟩

/-- The authority check before a candidate is published. -/
def checkAuthority (lease : CaptureLeaseIdentity) (ambient : Ambient) :
    Sql Unit := do
  let held ← hasCaptureLeaseAuthority lease ambient.now
  if held then return ()
  else throw (leaseLost "Snapshot capture lease lost before publication")

/-- Check the authority and start to publish the candidate. -/
def beginPublication (tables : Tables) (lease : CaptureLeaseIdentity)
    (captured : Captured) (index : Nat) (ambient : Ambient)
    (failures : List (Option Thrown)) : Phase × Tables :=
  match (checkAuthority lease ambient).execute tables failures with
  | (.ok _, after) => (.publishing lease captured index, after)
  | (.error thrown, after) => (.cleaning lease true thrown, after)

/-- Commit, then release the lease.  The release stands inside the same
`try`, so what it throws is handled like a failed submission. -/
def finishSubmission (tables : Tables) (lease : CaptureLeaseIdentity)
    (jobId : String) (captured : Captured) (input : CommitInput)
    (failures : List (Option Thrown)) (releaseFailure : Option Thrown) :
    Phase × Tables :=
  match (commitSubmission lease jobId captured input).execute tables
      failures with
  | (.error thrown, after) => (.cleaning lease true thrown, after)
  | (.ok response, committed) =>
    match (releaseCaptureLease lease input.ambient).execute committed
        [releaseFailure] with
    | (.error thrown, after) => (.cleaning lease true thrown, after)
    | (.ok _, after) => (.finished (.job response), after)

/-- The end of the catch block as a phase. -/
def settleFailure (tables : Tables) (lease : CaptureLeaseIdentity)
    (thrown : Thrown) (ambient : Ambient)
    (failures : List (Option Thrown)) : Phase × Tables :=
  match (recordFailure lease (errorPayload thrown) ambient).execute tables
      failures with
  | (.error thrown, after) => (.finished (.threw thrown), after)
  | (.ok payload, after) => (.finished (.error payload), after)

/-- What the awaited operation of a call reports, and what the segment that
follows takes from outside. -/
inductive Resumption where
  | captured (result : Except Thrown Captured)
  | flushed (result : Except Thrown Unit) (ambient : Ambient)
      (failures : List (Option Thrown))
  | published (result : Except Thrown Unit) (ambient : Ambient)
      (failures : List (Option Thrown))
  | directoryFlushed (result : Except Thrown Unit) (input : CommitInput)
      (failures : List (Option Thrown)) (releaseFailure : Option Thrown)
  | cleaned (result : Except Thrown Unit) (ambient : Ambient)
      (failures : List (Option Thrown))
  deriving DecidableEq

/-- Does a call have the renewal timer of its lease running? -/
def Phase.renewing : Phase → Option CaptureLeaseIdentity
  | .capturing lease => some lease
  | .flushing lease _ _ => some lease
  | .publishing lease _ _ => some lease
  | .flushingDirectory lease _ => some lease
  | .cleaning _ _ _ => none
  | .finished _ => none
  | .lost => none

/-- The segment of a call that follows an await. -/
def resumeCall (tables : Tables) (call : SubmitCall)
    (resumption : Resumption) : Option (SubmitCall × Tables) :=
  match call.phase, resumption with
  | .capturing lease, .captured (.error thrown) =>
    some ({ call with phase := .cleaning lease false thrown }, tables)
  | .capturing lease, .captured (.ok captured) =>
    some ({ call with
      snapshotId := some captured.snapshotId
      phase := .flushing lease captured 0 }, tables)
  | .flushing lease _ _, .flushed (.error thrown) _ _ =>
    some ({ call with phase := .cleaning lease true thrown }, tables)
  | .flushing lease captured index, .flushed (.ok _) ambient failures =>
    if index + 1 < candidateCount then
      some ({ call with phase := .flushing lease captured (index + 1) },
        tables)
    else
      let next := beginPublication tables lease captured 0 ambient failures
      some ({ call with phase := next.1 }, next.2)
  | .publishing lease _ _, .published (.error thrown) _ _ =>
    some ({ call with phase := .cleaning lease true thrown }, tables)
  | .publishing lease captured index, .published (.ok _) ambient failures =>
    if index + 1 < candidateCount then
      let next := beginPublication tables lease captured (index + 1)
        ambient failures
      some ({ call with phase := next.1 }, next.2)
    else
      some ({ call with phase := .flushingDirectory lease captured },
        tables)
  | .flushingDirectory lease _, .directoryFlushed (.error thrown) _ _ _ =>
    some ({ call with phase := .cleaning lease true thrown }, tables)
  | .flushingDirectory lease captured,
      .directoryFlushed (.ok _) input failures releaseFailure => do
      let jobId ← call.jobId
      let next := finishSubmission tables lease jobId captured input failures
        releaseFailure
      some ({ call with phase := next.1 }, next.2)
  | .cleaning _ candidate _, .cleaned (.error thrown) _ _ =>
    -- Without a candidate nothing is awaited that could fail.
    if candidate then
      some ({ call with phase := .finished (.threw thrown) }, tables)
    else none
  | .cleaning lease _ thrown, .cleaned (.ok _) ambient failures =>
    let next := settleFailure tables lease thrown ambient failures
    some ({ call with phase := next.1 }, next.2)
  | _, _ => none

/-- What can happen next. -/
inductive SubmitEvent where
  | submit (key : CaptureLeaseKey) (jobId : String) (ambient : Ambient)
      (failures : List (Option Thrown))
  | resume (index : Nat) (resumption : Resumption)
  | renew (index : Nat) (ambient : Ambient)
      (failures : List (Option Thrown))
  | transition (jobId : String) (state : JobState)
  | crash
  deriving DecidableEq

/-- Generated identifiers are new. -/
def SubmitState.fresh (state : SubmitState) : SubmitEvent → Bool
  | .submit _ jobId _ _ =>
    state.calls.all fun call => call.jobId ≠ some jobId
  | .resume _ (.captured (.ok captured)) =>
    state.calls.all fun call => call.snapshotId ≠ some captured.snapshotId
  | _ => true

/-- A call that was running when the process stopped never returns. -/
def SubmitCall.stopped (call : SubmitCall) : SubmitCall :=
  match call.phase with
  | .finished _ => call
  | _ => { call with phase := .lost }

/-- One segment of one call, a renewal, a later transition of a job by the
scheduler, or a crash. -/
def SubmitState.next (state : SubmitState) :
    SubmitEvent → Option SubmitState
  | .submit key jobId ambient failures =>
    let opened := (openSubmission key ambient).execute state.tables failures
    some ⟨opened.2, state.calls ++ [openedCall key jobId opened.1]⟩
  | .resume index resumption => do
    let call ← state.calls[index]?
    let resumed ← resumeCall state.tables call resumption
    some ⟨resumed.2, state.calls.set index resumed.1⟩
  | .renew index ambient failures => do
    let call ← state.calls[index]?
    let lease ← call.phase.renewing
    let renewed := (renewCaptureLease lease ⟨none, none, none⟩
      ambient).execute state.tables failures
    some { state with tables := renewed.2 }
  | .transition jobId jobState =>
    some { state with
      tables := { state.tables with
        jobs := state.tables.jobs.map (moveJob jobId jobState none) } }
  | .crash => some { state with calls := state.calls.map SubmitCall.stopped }

def submissions : Machine SubmitState SubmitEvent where
  initial state := state.calls = [] ∧ state.tables = Tables.empty
  step state event := if state.fresh event then state.next event else none

/-! ## Segments that commit nothing -/

/-- No job and no snapshot is added, and a terminal submission stays as it
is. -/
structure Settles (before after : Tables) : Prop where
  jobs : after.jobs = before.jobs
  snapshots : after.snapshots = before.snapshots
  terminal : ∀ key row, before.submissions key = some row →
    row.state ≠ .capturing → after.submissions key = some row

instance : IsPreorder Tables Settles where
  refl _ := ⟨rfl, rfl, fun _ _ found _ => found⟩
  trans _ _ _ first second :=
    ⟨second.jobs.trans first.jobs, second.snapshots.trans first.snapshots,
      fun key row found ended =>
        second.terminal key row (first.terminal key row found ended) ended⟩

section Settles

open Program

theorem settles_refl (tables : Tables) : Settles tables tables :=
  refl_of Settles tables

theorem settles_onLeases
    (change : Tables → Nat × (CaptureLeaseKey → Option CaptureLease)) :
    (onLeases change).Respects Settles :=
  respects_onLeases fun _ => ⟨rfl, rfl, fun _ _ found _ => found⟩

theorem settles_law : LeaseLaw Settles where
  insertSubmission target timestamp := by
    apply respects_onSubmissions
    intro tables
    refine ⟨rfl, rfl, ?_⟩
    intro key row found _
    show (insertOrIgnore tables.submissions target _).2 key = some row
    rw [insertOrIgnore_apply]
    split
    next same => rw [← same, found, Option.getD_some]
    next => exact found
  insertLease _ _ _ := settles_onLeases _
  reclaimRow _ _ _ _ _ := settles_onLeases _
  renewRow _ _ := settles_onLeases _
  releaseRow _ _ := settles_onLeases _

/-- Opening a submission is a reservation and what is read of its answer. -/
theorem respects_openSubmission {relation : Tables → Tables → Prop}
    [IsPreorder Tables relation] (law : ReserveLaw relation)
    (key : CaptureLeaseKey) (ambient : Ambient) :
    (openSubmission key ambient).Respects relation := by
  apply respects_bind (law.reserve _ _ _)
  intro reserve
  split
  · split
    · exact respects_throw _
    · exact respects_pure _
  · split
    · exact respects_throw _
    · split
      · exact respects_throw _
      · exact respects_pure _
      · exact respects_pure _
      · exact respects_throw _

theorem settles_openSubmission (key : CaptureLeaseKey)
    (ambient : Ambient) :
    (openSubmission key ambient).Respects Settles :=
  respects_openSubmission settles_law.reserveLaw key ambient

theorem settles_checkAuthority (lease : CaptureLeaseIdentity)
    (ambient : Ambient) :
    (checkAuthority lease ambient).Respects Settles := by
  apply respects_bind (respects_hasAuthority _ _)
  intro held
  split
  · exact respects_pure _
  · exact respects_throw _

theorem authorizes_capturing {tables : Tables}
    {identity : CaptureLeaseIdentity} {now : String}
    (authorized : tables.authorizes identity now = true) :
    tables.capturing identity.key = true := by
  unfold Tables.authorizes at authorized
  split at authorized
  next lease _ =>
    simp only [Bool.decide_and, Bool.and_eq_true,
      decide_eq_true_eq] at authorized
    exact authorized.2.2
  next => cases authorized

theorem settles_failSubmission (lease : CaptureLeaseIdentity)
    (payload : RboError) (timestamp : String) :
    (failSubmissionIfCaptureLeaseIsAuthoritative lease payload
      timestamp).Respects Settles := by
  apply respects_bind
  · apply respects_onSubmissions
    intro tables
    refine ⟨rfl, rfl, ?_⟩
    intro key row found ended
    show (updateWhere tables.submissions lease.key _ _).2 key = some row
    rw [updateWhere_apply]
    split
    next same =>
      rw [← same, found, Option.map_some]
      split
      next authorized =>
        have captured := authorizes_capturing authorized
        rw [← same, capturing_iff] at captured
        rcases captured with ⟨other, seen, capturing⟩
        rw [found, Option.some.injEq] at seen
        rw [← seen] at capturing
        exact absurd capturing ended
      next => rfl
    next => exact found
  · intro changes
    exact respects_pure _

theorem settles_recordFailure (lease : CaptureLeaseIdentity)
    (payload : RboError) (ambient : Ambient) :
    (recordFailure lease payload ambient).Respects Settles := by
  unfold recordFailure
  split
  · exact respects_bind (settles_law.release _ _) fun _ => respects_pure _
  · apply respects_bind (settles_failSubmission _ _ _)
    intro failed
    split
    · exact respects_bind (settles_law.release _ _) fun _ => respects_pure _
    · exact respects_pure _

end Settles

/-! ## The answer to a repeated submission -/

section Repeated

open Program

theorem returns_reclaim_submissions (key : CaptureLeaseKey) (owner : String)
    (generation : Nat) (options : CaptureLeaseOptions) (ambient : Ambient)
    (tables : Tables) :
    (reclaimExpiredCaptureLease key owner generation options
      ambient).Returns
      (fun _ after => after.submissions = tables.submissions) tables := by
  apply returns_bind
  apply returns_liftExcept
  intro times _
  apply returns_bind
  apply returns_statement
  intro changes after result
  cases result
  exact returns_pure _ rfl

/-- The submission in the result is the one in the table. -/
theorem returns_acquire_submission (key : CaptureLeaseKey)
    (options : CaptureLeaseOptions) (ambient : Ambient) (tables : Tables) :
    (acquireCaptureLease key options ambient).Returns
      (fun result after => result.submission = after.submissions key)
      tables := by
  apply returns_bind
  apply returns_query
  cases found : tables.submissions key with
  | none => exact returns_pure _ found.symm
  | some submission =>
    show Returns (ite _ _ _) _ tables
    split
    · apply returns_bind
      apply returns_liftExcept
      intro times _
      apply returns_bind
      apply returns_statement
      intro changes after result
      cases result
      split
      · apply returns_bind
        apply returns_query
        exact returns_pure _ found.symm
      · apply returns_bind
        apply returns_query
        split
        · exact returns_pure _ found.symm
        · apply returns_bind
          refine (returns_reclaim_submissions _ _ _ _ _ _).imp ?_
          intro reclaimed final same
          have kept : some submission = final.submissions key := by
            rw [same]
            exact found.symm
          apply returns_bind
          apply returns_query
          split
          · exact returns_pure _ kept
          · exact returns_pure _ kept
    · apply returns_bind
      apply returns_query
      exact returns_pure _ found.symm

theorem returns_reserve_submission (key : CaptureLeaseKey)
    (options : CaptureLeaseOptions) (ambient : Ambient) (tables : Tables) :
    (reserveCaptureLease key options ambient).Returns
      (fun result after => result.submission = after.submissions key)
      tables := by
  have reserved : (reserveSubmission key ambient.timestamp).Returns
      (fun reservation after =>
        after.submissions key = some reservation.submission) tables := by
    apply returns_bind
    refine (returns_true _).imp ?_
    intro changes after _
    apply returns_bind
    apply returns_query
    split
    · exact returns_throw _
    next submission found => exact returns_pure _ found
  apply returns_bind
  refine reserved.imp ?_
  intro reservation after found
  split
  · exact returns_acquire_submission key options ambient after
  · apply returns_bind
    apply returns_query
    exact returns_pure _ found.symm

/-- The row that an answered job was read from. -/
def Answered (tables : Tables) (key : CaptureLeaseKey)
    (response : SubmitResponse) : Prop :=
  ∃ row, tables.submissions key = some row ∧ row.state = .captured ∧
    row.responseJson = some response

theorem returns_openSubmission (key : CaptureLeaseKey) (ambient : Ambient)
    (tables : Tables) :
    (openSubmission key ambient).Returns
      (fun answer after => ∀ response, answer = .error (.job response) →
        Answered after key response) tables := by
  apply returns_bind
  refine (returns_reserve_submission key _ ambient tables).imp ?_
  intro reserve after same
  split
  · split
    · exact returns_throw _
    · exact returns_pure _ (by intro response absurd; cases absurd)
  · split
    · exact returns_throw _
    next existing found =>
      split
      · exact returns_throw _
      next ended given =>
        apply returns_pure
        intro response answer
        cases answer
        exact ⟨existing, by rw [← same, found], ended, given⟩
      · exact returns_pure _ (by intro response absurd; cases absurd)
      · exact returns_throw _

/-- A call that may capture has a lease of its own key. -/
theorem returns_openSubmission_key (key : CaptureLeaseKey)
    (ambient : Ambient) (tables : Tables) :
    (openSubmission key ambient).Returns
      (fun answer _ => ∀ lease, answer = .ok lease → lease.key = key)
      tables := by
  apply returns_bind
  refine (returns_true _).imp ?_
  intro reserve after _
  split
  · split
    · exact returns_throw _
    · apply returns_pure
      intro lease same
      cases same
      rfl
  · split
    · exact returns_throw _
    · split
      · exact returns_throw _
      · exact returns_pure _ (by intro lease absurd; cases absurd)
      · exact returns_pure _ (by intro lease absurd; cases absurd)
      · exact returns_throw _

end Repeated

/-! ## The commit -/

/-- What a committed submission has added. -/
structure Committed (lease : CaptureLeaseIdentity) (jobId : String)
    (captured : Captured) (before after : Tables)
    (response : SubmitResponse) : Prop where
  unused : ∀ job ∈ before.jobs, job.id ≠ jobId ∧ job.key ≠ lease.key
  unseen : ∀ row ∈ before.snapshots, row.id ≠ captured.snapshotId
  jobs : ∃ state, after.jobs = before.jobs ++
    [⟨jobId, lease.key, state, some captured.snapshotId⟩]
  snapshots : after.snapshots = before.snapshots ++
    [⟨captured.snapshotId, captured.contentId, captured.manifestPath,
      captured.payloadPath⟩]
  answered : Answered after lease.key response
  terminal : ∀ key row, before.submissions key = some row →
    row.state ≠ .capturing → after.submissions key = some row

section Commit

open Program

theorem map_moveJob_of_forall_ne {jobs : List JobRow} {jobId : String}
    (others : ∀ job ∈ jobs, job.id ≠ jobId) (state : JobState)
    (snapshotId : Option String) :
    jobs.map (moveJob jobId state snapshotId) = jobs := by
  conv => rhs; rw [← List.map_id jobs]
  apply List.map_congr_left
  intro job member
  simp [moveJob, others job member]

theorem returns_transitionJobState (jobId : String) (state : JobState)
    (snapshotId : Option String) (tables : Tables) :
    (transitionJobState jobId state snapshotId).Returns
      (fun _ after => after =
        { tables with
          jobs := tables.jobs.map (moveJob jobId state snapshotId) })
      tables := by
  apply returns_bind
  apply returns_statement
  intro done after result
  cases result
  apply returns_bind
  apply returns_query
  split
  · exact returns_throw _
  · exact returns_pure _ rfl

theorem returns_createJob (jobId : String) (key : CaptureLeaseKey)
    (state : JobState) (tables : Tables) :
    (createJob jobId key state).Returns
      (fun row after => row.id = jobId ∧
        (∀ job ∈ tables.jobs, job.id ≠ jobId ∧ job.key ≠ key) ∧
        after = { tables with
          jobs := tables.jobs ++ [⟨jobId, key, state, none⟩] }) tables := by
  apply returns_bind
  apply returns_statement
  intro done after result
  split at result
  · cases result
  next unused =>
    cases result
    apply returns_bind
    apply returns_query
    split
    · exact returns_throw _
    next row found =>
      apply returns_pure
      refine ⟨by simpa using List.find?_some found, ?_, rfl⟩
      intro job member
      constructor
      · intro same
        exact unused (List.any_eq_true.mpr
          ⟨job, member, decide_eq_true (.inl same)⟩)
      · intro same
        exact unused (List.any_eq_true.mpr
          ⟨job, member, decide_eq_true (.inr same)⟩)

theorem returns_persistSnapshot (row : SnapshotRow) (tables : Tables) :
    (persistSnapshot row).Returns
      (fun _ after => (∀ other ∈ tables.snapshots, other.id ≠ row.id) ∧
        after = { tables with snapshots := tables.snapshots ++ [row] })
      tables := by
  apply returns_statement
  intro done after result
  split at result
  · cases result
  next unseen =>
    cases result
    refine ⟨?_, rfl⟩
    intro other member same
    exact unseen (List.any_eq_true.mpr
      ⟨other, member, decide_eq_true same⟩)

theorem returns_hasAuthority (identity : CaptureLeaseIdentity)
    (now : Date) (tables : Tables) :
    (hasCaptureLeaseAuthority identity now).Returns
      (fun _ after => after = tables) tables := by
  unfold hasCaptureLeaseAuthority
  split
  · exact returns_throw _
  · exact returns_query rfl

theorem returns_completeSubmission (key : CaptureLeaseKey)
    (completion : Completion) (jobId : Option String) (timestamp : String)
    (tables : Tables) :
    (completeSubmission key completion jobId timestamp).Returns
      (fun _ after => ∃ row, tables.submissions key = some row ∧
        row.state = .capturing ∧
        after = { tables with
          submissions := Function.update tables.submissions key
            (some (completion.apply jobId timestamp row)) }) tables := by
  apply guarantees_completeSubmission
  · intro failure value absurd
    cases absurd
  · intro row answer found capturing value _
    exact ⟨row, found, capturing, rfl⟩

/-- A failed transaction changes nothing, and a committed one adds the job,
its snapshot and the terminal submission together. -/
theorem guarantees_commitSubmission (lease : CaptureLeaseIdentity)
    (jobId : String) (captured : Captured) (input : CommitInput)
    (tables : Tables) :
    (commitSubmission lease jobId captured input).Guarantees
      (fun answer after => match answer with
        | .error _ => after = tables
        | .ok response =>
          Committed lease jobId captured tables after response)
      tables := by
  apply guarantees_transaction
  · intro failure
    rfl
  · apply returns_bind
    refine (returns_hasAuthority lease _ tables).imp ?_
    intro held after same
    rw [same]
    split
    next =>
      apply returns_bind
      refine (returns_persistSnapshot _ _).imp ?_
      rintro _ _ ⟨unseen, rfl⟩
      apply returns_bind
      refine (returns_createJob _ _ _ _).imp ?_
      rintro job _ ⟨named, unused, rfl⟩
      apply returns_bind
      refine (returns_transitionJobState _ _ _ _).imp ?_
      rintro _ _ rfl
      apply returns_bind
      refine (returns_transitionJobState _ _ _ _).imp ?_
      rintro _ _ rfl
      apply returns_bind
      refine (returns_completeSubmission _ _ _ _ _).imp ?_
      rintro _ _ ⟨row, found, capturing, rfl⟩
      apply returns_pure
      have others : ∀ old ∈ tables.jobs, old.id ≠ job.id := by
        intro old member
        rw [named]
        exact (unused old member).1
      constructor
      · exact unused
      · exact unseen
      · refine ⟨submittedState captured.riskLevel, ?_⟩
        simp only [List.map_append,
          map_moveJob_of_forall_ne others]
        simp [moveJob, named]
      · rfl
      · refine ⟨_, Function.update_self _ _ _, rfl, ?_⟩
        simp [Completion.apply]
      · intro key other present ended
        by_cases same : key = lease.key
        · rw [same] at present
          have equal := found.symm.trans present
          rw [Option.some.injEq] at equal
          rw [← equal] at ended
          exact absurd capturing ended
        · show Function.update tables.submissions lease.key _ key =
            some other
          rw [Function.update_of_ne same]
          exact present
    next => exact returns_throw _

end Commit

/-! ## Segments of a call -/

/-- A call that left its rows behind: it answered with a job, or the process
stopped under it. -/
def Phase.closed : Phase → Bool
  | .lost => true
  | .finished (.job _) => true
  | _ => false

/-- What a call holds is of its own key and its own snapshot. -/
def SubmitCall.Tidy (call : SubmitCall) : Prop :=
  match call.phase with
  | .capturing lease => lease.key = call.key
  | .flushing lease captured _ => lease.key = call.key ∧
      call.snapshotId = some captured.snapshotId
  | .publishing lease captured _ => lease.key = call.key ∧
      call.snapshotId = some captured.snapshotId
  | .flushingDirectory lease captured => lease.key = call.key ∧
      call.snapshotId = some captured.snapshotId
  | .cleaning _ _ _ => True
  | .finished _ => True
  | .lost => True

/-- A segment that commits nothing and does not answer with a job. -/
structure Continues (tables after : Tables) (call next : SubmitCall)
    (resumption : Resumption) : Prop where
  settles : Settles tables after
  key : next.key = call.key
  jobId : next.jobId = call.jobId
  snapshotId : next.snapshotId = call.snapshotId ∨
    ∃ captured, resumption = .captured (.ok captured) ∧
      next.snapshotId = some captured.snapshotId
  wasOpen : call.phase.closed = false
  isOpen : next.phase.closed = false
  tidy : call.Tidy → next.Tidy

/-- The segment that commits and answers with the job. -/
structure Commits (tables after : Tables) (call next : SubmitCall) :
    Prop where
  phase : ∃ lease captured, call.phase = .flushingDirectory lease captured ∧
    ∃ jobId, call.jobId = some jobId ∧ ∃ response,
      next = { call with phase := .finished (.job response) } ∧
      ∃ committed, Committed lease jobId captured tables committed response ∧
        Settles committed after

/-- The release after a commit does not fail. -/
def SubmitEvent.releases : SubmitEvent → Bool
  | .resume _ (.directoryFlushed _ _ _ releaseFailure) =>
    releaseFailure.isNone
  | _ => true

variable {after : Tables} {call : SubmitCall}

theorem continues_to {tables : Tables} {phase : Phase}
    {resumption : Resumption} (settles : Settles tables after)
    (wasOpen : call.phase.closed = false) (isOpen : phase.closed = false)
    (tidy : call.Tidy → { call with phase := phase }.Tidy) :
    Continues tables after call { call with phase := phase } resumption :=
  ⟨settles, rfl, rfl, .inl rfl, wasOpen, isOpen, tidy⟩

theorem beginPublication_cases (tables : Tables)
    (lease : CaptureLeaseIdentity) (captured : Captured) (index : Nat)
    (ambient : Ambient) (failures : List (Option Thrown)) :
    let next := beginPublication tables lease captured index ambient failures
    Settles tables next.2 ∧
      (next.1 = .publishing lease captured index ∨
        ∃ thrown, next.1 = .cleaning lease true thrown) := by
  have settles := (settles_checkAuthority lease ambient).execute tables
    failures
  unfold beginPublication
  split
  next done after executed =>
    rw [executed] at settles
    exact ⟨settles, .inl rfl⟩
  next thrown after executed =>
    rw [executed] at settles
    exact ⟨settles, .inr ⟨thrown, rfl⟩⟩

theorem settleFailure_cases (tables : Tables) (lease : CaptureLeaseIdentity)
    (thrown : Thrown) (ambient : Ambient)
    (failures : List (Option Thrown)) :
    let next := settleFailure tables lease thrown ambient failures
    Settles tables next.2 ∧
      ((∃ again, next.1 = .finished (.threw again)) ∨
        ∃ payload, next.1 = .finished (.error payload)) := by
  have settles := (settles_recordFailure lease (errorPayload thrown)
    ambient).execute tables failures
  unfold settleFailure
  split
  next again after executed =>
    rw [executed] at settles
    exact ⟨settles, .inl ⟨again, rfl⟩⟩
  next payload after executed =>
    rw [executed] at settles
    exact ⟨settles, .inr ⟨payload, rfl⟩⟩

/-- Without a failing release, the last segment commits and answers, or
changes nothing and fails. -/
theorem finishSubmission_cases (tables : Tables)
    (lease : CaptureLeaseIdentity) (jobId : String) (captured : Captured)
    (input : CommitInput) (failures : List (Option Thrown)) :
    let next := finishSubmission tables lease jobId captured input failures
      none
    (next.2 = tables ∧ ∃ thrown, next.1 = .cleaning lease true thrown) ∨
      ∃ response, next.1 = .finished (.job response) ∧
        ∃ committed, Committed lease jobId captured tables committed
          response ∧ Settles committed next.2 := by
  have committed := guarantees_commitSubmission lease jobId captured input
    tables failures
  unfold finishSubmission
  split
  next thrown after executed =>
    rw [executed] at committed
    exact .inl ⟨committed, thrown, rfl⟩
  next response after executed =>
    rw [executed] at committed
    refine .inr ⟨response, rfl, after, committed, ?_⟩
    exact (settles_law.release lease input.ambient).execute after [none]

theorem resumeCall_cases {tables after : Tables} {call next : SubmitCall}
    {resumption : Resumption} {index : Nat}
    (releases : (SubmitEvent.resume index resumption).releases = true)
    (resumed : resumeCall tables call resumption = some (next, after)) :
    Continues tables after call next resumption ∨
      Commits tables after call next := by
  unfold resumeCall at resumed
  split at resumed
  next lease thrown phase =>
    cases resumed
    left
    apply continues_to (settles_refl tables)
    · rw [phase]; rfl
    · rfl
    · exact fun _ => trivial
  next lease captured phase =>
    cases resumed
    left
    refine ⟨settles_refl tables, rfl, rfl, .inr ⟨captured, rfl, rfl⟩,
      by rw [phase]; rfl, rfl, ?_⟩
    intro tidy
    simp only [SubmitCall.Tidy, phase] at tidy
    exact ⟨tidy, rfl⟩
  next lease captured index thrown ambient failures phase =>
    cases resumed
    left
    apply continues_to (settles_refl tables)
    · rw [phase]; rfl
    · rfl
    · exact fun _ => trivial
  next lease captured index done ambient failures phase =>
    have wasOpen : call.phase.closed = false := by rw [phase]; rfl
    split at resumed
    · cases resumed
      left
      apply continues_to (settles_refl tables) wasOpen rfl
      intro tidy
      simpa only [SubmitCall.Tidy, phase] using tidy
    · cases resumed
      left
      rcases beginPublication_cases tables lease captured 0 ambient
        failures with ⟨settles, published | ⟨thrown, failed⟩⟩
      · apply continues_to settles wasOpen
        · rw [published]; rfl
        · intro tidy
          simpa only [SubmitCall.Tidy, phase, published] using tidy
      · apply continues_to settles wasOpen
        · rw [failed]; rfl
        · intro _
          simp only [SubmitCall.Tidy, failed]
  next lease captured index thrown ambient failures phase =>
    cases resumed
    left
    apply continues_to (settles_refl tables)
    · rw [phase]; rfl
    · rfl
    · exact fun _ => trivial
  next lease captured index done ambient failures phase =>
    have wasOpen : call.phase.closed = false := by rw [phase]; rfl
    split at resumed
    · cases resumed
      left
      rcases beginPublication_cases tables lease captured (index + 1)
        ambient failures with ⟨settles, published | ⟨thrown, failed⟩⟩
      · apply continues_to settles wasOpen
        · rw [published]; rfl
        · intro tidy
          simpa only [SubmitCall.Tidy, phase, published] using tidy
      · apply continues_to settles wasOpen
        · rw [failed]; rfl
        · intro _
          simp only [SubmitCall.Tidy, failed]
    · cases resumed
      left
      apply continues_to (settles_refl tables) wasOpen rfl
      intro tidy
      simpa only [SubmitCall.Tidy, phase] using tidy
  next lease captured thrown input failures releaseFailure phase =>
    cases resumed
    left
    apply continues_to (settles_refl tables)
    · rw [phase]; rfl
    · rfl
    · exact fun _ => trivial
  next lease captured done input failures releaseFailure phase =>
    cases releaseFailure with
    | some thrown => cases releases
    | none =>
      rw [Option.bind_eq_bind, Option.bind_eq_some_iff] at resumed
      rcases resumed with ⟨jobId, generated, same⟩
      cases same
      rcases finishSubmission_cases tables lease jobId captured input
        failures with ⟨same, thrown, failed⟩ | ⟨response, answered, rest⟩
      · left
        rw [same]
        apply continues_to (settles_refl tables)
        · rw [phase]; rfl
        · rw [failed]; rfl
        · intro _
          simp only [SubmitCall.Tidy, failed]
      · right
        rw [answered]
        exact ⟨lease, captured, phase, jobId, generated, response, rfl,
          rest⟩
  next lease candidate old thrown ambient failures phase =>
    split at resumed
    · cases resumed
      left
      apply continues_to (settles_refl tables)
      · rw [phase]; rfl
      · rfl
      · exact fun _ => trivial
    · cases resumed
  next lease candidate thrown done ambient failures phase =>
    cases resumed
    left
    rcases settleFailure_cases tables lease thrown ambient failures with
      ⟨settles, ⟨again, failed⟩ | ⟨payload, failed⟩⟩
    all_goals
      apply continues_to settles
      · rw [phase]; rfl
      · rw [failed]; rfl
      · intro _
        simp only [SubmitCall.Tidy, failed]
  next => cases resumed

/-! ## The invariant -/

/-- No two calls have generated the same identifier. -/
def Distinct (field : SubmitCall → Option String)
    (calls : List SubmitCall) : Prop :=
  ∀ (index other : Nat) (call second : SubmitCall) (value : String),
    calls[index]? = some call → calls[other]? = some second →
    field call = some value → field second = some value → index = other

/-- Every row was left by a closed call, and every answered job is the one of
the terminal submission. -/
structure Sound (state : SubmitState) : Prop where
  keys : state.tables.jobs.Pairwise fun job other => job.key ≠ other.key
  ids : state.tables.snapshots.Pairwise fun row other => row.id ≠ other.id
  jobs : ∀ job ∈ state.tables.jobs, ∃ (index : Nat) (call : SubmitCall),
    state.calls[index]? = some call ∧ call.phase.closed = true ∧
      call.jobId = some job.id
  snapshots : ∀ row ∈ state.tables.snapshots,
    ∃ (index : Nat) (call : SubmitCall),
    state.calls[index]? = some call ∧ call.phase.closed = true ∧
      call.snapshotId = some row.id ∧
      ∃ job ∈ state.tables.jobs, job.key = call.key ∧
        job.snapshotId = some row.id
  jobIds : Distinct SubmitCall.jobId state.calls
  snapshotIds : Distinct SubmitCall.snapshotId state.calls
  tidy : ∀ call ∈ state.calls, call.Tidy
  answered : ∀ call ∈ state.calls, ∀ response,
    call.phase = .finished (.job response) →
    Answered state.tables call.key response

theorem Answered.settles {before : Tables} {key : CaptureLeaseKey}
    {response : SubmitResponse} (answered : Answered before key response)
    (terminal : ∀ key row, before.submissions key = some row →
      row.state ≠ .capturing → after.submissions key = some row) :
    Answered after key response := by
  rcases answered with ⟨row, found, captured, given⟩
  refine ⟨row, terminal key row found ?_, captured, given⟩
  rw [captured]
  nofun

variable {state : SubmitState} {calls : List SubmitCall}

/-- A step that commits nothing and leaves the closed calls alone. -/
theorem Sound.quiet (sound : Sound state)
    (settles : Settles state.tables after)
    (kept : ∀ (index : Nat) (call : SubmitCall),
      state.calls[index]? = some call → call.phase.closed = true →
      calls[index]? = some call) (jobIds : Distinct SubmitCall.jobId calls)
    (snapshotIds : Distinct SubmitCall.snapshotId calls)
    (tidy : ∀ call ∈ calls, call.Tidy) (answered : ∀ call ∈ calls, ∀ response,
      call.phase = .finished (.job response) →
      call ∈ state.calls ∨ Answered after call.key response) :
    Sound ⟨after, calls⟩ where
  keys := by
    rw [settles.jobs]
    exact sound.keys
  ids := by
    rw [settles.snapshots]
    exact sound.ids
  jobs := by
    intro job member
    rw [settles.jobs] at member
    rcases sound.jobs job member with ⟨index, call, found, closed, own⟩
    exact ⟨index, call, kept index call found closed, closed, own⟩
  snapshots := by
    intro row member
    rw [settles.snapshots] at member
    rcases sound.snapshots row member with
      ⟨index, call, found, closed, own, made⟩
    refine ⟨index, call, kept index call found closed, closed, own, ?_⟩
    rw [settles.jobs]
    exact made
  jobIds := jobIds
  snapshotIds := snapshotIds
  tidy := tidy
  answered := by
    intro call member response ended
    rcases answered call member response ended with old | new
    · exact (sound.answered call old response ended).settles
        settles.terminal
    · exact new

variable {field : SubmitCall → Option String}

theorem distinct_append (distinct : Distinct field calls)
    (fresh : ∀ other ∈ calls, ∀ value, field call = some value →
      field other ≠ some value) :
    Distinct field (calls ++ [call]) := by
  intro index other first second value found seen owned same
  have within : ∀ (place : Nat) (one : SubmitCall),
      (calls ++ [call])[place]? = some one →
      calls[place]? = some one ∨ place = calls.length ∧ one = call := by
    intro place one present
    rcases Nat.lt_trichotomy place calls.length with before | last | beyond
    · left
      rwa [List.getElem?_append_left before] at present
    · right
      rw [last, List.getElem?_concat_length, Option.some.injEq] at present
      exact ⟨last, present.symm⟩
    · rw [List.getElem?_eq_none (by simp; omega)] at present
      cases present
  rcases within index first found with old | ⟨last, rfl⟩
  · rcases within other second seen with older | ⟨final, rfl⟩
    · exact distinct index other first second value old older owned same
    · exact absurd owned
        (fresh first (List.mem_of_getElem? old) value same)
  · rcases within other second seen with older | ⟨final, rfl⟩
    · exact absurd same
        (fresh second (List.mem_of_getElem? older) value owned)
    · omega

theorem distinct_set (distinct : Distinct field calls) {index : Nat}
    {next : SubmitCall} (found : calls[index]? = some call)
    (same : field next = field call ∨ ∃ value, field next = some value ∧
      ∀ other ∈ calls, field other ≠ some value) :
    Distinct field (calls.set index next) := by
  have within : ∀ (place : Nat) (one : SubmitCall),
      (calls.set index next)[place]? = some one →
      place = index ∧ one = next ∨
        place ≠ index ∧ calls[place]? = some one := by
    intro place one present
    by_cases here : index = place
    · rw [List.getElem?_set, if_pos here] at present
      split at present
      · rw [Option.some.injEq] at present
        exact .inl ⟨here.symm, present.symm⟩
      · cases present
    · rw [List.getElem?_set_ne here] at present
      exact .inr ⟨fun equal => here equal.symm, present⟩
  intro place other first second value seen present owned shared
  rcases within place first seen with ⟨here, rfl⟩ | ⟨apart, old⟩
  · rcases within other second present with ⟨there, rfl⟩ | ⟨away, older⟩
    · rw [here, there]
    · rcases same with equal | ⟨fresh, named, unused⟩
      · rw [equal] at owned
        exact here.trans
          (distinct index other call second value found older owned shared)
      · rw [named, Option.some.injEq] at owned
        rw [← owned] at shared
        exact absurd shared (unused second (List.mem_of_getElem? older))
  · rcases within other second present with ⟨there, rfl⟩ | ⟨away, older⟩
    · rcases same with equal | ⟨fresh, named, unused⟩
      · rw [equal] at shared
        exact (distinct place index first call value old found owned
          shared).trans there.symm
      · rw [named, Option.some.injEq] at shared
        rw [← shared] at owned
        exact absurd owned (unused first (List.mem_of_getElem? old))
    · exact distinct place other first second value old older owned shared

/-! ## Every step keeps the invariant -/

/-- A new call threw, was answered from the submission, or captures under a
lease of its key. -/
theorem openedCall_shape {key : CaptureLeaseKey} (jobId : String)
    {answer : Except Thrown (Except Outcome CaptureLeaseIdentity)}
    (returned : ∀ value, answer = .ok value → ∀ response,
      value = .error (.job response) → Answered after key response)
    (leased : ∀ value, answer = .ok value → ∀ lease,
      value = .ok lease → lease.key = key) :
    let call := openedCall key jobId answer
    call.snapshotId = none ∧
      (∀ value, call.jobId = some value → value = jobId) ∧ call.Tidy ∧
      ∀ response, call.phase = .finished (.job response) →
        Answered after call.key response := by
  rcases answer with thrown | (outcome | lease)
  · exact ⟨rfl, by simp [openedCall], trivial, by simp [openedCall]⟩
  · refine ⟨rfl, by simp [openedCall], trivial, ?_⟩
    intro response same
    apply returned _ rfl response
    simp only [openedCall, Phase.finished.injEq] at same
    rw [same]
  · refine ⟨rfl, ?_, leased _ rfl lease rfl, by simp [openedCall]⟩
    intro value same
    exact (Option.some.inj same).symm

theorem submit_sound (sound : Sound state) (key : CaptureLeaseKey)
    (jobId : String) (ambient : Ambient) (failures : List (Option Thrown))
    (fresh : ∀ call ∈ state.calls, call.jobId ≠ some jobId) :
    let opened := (openSubmission key ambient).execute state.tables failures
    Sound ⟨opened.2, state.calls ++ [openedCall key jobId opened.1]⟩ := by
  intro opened
  have settles : Settles state.tables opened.2 :=
    (settles_openSubmission key ambient).execute state.tables failures
  obtain ⟨uncaptured, named, tidy, answered⟩ :=
    openedCall_shape jobId
      (returns_openSubmission key ambient state.tables failures)
      (returns_openSubmission_key key ambient state.tables failures)
  refine sound.quiet settles ?_ ?_ ?_ ?_ ?_
  · intro index call found _
    rw [List.getElem?_append_left
      (List.getElem?_eq_some_iff.mp found).choose]
    exact found
  · apply distinct_append sound.jobIds
    intro other member value owned
    rw [named value owned]
    exact fresh other member
  · apply distinct_append sound.snapshotIds
    intro other _ value owned
    rw [uncaptured] at owned
    cases owned
  · intro call member
    rcases List.mem_append.mp member with old | new
    · exact sound.tidy call old
    · rw [List.mem_singleton.mp new]
      exact tidy
  · intro call member response ended
    rcases List.mem_append.mp member with old | new
    · exact .inl old
    · right
      rw [List.mem_singleton.mp new] at ended ⊢
      exact answered response ended

/-- The calls after one of them has moved on. -/
theorem set_kept {index : Nat} (next : SubmitCall)
    (found : calls[index]? = some call) (wasOpen : call.phase.closed = false)
    (place : Nat) (other : SubmitCall) (seen : calls[place]? = some other)
    (closed : other.phase.closed = true) :
    (calls.set index next)[place]? = some other := by
  by_cases here : index = place
  · rw [← here, found, Option.some.injEq] at seen
    rw [← seen, wasOpen] at closed
    cases closed
  · rw [List.getElem?_set_ne here]
    exact seen

theorem continue_sound (sound : Sound state) {index : Nat} {next : SubmitCall}
    {resumption : Resumption} (found : state.calls[index]? = some call)
    (fresh : state.fresh (.resume index resumption) = true)
    (continues : Continues state.tables after call next resumption) :
    Sound ⟨after, state.calls.set index next⟩ := by
  refine sound.quiet continues.settles
    (set_kept next found continues.wasOpen) ?_ ?_ ?_ ?_
  · exact distinct_set sound.jobIds found (.inl continues.jobId)
  · apply distinct_set sound.snapshotIds found
    rcases continues.snapshotId with same | ⟨captured, rfl, named⟩
    · exact .inl same
    · right
      refine ⟨_, named, ?_⟩
      simpa [SubmitState.fresh] using fresh
  · intro other member
    rcases List.mem_or_eq_of_mem_set member with old | rfl
    · exact sound.tidy other old
    · exact continues.tidy (sound.tidy call (List.mem_of_getElem? found))
  · intro other member response ended
    rcases List.mem_or_eq_of_mem_set member with old | rfl
    · exact .inl old
    · have isOpen := continues.isOpen
      rw [ended] at isOpen
      cases isOpen

/-- The commit adds one row to each table, both of the call that commits. -/
theorem commit_sound (sound : Sound state) {index : Nat} {next : SubmitCall}
    (found : state.calls[index]? = some call)
    (commits : Commits state.tables after call next) :
    Sound ⟨after, state.calls.set index next⟩ := by
  rcases commits.phase with ⟨lease, captured, phase, jobId, generated,
    response, rfl, middle, committed, settles⟩
  have tidy := sound.tidy call (List.mem_of_getElem? found)
  simp only [SubmitCall.Tidy, phase] at tidy
  rcases tidy with ⟨ofKey, ofSnapshot⟩
  have wasOpen : call.phase.closed = false := by rw [phase]; rfl
  have moved : (state.calls.set index
      { call with phase := .finished (.job response) })[index]? =
      some { call with phase := .finished (.job response) } :=
    List.getElem?_set_self (List.getElem?_eq_some_iff.mp found).choose
  have kept := set_kept { call with phase := .finished (.job response) }
    found wasOpen
  rcases committed.jobs with ⟨jobState, jobs⟩
  have whole : Sound ⟨middle, state.calls.set index
      { call with phase := .finished (.job response) }⟩ := by
    constructor
    · show middle.jobs.Pairwise _
      rw [jobs, List.pairwise_append]
      refine ⟨sound.keys, List.pairwise_singleton _ _, ?_⟩
      intro job member other new
      rw [List.mem_singleton.mp new]
      exact (committed.unused job member).2
    · show middle.snapshots.Pairwise _
      rw [committed.snapshots, List.pairwise_append]
      refine ⟨sound.ids, List.pairwise_singleton _ _, ?_⟩
      intro row member other new
      rw [List.mem_singleton.mp new]
      exact committed.unseen row member
    · intro job member
      have member : job ∈ middle.jobs := member
      rw [jobs] at member
      rcases List.mem_append.mp member with old | new
      · rcases sound.jobs job old with ⟨place, maker, seen, closed, own⟩
        exact ⟨place, maker, kept place maker seen closed, closed, own⟩
      · rw [List.mem_singleton.mp new]
        exact ⟨index, _, moved, rfl, generated⟩
    · intro row member
      have member : row ∈ middle.snapshots := member
      rw [committed.snapshots] at member
      rcases List.mem_append.mp member with old | new
      · rcases sound.snapshots row old with
          ⟨place, maker, seen, closed, own, job, made, rest⟩
        refine ⟨place, maker, kept place maker seen closed, closed, own,
          job, ?_, rest⟩
        show job ∈ middle.jobs
        rw [jobs]
        exact List.mem_append_left _ made
      · rw [List.mem_singleton.mp new]
        refine ⟨index, _, moved, rfl, ofSnapshot,
          ⟨jobId, lease.key, jobState, some captured.snapshotId⟩, ?_, ofKey,
          rfl⟩
        show _ ∈ middle.jobs
        rw [jobs]
        exact List.mem_append_right _ (List.mem_singleton_self _)
    · exact distinct_set sound.jobIds found (.inl rfl)
    · exact distinct_set sound.snapshotIds found (.inl rfl)
    · intro other member
      rcases List.mem_or_eq_of_mem_set member with old | rfl
      · exact sound.tidy other old
      · exact trivial
    · intro other member answer ended
      rcases List.mem_or_eq_of_mem_set member with old | rfl
      · exact (sound.answered other old answer ended).settles
          committed.terminal
      · cases ended
        show Answered middle call.key response
        rw [← ofKey]
        exact committed.answered
  exact whole.quiet settles (fun _ _ seen _ => seen) whole.jobIds
    whole.snapshotIds whole.tidy fun _ member _ _ => .inl member

theorem renew_sound (sound : Sound state) (lease : CaptureLeaseIdentity)
    (ambient : Ambient) (failures : List (Option Thrown)) :
    Sound { state with tables := ((renewCaptureLease lease
      ⟨none, none, none⟩ ambient).execute state.tables failures).2 } :=
  sound.quiet
    ((settles_law.renew lease _ ambient).execute state.tables failures)
    (fun _ _ seen _ => seen) sound.jobIds sound.snapshotIds sound.tidy
    fun _ member _ _ => .inl member

@[simp]
theorem moveJob_id (jobId : String) (state : JobState)
    (snapshotId : Option String) (job : JobRow) :
    (moveJob jobId state snapshotId job).id = job.id := by
  unfold moveJob
  split <;> rfl

@[simp]
theorem moveJob_key (jobId : String) (state : JobState)
    (snapshotId : Option String) (job : JobRow) :
    (moveJob jobId state snapshotId job).key = job.key := by
  unfold moveJob
  split <;> rfl

@[simp]
theorem moveJob_snapshotId (jobId : String) (state : JobState)
    (job : JobRow) :
    (moveJob jobId state none job).snapshotId = job.snapshotId := by
  unfold moveJob
  split
  · cases job.snapshotId <;> rfl
  · rfl

theorem transition_sound (sound : Sound state) (jobId : String)
    (jobState : JobState) :
    Sound { state with
      tables := { state.tables with
        jobs := state.tables.jobs.map (moveJob jobId jobState none) } } := by
  constructor
  · show List.Pairwise _ (List.map _ _)
    rw [List.pairwise_map]
    simpa using sound.keys
  · exact sound.ids
  · intro job member
    rcases List.mem_map.mp member with ⟨old, listed, rfl⟩
    rw [moveJob_id]
    exact sound.jobs old listed
  · intro row member
    rcases sound.snapshots row member with
      ⟨index, call, found, closed, own, job, made, ofKey, ofSnapshot⟩
    exact ⟨index, call, found, closed, own, _,
      List.mem_map.mpr ⟨job, made, rfl⟩, by rw [moveJob_key, ofKey],
      by rw [moveJob_snapshotId, ofSnapshot]⟩
  · exact sound.jobIds
  · exact sound.snapshotIds
  · exact sound.tidy
  · exact sound.answered

theorem stopped_of_closed (closed : call.phase.closed = true) :
    call.stopped = call := by
  rcases call with ⟨key, jobId, snapshotId, phase⟩
  cases phase <;> first | rfl | cases closed

theorem distinct_stopped (distinct : Distinct field calls)
    (same : ∀ call : SubmitCall, field call.stopped = field call) :
    Distinct field (calls.map SubmitCall.stopped) := by
  intro index other first second value found seen owned shared
  rw [List.getElem?_map, Option.map_eq_some_iff] at found seen
  rcases found with ⟨call, present, rfl⟩
  rcases seen with ⟨last, listed, rfl⟩
  rw [same] at owned shared
  exact distinct index other call last value present listed owned shared

theorem crash_sound (sound : Sound state) :
    Sound { state with calls := state.calls.map SubmitCall.stopped } := by
  have fields : ∀ call : SubmitCall, call.stopped.jobId = call.jobId ∧
      call.stopped.snapshotId = call.snapshotId ∧
      (call.stopped.Tidy ∧ ∀ response,
        call.stopped.phase = .finished (.job response) →
        call.stopped = call) := by
    rintro ⟨key, jobId, snapshotId, phase⟩
    cases phase <;>
      exact ⟨rfl, rfl, trivial, by intro response same; first | rfl | cases same⟩
  refine sound.quiet (settles_refl _) ?_ ?_ ?_ ?_ ?_
  · intro index call found closed
    rw [List.getElem?_map, found, Option.map_some, stopped_of_closed closed]
  · exact distinct_stopped sound.jobIds fun call => (fields call).1
  · exact distinct_stopped sound.snapshotIds fun call => (fields call).2.1
  · intro call member
    rcases List.mem_map.mp member with ⟨old, _, rfl⟩
    exact (fields old).2.2.1
  · intro call member response ended
    rcases List.mem_map.mp member with ⟨old, listed, rfl⟩
    left
    rw [(fields old).2.2.2 response ended]
    exact listed

theorem step_sound {next : SubmitState} {event : SubmitEvent}
    (sound : Sound state) (releases : event.releases = true)
    (stepped : submissions.step state event = some next) : Sound next := by
  simp only [submissions] at stepped
  split at stepped
  next fresh =>
    cases event with
    | submit key jobId ambient failures =>
      cases stepped
      apply submit_sound sound
      simpa [SubmitState.fresh] using fresh
    | resume index resumption =>
      simp only [SubmitState.next, Option.bind_eq_bind,
        Option.bind_eq_some_iff] at stepped
      rcases stepped with ⟨call, found, ⟨moved, after⟩, resumed, same⟩
      cases same
      rcases resumeCall_cases releases resumed with continues | commits
      · exact continue_sound sound found fresh continues
      · exact commit_sound sound found commits
    | renew index ambient failures =>
      simp only [SubmitState.next, Option.bind_eq_bind,
        Option.bind_eq_some_iff] at stepped
      rcases stepped with ⟨call, _, lease, _, same⟩
      cases same
      exact renew_sound sound lease ambient failures
    | transition jobId jobState =>
      cases stepped
      exact transition_sound sound jobId jobState
    | crash =>
      cases stepped
      exact crash_sound sound
  next => cases stepped

theorem initial_sound (initial : submissions.initial state) : Sound state := by
  rcases initial with ⟨noCalls, empty⟩
  have nothing : ∀ (index : Nat) (call : SubmitCall),
      state.calls[index]? ≠ some call := by
    intro index call
    rw [noCalls]
    nofun
  have none_ : ∀ call, call ∉ state.calls := by
    intro call
    rw [noCalls]
    exact List.not_mem_nil
  constructor
  · rw [empty]; exact List.Pairwise.nil
  · rw [empty]; exact List.Pairwise.nil
  · rw [empty]; exact fun _ member => absurd member List.not_mem_nil
  · rw [empty]; exact fun _ member => absurd member List.not_mem_nil
  · exact fun index _ call _ _ found => absurd found (nothing index call)
  · exact fun index _ call _ _ found => absurd found (nothing index call)
  · exact fun call member => absurd member (none_ call)
  · exact fun call member => absurd member (none_ call)

theorem reachable_sound (reachable : submissions.Reachable
      (fun _ event => event.releases = true) state) : Sound state :=
  reachable.invariant (fun _ => initial_sound)
    fun _ _ _ sound releases stepped => step_sound sound releases stepped

/-- No step changes a terminal submission. -/
theorem step_terminal {next : SubmitState} {event : SubmitEvent}
    (releases : event.releases = true)
    (stepped : submissions.step state event = some next)
    {key : CaptureLeaseKey} {row : SubmissionRow}
    (found : state.tables.submissions key = some row)
    (ended : row.state ≠ .capturing) :
    next.tables.submissions key = some row := by
  simp only [submissions] at stepped
  split at stepped
  next =>
    cases event with
    | submit target jobId ambient failures =>
      cases stepped
      exact ((settles_openSubmission target ambient).execute
        state.tables failures).terminal key row found ended
    | resume index resumption =>
      simp only [SubmitState.next, Option.bind_eq_bind,
        Option.bind_eq_some_iff] at stepped
      rcases stepped with ⟨call, _, ⟨moved, after⟩, resumed, same⟩
      cases same
      rcases resumeCall_cases releases resumed with continues | commits
      · exact continues.settles.terminal key row found ended
      · rcases commits.phase with
          ⟨_, _, _, _, _, _, _, _, committed, settles⟩
        exact settles.terminal key row
          (committed.terminal key row found ended) ended
    | renew index ambient failures =>
      simp only [SubmitState.next, Option.bind_eq_bind,
        Option.bind_eq_some_iff] at stepped
      rcases stepped with ⟨call, _, lease, _, same⟩
      cases same
      exact ((settles_law.renew lease _ ambient).execute state.tables
        failures).terminal key row found ended
    | transition jobId jobState =>
      cases stepped
      exact found
    | crash =>
      cases stepped
      exact found
  next => cases stepped

/-! ## Idempotence -/

/-- Did the call return an error or throw one? -/
def Phase.failed : Phase → Bool
  | .finished (.error _) => true
  | .finished (.threw _) => true
  | _ => false

/-- The snapshots that the calls of a key have captured and stored. -/
def SubmitState.snapshotsOf (state : SubmitState) (key : CaptureLeaseKey) :
    List SnapshotRow :=
  state.tables.snapshots.filter fun row =>
    state.calls.any fun call =>
      call.key = key ∧ call.snapshotId = some row.id

/-- What the calls of one key have left and answered. -/
structure Idempotent (state : SubmitState) : Prop where
  oneJob : ∀ key,
    (state.tables.jobs.filter fun job => job.key = key).length ≤ 1
  oneSnapshot : ∀ key, (state.snapshotsOf key).length ≤ 1
  sameAnswer : ∀ call ∈ state.calls, ∀ other ∈ state.calls,
    call.key = other.key → ∀ response repeated,
    call.phase = .finished (.job response) →
    other.phase = .finished (.job repeated) → response = repeated
  nothingLeft : ∀ call ∈ state.calls, call.phase.failed = true →
    (∀ job ∈ state.tables.jobs, call.jobId ≠ some job.id) ∧
    ∀ row ∈ state.tables.snapshots, call.snapshotId ≠ some row.id

theorem length_le_one_of_pairwise {Row : Type} {rows : List Row}
    {relation : Row → Row → Prop} (apart : rows.Pairwise relation)
    (collide : ∀ first ∈ rows, ∀ second ∈ rows, ¬ relation first second) :
    rows.length ≤ 1 := by
  rcases rows with _ | ⟨first, _ | ⟨second, rest⟩⟩
  · exact Nat.zero_le _
  · exact Nat.le_refl _
  · exfalso
    refine collide first (by simp) second (by simp) ?_
    exact List.rel_of_pairwise_cons apart (by simp)

theorem failed_not_closed {phase : Phase} (failed : phase.failed = true) :
    phase.closed = false := by
  rcases phase with _ | _ | _ | _ | _ | (_ | _ | _) | _ <;>
    first | rfl | cases failed

/-- The call of a key whose snapshot is stored has made the job of its
key. -/
theorem Sound.job_of_snapshot (sound : Sound state) {row : SnapshotRow}
    (member : call ∈ state.calls) (stored : row ∈ state.tables.snapshots)
    (own : call.snapshotId = some row.id) :
    ∃ job ∈ state.tables.jobs, job.key = call.key ∧
      job.snapshotId = some row.id := by
  rcases sound.snapshots row stored with
    ⟨index, maker, found, _, made, rest⟩
  rcases List.mem_iff_getElem?.mp member with ⟨place, seen⟩
  have same := sound.snapshotIds index place maker call row.id found seen
    made own
  rw [same, seen, Option.some.injEq] at found
  rw [found]
  exact rest

theorem pairwise_key_unique {jobs : List JobRow} {job other : JobRow}
    (keys : jobs.Pairwise fun first second => first.key ≠ second.key)
    (member : job ∈ jobs) (listed : other ∈ jobs)
    (same : job.key = other.key) : job = other := by
  by_contra different
  have symmetric : Std.Symm fun first second : JobRow =>
      first.key ≠ second.key := ⟨fun _ _ apart => apart.symm⟩
  exact keys.forall member listed different same

theorem Sound.idempotent (sound : Sound state) :
    Idempotent state where
  oneJob key := by
    apply length_le_one_of_pairwise (sound.keys.filter _)
    intro first listed second present apart
    simp only [List.mem_filter, decide_eq_true_eq] at listed present
    exact apart (listed.2.trans present.2.symm)
  oneSnapshot key := by
    apply length_le_one_of_pairwise (sound.ids.filter _)
    intro first listed second present apart
    simp only [List.mem_filter, List.any_eq_true,
      decide_eq_true_eq] at listed present
    rcases listed with ⟨stored, call, member, ofKey, own⟩
    rcases present with ⟨kept, other, among, sameKey, owned⟩
    rcases sound.job_of_snapshot member stored own with
      ⟨job, made, jobKey, named⟩
    rcases sound.job_of_snapshot among kept owned with
      ⟨twin, also, twinKey, labelled⟩
    have equal : job = twin := pairwise_key_unique sound.keys made also
      (by rw [jobKey, twinKey, ofKey, sameKey])
    rw [equal, labelled, Option.some.injEq] at named
    exact apart named.symm
  sameAnswer call member other among sameKey response repeated ended
      finished := by
    rcases sound.answered call member response ended with
      ⟨row, found, _, given⟩
    rcases sound.answered other among repeated finished with
      ⟨last, seen, _, again⟩
    rw [sameKey, seen, Option.some.injEq] at found
    rw [found, given, Option.some.injEq] at again
    exact again
  nothingLeft call member failed := by
    rcases List.mem_iff_getElem?.mp member with ⟨place, seen⟩
    have isOpen := failed_not_closed failed
    constructor
    · intro job made own
      rcases sound.jobs job made with ⟨index, maker, found, closed, named⟩
      have same := sound.jobIds index place maker call job.id found seen
        named own
      rw [same, seen, Option.some.injEq] at found
      rw [← found, isOpen] at closed
      cases closed
    · intro row stored own
      rcases sound.snapshots row stored with
        ⟨index, maker, found, closed, named, _⟩
      have same := sound.snapshotIds index place maker call row.id found
        seen named own
      rw [same, seen, Option.some.injEq] at found
      rw [← found, isOpen] at closed
      cases closed

/-- In every run in which the release that follows a commit does not fail:
whatever else fails, expires, interleaves or crashes, a key has at most one
job and one snapshot, the calls that answer with a job answer the same, a
terminal submission stays as it is, and a call that returns an error has left
nothing behind. -/
theorem job_submit_idempotent {state later : SubmitState}
    (reachable : submissions.Reachable
      (fun _ event => event.releases = true) state)
    (steps : submissions.Steps
      (fun _ event => event.releases = true) state later) :
    Idempotent state ∧
      ∀ key row, state.tables.submissions key = some row →
        row.state ≠ .capturing →
        later.tables.submissions key = some row := by
  refine ⟨(reachable_sound reachable).idempotent, ?_⟩
  intro key row found ended
  induction steps with
  | refl => exact found
  | tail _ last earlier =>
    rcases last with ⟨event, releases, stepped⟩
    exact step_terminal releases stepped earlier ended

/-! ## A run -/

/-- The database before the first submission. -/
def noSubmissions : SubmitState := ⟨Tables.empty, []⟩

def exampleKey : CaptureLeaseKey := ⟨"client", "request"⟩

def exampleAmbient : Ambient :=
  ⟨.ofTime 0, "1970-01-01T00:00:00.000Z", "owner"⟩

def exampleCaptured : Captured :=
  ⟨"snap_1", "content", [], "manifest.json.g1", "full-source.tar.zst.g1",
    .normal⟩

/-- One submission up to its commit, with the given end of the release. -/
def exampleSubmission (releaseFailure : Option Thrown) : List SubmitEvent :=
  [.submit exampleKey "job_1" exampleAmbient [],
    .resume 0 (.captured (.ok exampleCaptured))] ++
  List.replicate 4 (.resume 0 (.flushed (.ok ()) exampleAmbient [])) ++
  List.replicate 4 (.resume 0 (.published (.ok ()) exampleAmbient [])) ++
  [.resume 0 (.directoryFlushed (.ok ()) ⟨exampleAmbient, false, ""⟩ []
    releaseFailure)]

/-- A submission that commits, and a second call of the same key. -/
theorem job_submit_idempotent_repeated :
    ∃ state response,
      state.calls.map SubmitCall.phase =
        [.finished (.job response), .finished (.job response)] ∧
      state.tables.jobs.map JobRow.id = ["job_1"] ∧ Idempotent state := by
  have ran : (submissions.run noSubmissions (exampleSubmission none ++
      [.submit exampleKey "job_2" exampleAmbient []])).map
      (fun state => (state.calls.map SubmitCall.phase,
        state.tables.jobs.map JobRow.id)) =
      some ([.finished (.job (submitResponse "job_1" exampleCaptured false
          "")),
        .finished (.job (submitResponse "job_1" exampleCaptured false ""))],
        ["job_1"]) := by
    decide +kernel
  rcases Option.map_eq_some_iff.mp ran with ⟨state, reached, observed⟩
  rw [Prod.mk.injEq] at observed
  have steps : submissions.Steps (fun _ event => event.releases = true)
      noSubmissions state :=
    Machine.steps_of_run (fun _ event => event.releases)
      (fun _ _ met => met) (by decide +kernel) reached
  refine ⟨state, _, observed.1, observed.2, ?_⟩
  exact (job_submit_idempotent ⟨noSubmissions, ⟨rfl, rfl⟩, steps⟩ .refl).1

/-- When the release after the commit fails, the call returns an error and
its job stays. -/
theorem failed_release_leaves_job :
    ∃ state, submissions.Reachable (fun _ _ => True) state ∧
      ¬ Idempotent state := by
  have ran : (submissions.run noSubmissions (exampleSubmission
      (some (.other "database is locked")) ++
      [.resume 0 (.cleaned (.ok ()) exampleAmbient [])])).map
      (fun state => (state.calls.map fun call =>
        (call.jobId, call.phase.failed),
        state.tables.jobs.map JobRow.id)) =
      some ([(some "job_1", true)], ["job_1"]) := by
    decide +kernel
  rcases Option.map_eq_some_iff.mp ran with ⟨state, reached, observed⟩
  rw [Prod.mk.injEq] at observed
  refine ⟨state, Machine.reachable_of_run ⟨rfl, rfl⟩ reached, ?_⟩
  intro idempotent
  rcases List.map_eq_cons_iff.mp observed.1 with
    ⟨call, rest, calls, seen, _⟩
  rcases List.map_eq_cons_iff.mp observed.2 with ⟨job, others, jobs, id, _⟩
  rw [Prod.mk.injEq] at seen
  have member : call ∈ state.calls := by
    rw [calls]
    exact List.mem_cons_self
  have made : job ∈ state.tables.jobs := by
    rw [jobs]
    exact List.mem_cons_self
  apply (idempotent.nothingLeft call member seen.2).1 job made
  rw [seen.1, id]

end Rbo.Controller.Submissions
