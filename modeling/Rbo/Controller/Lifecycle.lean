import Mathlib.Order.Basic
import Rbo.Foundation.Run

/-!
# Jobs and attempts

The two tables that the Controller's handlers write, and the writes they
make.  A row is named by its place in its table: rows are only ever added at
the end.  Columns that no modelled function reads are left out.
-/

namespace Rbo.Controller.Lifecycle

/-! ## Rows -/

inductive JobState where
  | created
  | awaitingConfirmation
  | queued
  | matching
  | leased
  | leasing
  | preparingSource
  | materializing
  | starting
  | running
  | collectingArtifacts
  | cleaning
  | completed
  deriving DecidableEq

inductive AttemptState where
  | starting
  | leasing
  | preparingSource
  | running
  | collectingArtifacts
  | orphaned
  | completed
  deriving DecidableEq

inductive JobOutcome where
  | succeeded
  | failed
  | timedOut
  | cancelled
  | lost
  deriving DecidableEq

inductive ErrorCategory where
  | validation
  | noMatchingAgent
  | noCapacity
  | sourceScan
  | secretBlocked
  | repoClone
  | repoFetch
  | baseCommitMissing
  | bundleImport
  | snapshotTransfer
  | snapshotHash
  | materialization
  | workspaceChanged
  | shellMissing
  | processSpawn
  | processExit
  | timeout
  | cancelled
  | agentLost
  | artifactCollection
  | artifactUpload
  | cleanup
  | secretMissing
  | toolchainChanged
  | agentDisconnected
  | leaseExpired
  | logSpoolLimit
  | internal
  deriving DecidableEq

inductive QueuePolicy where
  | localFallback
  | wait
  | failFast
  deriving DecidableEq

/-- A row of `jobs`, with the queue policy of its request. -/
structure JobRow where
  state : JobState
  outcome : Option JobOutcome
  createdAt : Nat
  queuedAt : Option Nat
  exitCode : Option Int
  failureCategory : Option ErrorCategory
  failureMessage : Option String
  queuePolicy : QueuePolicy
  deriving DecidableEq

/-- A row of `job_attempts`. -/
structure AttemptRow where
  jobId : Nat
  ordinal : Nat
  agentId : Option Nat
  leaseId : Nat
  leaseEpoch : Nat
  leaseDeadline : Option Nat
  state : AttemptState
  outcome : Option JobOutcome
  logAckedSequence : Nat
  processIdentity : Option Nat
  deriving DecidableEq

/-- `isTerminalJobState`. -/
def JobRow.terminal (job : JobRow) : Prop :=
  job.state = .completed

instance (job : JobRow) : Decidable job.terminal :=
  inferInstanceAs (Decidable (_ = _))

/-- An attempt that is not completed. -/
def AttemptRow.live (attempt : AttemptRow) : Prop :=
  attempt.state ≠ .completed

instance (attempt : AttemptRow) : Decidable attempt.live :=
  inferInstanceAs (Decidable (_ ≠ _))

/-- The two tables. -/
structure Database where
  jobs : List JobRow
  attempts : List AttemptRow
  deriving DecidableEq

def Database.empty : Database where
  jobs := []
  attempts := []

/-! ## Reads -/

def Database.getJob (db : Database) (jobId : Nat) : Option JobRow :=
  db.jobs[jobId]?

def Database.getAttempt (db : Database) (attemptId : Nat) :
    Option AttemptRow :=
  db.attempts[attemptId]?

/-- The attempts of a job, with their names, in the order of creation. -/
def Database.attemptsOf (db : Database) (jobId : Nat) :
    List (AttemptRow × Nat) :=
  db.attempts.zipIdx.filter fun pair => pair.1.jobId = jobId

/-- The attempt of a job with the highest ordinal. -/
def Database.getLatestAttempt (db : Database) (jobId : Nat) :
    Option (AttemptRow × Nat) :=
  (db.attemptsOf jobId).foldl
    (fun latest pair =>
      match latest with
      | none => some pair
      | some best => if best.1.ordinal < pair.1.ordinal then pair else best)
    none

def Database.nextLeaseEpochForJob (db : Database) (jobId : Nat) : Nat :=
  (db.attemptsOf jobId).foldl
    (fun most pair => max most pair.1.leaseEpoch) 0 + 1

def Database.maxOrdinal (db : Database) (jobId : Nat) : Nat :=
  (db.attemptsOf jobId).foldl (fun most pair => max most pair.1.ordinal) 0

/-! ## Writes -/

/-- The columns an update of a job sets. -/
structure JobFields where
  state : Option JobState := none
  outcome : Option (Option JobOutcome) := none
  queuedAt : Option Nat := none
  exitCode : Option (Option Int) := none
  failureCategory : Option (Option ErrorCategory) := none
  failureMessage : Option (Option String) := none
  deriving DecidableEq

/-- The columns an update of an attempt sets. -/
structure AttemptFields where
  state : Option AttemptState := none
  outcome : Option (Option JobOutcome) := none
  leaseEpoch : Option Nat := none
  leaseDeadline : Option Nat := none
  logAckedSequence : Option Nat := none
  processIdentity : Option Nat := none
  deriving DecidableEq

def JobRow.update (row : JobRow) (fields : JobFields) : JobRow :=
  { row with
    state := fields.state.getD row.state
    outcome := fields.outcome.getD row.outcome
    queuedAt := fields.queuedAt.or row.queuedAt
    exitCode := fields.exitCode.getD row.exitCode
    failureCategory := fields.failureCategory.getD row.failureCategory
    failureMessage := fields.failureMessage.getD row.failureMessage }

def AttemptRow.update (row : AttemptRow) (fields : AttemptFields) :
    AttemptRow :=
  { row with
    state := fields.state.getD row.state
    outcome := fields.outcome.getD row.outcome
    leaseEpoch := fields.leaseEpoch.getD row.leaseEpoch
    leaseDeadline := fields.leaseDeadline.or row.leaseDeadline
    logAckedSequence := fields.logAckedSequence.getD row.logAckedSequence
    processIdentity := fields.processIdentity.or row.processIdentity }

/-- One statement that writes a table. -/
inductive Write where
  | insertJob (row : JobRow)
  | updateJob (jobId : Nat) (fields : JobFields)
  | insertAttempt (row : AttemptRow)
  | updateAttempt (attemptId : Nat) (fields : AttemptFields)
  | insertEvent (attemptId : Nat)
  deriving DecidableEq

def Database.write (db : Database) : Write → Database
  | .insertJob row => { db with jobs := db.jobs ++ [row] }
  | .updateJob jobId fields =>
    { db with jobs := db.jobs.modify jobId fun row => row.update fields }
  | .insertAttempt row => { db with attempts := db.attempts ++ [row] }
  | .updateAttempt attemptId fields =>
    { db with
      attempts :=
        db.attempts.modify attemptId fun row => row.update fields }
  | .insertEvent _ => db

def Database.writes (db : Database) (writes : List Write) : Database :=
  writes.foldl Database.write db

/-! ## What a write leaves -/

namespace Database

variable {db : Database}

@[simp]
theorem writes_nil : db.writes [] = db :=
  rfl

@[simp]
theorem writes_cons (statement : Write) (statements : List Write) :
    db.writes (statement :: statements) =
      (db.write statement).writes statements :=
  rfl

theorem getAttempt_updateAttempt (attemptId : Nat) (fields : AttemptFields)
    (name : Nat) :
    (db.write (.updateAttempt attemptId fields)).getAttempt name =
      (db.getAttempt name).map fun row =>
        if attemptId = name then row.update fields else row :=
  List.getElem?_modify _ _ _ _

theorem getJob_updateJob (jobId : Nat) (fields : JobFields) (name : Nat) :
    (db.write (.updateJob jobId fields)).getJob name =
      (db.getJob name).map fun row =>
        if jobId = name then row.update fields else row :=
  List.getElem?_modify _ _ _ _

theorem getAttempt_insertAttempt (row : AttemptRow) (name : Nat) :
    (db.write (.insertAttempt row)).getAttempt name =
      if name = db.attempts.length then some row else db.getAttempt name := by
  unfold getAttempt write
  rw [List.getElem?_append]
  by_cases inside : name < db.attempts.length
  · rw [if_pos inside, if_neg (Nat.ne_of_lt inside)]
  · rw [if_neg inside]
    by_cases last : name = db.attempts.length
    · rw [if_pos last, last, Nat.sub_self, List.getElem?_cons_zero]
    · rw [if_neg last, List.getElem?_eq_none, List.getElem?_eq_none]
      · exact Nat.le_of_not_lt inside
      · rw [List.length_singleton]
        omega

theorem getJob_insertJob {row job : JobRow} {name : Nat}
    (found : db.getJob name = some job) :
    (db.write (.insertJob row)).getJob name = some job := by
  have inside : name < db.jobs.length := by
    unfold getJob at found
    rw [List.getElem?_eq_some_iff] at found
    exact found.1
  unfold getJob write
  rw [List.getElem?_append_left inside]
  exact found

theorem getAttempt_lt {row : AttemptRow} {name : Nat}
    (found : db.getAttempt name = some row) : name < db.attempts.length := by
  unfold getAttempt at found
  rw [List.getElem?_eq_some_iff] at found
  exact found.1

theorem mem_attemptsOf {jobId : Nat} {pair : AttemptRow × Nat} :
    pair ∈ db.attemptsOf jobId ↔
      db.getAttempt pair.2 = some pair.1 ∧ pair.1.jobId = jobId := by
  unfold attemptsOf getAttempt
  rw [List.mem_filter, List.mem_zipIdx_iff_getElem?, decide_eq_true_iff]

theorem le_foldl_max {Item : Type} (measure : Item → Nat)
    (items : List Item) (start : Nat) :
    start ≤ items.foldl (fun most item => max most (measure item)) start ∧
      ∀ item ∈ items, measure item ≤
        items.foldl (fun most item => max most (measure item)) start := by
  induction items generalizing start with
  | nil => exact ⟨Nat.le_refl _, nofun⟩
  | cons head items induction =>
    have ⟨above, each⟩ := induction (max start (measure head))
    constructor
    · exact Nat.le_trans (Nat.le_max_left _ _) above
    · intro item member
      rcases List.mem_cons.mp member with rfl | later
      · exact Nat.le_trans (Nat.le_max_right _ _) above
      · exact each item later

/-- A new lease epoch of a job is above all its attempts' epochs. -/
theorem leaseEpoch_lt_next {name : Nat} {row : AttemptRow}
    (found : db.getAttempt name = some row) :
    row.leaseEpoch < db.nextLeaseEpochForJob row.jobId := by
  have member : (row, name) ∈ db.attemptsOf row.jobId :=
    mem_attemptsOf.mpr ⟨found, rfl⟩
  have bounded :=
    (le_foldl_max (fun pair : AttemptRow × Nat => pair.1.leaseEpoch)
      (db.attemptsOf row.jobId) 0).2 (row, name) member
  exact Nat.lt_succ_of_le bounded

end Database

end Rbo.Controller.Lifecycle
