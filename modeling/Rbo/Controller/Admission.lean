import Rbo.Controller.Lifecycle
import Rbo.Foundation.Semaphore

/-!
# The admission of local runs

Every `runLocalJob` takes a slot before it creates its attempt and gives it
back in the `finally` of its `try`.  The attempt's row and its directories are
made in between, and what throws there keeps the slot.
-/

namespace Rbo.Controller.Admission

open Rbo.Foundation
open Rbo.Controller.Lifecycle

/-! ## Calls of the runner -/

/-- The awaits between the attempt's row and the `try`. -/
inductive Setup where
  | artifactsDir
  | logDir
  | controlDir
  | attemptLogs
  deriving DecidableEq

inductive Settlement where
  | resolved
  | rejected
  deriving DecidableEq

inductive Phase where
  /-- In `acquireAdmission`, waiting or woken. -/
  | queued
  /-- With a slot, before the call goes on. -/
  | admitted
  | preparing (attemptId : Nat) (setup : Setup)
  /-- In the `try` or its `catch`. -/
  | running (attemptId : Nat)
  /-- In the `finally`, while a cancellation is in flight. -/
  | unwinding (attemptId : Nat) (settlement : Settlement)
  /-- In the `finally`, after the slot was given back. -/
  | cleaning (settlement : Settlement)
  | settled (settlement : Settlement)
  deriving DecidableEq

/-- What follows an await of the preparation. -/
def Setup.next (attemptId : Nat) : Setup → Phase
  | .artifactsDir => .preparing attemptId .logDir
  | .logDir => .preparing attemptId .controlDir
  | .controlDir => .preparing attemptId .attemptLogs
  | .attemptLogs => .running attemptId

/-- A call of `runLocalJob`, and how often it took and gave back a slot. -/
structure Call where
  jobId : Nat
  phase : Phase
  acquired : Nat
  released : Nat
  deriving DecidableEq

/-- The state that the calls share. -/
structure Runner where
  maxConcurrentJobs : Nat
  db : Database
  pendingCancels : List Nat
  activeCancels : List Nat
  admission : Semaphore Nat
  calls : List Call

/-- A call of the database that throws. -/
inductive DbCall where
  | selectRequest
  | getJob
  | createAttempt
  deriving DecidableEq

/-- The unique key of `job_attempts`. -/
def ordinalTaken (db : Database) (jobId ordinal : Nat) : Prop :=
  ∃ pair ∈ db.attemptsOf jobId, pair.1.ordinal = ordinal

instance (db : Database) (jobId ordinal : Nat) :
    Decidable (ordinalTaken db jobId ordinal) :=
  inferInstanceAs (Decidable (∃ pair ∈ db.attemptsOf jobId, _))

/-- A statement that the unique key accepts. -/
def accepted (db : Database) : Write → Bool
  | .insertAttempt row => ¬ ordinalTaken db row.jobId row.ordinal
  | _ => true

/-- The row that `createAttempt` inserts with ordinal 1. -/
def startingAttempt (db : Database) (jobId : Nat) : AttemptRow where
  jobId := jobId
  ordinal := 1
  agentId := none
  leaseId := db.attempts.length
  leaseEpoch := db.nextLeaseEpochForJob jobId
  leaseDeadline := none
  state := .starting
  outcome := none
  logAckedSequence := 0
  processIdentity := none

/-- What the code in the `try` does before its next await, or before it
leaves the `try`. -/
inductive BodyStep where
  | continues (write : Option Write) (registers : Bool)
  | leaves (write : Option Write) (inFlightCancel : Bool)
      (settlement : Settlement)
  deriving DecidableEq

inductive Event where
  | runLocalJob (jobId : Nat) (fault : Option DbCall)
  | wake (index : Nat)
  | resume (index : Nat) (fault : Option DbCall)
  | prepared (index : Nat) (succeeds : Bool)
  | body (index : Nat) (step : BodyStep)
  | cancelled (index : Nat)
  | cleaned (index : Nat)
  | requestJobCancel (jobId : Nat)
  | write (statement : Write)
  deriving DecidableEq

namespace Runner

variable (runner : Runner)

/-- A job that is missing, over or cancelled is not run. -/
def refuses (jobId : Nat) : Prop :=
  ∀ job ∈ runner.db.getJob jobId,
    job.terminal ∨ job.outcome = some .cancelled

instance (jobId : Nat) : Decidable (runner.refuses jobId) :=
  inferInstanceAs (Decidable (∀ job ∈ runner.db.getJob jobId, _))

def deletePendingCancel (jobId : Nat) : Runner :=
  { runner with
    pendingCancels := runner.pendingCancels.filter fun name =>
      name ≠ jobId }

def setCall (index : Nat) (call : Call) : Runner :=
  { runner with calls := runner.calls.set index call }

def addCall (call : Call) : Runner :=
  { runner with calls := runner.calls ++ [call] }

/-- A statement of the database, when the unique key accepts it. -/
def store : Option Write → Option Runner
  | none => some runner
  | some statement =>
    if accepted runner.db statement then
      some { runner with db := runner.db.write statement }
    else none

/-- The phase of a call that tried to take a slot. -/
def tried (call : Call) : Call :=
  if runner.maxConcurrentJobs ≤ runner.admission.active then
    { call with phase := .queued }
  else
    { call with phase := .admitted, acquired := call.acquired + 1 }

/-- `runLocalJob` up to its first await. -/
def runLocalJob (jobId : Nat) (fault : Option DbCall) : Runner :=
  let call : Call :=
    { jobId := jobId
      phase := .settled .rejected
      acquired := 0
      released := 0 }
  if jobId ∈ runner.pendingCancels then
    (runner.deletePendingCancel jobId).addCall
      { call with phase := .settled .resolved }
  else if fault = some .selectRequest ∨ runner.db.getJob jobId = none then
    runner.addCall call
  else if fault = some .getJob then
    runner.addCall call
  else if runner.refuses jobId then
    (runner.deletePendingCancel jobId).addCall
      { call with phase := .settled .resolved }
  else
    { runner.addCall (runner.tried call) with
      admission :=
        runner.admission.enter runner.maxConcurrentJobs
          runner.calls.length }

/-- `acquireAdmission` goes on after it was woken. -/
def wake (index : Nat) (call : Call) : Runner :=
  { runner.setCall index (runner.tried call) with
    admission :=
      runner.admission.retry runner.maxConcurrentJobs index }

/-- `releaseAdmission` of a call. -/
def releaseAdmission (index : Nat) (call : Call) (phase : Phase) : Runner :=
  { (runner.deletePendingCancel call.jobId).setCall index
      { call with phase := phase, released := call.released + 1 } with
    admission := runner.admission.release }

/-- `runLocalJob` after its admission, up to the first directory. -/
def startAttempt (index : Nat) (call : Call) (fault : Option DbCall) :
    Runner :=
  if call.jobId ∈ runner.pendingCancels then
    runner.releaseAdmission index call (.settled .resolved)
  else if fault = some .getJob then
    runner.setCall index { call with phase := .settled .rejected }
  else if runner.refuses call.jobId then
    runner.releaseAdmission index call (.settled .resolved)
  else if fault = some .createAttempt ∨
      ordinalTaken runner.db call.jobId 1 then
    runner.setCall index { call with phase := .settled .rejected }
  else
    -- The next check for a cancellation follows without an await.
    { runner.setCall index
        { call with
          phase := .preparing runner.db.attempts.length .artifactsDir } with
      db :=
        runner.db.write
          (.insertAttempt (startingAttempt runner.db call.jobId)) }

/-- The rest of the `finally` up to the release. -/
def finish (index : Nat) (call : Call) (attemptId : Nat)
    (settlement : Settlement) : Runner :=
  { runner with
    activeCancels := runner.activeCancels.filter fun name =>
      name ≠ attemptId }.releaseAdmission index call (.cleaning settlement)

def bodyStep (index : Nat) (call : Call) (attemptId : Nat) :
    BodyStep → Option Runner
  | .continues write registers =>
    (runner.store write).map fun stored =>
      if registers then
        { stored with activeCancels := attemptId :: stored.activeCancels }
      else stored
  | .leaves write inFlightCancel settlement =>
    (runner.store write).map fun stored =>
      if inFlightCancel then
        stored.setCall index
          { call with phase := .unwinding attemptId settlement }
      else stored.finish index call attemptId settlement

/-- `requestJobCancel`. -/
def requestJobCancel (jobId : Nat) : Runner :=
  match runner.db.getJob jobId with
  | none => runner
  | some job =>
    if job.terminal then runner
    else
      let pending :=
        { runner with pendingCancels := jobId :: runner.pendingCancels }
      let ending :=
        Write.updateJob jobId
          { state := some .completed
            outcome := some (some .cancelled)
            failureCategory := some (some .cancelled)
            failureMessage := some (some "Job cancelled before execution") }
      match runner.db.getLatestAttempt jobId with
      | none => { pending with db := runner.db.writes [ending] }
      | some (_, attemptId) =>
        if attemptId ∈ runner.activeCancels then pending
        else
          { pending with
            db :=
              runner.db.writes
                [.updateAttempt attemptId
                    { state := some .completed
                      outcome := some (some .cancelled) },
                  ending] }

def next : Event → Option Runner
  | .runLocalJob jobId fault => some (runner.runLocalJob jobId fault)
  | .wake index =>
    match runner.calls[index]? with
    | none => none
    | some call =>
      if call.phase = .queued ∧ index ∈ runner.admission.woken then
        some (runner.wake index call)
      else none
  | .resume index fault =>
    match runner.calls[index]? with
    | none => none
    | some call =>
      if call.phase = .admitted then
        some (runner.startAttempt index call fault)
      else none
  | .prepared index succeeds =>
    match runner.calls[index]? with
    | none => none
    | some call =>
      match call.phase with
      | .preparing attemptId setup =>
        some
          (runner.setCall index
            { call with
              phase :=
                if succeeds then setup.next attemptId
                else .settled .rejected })
      | _ => none
  | .body index step =>
    match runner.calls[index]? with
    | none => none
    | some call =>
      match call.phase with
      | .running attemptId => runner.bodyStep index call attemptId step
      | _ => none
  | .cancelled index =>
    match runner.calls[index]? with
    | none => none
    | some call =>
      match call.phase with
      | .unwinding attemptId settlement =>
        some (runner.finish index call attemptId settlement)
      | _ => none
  | .cleaned index =>
    match runner.calls[index]? with
    | none => none
    | some call =>
      match call.phase with
      | .cleaning settlement =>
        some
          (runner.setCall index
            { call with phase := .settled settlement })
      | _ => none
  | .requestJobCancel jobId => some (runner.requestJobCancel jobId)
  | .write statement => runner.store (some statement)

end Runner

/-- A runner before its first call. -/
def idleRunner (maxConcurrentJobs : Nat) (db : Database) : Runner where
  maxConcurrentJobs := maxConcurrentJobs
  db := db
  pendingCancels := []
  activeCancels := []
  admission := .free
  calls := []

def runnerMachine : Machine Runner Event where
  initial runner :=
    ∃ maxConcurrentJobs db, runner = idleRunner maxConcurrentJobs db
  step := Runner.next

/-! ## Slots and their holders -/

/-- A call that has taken a slot and not given it back. -/
def Call.holds (call : Call) : Bool :=
  call.released < call.acquired

/-- What a call has taken and given back in each phase. -/
def Call.Consistent (call : Call) : Prop :=
  match call.phase with
  | .queued => call.acquired = 0 ∧ call.released = 0
  | .admitted => call.acquired = 1 ∧ call.released = 0
  | .preparing _ _ => call.acquired = 1 ∧ call.released = 0
  | .running _ => call.acquired = 1 ∧ call.released = 0
  | .unwinding _ _ => call.acquired = 1 ∧ call.released = 0
  | .cleaning _ => call.acquired = 1 ∧ call.released = 1
  | .settled _ => call.released ≤ call.acquired ∧ call.acquired ≤ 1

/-- The semaphore and the calls agree. -/
structure Agrees (runner : Runner) : Prop where
  consistent : ∀ (index : Nat) (call : Call),
    runner.calls[index]? = some call → call.Consistent
  fair : Semaphore.Fair runner.maxConcurrentJobs runner.admission
  counts : runner.admission.active = runner.calls.countP Call.holds
  queued : ∀ (index : Nat) (call : Call),
    runner.calls[index]? = some call → call.phase = .queued →
    runner.admission.queued index

section Invariant

variable {runner next : Runner} {index : Nat} {call after : Call}

/-- What the other state of the runner does not matter for. -/
theorem Agrees.of_same (agrees : Agrees runner)
    (limit : next.maxConcurrentJobs = runner.maxConcurrentJobs)
    (admission : next.admission = runner.admission)
    (calls : next.calls = runner.calls) : Agrees next := by
  constructor
  · rw [calls]
    exact agrees.consistent
  · rw [limit, admission]
    exact agrees.fair
  · rw [admission, calls]
    exact agrees.counts
  · rw [admission, calls]
    exact agrees.queued

theorem getElem?_setCall (stored : runner.calls[index]? = some call)
    (changed : Call) (other : Nat) :
    (runner.calls.set index changed)[other]? =
      if other = index then some changed else runner.calls[other]? := by
  have inside : index < runner.calls.length :=
    (List.getElem?_eq_some_iff.mp stored).1
  by_cases same : other = index
  · subst same
    rw [if_pos rfl, List.getElem?_set_self inside]
  · rw [if_neg same, List.getElem?_set_ne (Ne.symm same)]

theorem countP_setCall (stored : runner.calls[index]? = some call)
    (changed : Call) :
    (runner.calls.set index changed).countP Call.holds +
        (if call.holds then 1 else 0) =
      runner.calls.countP Call.holds + if changed.holds then 1 else 0 := by
  rcases List.getElem?_eq_some_iff.mp stored with ⟨inside, there⟩
  have held : (if call.holds then 1 else 0) ≤
      runner.calls.countP Call.holds := by
    split
    next holds =>
      apply List.countP_pos_iff.mpr
      exact ⟨call, List.mem_of_getElem? stored, holds⟩
    next => exact Nat.zero_le _
  rw [List.countP_set inside, there]
  omega

/-- A call that keeps its slot, or its lack of one, goes on. -/
theorem agrees_setCall (agrees : Agrees runner)
    (stored : runner.calls[index]? = some call)
    (consistent : after.Consistent) (holds : after.holds = call.holds)
    (moved : after.phase ≠ .queued) :
    Agrees (runner.setCall index after) := by
  constructor
  · intro other found there
    replace there := (getElem?_setCall stored _ other).symm.trans there
    split at there
    · cases there
      exact consistent
    · exact agrees.consistent other found there
  · exact agrees.fair
  · have counted := countP_setCall stored after
    rw [holds] at counted
    rw [show (runner.setCall index after).admission.active = _ from
      agrees.counts]
    exact (Nat.add_right_cancel counted).symm
  · intro other found there waits
    replace there := (getElem?_setCall stored _ other).symm.trans there
    split at there
    · cases there
      exact absurd waits moved
    · exact agrees.queued other found there waits

/-- A call that holds a slot gives it back. -/
theorem agrees_release (agrees : Agrees runner)
    (stored : runner.calls[index]? = some call)
    (held : call.acquired = 1 ∧ call.released = 0) {phase : Phase}
    (ending : (∃ settlement, phase = .cleaning settlement) ∨
      ∃ settlement, phase = .settled settlement) :
    Agrees (runner.releaseAdmission index call phase) := by
  have consistent : ({ call with
      phase := phase
      released := call.released + 1 } : Call).Consistent := by
    rcases ending with ⟨settlement, rfl⟩ | ⟨settlement, rfl⟩
    · exact ⟨held.1, congrArg (· + 1) held.2⟩
    · show call.released + 1 ≤ call.acquired ∧ call.acquired ≤ 1
      omega
  have moved : phase ≠ .queued := by
    rcases ending with ⟨settlement, rfl⟩ | ⟨settlement, rfl⟩ <;> nofun
  constructor
  · intro other found there
    replace there := (getElem?_setCall stored _ other).symm.trans there
    split at there
    · cases there
      exact consistent
    · exact agrees.consistent other found there
  · exact agrees.fair.release
  · have counted := countP_setCall stored { call with
      phase := phase
      released := call.released + 1 }
    have before : call.holds = true := by
      unfold Call.holds
      rw [held.1, held.2]
      rfl
    have later : ({ call with
        phase := phase
        released := call.released + 1 } : Call).holds = false := by
      unfold Call.holds
      dsimp only
      rw [held.1, held.2]
      rfl
    rw [before, later, if_pos rfl, if_neg (by decide), Nat.add_zero,
      ← agrees.counts] at counted
    show runner.admission.release.active = _
    rw [Semaphore.release_active]
    exact Nat.sub_eq_of_eq_add counted.symm
  · intro other found there waits
    replace there := (getElem?_setCall stored _ other).symm.trans there
    show runner.admission.release.queued other
    rw [Semaphore.queued_release]
    split at there
    · cases there
      exact absurd waits moved
    · exact agrees.queued other found there waits

theorem getElem?_addCall {other : Nat} {found : Call}
    (there : (runner.calls ++ [after])[other]? = some found) :
    runner.calls[other]? = some found ∨
      other = runner.calls.length ∧ found = after := by
  rw [List.getElem?_append] at there
  split at there
  · exact Or.inl there
  next beyond =>
    right
    rw [List.getElem?_singleton] at there
    split at there
    next zero =>
      cases there
      exact ⟨by omega, rfl⟩
    next => cases there

/-- A call that settled before its admission. -/
theorem agrees_addCall (agrees : Agrees runner)
    (consistent : after.Consistent) (idle : after.holds = false)
    (settled : after.phase ≠ .queued) : Agrees (runner.addCall after) := by
  constructor
  · intro other found there
    rcases getElem?_addCall there with before | ⟨_, rfl⟩
    · exact agrees.consistent other found before
    · exact consistent
  · exact agrees.fair
  · show runner.admission.active = (runner.calls ++ [after]).countP Call.holds
    rw [List.countP_append, List.countP_singleton, idle, agrees.counts]
    rfl
  · intro other found there waits
    rcases getElem?_addCall there with before | ⟨_, rfl⟩
    · exact agrees.queued other found before waits
    · exact absurd waits settled

/-- A call that has no slot tries to take one. -/
theorem tried_facts (runner : Runner) (idle : call.acquired = 0 ∧ call.released = 0) :
    (runner.tried call).Consistent ∧
      ((runner.tried call).holds ↔
        ¬ runner.maxConcurrentJobs ≤ runner.admission.active) ∧
      ((runner.tried call).phase = .queued →
        runner.maxConcurrentJobs ≤ runner.admission.active) := by
  unfold Runner.tried
  split
  next full =>
    refine ⟨idle, ?_, fun _ => full⟩
    apply iff_of_false
    · unfold Call.holds
      dsimp only
      rw [idle.1, idle.2]
      decide
    · exact not_not_intro full
  next room =>
    refine ⟨⟨congrArg (· + 1) idle.1, idle.2⟩, ?_, nofun⟩
    apply iff_of_true _ room
    unfold Call.holds
    dsimp only
    rw [idle.1, idle.2]
    rfl

theorem active_tried (idle : call.acquired = 0 ∧ call.released = 0)
    (waiter : Nat) :
    (runner.admission.enter runner.maxConcurrentJobs waiter).active =
      runner.admission.active +
        if (runner.tried call).holds then 1 else 0 := by
  rcases tried_facts runner idle with ⟨_, holds, _⟩
  rw [Semaphore.enter_active]
  split
  next full => rw [if_neg fun held => holds.mp held full, Nat.add_zero]
  next room => rw [if_pos (holds.mpr room)]

section

variable (agrees : Agrees runner)

include agrees

theorem agrees_enter (idle : call.acquired = 0 ∧ call.released = 0) :
    Agrees
      { runner.addCall (runner.tried call) with
        admission :=
          runner.admission.enter runner.maxConcurrentJobs
            runner.calls.length } := by
  rcases tried_facts runner idle with
    ⟨consistent, _, waiting⟩
  constructor
  · intro other found there
    rcases getElem?_addCall there with before | ⟨_, rfl⟩
    · exact agrees.consistent other found before
    · exact consistent
  · exact agrees.fair.enter
  · show (runner.admission.enter runner.maxConcurrentJobs _).active =
      (runner.calls ++ [runner.tried call]).countP Call.holds
    rw [active_tried idle, List.countP_append, List.countP_singleton,
      agrees.counts]
  · intro other found there waits
    rcases getElem?_addCall there with before | ⟨rfl, rfl⟩
    · exact Semaphore.queued_enter (agrees.queued other found before waits)
    · exact Semaphore.queued_enter_self (waiting waits)

theorem agrees_wake (stored : runner.calls[index]? = some call)
    (waiting : call.phase = .queued) (woken : index ∈ runner.admission.woken) :
    Agrees (runner.wake index call) := by
  have idle : call.acquired = 0 ∧ call.released = 0 := by
    have consistent := agrees.consistent index call stored
    unfold Call.Consistent at consistent
    rw [waiting] at consistent
    exact consistent
  rcases tried_facts runner idle with ⟨consistent, _, waits⟩
  constructor
  · intro other found there
    replace there := (getElem?_setCall stored _ other).symm.trans there
    split at there
    · cases there
      exact consistent
    · exact agrees.consistent other found there
  · exact agrees.fair.retry woken
  · have counted := countP_setCall stored (runner.tried call)
    have before : call.holds = false := by
      unfold Call.holds
      rw [idle.1, idle.2]
      rfl
    rw [before, if_neg (by decide), Nat.add_zero, ← agrees.counts,
      ← active_tried idle index, Semaphore.enter_active] at counted
    show (runner.admission.retry runner.maxConcurrentJobs index).active = _
    unfold Semaphore.retry
    rw [Semaphore.enter_active]
    exact counted.symm
  · intro other found there queued
    replace there := (getElem?_setCall stored _ other).symm.trans there
    split at there
    next same =>
      cases there
      subst same
      exact Semaphore.queued_retry_self (waits queued)
    next different =>
      exact Semaphore.queued_retry different
        (agrees.queued other found there queued)

/-- The statement of a run keeps the admission. -/
theorem agrees_store {write : Option Write}
    (stored : runner.store write = some next) :
    Agrees next ∧ next.calls = runner.calls := by
  unfold Runner.store at stored
  split at stored
  · cases stored
    exact ⟨agrees, rfl⟩
  · split at stored
    · cases stored
      exact ⟨agrees.of_same rfl rfl rfl, rfl⟩
    · cases stored

theorem agrees_runLocalJob (jobId : Nat) (fault : Option DbCall) :
    Agrees (runner.runLocalJob jobId fault) := by
  have ended : ∀ settlement,
      Agrees (runner.addCall
        { jobId := jobId
          phase := .settled settlement
          acquired := 0
          released := 0 }) := fun settlement =>
    agrees_addCall agrees ⟨Nat.le_refl 0, Nat.zero_le 1⟩ rfl nofun
  unfold Runner.runLocalJob
  dsimp only
  split
  · exact (ended .resolved).of_same rfl rfl rfl
  · split
    · exact ended .rejected
    · split
      · exact ended .rejected
      · split
        · exact (ended .resolved).of_same rfl rfl rfl
        · exact agrees_enter agrees ⟨rfl, rfl⟩

/-- What a call has in a phase in which it holds a slot. -/
theorem held_of_phase (stored : runner.calls[index]? = some call)
    (phase : call.phase = .admitted ∨
      (∃ attemptId setup, call.phase = .preparing attemptId setup) ∨
      (∃ attemptId, call.phase = .running attemptId) ∨
      ∃ attemptId settlement,
        call.phase = .unwinding attemptId settlement) :
    call.acquired = 1 ∧ call.released = 0 := by
  have consistent := agrees.consistent index call stored
  unfold Call.Consistent at consistent
  rcases phase with is | ⟨_, _, is⟩ | ⟨_, is⟩ | ⟨_, _, is⟩
  all_goals
    rw [is] at consistent
    exact consistent

/-- A call with a slot goes on, or settles and keeps the slot. -/
theorem agrees_holding (stored : runner.calls[index]? = some call)
    (held : call.acquired = 1 ∧ call.released = 0) {phase : Phase}
    (goes : (∃ attemptId setup, phase = .preparing attemptId setup) ∨
      (∃ attemptId, phase = .running attemptId) ∨
      (∃ attemptId settlement, phase = .unwinding attemptId settlement) ∨
      ∃ settlement, phase = .settled settlement) :
    Agrees (runner.setCall index { call with phase := phase }) := by
  apply agrees_setCall agrees stored
  · rcases goes with ⟨_, _, rfl⟩ | ⟨_, rfl⟩ | ⟨_, _, rfl⟩ | ⟨_, rfl⟩
    · exact held
    · exact held
    · exact held
    · show call.released ≤ call.acquired ∧ call.acquired ≤ 1
      omega
  · rfl
  · rcases goes with ⟨_, _, rfl⟩ | ⟨_, rfl⟩ | ⟨_, _, rfl⟩ | ⟨_, rfl⟩ <;>
      nofun

theorem agrees_startAttempt (stored : runner.calls[index]? = some call)
    (held : call.acquired = 1 ∧ call.released = 0) (fault : Option DbCall) :
    Agrees (runner.startAttempt index call fault) := by
  have kept : ∀ settlement, Agrees (runner.setCall index
      { call with phase := .settled settlement }) :=
    fun settlement => agrees_holding agrees stored held
      (Or.inr (Or.inr (Or.inr ⟨settlement, rfl⟩)))
  have back := agrees_release agrees stored held
    (Or.inr ⟨.resolved, rfl⟩)
  unfold Runner.startAttempt
  split
  · exact back
  · split
    · exact kept .rejected
    · split
      · exact back
      · split
        · exact kept .rejected
        · have prepares : Agrees (runner.setCall index
              { call with
                phase :=
                  .preparing runner.db.attempts.length .artifactsDir }) :=
            agrees_holding agrees stored held (Or.inl ⟨_, _, rfl⟩)
          exact prepares.of_same rfl rfl rfl

theorem agrees_finish (stored : runner.calls[index]? = some call)
    (held : call.acquired = 1 ∧ call.released = 0) (attemptId : Nat)
    (settlement : Settlement) :
    Agrees (runner.finish index call attemptId settlement) := by
  have apart : Agrees
      { runner with
        activeCancels := runner.activeCancels.filter fun name =>
          name ≠ attemptId } := agrees.of_same rfl rfl rfl
  exact agrees_release apart stored held (Or.inl ⟨settlement, rfl⟩)

theorem agrees_bodyStep (stored : runner.calls[index]? = some call)
    {attemptId : Nat} (phase : call.phase = .running attemptId)
    {step : BodyStep}
    (stepped : runner.bodyStep index call attemptId step = some next) :
    Agrees next := by
  have held := held_of_phase agrees stored
    (Or.inr (Or.inr (Or.inl ⟨attemptId, phase⟩)))
  cases step with
  | continues write registers =>
    rcases Option.map_eq_some_iff.mp stepped with ⟨after, wrote, rfl⟩
    split
    · exact (agrees_store agrees wrote).1.of_same rfl rfl rfl
    · exact (agrees_store agrees wrote).1
  | leaves write inFlightCancel settlement =>
    rcases Option.map_eq_some_iff.mp stepped with ⟨after, wrote, rfl⟩
    rcases agrees_store agrees wrote with ⟨still, calls⟩
    rw [← calls] at stored
    split
    · exact agrees_holding still stored held
        (Or.inr (Or.inr (Or.inl ⟨_, _, rfl⟩)))
    · exact agrees_finish still stored held attemptId settlement

theorem agrees_requestJobCancel (jobId : Nat) :
    Agrees (runner.requestJobCancel jobId) := by
  unfold Runner.requestJobCancel
  split
  · exact agrees
  · split
    · exact agrees
    · dsimp only
      split
      · exact agrees.of_same rfl rfl rfl
      · split
        all_goals
          exact agrees.of_same rfl rfl rfl

theorem step_agrees {event : Event}
    (step : runnerMachine.step runner event = some next) : Agrees next := by
  replace step : runner.next event = some next := step
  unfold Runner.next at step
  split at step
  · cases step
    exact agrees_runLocalJob agrees _ _
  · split at step
    · cases step
    next call stored =>
      split at step
      next may =>
        cases step
        exact agrees_wake agrees stored may.1 may.2
      next => cases step
  · split at step
    · cases step
    next call stored =>
      split at step
      next admitted =>
        cases step
        exact agrees_startAttempt agrees stored
          (held_of_phase agrees stored (Or.inl admitted)) _
      next => cases step
  next index succeeds =>
    split at step
    · cases step
    next call stored =>
      split at step
      next attemptId setup phase =>
        cases step
        apply agrees_holding agrees stored
          (held_of_phase agrees stored
            (Or.inr (Or.inl ⟨attemptId, setup, phase⟩)))
        cases succeeds with
        | false => exact Or.inr (Or.inr (Or.inr ⟨_, rfl⟩))
        | true =>
          cases setup with
          | attemptLogs => exact Or.inr (Or.inl ⟨_, rfl⟩)
          | _ => exact Or.inl ⟨_, _, rfl⟩
      next => cases step
  · split at step
    · cases step
    next call stored =>
      split at step
      next attemptId phase => exact agrees_bodyStep agrees stored phase step
      next => cases step
  · split at step
    · cases step
    next call stored =>
      split at step
      next attemptId settlement phase =>
        cases step
        exact agrees_finish agrees stored
          (held_of_phase agrees stored
            (Or.inr (Or.inr (Or.inr ⟨_, _, phase⟩)))) attemptId settlement
      next => cases step
  · split at step
    · cases step
    next call stored =>
      split at step
      next settlement phase =>
        cases step
        have gave := agrees.consistent _ call stored
        unfold Call.Consistent at gave
        rw [phase] at gave
        apply agrees_setCall agrees stored
        · show call.released ≤ call.acquired ∧ call.acquired ≤ 1
          omega
        · rfl
        · nofun
      next => cases step
  · cases step
    exact agrees_requestJobCancel agrees _
  · exact (agrees_store agrees step).1

end

end Invariant

/-! ## What throws before the `try` -/

/-- The segment after the admission throws. -/
def Runner.throws (runner : Runner) (jobId : Nat) (fault : Option DbCall) :
    Prop :=
  jobId ∉ runner.pendingCancels ∧
    (fault = some .getJob ∨
      ¬ runner.refuses jobId ∧
        (fault = some .createAttempt ∨ ordinalTaken runner.db jobId 1))

/-- Nothing throws between the admission and the `try`. -/
def GetsToTry (runner : Runner) : Event → Prop
  | .resume index fault => ∀ call, runner.calls[index]? = some call →
      ¬ runner.throws call.jobId fault
  | .prepared _ succeeds => succeeds = true
  | _ => True

/-- A call has given back what it took. -/
def Call.balanced (call : Call) : Prop :=
  call.released = call.acquired

section Settling

variable {runner next : Runner} {index : Nat} {call after : Call}

/-- The continuation after the admission settles its call in balance exactly
when it does not throw. -/
theorem startAttempt_settles
    (held : call.acquired = 1 ∧ call.released = 0) {fault : Option DbCall}
    (stored : runner.calls[index]? = some call)
    (there : (runner.startAttempt index call fault).calls[index]? =
      some after)
    {settlement : Settlement} (settled : after.phase = .settled settlement) :
    after.balanced ↔ ¬ runner.throws call.jobId fault := by
  have found : ∀ changed : Call,
      (runner.calls.set index changed)[index]? = some changed := by
    intro changed
    rw [getElem?_setCall stored, if_pos rfl]
  have unbalanced : ({ call with
      phase := .settled .rejected } : Call).balanced → False := by
    intro same
    have equal : call.released = call.acquired := same
    omega
  have gives : ({ call with
      phase := .settled .resolved
      released := call.released + 1 } : Call).balanced := by
    show call.released + 1 = call.acquired
    omega
  unfold Runner.throws
  unfold Runner.startAttempt at there
  split at there
  next cancelled =>
    rw [Option.some.inj ((found _).symm.trans there)] at gives
    exact iff_of_true gives fun throws => throws.1 cancelled
  next wanted =>
    split at there
    next fails =>
      rw [← Option.some.inj ((found _).symm.trans there)]
      exact iff_of_false unbalanced
        (not_not_intro ⟨wanted, Or.inl fails⟩)
    next reads =>
      split at there
      next refused =>
        rw [Option.some.inj ((found _).symm.trans there)] at gives
        apply iff_of_true gives
        rintro ⟨_, fails | ⟨accepts, _⟩⟩
        · exact reads fails
        · exact accepts refused
      next accepts =>
        split at there
        next fails =>
          rw [← Option.some.inj ((found _).symm.trans there)]
          exact iff_of_false unbalanced
            (not_not_intro ⟨wanted, Or.inr ⟨accepts, fails⟩⟩)
        next =>
          rw [← Option.some.inj ((found _).symm.trans there)]
            at settled
          cases settled

/-- What a step leaves under an index: the call as it was, a new call, or a
call that was not settled and settles in balance when nothing throws. -/
def Leaves (runner : Runner) (event : Event) (index : Nat) (after : Call) :
    Prop :=
  runner.calls[index]? = some after ∨
    (runner.calls[index]? = none ∧
      ∀ settlement, after.phase = .settled settlement → after.balanced) ∨
    ∃ call : Call, runner.calls[index]? = some call ∧
      (∀ settlement, call.phase ≠ .settled settlement) ∧
      ∀ settlement, after.phase = .settled settlement →
        (after.balanced ↔ GetsToTry runner event)

theorem leaves_set {event : Event} {name : Nat} {changed : Call}
    (stored : runner.calls[name]? = some call)
    (unsettled : ∀ settlement, call.phase ≠ .settled settlement)
    (settles : ∀ settlement, changed.phase = .settled settlement →
      (changed.balanced ↔ GetsToTry runner event))
    (there : (runner.calls.set name changed)[index]? = some after) :
    Leaves runner event index after := by
  rw [getElem?_setCall stored] at there
  split at there
  next same =>
    cases there
    exact Or.inr (Or.inr ⟨call, same ▸ stored, unsettled, settles⟩)
  next => exact Or.inl there

theorem leaves_add {event : Event} {fresh : Call}
    (idle : fresh.acquired = 0 ∧ fresh.released = 0 ∨
      ∀ settlement, fresh.phase ≠ .settled settlement)
    (there : (runner.calls ++ [fresh])[index]? = some after) :
    Leaves runner event index after := by
  rcases getElem?_addCall there with before | ⟨beyond, rfl⟩
  · exact Or.inl before
  · right
    left
    refine ⟨List.getElem?_eq_none (Nat.le_of_eq beyond.symm), ?_⟩
    intro settlement settled
    rcases idle with ⟨acquired, released⟩ | open_
    · exact released.trans acquired.symm
    · exact absurd settled (open_ settlement)

theorem tried_unsettled (settlement : Settlement) :
    (runner.tried call).phase ≠ .settled settlement := by
  unfold Runner.tried
  split <;> nofun

theorem leaves_runLocalJob {jobId : Nat} {fault : Option DbCall}
    (there : (runner.runLocalJob jobId fault).calls[index]? = some after) :
    Leaves runner (.runLocalJob jobId fault) index after := by
  unfold Runner.runLocalJob at there
  dsimp only at there
  split at there
  · exact leaves_add (Or.inl ⟨rfl, rfl⟩) there
  · split at there
    · exact leaves_add (Or.inl ⟨rfl, rfl⟩) there
    · split at there
      · exact leaves_add (Or.inl ⟨rfl, rfl⟩) there
      · split at there
        · exact leaves_add (Or.inl ⟨rfl, rfl⟩) there
        · exact leaves_add (Or.inr tried_unsettled) there

theorem leaves_startAttempt (agrees : Agrees runner) {name : Nat}
    {fault : Option DbCall} (stored : runner.calls[name]? = some call)
    (admitted : call.phase = .admitted)
    (there : (runner.startAttempt name call fault).calls[index]? =
      some after) :
    Leaves runner (.resume name fault) index after := by
  have held := held_of_phase agrees stored (Or.inl admitted)
  have calls : ∃ changed, (runner.startAttempt name call fault).calls =
      runner.calls.set name changed := by
    unfold Runner.startAttempt
    split
    · exact ⟨_, rfl⟩
    · split
      · exact ⟨_, rfl⟩
      · split
        · exact ⟨_, rfl⟩
        · split
          · exact ⟨_, rfl⟩
          · exact ⟨_, rfl⟩
  rcases calls with ⟨changed, set⟩
  have own : (runner.startAttempt name call fault).calls[name]? =
      some changed := by
    rw [set, getElem?_setCall stored, if_pos rfl]
  rw [set] at there
  apply leaves_set stored _ _ there
  · rw [admitted]
    nofun
  · intro settlement settled
    rw [startAttempt_settles held stored own settled]
    constructor
    · intro quiet found again
      rw [stored, Option.some.injEq] at again
      exact again ▸ quiet
    · exact fun quiet => quiet call stored

theorem step_leaves {event : Event} (agrees : Agrees runner)
    (step : runnerMachine.step runner event = some next)
    (there : next.calls[index]? = some after) :
    Leaves runner event index after := by
  replace step : runner.next event = some next := step
  unfold Runner.next at step
  split at step
  · cases step
    exact leaves_runLocalJob there
  · split at step
    · cases step
    next call stored =>
      split at step
      next may =>
        cases step
        apply leaves_set stored _ _ there
        · rw [may.1]
          nofun
        · exact fun _ settled => absurd settled (tried_unsettled _)
      next => cases step
  · split at step
    · cases step
    next call stored =>
      split at step
      next admitted =>
        cases step
        exact leaves_startAttempt agrees stored admitted there
      next => cases step
  next name succeeds =>
    split at step
    · cases step
    next call stored =>
      split at step
      next attemptId setup phase =>
        cases step
        have held := held_of_phase agrees stored
          (Or.inr (Or.inl ⟨attemptId, setup, phase⟩))
        apply leaves_set stored _ _ there
        · rw [phase]
          nofun
        · intro settlement settled
          cases succeeds with
          | false =>
            apply iff_of_false _ (by nofun)
            intro same
            have equal : call.released = call.acquired := same
            omega
          | true => cases setup <;> cases settled
      next => cases step
  · split at step
    · cases step
    next call stored =>
      split at step
      next attemptId phase =>
        have unsettled : ∀ settlement,
            call.phase ≠ .settled settlement := by
          rw [phase]
          nofun
        unfold Runner.bodyStep at step
        split at step
        · rcases Option.map_eq_some_iff.mp step with ⟨wrote, store, rfl⟩
          left
          rw [← (agrees_store agrees store).2]
          split at there <;> exact there
        · rcases Option.map_eq_some_iff.mp step with ⟨wrote, store, rfl⟩
          have same := (agrees_store agrees store).2
          split at there
          all_goals
            replace there : (wrote.calls.set _ _)[index]? = some after :=
              there
            rw [same] at there
            exact leaves_set stored unsettled (fun _ settled => by cases settled) there
      next => cases step
  · split at step
    · cases step
    next call stored =>
      split at step
      next attemptId settlement phase =>
        cases step
        apply leaves_set stored _ (fun _ settled => by cases settled) there
        rw [phase]
        nofun
      next => cases step
  · split at step
    · cases step
    next call stored =>
      split at step
      next settlement phase =>
        cases step
        have gave := agrees.consistent _ call stored
        unfold Call.Consistent at gave
        rw [phase] at gave
        apply leaves_set stored _ _ there
        · rw [phase]
          nofun
        · exact fun _ _ => iff_of_true (gave.2.trans gave.1.symm) trivial
      next => cases step
  next jobId =>
    cases step
    left
    have same : (runner.requestJobCancel jobId).calls = runner.calls := by
      unfold Runner.requestJobCancel
      split
      · rfl
      · split
        · rfl
        · dsimp only
          split
          · rfl
          · split <;> rfl
    rw [← same]
    exact there
  · left
    rw [← (agrees_store agrees step).2]
    exact there

end Settling

theorem reachable_agrees {allowed : Runner → Event → Prop} {runner : Runner}
    (reachable : runnerMachine.Reachable allowed runner) :
    Agrees runner := by
  have preserved : ∀ runner event next, Agrees runner →
      allowed runner event →
      runnerMachine.step runner event = some next → Agrees next :=
    fun _ _ _ agrees _ step => step_agrees agrees step
  apply reachable.invariant _ preserved
  rintro initial ⟨limit, db, rfl⟩
  refine ⟨nofun, Semaphore.fair_free, rfl, nofun⟩

/-- Every call that settled has given back what it took. -/
def InBalance (runner : Runner) : Prop :=
  Agrees runner ∧
    ∀ (index : Nat) (call : Call), runner.calls[index]? = some call →
      ∀ settlement, call.phase = .settled settlement → call.balanced

theorem step_inBalance {runner next : Runner} {event : Event}
    (balanced : InBalance runner) (quiet : GetsToTry runner event)
    (step : runnerMachine.step runner event = some next) :
    InBalance next := by
  refine ⟨step_agrees balanced.1 step, ?_⟩
  intro index after there settlement settled
  rcases step_leaves balanced.1 step there with
    same | ⟨_, fresh⟩ | ⟨_, _, _, settles⟩
  · exact balanced.2 index after same settlement settled
  · exact fresh settlement settled
  · exact (settles settlement settled).mpr quiet

theorem reachable_inBalance {runner : Runner}
    (reachable : runnerMachine.Reachable GetsToTry runner) :
    InBalance runner := by
  have preserved : ∀ runner event next, InBalance runner →
      GetsToTry runner event →
      runnerMachine.step runner event = some next → InBalance next :=
    fun _ _ _ balanced quiet step => step_inBalance balanced quiet step
  apply reachable.invariant _ preserved
  rintro initial ⟨limit, db, rfl⟩
  have start : runnerMachine.Reachable GetsToTry (idleRunner limit db) :=
    .start ⟨limit, db, rfl⟩
  exact ⟨reachable_agrees start, nofun⟩

/--
In every run no more slots are taken than there are, a call waits only for
slots that are taken or promised, and a call settles in balance exactly when
nothing throws between its admission and its `try`.  Where nothing does, every
settled call has given back what it took.
-/
theorem admission_balanced (runner : Runner) :
    (runnerMachine.Reachable (fun _ _ => True) runner →
      runner.admission.active ≤ runner.maxConcurrentJobs ∧
        runner.admission.active = runner.calls.countP Call.holds ∧
        (runner.admission.waiters ≠ [] → runner.maxConcurrentJobs ≤
          runner.admission.active + runner.admission.woken.length) ∧
        ∀ call ∈ runner.calls,
          call.released ≤ call.acquired ∧ call.acquired ≤ 1) ∧
    (∀ event next (index : Nat) (call after : Call) settlement,
      runnerMachine.Reachable (fun _ _ => True) runner →
      runnerMachine.step runner event = some next →
      runner.calls[index]? = some call →
      (∀ settlement, call.phase ≠ .settled settlement) →
      next.calls[index]? = some after →
      after.phase = .settled settlement →
      (after.balanced ↔ GetsToTry runner event)) ∧
    (runnerMachine.Reachable GetsToTry runner →
      ∀ call ∈ runner.calls, ∀ settlement,
        call.phase = .settled settlement → call.balanced) := by
  refine ⟨?_, ?_, ?_⟩
  · intro reachable
    have agrees := reachable_agrees reachable
    refine ⟨agrees.fair.bounded, agrees.counts, agrees.fair.waits, ?_⟩
    intro call member
    rcases List.mem_iff_getElem?.mp member with ⟨index, stored⟩
    have consistent := agrees.consistent index call stored
    unfold Call.Consistent at consistent
    split at consistent <;> omega
  · intro event next index call after settlement reachable step stored
      unsettled there settled
    rcases step_leaves (reachable_agrees reachable) step there with
      same | ⟨missing, _⟩ | ⟨found, again, _, settles⟩
    · rw [stored, Option.some.injEq] at same
      exact absurd (same ▸ settled) (unsettled settlement)
    · rw [stored] at missing
      cases missing
    · exact settles settlement settled
  · intro reachable call member settlement settled
    rcases List.mem_iff_getElem?.mp member with ⟨index, stored⟩
    exact (reachable_inBalance reachable).2 index call stored settlement
      settled

/-- A queued job, and what an agent's rejection left of it. -/
def rejectedRemotely : Database where
  jobs :=
    [{ state := .queued
       outcome := none
       createdAt := 0
       queuedAt := some 0
       exitCode := none
       failureCategory := none
       failureMessage := none
       queuePolicy := .wait }]
  attempts :=
    [{ jobId := 0
       ordinal := 1
       agentId := some 1
       leaseId := 0
       leaseEpoch := 2
       leaseDeadline := none
       state := .completed
       outcome := some .failed
       logAckedSequence := 0
       processIdentity := none }]

/-- The job, without an attempt. -/
def queuedOnce : Database :=
  { rejectedRemotely with attempts := [] }

/-- A local run from its call to its end. -/
def localRun : List Event :=
  [.runLocalJob 0 none, .resume 0 none, .prepared 0 true,
    .prepared 0 true, .prepared 0 true, .prepared 0 true,
    .body 0 (.leaves none false .resolved), .cleaned 0]

/-- Does the preparation of the call at an index succeed? -/
def preparesWell (runner : Runner) : Event → Bool
  | .resume index fault =>
    runner.calls[index]?.all fun call =>
      fault = none ∧ ¬ ordinalTaken runner.db call.jobId 1
  | .prepared _ succeeds => succeeds
  | _ => true

theorem getsToTry_of_prepares (runner : Runner) (event : Event)
    (prepares : preparesWell runner event = true) :
    GetsToTry runner event := by
  cases event with
  | resume index fault =>
    intro call stored
    have met : runner.calls[index]?.all (fun call =>
        fault = none ∧ ¬ ordinalTaken runner.db call.jobId 1) = true :=
      prepares
    rw [stored, Option.all_some, decide_eq_true_iff] at met
    rintro ⟨_, reads | ⟨_, creates | taken⟩⟩
    · rw [met.1] at reads
      cases reads
    · rw [met.1] at creates
      cases creates
    · exact met.2 taken
  | prepared index succeeds => exact prepares
  | _ => trivial

theorem admission_balanced_localRun :
    ∃ runner call,
      runnerMachine.run (idleRunner 1 queuedOnce) localRun = some runner ∧
      runner.calls = [call] ∧ call.phase = .settled .resolved ∧
      call.acquired = 1 ∧ call.balanced ∧
      runner.admission.active ≤ 1 := by
  have ran :
      (runnerMachine.run (idleRunner 1 queuedOnce) localRun).map
          (fun runner => (runner.calls, runner.maxConcurrentJobs)) =
        some
          ([{ jobId := 0
              phase := .settled .resolved
              acquired := 1
              released := 1 }], 1) := by
    decide +kernel
  rcases Option.map_eq_some_iff.mp ran with ⟨runner, run, seen⟩
  have quiet : runnerMachine.Steps GetsToTry (idleRunner 1 queuedOnce)
      runner :=
    Machine.steps_of_run preparesWell getsToTry_of_prepares
      (by decide +kernel) run
  have steps : runnerMachine.Steps (fun _ _ => True)
      (idleRunner 1 queuedOnce) runner :=
    Machine.steps_of_run_eq_some run
  have initial : runnerMachine.initial (idleRunner 1 queuedOnce) :=
    ⟨1, queuedOnce, rfl⟩
  have calls := congrArg Prod.fst seen
  have limit : runner.maxConcurrentJobs = 1 := congrArg Prod.snd seen
  dsimp only at calls
  refine ⟨runner, _, run, calls, rfl, rfl, ?_, ?_⟩
  · apply (admission_balanced runner).2.2 ⟨_, initial, quiet⟩ _ _ .resolved rfl
    rw [calls]
    exact List.mem_singleton.mpr rfl
  · rw [← limit]
    exact ((admission_balanced runner).1 ⟨_, initial, steps⟩).1

/-- The local run of a job that an agent had rejected keeps its slot: the
insert of an attempt with ordinal 1 throws. -/
theorem rejected_job_keeps_slot :
    ∃ runner call,
      runnerMachine.run (idleRunner 1 rejectedRemotely)
          [.runLocalJob 0 none, .resume 0 none] = some runner ∧
      runner.calls = [call] ∧ call.phase = .settled .rejected ∧
      call.acquired = 1 ∧ call.released = 0 ∧
      runner.admission.active = 1 := by
  have ran :
      (runnerMachine.run (idleRunner 1 rejectedRemotely)
          [.runLocalJob 0 none, .resume 0 none]).map
          (fun runner => (runner.calls, runner.admission.active)) =
        some
          ([{ jobId := 0
              phase := .settled .rejected
              acquired := 1
              released := 0 }], 1) := by
    decide +kernel
  rcases Option.map_eq_some_iff.mp ran with ⟨runner, run, seen⟩
  exact ⟨runner, _, run, congrArg Prod.fst seen, rfl, rfl, rfl,
    congrArg Prod.snd seen⟩

end Rbo.Controller.Admission
