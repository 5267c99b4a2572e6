import Rbo.Controller.Attempts
import Rbo.Controller.Scheduler

/-!
# Confirmations of risky jobs

A job whose request is destructive or works on hardware waits for a
confirmation: a token that the Controller signed and that binds the job, the
hash of its request, its content and its risk.  This machine adds the stored
requests to the Controller, computes what the check of a token finds and what
the scheduler chooses, and keeps two histories: the confirmations that
succeeded, and the jobs for which a local run was started.
-/

namespace Rbo.Controller.Confirmation

open Rbo.Foundation
open Rbo.Controller.Lifecycle
open Rbo.Controller.Execution
open Rbo.Controller.Scheduler
open Rbo.Controller.Submissions (RiskLevel isDestructiveRisk)

/-! ## Tokens -/

/--
The claims of a token: a claim that does not have the type that its reader
asks for is missing, and the last three are read as texts.
-/
structure JwtClaims where
  sub : Option String
  aud : Option String
  exp : Option ℚ
  requestHash : String
  contentId : String
  riskLevel : String
  deriving DecidableEq

/-- The claims of a confirmation token that is in order. -/
structure ConfirmationClaims where
  jobId : String
  requestHash : String
  contentId : String
  riskLevel : String
  deriving DecidableEq

/-- A job as it was submitted: the request, the rest of its document, which
only the hash reads, and the content of its snapshot. -/
structure SubmittedJob where
  request : JobRequest Nat
  document : String
  contentId : String
  deriving DecidableEq

/--
What the Controller's identity, the cryptographic library and the runtime
compute.  A header or a payload that does not parse gives nothing.
-/
structure Setting where
  platform : Platform Nat
  controllerId : String
  jobName : Nat → String
  headerAlg : String → Option String
  cryptoVerify : String → String → Bool
  payloadClaims : String → Option JwtClaims
  signEdDsaJwt : JwtClaims → String
  hashOf : SubmittedJob → String

namespace Setting

variable (setting : Setting)

def verifyEdDsaJwt (token : String) (now : Nat) : Option JwtClaims :=
  match (token.toList.splitOn '.').map String.ofList with
  | [header, payload, signature] =>
    if setting.headerAlg header ≠ some "EdDSA" then none
    else if setting.cryptoVerify (header ++ "." ++ payload) signature then
      (setting.payloadClaims payload).filter fun claims =>
        ∃ exp ∈ claims.exp, ¬ exp ≤ now
    else none
  | _ => none

def verifyConfirmationToken (token : String) (now : Nat) :
    Option ConfirmationClaims :=
  match setting.verifyEdDsaJwt token now with
  | none => none
  | some claims =>
    if claims.aud ≠ some setting.controllerId then none
    else
      let jobId := claims.sub.getD ""
      if jobId = "" ∨ claims.requestHash = "" ∨ claims.contentId = "" ∨
          claims.riskLevel = "" then
        none
      else
        some
          { jobId := jobId
            requestHash := claims.requestHash
            contentId := claims.contentId
            riskLevel := claims.riskLevel }

def issueConfirmationToken (jobId : Nat) (job : SubmittedJob) (now : Nat) :
    String :=
  setting.signEdDsaJwt
    { sub := some (setting.jobName jobId)
      aud := some setting.controllerId
      exp := some (now + confirmationTtlSeconds)
      requestHash := setting.hashOf job
      contentId := job.contentId
      riskLevel := job.request.riskLevel.text }

/-- What `handleJobConfirm` finds out about a token. -/
def confirmationVerdict (jobId : Nat) (job : SubmittedJob) (token : String)
    (now : Nat) : ConfirmationVerdict :=
  match setting.verifyConfirmationToken token now with
  | none => .invalid
  | some claims =>
    if claims.jobId ≠ setting.jobName jobId then .invalid
    else if claims.requestHash ≠ setting.hashOf job ∨
        claims.contentId ≠ job.contentId ∨
        claims.riskLevel ≠ job.request.riskLevel.text then
      .mismatch
    else .valid

end Setting

/-! ## The machine -/

/-- A call of `handleJobConfirm` that succeeded. -/
structure Confirmed where
  jobId : Nat
  token : String
  time : Nat
  deriving DecidableEq

structure GateState where
  controller : ControllerState
  jobs : List SubmittedJob
  confirmed : List Confirmed
  localRuns : List Nat
  deriving DecidableEq

/-- What `dispatchJobExecution` does with a decision. -/
def completionOf (decision : SchedulingDecision Nat) (agentPlane : Bool) :
    Completion :=
  match decision.action with
  | .remote =>
    match decision.selectedAgent with
    | some agent => if agentPlane then .remote agent.agentId else .wait
    | none => .wait
  | .localFallback => .localFallback
  | .failFast =>
    .failFast
      (decision.noMatchDiagnostic.map NoMatchingAgentDiagnostic.hint)
  | .wait => .wait

inductive GateEvent where
  | submit (job : SubmittedJob)
  | confirm (jobId : Nat) (token : String)
  | confirmByAdmin (jobId : Nat)
  | schedule (index : Nat) (agents : List (SchedulerAgent Nat))
      (options : SchedulerOptions Nat) (sources : GitSourceRequirements)
      (agentPlane : Bool)
  | other (event : Event)
  deriving DecidableEq

namespace GateState

variable (setting : Setting) (state : GateState)

/-- Does a job wait for its confirmation? -/
def awaits (jobId : Nat) : Prop :=
  ∃ row ∈ state.controller.db.getJob jobId,
    row.state = .awaitingConfirmation

instance (jobId : Nat) : Decidable (state.awaits jobId) :=
  inferInstanceAs (Decidable (∃ row ∈ state.controller.db.getJob jobId, _))

def submit (job : SubmittedJob) : GateState :=
  { state with
    controller :=
      state.controller.after
        (state.controller.handleJobSubmit
          (job.request.queuePolicy.getD .localFallback)
          (isDestructiveRisk job.request.riskLevel))
    jobs := state.jobs ++ [job] }

def confirm (jobId : Nat) (token : String) : GateState :=
  match state.jobs[jobId]? with
  | none => state
  | some job =>
    let now := state.controller.memory.clock
    let verdict := setting.confirmationVerdict jobId job token now
    { state with
      controller :=
        state.controller.after
          (state.controller.handleJobConfirm jobId verdict)
      confirmed :=
        if state.awaits jobId ∧ verdict = .valid then
          state.confirmed ++
            [{ jobId := jobId, token := token, time := now }]
        else
          state.confirmed }

/-- `confirmJobByAdmin` issues a token and confirms with it. -/
def confirmByAdmin (jobId : Nat) : GateState :=
  match state.jobs[jobId]? with
  | none => state
  | some job =>
    if state.awaits jobId then
      state.confirm setting jobId
        (setting.issueConfirmationToken jobId job
          state.controller.memory.clock)
    else
      state

/-- A dispatch goes on with what the scheduler chooses for its request. -/
def schedule (index : Nat) (agents : List (SchedulerAgent Nat))
    (options : SchedulerOptions Nat) (sources : GitSourceRequirements)
    (agentPlane : Bool) : Option GateState :=
  match state.controller.memory.tasks[index]? with
  | some (.dispatch jobId _) =>
    match state.jobs[jobId]? with
    | none => none
    | some job =>
      let decision :=
        selectAgentForJob setting.platform agents
          (mergeGitSourceToolRequirements job.request sources) options
      (state.controller.resume index
          (completionOf decision agentPlane)).map
        fun segment =>
          { state with
            controller := state.controller.after segment
            localRuns :=
              if decision.action = .localFallback then
                state.localRuns ++ [jobId]
              else
                state.localRuns }
  | _ => none

/-- Is an event of the Controller one that has no form of its own here? -/
def plain : Event → Bool
  | .submit _ _ => false
  | .confirm _ _ => false
  | .resume index completion =>
    match state.controller.memory.tasks[index]?, completion with
    | some (.dispatch _ _), .failed _ _ => true
    | some (.dispatch _ _), _ => false
    | _, _ => true
  | _ => true

end GateState

def gateMachine (setting : Setting) : Machine GateState GateEvent where
  initial state :=
    ∃ controller, controllerMachine.initial controller ∧
      state =
        { controller := controller
          jobs := []
          confirmed := []
          localRuns := [] }
  step state event :=
    match event with
    | .submit job => some (state.submit job)
    | .confirm jobId token => some (state.confirm setting jobId token)
    | .confirmByAdmin jobId => some (state.confirmByAdmin setting jobId)
    | .schedule index agents options sources agentPlane =>
      state.schedule setting index agents options sources agentPlane
    | .other event =>
      if state.plain event then
        (controllerMachine.step state.controller event).map
          fun controller => { state with controller := controller }
      else
        none

/-! ## Jobs that a segment names -/

/-- A job that has an attempt. -/
def attempted (db : Database) (jobId : Nat) : Prop :=
  ∃ attemptId row, db.getAttempt attemptId = some row ∧ row.jobId = jobId

/-- An effect that creates no job and queues only jobs with an attempt. -/
def Requeues (state : ControllerState) (effect : Effect) : Prop :=
  match effect with
  | .write (.insertJob _) => False
  | .write (.updateJob jobId fields) =>
    fields.state = some .queued → attempted state.db jobId
  | _ => True

/-- A segment that works only on jobs that were named or queued before. -/
structure Follows (state : ControllerState) (segment : Segment) : Prop where
  jobs : (state.after segment).db.jobs.length = state.db.jobs.length
  attempts : ∀ jobId, attempted (state.after segment).db jobId →
    attempted state.db jobId ∨ ∃ task ∈ state.memory.tasks, jobId ∈ task.jobs
  tasks : ∀ task ∈ segment.memory.tasks, ∀ jobId ∈ task.jobs,
    (∃ old ∈ state.memory.tasks, jobId ∈ old.jobs) ∨
      jobId ∈ state.queuedJobs
  queued : ∀ jobId row, (state.after segment).db.getJob jobId = some row →
    row.state = .queued → jobId ∈ state.queuedJobs ∨ attempted state.db jobId

theorem mem_queuedJobs {state : ControllerState} {jobId : Nat} :
    jobId ∈ state.queuedJobs ↔
      ∃ row, state.db.getJob jobId = some row ∧ row.state = .queued := by
  unfold ControllerState.queuedJobs
  rw [List.mem_map]
  constructor
  · rintro ⟨⟨row, name⟩, member, rfl⟩
    rw [List.mem_filter, decide_eq_true_iff,
      List.mem_zipIdx_iff_getElem?] at member
    exact ⟨row, member⟩
  · rintro ⟨row, found, queued⟩
    refine ⟨(row, jobId), ?_, rfl⟩
    rw [List.mem_filter, decide_eq_true_iff, List.mem_zipIdx_iff_getElem?]
    exact ⟨found, queued⟩

/-! ## Effects that queue no job of their own -/

section Effects

variable {state : ControllerState}

/-- The effects of a list are all of the kind. -/
def AllRequeue (state : ControllerState) (effects : List Effect) : Prop :=
  ∀ effect ∈ effects, Requeues state effect

theorem requeues_of_plain {effect : Effect} (plain : effect.plain = true) :
    Requeues state effect := by
  cases effect with
  | write statement =>
    cases statement with
    | insertJob row => cases plain
    | updateJob jobId fields =>
      exact fun queued => absurd queued (of_decide_eq_true plain).2
    | _ => trivial
  | _ => trivial

/-- Only a submission and an accepted confirmation queue a job without an
attempt. -/
theorem requeues_of_caused {event : Event} {effects : List Effect}
    (notSubmit : ∀ policy destructive, event ≠ .submit policy destructive)
    (notConfirm : ∀ jobId, event = .confirm jobId .valid →
      ∀ job, state.db.getJob jobId = some job →
        job.state ≠ .awaitingConfirmation)
    (caused : Caused state event effects) : AllRequeue state effects := by
  intro effect member
  cases caused effect member with
  | plain is => exact requeues_of_plain is
  | requeued found => exact fun _ => ⟨_, _, found, rfl⟩
  | created => exact absurd rfl (notSubmit _ _)
  | awaits => exact absurd rfl (notSubmit _ _)
  | queued => exact absurd rfl (notSubmit _ _)
  | confirmed found waiting =>
    exact absurd waiting (notConfirm _ rfl _ found)
  | _ => trivial

/-- What such effects leave of the jobs. -/
theorem queued_of_requeues {segment : Segment}
    (requeues : AllRequeue state segment.effects) :
    (state.after segment).db.jobs.length = state.db.jobs.length ∧
      ∀ jobId row, (state.after segment).db.getJob jobId = some row →
        row.state = .queued →
          jobId ∈ state.queuedJobs ∨ attempted state.db jobId := by
  have run : ∀ (effects : List Effect) (db : Database),
      AllRequeue state effects →
        (db.jobs.length = state.db.jobs.length ∧
          ∀ jobId row, db.getJob jobId = some row → row.state = .queued →
            jobId ∈ state.queuedJobs ∨ attempted state.db jobId) →
        ((db.writes (effects.filterMap Effect.statement)).jobs.length =
            state.db.jobs.length ∧
          ∀ jobId row,
            (db.writes (effects.filterMap Effect.statement)).getJob jobId =
                some row →
              row.state = .queued →
              jobId ∈ state.queuedJobs ∨ attempted state.db jobId) := by
    intro effects
    induction effects with
    | nil => exact fun _ _ kept => kept
    | cons effect effects induction =>
      intro db each kept
      rw [AllRequeue, List.forall_mem_cons] at each
      cases effect with
      | send agentId frame header => exact induction db each.2 kept
      | file attemptId file => exact induction db each.2 kept
      | write statement =>
        apply induction (db.write statement) each.2
        cases statement with
        | insertJob row => exact absurd each.1 id
        | insertAttempt row => exact kept
        | updateAttempt attemptId fields => exact kept
        | insertEvent attemptId => exact kept
        | updateJob jobId fields =>
          refine ⟨(List.length_modify _ _ _).trans kept.1, ?_⟩
          intro name row found queued
          rw [Database.getJob_updateJob,
            Option.map_eq_some_iff] at found
          rcases found with ⟨before, there, rfl⟩
          by_cases same : jobId = name
          · subst same
            rw [if_pos rfl] at queued
            cases set : fields.state with
            | none =>
              apply kept.2 jobId before there
              simpa [JobRow.update, set] using queued
            | some moved =>
              right
              apply each.1
              simpa [JobRow.update, set] using queued
          · rw [if_neg same] at queued
            exact kept.2 name before there queued
  apply run segment.effects state.db requeues
  refine ⟨rfl, ?_⟩
  intro jobId row found queued
  exact Or.inl (mem_queuedJobs.mpr ⟨row, found, queued⟩)

/-- A segment that claims nothing follows. -/
theorem follows_of_calm {segment : Segment} (calm : Calm state segment)
    (requeues : AllRequeue state segment.effects) :
    Follows state segment := by
  have jobs := queued_of_requeues requeues
  refine ⟨jobs.1, ?_, fun task member jobId named =>
    Or.inl (calm.jobs task member jobId named), jobs.2⟩
  rintro jobId ⟨attemptId, row, found, rfl⟩
  rcases (tame_writes calm.quiet).row attemptId row found with
    ⟨before, stored, tamed⟩
  exact Or.inl ⟨attemptId, before, stored, tamed.jobId_eq.symm⟩

end Effects

/-! ## Dispatches -/

section Dispatches

variable {state : ControllerState} {index jobId : Nat} {rest : List Nat}

/-- A segment that creates an attempt of a job that a task names. -/
theorem follows_of_insert {segment : Segment} (created : AttemptRow)
    (new : Task) {old : Task} (found : state.memory.tasks[index]? = some old)
    (named : created.jobId ∈ old.jobs)
    (requeues : AllRequeue state segment.effects)
    (attempts :
      (state.after segment).db.attempts = state.db.attempts ++ [created])
    (jobs : new.jobs ⊆ old.jobs)
    (tasks : segment.memory.tasks = state.memory.tasks.eraseIdx index ∨
      segment.memory.tasks = state.memory.tasks.set index new) :
    Follows state segment := by
  have kept := queued_of_requeues requeues
  refine ⟨kept.1, ?_, ?_, kept.2⟩
  · rintro name ⟨attemptId, row, there, rfl⟩
    unfold Database.getAttempt at there
    have member := List.mem_of_getElem? there
    rw [attempts, List.mem_append, List.mem_singleton] at member
    rcases member with before | rfl
    · rcases List.mem_iff_getElem?.mp before with ⟨name, stored⟩
      exact Or.inl ⟨name, row, stored, rfl⟩
    · exact Or.inr ⟨old, List.mem_of_getElem? found, named⟩
  · intro task member name names
    left
    rcases tasks with erased | refilled
    · rw [erased] at member
      exact ⟨task, List.mem_of_mem_eraseIdx member, names⟩
    · rw [refilled] at member
      exact jobs_set found jobs task member name names

theorem follows_remote {agentId : Nat} {effects : List Effect}
    (found : state.memory.tasks[index]? = some (.dispatch jobId rest))
    (initiated : state.initiateRemoteAttempt jobId agentId = some effects) :
    Follows state
      { effects := effects, memory := state.memory.finish index rest } := by
  unfold ControllerState.initiateRemoteAttempt at initiated
  split at initiated
  · cases initiated
  · cases initiated
    apply follows_of_insert (state.remoteAttempt jobId agentId)
      (.sweep rest) found
    · exact List.mem_cons_self
    · simp [AllRequeue, Requeues, transitionJobState]
    · rfl
    · exact List.subset_cons_self _ _
    · show (state.memory.finish index rest).tasks = _ ∨
        (state.memory.finish index rest).tasks =
          state.memory.tasks.set index (.sweep rest)
      rw [Memory.finish_tasks]
      split
      · exact Or.inl rfl
      · exact Or.inr rfl

/-- The tables stay, and the tasks name jobs named or queued before. -/
theorem follows_of_tasks {segment : Segment} (idle : segment.effects = [])
    (tasks : ∀ task ∈ segment.memory.tasks, ∀ jobId ∈ task.jobs,
      (∃ old ∈ state.memory.tasks, jobId ∈ old.jobs) ∨
        jobId ∈ state.queuedJobs) :
    Follows state segment := by
  have same : (state.after segment).db = state.db := by
    unfold ControllerState.after Segment.writes
    rw [idle]
    rfl
  refine ⟨congrArg (fun db => db.jobs.length) same, ?_, tasks, ?_⟩
  · rw [same]
    exact fun _ tried => Or.inl tried
  · rw [same]
    exact fun _ row there queued =>
      Or.inl (mem_queuedJobs.mpr ⟨row, there, queued⟩)

/-- Every event but a submission and an accepted confirmation follows. -/
theorem follows_segment {event : Event} {segment : Segment}
    (notSubmit : ∀ policy destructive, event ≠ .submit policy destructive)
    (notConfirm : ∀ jobId, event = .confirm jobId .valid →
      ∀ job, state.db.getJob jobId = some job →
        job.state ≠ .awaitingConfirmation)
    (does : state.segment event = some segment) :
    Follows state segment := by
  cases shape_segment does with
  | calm effects tidy =>
    exact follows_of_calm (calm_of_caused effects tidy)
      (requeues_of_caused notSubmit notConfirm effects)
  | submitted => exact absurd rfl (notSubmit _ _)
  | confirmed found waiting =>
    exact absurd waiting (notConfirm _ rfl _ found)
  | @swept jobId rest queued =>
    apply follows_of_tasks rfl
    intro task member name named
    rcases List.mem_append.mp member with there | added
    · exact Or.inl ⟨task, there, named⟩
    · rw [List.mem_singleton.mp added] at named
      right
      rw [queued]
      exact named
  | @sweeps _ _ jobId rest found =>
    apply follows_of_tasks rfl
    have sameJobs :
        (Task.dispatch jobId rest).jobs ⊆
          (Task.sweep (jobId :: rest)).jobs := List.Subset.refl _
    exact fun task member name named =>
      Or.inl (jobs_set found sameJobs task member name named)
  | remote found initiated => exact follows_remote found initiated
  | @localRun _ _ jobId rest found =>
    refine follows_of_insert (state.localAttempt jobId)
      (.localRun .preparing jobId state.db.attempts.length rest) found
      ?_ ?_ rfl (List.Subset.refl _) (Or.inr rfl)
    · exact List.mem_cons_self
    · simp [AllRequeue, Requeues]

theorem follows_resume {completion : Completion} {segment : Segment}
    (resumed : state.resume index completion = some segment) :
    Follows state segment := by
  have does : state.segment (.resume index completion) = some segment :=
    resumed
  refine follows_segment ?_ ?_ does
  · rintro _ _ ⟨⟩
  · rintro _ ⟨⟩

end Dispatches

/-! ## The gate -/

/-- Is a job destructive, or does it work on hardware? -/
def SubmittedJob.risky (job : SubmittedJob) : Prop :=
  isDestructiveRisk job.request.riskLevel = true

instance (job : SubmittedJob) : Decidable job.risky :=
  inferInstanceAs (Decidable (_ = true))

/--
The token of a confirmation was in order and had not expired when it was
used, and it binds the job, the hash of its request, its content and its risk.
-/
def Binds (setting : Setting) (jobId : Nat) (job : SubmittedJob)
    (confirmation : Confirmed) : Prop :=
  confirmation.jobId = jobId ∧
    ∃ claims exp,
      setting.verifyEdDsaJwt confirmation.token confirmation.time =
          some claims ∧
        claims.exp = some exp ∧ confirmation.time < exp ∧
        claims.sub = some (setting.jobName jobId) ∧
        claims.requestHash = setting.hashOf job ∧
        claims.contentId = job.contentId ∧
        claims.riskLevel = job.request.riskLevel.text

theorem verifyEdDsaJwt_unexpired {setting : Setting} {token : String}
    {now : Nat} {claims : JwtClaims}
    (verified : setting.verifyEdDsaJwt token now = some claims) :
    ∃ exp, claims.exp = some exp ∧ now < exp := by
  unfold Setting.verifyEdDsaJwt at verified
  split at verified
  · split at verified
    · cases verified
    · split at verified
      · rw [Option.filter_eq_some_iff, decide_eq_true_iff] at verified
        rcases verified with ⟨_, exp, set, later⟩
        exact ⟨exp, set, not_le.mp later⟩
      · cases verified
  · cases verified

/-- A token that `handleJobConfirm` accepts binds the job. -/
theorem binds_of_valid {setting : Setting} {jobId now : Nat}
    {job : SubmittedJob} {token : String}
    (valid :
      setting.confirmationVerdict jobId job token now = .valid) :
    Binds setting jobId job
      { jobId := jobId, token := token, time := now } := by
  unfold Setting.confirmationVerdict Setting.verifyConfirmationToken at valid
  cases verified : setting.verifyEdDsaJwt token now with
  | none =>
    rw [verified] at valid
    cases valid
  | some claims =>
    rw [verified] at valid
    dsimp only at valid
    by_cases foreign : claims.aud ≠ some setting.controllerId
    · rw [if_pos foreign] at valid
      cases valid
    rw [if_neg foreign] at valid
    by_cases incomplete : claims.sub.getD "" = "" ∨
        claims.requestHash = "" ∨ claims.contentId = "" ∨
        claims.riskLevel = ""
    · rw [if_pos incomplete] at valid
      cases valid
    rw [if_neg incomplete] at valid
    dsimp only at valid
    by_cases otherJob : claims.sub.getD "" ≠ setting.jobName jobId
    · rw [if_pos otherJob] at valid
      cases valid
    rw [if_neg otherJob] at valid
    by_cases unbound : claims.requestHash ≠ setting.hashOf job ∨
        claims.contentId ≠ job.contentId ∨
        claims.riskLevel ≠ job.request.riskLevel.text
    · rw [if_pos unbound] at valid
      cases valid
    simp only [not_or, not_not] at otherJob unbound incomplete
    rcases verifyEdDsaJwt_unexpired verified with ⟨exp, set, later⟩
    refine ⟨rfl, claims, exp, verified, set, later, ?_, unbound⟩
    cases subject : claims.sub with
    | none =>
      rw [subject] at incomplete
      exact absurd rfl incomplete.1
    | some name =>
      rw [subject] at otherJob
      exact congrArg some otherJob

/-- A job that may run: it is not risky, or a confirmation binds it. -/
def Cleared (setting : Setting) (state : GateState) (jobId : Nat) : Prop :=
  ∃ job, state.jobs[jobId]? = some job ∧
    (job.risky → ∃ confirmation ∈ state.confirmed,
      Binds setting jobId job confirmation)

/-- Everything that works on a job, or may do so next, is cleared. -/
structure Gated (setting : Setting) (state : GateState) : Prop where
  stored : state.jobs.length = state.controller.db.jobs.length
  attempts : ∀ jobId, attempted state.controller.db jobId →
    Cleared setting state jobId
  tasks : ∀ task ∈ state.controller.memory.tasks, ∀ jobId ∈ task.jobs,
    Cleared setting state jobId
  queued : ∀ jobId ∈ state.controller.queuedJobs,
    Cleared setting state jobId
  remote : ∀ jobId ∈ state.localRuns,
    ∃ job, state.jobs[jobId]? = some job ∧ ¬ job.risky

/-- A job stays cleared when jobs and confirmations are added. -/
theorem Cleared.mono {setting : Setting} {state next : GateState}
    {jobId : Nat} (cleared : Cleared setting state jobId)
    (jobs : state.jobs <+: next.jobs)
    (confirmed : state.confirmed ⊆ next.confirmed) :
    Cleared setting next jobId := by
  rcases cleared with ⟨job, stored, bound⟩
  refine ⟨job, ?_, ?_⟩
  · rcases jobs with ⟨added, extended⟩
    rw [← extended]
    exact List.getElem?_append_left
      (List.getElem?_eq_some_iff.mp stored).1 ▸ stored
  · intro risky
    rcases bound risky with ⟨confirmation, member, binds⟩
    exact ⟨confirmation, confirmed member, binds⟩

section Gate

variable {setting : Setting} {state : GateState}

/-- A segment that follows keeps the gate. -/
theorem gated_follows (gated : Gated setting state) {segment : Segment}
    (follows : Follows state.controller segment) {localRuns : List Nat}
    (remote : ∀ jobId ∈ localRuns,
      ∃ job, state.jobs[jobId]? = some job ∧ ¬ job.risky) :
    Gated setting
      { state with
        controller := state.controller.after segment
        localRuns := localRuns } := by
  constructor
  · exact gated.stored.trans follows.jobs.symm
  · intro jobId tried
    rcases follows.attempts jobId tried with before | ⟨task, member, named⟩
    · exact gated.attempts jobId before
    · exact gated.tasks task member jobId named
  · intro task member jobId named
    rcases follows.tasks task member jobId named with
      ⟨old, there, names⟩ | waiting
    · exact gated.tasks old there jobId names
    · exact gated.queued jobId waiting
  · intro jobId waiting
    rcases mem_queuedJobs.mp waiting with ⟨row, found, queued⟩
    rcases follows.queued jobId row found queued with before | tried
    · exact gated.queued jobId before
    · exact gated.attempts jobId tried
  · exact remote

/-- An update of the job that was just inserted. -/
theorem write_updateJob_last (db : Database) (row : JobRow)
    (fields : JobFields) :
    (db.write (.insertJob row)).write (.updateJob db.jobs.length fields) =
      db.write (.insertJob (row.update fields)) := by
  have last : ∀ rows : List JobRow,
      (rows ++ [row]).modify rows.length (fun row => row.update fields) =
        rows ++ [row.update fields] := by
    intro rows
    induction rows with
    | nil => rfl
    | cons first rows induction => exact congrArg (first :: ·) induction
  exact congrArg (fun jobs => { db with jobs := jobs }) (last db.jobs)

/-- The tables after a submission. -/
theorem submit_db (controller : ControllerState)
    (queuePolicy : QueuePolicy) (destructive : Bool) :
    ∃ row : JobRow,
      (controller.after
          (controller.handleJobSubmit queuePolicy destructive)).db =
          controller.db.write (.insertJob row) ∧
        (destructive = true → row.state = .awaitingConfirmation) := by
  have three : ∀ row first second,
      controller.db.writes
          [.insertJob row, .updateJob controller.db.jobs.length first,
            .updateJob controller.db.jobs.length second] =
        controller.db.write
          (.insertJob ((row.update first).update second)) := by
    intro row first second
    rw [Database.writes_cons, Database.writes_cons, Database.writes_cons,
      Database.writes_nil, write_updateJob_last, write_updateJob_last]
  cases destructive with
  | true => exact ⟨_, three _ _ _, fun _ => rfl⟩
  | false => exact ⟨_, three _ _ _, nofun⟩

/-- A submission keeps the gate: a risky job is neither queued nor named. -/
theorem gated_submit (gated : Gated setting state) (job : SubmittedJob) :
    Gated setting (state.submit job) := by
  have grown : ∀ jobId, Cleared setting state jobId →
      Cleared setting (state.submit job) jobId := fun jobId cleared =>
    cleared.mono (List.prefix_append _ _) (List.Subset.refl _)
  have added : ¬ job.risky →
      Cleared setting (state.submit job) state.controller.db.jobs.length := by
    intro safe
    refine ⟨job, ?_, fun risky => absurd risky safe⟩
    rw [← gated.stored]
    exact List.getElem?_concat_length
  rcases submit_db state.controller
      (job.request.queuePolicy.getD .localFallback)
      (isDestructiveRisk job.request.riskLevel) with ⟨row, db, waits⟩
  constructor
  · show (state.jobs ++ [job]).length = _
    unfold GateState.submit
    dsimp only
    rw [db]
    show _ = (state.controller.db.jobs ++ [row]).length
    rw [List.length_append, List.length_append, gated.stored]
    rfl
  · rintro jobId ⟨attemptId, attempt, found, same⟩
    unfold GateState.submit at found
    dsimp only at found
    rw [db] at found
    exact grown jobId (gated.attempts jobId ⟨attemptId, attempt, found, same⟩)
  · intro task member jobId named
    unfold GateState.submit ControllerState.after
      ControllerState.handleJobSubmit at member
    dsimp only at member
    split at member
    · exact grown jobId (gated.tasks task member jobId named)
    · rename_i safe
      rcases List.mem_append.mp member with there | new
      · exact grown jobId (gated.tasks task there jobId named)
      · rw [List.mem_singleton.mp new] at named
        rw [List.mem_singleton.mp named]
        exact added safe
  · intro jobId waiting
    rcases mem_queuedJobs.mp waiting with ⟨found, there, queued⟩
    unfold GateState.submit at there
    dsimp only at there
    rw [db] at there
    have cases := there
    unfold Database.getJob Database.write at cases
    dsimp only at cases
    rw [List.getElem?_append] at cases
    split at cases
    · exact grown jobId
        (gated.queued jobId (mem_queuedJobs.mpr ⟨found, cases, queued⟩))
    · rename_i outside
      have last : jobId = state.controller.db.jobs.length := by
        have inside := (List.getElem?_eq_some_iff.mp cases).1
        rw [List.length_singleton] at inside
        omega
      subst last
      rw [Nat.sub_self, List.getElem?_cons_zero, Option.some.injEq] at cases
      apply added
      intro risky
      rw [← cases, waits risky] at queued
      cases queued
  · intro jobId started
    rcases gated.remote jobId started with ⟨old, stored, safe⟩
    refine ⟨old, ?_, safe⟩
    exact List.getElem?_append_left
      (List.getElem?_eq_some_iff.mp stored).1 ▸ stored

theorem follows_refused {jobId : Nat} {verdict : ConfirmationVerdict}
    (refused : ¬ (state.awaits jobId ∧ verdict = .valid)) :
    Follows state.controller
      (state.controller.handleJobConfirm jobId verdict) := by
  have does : state.controller.segment (.confirm jobId verdict) =
      some (state.controller.handleJobConfirm jobId verdict) := rfl
  refine follows_segment ?_ ?_ does
  · rintro _ _ ⟨⟩
  · rintro _ ⟨⟩ row found waits
    exact refused ⟨⟨row, found, waits⟩, rfl⟩

/-- A confirmation that succeeds clears the job it queues. -/
theorem gated_accepted (gated : Gated setting state) {jobId : Nat}
    {job : SubmittedJob} {token : String}
    (stored : state.jobs[jobId]? = some job) (awaits : state.awaits jobId)
    (valid :
      setting.confirmationVerdict jobId job token
        state.controller.memory.clock = .valid) :
    Gated setting
      { state with
        controller :=
          state.controller.after
            (state.controller.handleJobConfirm jobId .valid)
        confirmed :=
          state.confirmed ++
            [{ jobId := jobId
               token := token
               time := state.controller.memory.clock }] } := by
  rcases awaits with ⟨row, found, waits⟩
  have segment :
      state.controller.handleJobConfirm jobId .valid =
        { effects :=
            [transitionJobState jobId .queued
              { queuedAt := some state.controller.memory.clock }]
          memory := state.controller.memory.spawn (.dispatch jobId []) } := by
    unfold ControllerState.handleJobConfirm
    rw [found]
    dsimp only
    rw [if_neg (not_not.mpr waits)]
  rw [segment]
  let confirmation : Confirmed :=
    { jobId := jobId
      token := token
      time := state.controller.memory.clock }
  let moved : JobFields :=
    { queuedAt := some state.controller.memory.clock
      state := some .queued }
  let next : GateState :=
    { state with
      controller :=
        { db := state.controller.db.write (.updateJob jobId moved)
          memory := state.controller.memory.spawn (.dispatch jobId []) }
      confirmed := state.confirmed ++ [confirmation] }
  show Gated setting next
  have grown : ∀ name, Cleared setting state name →
      Cleared setting next name := fun name cleared =>
    cleared.mono (List.prefix_refl _) (List.subset_append_left _ _)
  have cleared : Cleared setting next jobId :=
    ⟨job, stored, fun _ =>
      ⟨_, List.mem_append_right _ List.mem_cons_self,
        binds_of_valid valid⟩⟩
  constructor
  · exact gated.stored.trans (List.length_modify _ _ _).symm
  · exact fun name tried => grown name (gated.attempts name tried)
  · intro task member name named
    rcases List.mem_append.mp member with there | added
    · exact grown name (gated.tasks task there name named)
    · rw [List.mem_singleton.mp added] at named
      rw [List.mem_singleton.mp named]
      exact cleared
  · intro name waiting
    rcases mem_queuedJobs.mp waiting with ⟨after, there, queued⟩
    by_cases same : jobId = name
    · rw [← same]
      exact cleared
    · apply grown
      apply gated.queued
      have known :=
        (Database.getJob_updateJob jobId moved name).symm.trans there
      rw [Option.map_eq_some_iff] at known
      rcases known with ⟨before, known, rfl⟩
      rw [if_neg same] at queued
      exact mem_queuedJobs.mpr ⟨before, known, queued⟩
  · exact gated.remote

theorem gated_confirm (gated : Gated setting state) (jobId : Nat)
    (token : String) : Gated setting (state.confirm setting jobId token) := by
  unfold GateState.confirm
  cases stored : state.jobs[jobId]? with
  | none => exact gated
  | some job =>
    dsimp only
    split
    · rename_i accepted
      rw [accepted.2]
      exact gated_accepted gated stored accepted.1 accepted.2
    · rename_i refused
      exact gated_follows gated (follows_refused refused) gated.remote

theorem gated_confirmByAdmin (gated : Gated setting state) (jobId : Nat) :
    Gated setting (state.confirmByAdmin setting jobId) := by
  unfold GateState.confirmByAdmin
  split
  · exact gated
  · split
    · exact gated_confirm gated jobId _
    · exact gated

/-- The scheduler sends no risky job to the host. -/
theorem gated_schedule (gated : Gated setting state) {index : Nat}
    {agents : List (SchedulerAgent Nat)} {options : SchedulerOptions Nat}
    {sources : GitSourceRequirements} {agentPlane : Bool} {next : GateState}
    (scheduled :
      state.schedule setting index agents options sources agentPlane =
        some next) :
    Gated setting next := by
  unfold GateState.schedule at scheduled
  split at scheduled
  · rename_i jobId rest task
    split at scheduled
    · cases scheduled
    · rename_i job stored
      dsimp only at scheduled
      rw [Option.map_eq_some_iff] at scheduled
      rcases scheduled with ⟨segment, resumed, rfl⟩
      apply gated_follows gated (follows_resume resumed)
      intro name started
      split at started
      · rename_i fallback
        rcases List.mem_append.mp started with before | new
        · exact gated.remote name before
        · rw [List.mem_singleton.mp new]
          refine ⟨job, stored, ?_⟩
          intro risky
          apply selectAgentForJob_risky setting.platform _ agents options
            fallback
          rw [mergeGitSourceToolRequirements_riskLevel]
          exact risky
      · exact gated.remote name started
  · cases scheduled

theorem gated_step {event : GateEvent} {next : GateState}
    (gated : Gated setting state)
    (step : (gateMachine setting).step state event = some next) :
    Gated setting next := by
  cases event with
  | submit job =>
    cases step
    exact gated_submit gated job
  | confirm jobId token =>
    cases step
    exact gated_confirm gated jobId token
  | confirmByAdmin jobId =>
    cases step
    exact gated_confirmByAdmin gated jobId
  | schedule index agents options sources agentPlane =>
    exact gated_schedule gated step
  | other event =>
    unfold gateMachine at step
    dsimp only at step
    split at step
    · rename_i plain
      rw [Option.map_eq_some_iff] at step
      rcases step with ⟨controller, stepped, rfl⟩
      rcases Option.map_eq_some_iff.mp stepped with ⟨segment, does, rfl⟩
      refine gated_follows gated (follows_segment ?_ ?_ does) gated.remote
      · rintro policy destructive rfl
        cases plain
      · rintro jobId rfl
        cases plain
    · cases step

theorem gated_initial (initial : (gateMachine setting).initial state) :
    Gated setting state := by
  rcases initial with ⟨controller, ⟨maxConcurrentJobs, rfl⟩, rfl⟩
  constructor
  · rfl
  · rintro jobId ⟨attemptId, row, found, _⟩
    cases found
  · nofun
  · nofun
  · nofun

end Gate

/--
In every state that the Controller reaches, a risky job has an attempt only
if a confirmation of the job succeeded with an unexpired token that binds the
stored job; no local run was ever started for it, and no agents and options
make the scheduler choose one.
-/
theorem risky_jobs_confirmed_and_remote (setting : Setting)
    {state : GateState}
    (reachable : (gateMachine setting).Reachable (fun _ _ => True) state)
    {jobId : Nat} {job : SubmittedJob}
    (stored : state.jobs[jobId]? = some job) (risky : job.risky) :
    (attempted state.controller.db jobId →
        ∃ confirmation ∈ state.confirmed,
          Binds setting jobId job confirmation) ∧
      jobId ∉ state.localRuns ∧
      ∀ sources agents options,
        (selectAgentForJob setting.platform agents
          (mergeGitSourceToolRequirements job.request sources)
          options).action ≠ .localFallback := by
  have preserved : ∀ state event next, Gated setting state → True →
      (gateMachine setting).step state event = some next →
      Gated setting next := fun _ _ _ gated _ step => gated_step gated step
  have gated : Gated setting state :=
    reachable.invariant (fun _ => gated_initial) preserved
  refine ⟨?_, ?_, ?_⟩
  · intro tried
    rcases gated.attempts jobId tried with ⟨other, there, bound⟩
    rw [stored, Option.some.injEq] at there
    subst there
    exact bound risky
  · intro started
    rcases gated.remote jobId started with ⟨other, there, safe⟩
    rw [stored, Option.some.injEq] at there
    subst there
    exact safe risky
  · intro sources agents options
    apply selectAgentForJob_risky
    rw [mergeGitSourceToolRequirements_riskLevel]
    exact risky

/-- The claims of the token that `sampleSetting` signs. -/
def sampleClaims : JwtClaims where
  sub := some "job-0"
  aud := some "controller"
  exp := some 300
  requestHash := "5f1d"
  contentId := "content"
  riskLevel := "destructive"

/-- A Controller that knows one token. -/
def sampleSetting : Setting where
  platform :=
    { toLowerCase := id
      trim := id
      localeCompare := compare
      matchesVersionSpec := fun _ _ => true
      computeBuildCacheKey := fun _ => "key" }
  controllerId := "controller"
  jobName := fun jobId => if jobId = 0 then "job-0" else "job"
  headerAlg := fun header => if header = "h" then some "EdDSA" else none
  cryptoVerify := fun input signature => input = "h.p" ∧ signature = "s"
  payloadClaims := fun payload =>
    if payload = "p" then some sampleClaims else none
  signEdDsaJwt := fun _ => "h.p.s"
  hashOf := fun _ => "5f1d"

def destructiveJob : SubmittedJob where
  request :=
    { requirements := none
      preferences := none
      queuePolicy := some .localFallback
      riskLevel := .destructive
      shell := some "bash"
      secretRefs := none }
  document := ""
  contentId := "content"

def sampleAgent : SchedulerAgent Nat where
  agentId := 1
  capabilities :=
    { osFamily := .linux
      arch := "x64"
      memoryFreeMb := 1024
      diskFreeMb := 1024
      cpuLoad := some 0
      maxJobs := 1
      shells := ["bash"]
      tools := []
      toolchainProfiles := []
      labels := []
      secretRefs := []
      repositoryCache := none
      buildCaches := none
      configuredPriority := none }
  activeJobsCount := 0
  recentFailurePenalty := none

def sampleOptions : SchedulerOptions Nat where
  allowLocalFallback := none
  localHostExecution := none
  repoCanonicalId := none
  baseCommit := none
  buildCacheKeys := none
  buildCacheProjectIdentity := none
  estimatedTransferBytes := none
  recentFailurePenalties := []
  registeredAgentCount := none
  hostLoad := none
  maxHostCpuBusyFraction := none

/-- A destructive job is submitted, confirmed and sent to an agent. -/
def confirmedRun : List GateEvent :=
  [.other (.connect 1), .submit destructiveJob, .confirm 0 "h.p.s",
    .schedule 0 [sampleAgent] sampleOptions
      { submodules := false, lfs := false } true]

def freshGate : GateState where
  controller := freshController
  jobs := []
  confirmed := []
  localRuns := []

theorem risky_jobs_confirmed_and_remote_confirmedRun :
    ∃ state,
      (gateMachine sampleSetting).Reachable (fun _ _ => True) state ∧
        attempted state.controller.db 0 ∧
        ∃ confirmation ∈ state.confirmed,
          Binds sampleSetting 0 destructiveJob confirmation := by
  have run :
      ((gateMachine sampleSetting).run freshGate confirmedRun).map
          (fun state =>
            (state.jobs, state.controller.db.attempts.map AttemptRow.jobId)) =
        some ([destructiveJob], [0]) := by
    decide +kernel
  rcases Option.map_eq_some_iff.mp run with ⟨state, ran, seen⟩
  rw [Prod.mk.injEq] at seen
  have reachable :
      (gateMachine sampleSetting).Reachable (fun _ _ => True) state :=
    Machine.reachable_of_run ⟨freshController, freshController_initial, rfl⟩
      ran
  have stored : state.jobs[0]? = some destructiveJob := by
    rw [seen.1]
    rfl
  have tried : attempted state.controller.db 0 := by
    rcases List.map_eq_singleton_iff.mp seen.2 with ⟨row, rows, same⟩
    refine ⟨0, row, ?_, same⟩
    unfold Database.getAttempt
    rw [rows]
    rfl
  refine ⟨state, reachable, tried, ?_⟩
  exact
    (risky_jobs_confirmed_and_remote sampleSetting reachable stored
      (by decide)).1 tried

end Rbo.Controller.Confirmation
