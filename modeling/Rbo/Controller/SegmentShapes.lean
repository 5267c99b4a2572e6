import Rbo.Foundation.Slots
import Rbo.Controller.Execution

/-!
# What a segment can do

The handlers of the Controller are looked at once: every effect of a segment
has one of a few causes, and apart from the six ways in which a dispatch
starts or ends in an attempt, no task names a job that it did not name before.
What the other modules show of every step rests on these shapes.
-/

namespace Rbo.Controller.Execution

open Rbo.Foundation
open Rbo.Controller.Lifecycle

/-! ## The jobs of tasks -/

/-- The job for which a task is about to create an attempt. -/
def Task.pending : Task → Option Nat
  | .dispatch jobId _ => some jobId
  | .localWaiting jobId _ => some jobId
  | .localAdmitted jobId _ => some jobId
  | _ => none

/-- The job and the attempt of a local run. -/
def Task.running : Task → Option (Nat × Nat)
  | .localRun _ jobId attemptId _ => some (jobId, attemptId)
  | _ => none

def Task.jobs : Task → List Nat
  | .sweep jobs => jobs
  | .dispatch jobId rest => jobId :: rest
  | .localWaiting jobId rest => jobId :: rest
  | .localAdmitted jobId rest => jobId :: rest
  | .localRun _ jobId _ rest => jobId :: rest
  | _ => []

/-- The agent and the header of a handler that goes on without a check. -/
def Task.unchecked : Task → Option (Nat × LeaseHeader)
  | .sourceNeed agentId header _ _ => some (agentId, header)
  | .logChunk agentId header _ .appending => some (agentId, header)
  | .logChunk agentId header _ .appended => some (agentId, header)
  | .artifactGrant agentId header => some (agentId, header)
  | _ => none

namespace ControllerState

/-- A frame of the agent with the header is accepted past the offer. -/
def Accepts (state : ControllerState) (fence : Nat × LeaseHeader) : Prop :=
  ∃ expected row, state.acceptFrame fence.1 fence.2 expected = some row ∧
    row.state ≠ .leasing

/-- The jobs with a dispatch that has not yet created an attempt. -/
def pending (state : ControllerState) : List Nat :=
  state.memory.tasks.filterMap Task.pending

/-- The jobs and attempts of the local runs. -/
def running (state : ControllerState) : List (Nat × Nat) :=
  state.memory.tasks.filterMap Task.running

end ControllerState

/-- Every unchecked handler is an old one, or its frame was just accepted. -/
def Entered (state : ControllerState) (tasks : List Task) : Prop :=
  ∀ task ∈ tasks, ∀ fence ∈ task.unchecked, state.Accepts fence ∨
    ∃ old ∈ state.memory.tasks, fence ∈ old.unchecked

/-- Tasks that claim no job and no attempt anew. -/
structure Tidy (state : ControllerState) (tasks : List Task) : Prop where
  pending : (tasks.filterMap Task.pending).Sublist state.pending
  running : tasks.filterMap Task.running ⊆ state.running
  jobs : ∀ task ∈ tasks, ∀ jobId ∈ task.jobs,
    ∃ old ∈ state.memory.tasks, jobId ∈ old.jobs
  entered : Entered state tasks

section Tasks

variable {state : ControllerState} {tasks : List Task} {index : Nat}
  {old new : Task}

theorem entered_old (inside : tasks ⊆ state.memory.tasks) :
    Entered state tasks :=
  fun task member _ named => Or.inr ⟨task, inside member, named⟩

theorem entered_spawn
    (entered : ∀ fence ∈ new.unchecked, state.Accepts fence) :
    Entered state (state.memory.tasks ++ [new]) := by
  intro task member fence named
  rcases List.mem_append.mp member with there | added
  · exact Or.inr ⟨task, there, named⟩
  · rw [List.mem_singleton.mp added] at named
    exact Or.inl (entered fence named)

theorem entered_set (found : state.memory.tasks[index]? = some old)
    (entered : ∀ fence ∈ new.unchecked,
      fence ∈ old.unchecked ∨ state.Accepts fence) :
    Entered state (state.memory.tasks.set index new) := by
  intro task member fence named
  rcases List.mem_or_eq_of_mem_set member with there | rfl
  · exact Or.inr ⟨task, there, named⟩
  · rcases entered fence named with before | accepts
    · exact Or.inr ⟨old, List.mem_of_getElem? found, before⟩
    · exact Or.inl accepts

theorem unchecked_none {task : Task} {holds : Nat × LeaseHeader → Prop}
    (none : task.unchecked = none) : ∀ fence ∈ task.unchecked, holds fence := by
  rw [none]
  rintro _ ⟨⟩

theorem tidy_same (same : tasks = state.memory.tasks) : Tidy state tasks := by
  subst same
  exact ⟨List.Sublist.refl _, List.Subset.refl _,
    fun task member jobId named => ⟨task, member, named⟩,
    entered_old (List.Subset.refl _)⟩

/-- A task without a claim is added. -/
theorem tidy_spawn (noPending : new.pending = none)
    (noRun : new.running = none) (noJobs : new.jobs = [])
    (entered : ∀ fence ∈ new.unchecked, state.Accepts fence) :
    Tidy state (state.memory.tasks ++ [new]) := by
  refine ⟨?_, ?_, ?_, entered_spawn entered⟩
  · rw [List.filterMap_append, List.filterMap_cons_none noPending,
      List.filterMap_nil, List.append_nil]
    exact List.Sublist.refl _
  · rw [List.filterMap_append, List.filterMap_cons_none noRun,
      List.filterMap_nil, List.append_nil]
    exact List.Subset.refl _
  · intro task member jobId named
    rcases List.mem_append.mp member with there | added
    · exact ⟨task, there, named⟩
    · rw [List.mem_singleton.mp added, noJobs] at named
      cases named

theorem tidy_removed : Tidy state (state.memory.tasks.eraseIdx index) where
  pending := keys_eraseIdx_sublist
  running := keys_eraseIdx_sublist.subset
  jobs task member _ named :=
    ⟨task, List.mem_of_mem_eraseIdx member, named⟩
  entered := entered_old fun _ member => List.mem_of_mem_eraseIdx member

theorem keys_set_sublist {Key : Type} {key : Task → Option Key}
    (found : tasks[index]? = some old)
    (kept : key new = key old ∨ key new = none) :
    ((tasks.set index new).filterMap key).Sublist (tasks.filterMap key) := by
  rcases kept with same | gone
  · rw [keys_set_same found same]
  · rw [keys_set_none gone]
    exact keys_eraseIdx_sublist

theorem jobs_set (found : tasks[index]? = some old)
    (jobs : new.jobs ⊆ old.jobs) :
    ∀ task ∈ tasks.set index new, ∀ jobId ∈ task.jobs,
      ∃ before ∈ tasks, jobId ∈ before.jobs := by
  intro task member jobId named
  rcases List.mem_or_eq_of_mem_set member with there | rfl
  · exact ⟨task, there, named⟩
  · exact ⟨old, List.mem_of_getElem? found, jobs named⟩

/-- A task awaits again. -/
theorem tidy_replaced (found : state.memory.tasks[index]? = some old)
    (pending : new.pending = old.pending ∨ new.pending = none)
    (running : new.running = old.running ∨ new.running = none)
    (jobs : new.jobs ⊆ old.jobs)
    (entered : ∀ fence ∈ new.unchecked,
      fence ∈ old.unchecked ∨ state.Accepts fence) :
    Tidy state (state.memory.tasks.set index new) where
  pending := keys_set_sublist found pending
  running := (keys_set_sublist found running).subset
  jobs := jobs_set found jobs
  entered := entered_set found entered

/-- A dispatch ends. -/
theorem tidy_finished (memory : Memory) {rest : List Nat}
    (found : state.memory.tasks[index]? = some old)
    (same : memory.tasks = state.memory.tasks) (jobs : rest ⊆ old.jobs) :
    Tidy state (memory.finish index rest).tasks := by
  rw [Memory.finish_tasks, same]
  split
  · exact tidy_removed
  · exact tidy_replaced found (Or.inr rfl) (Or.inr rfl) jobs
      (unchecked_none rfl)

end Tasks

/-! ## The causes of effects -/

/-- An effect that moves a job on, ends an attempt or sets columns of it that
are neither its fence nor its lease nor its process, or sends a frame that
neither offers a lease nor adopts an attempt. -/
def Effect.plain : Effect → Bool
  | .write (.insertJob _) => false
  | .write (.updateJob _ fields) =>
    fields.state ≠ some .awaitingConfirmation ∧ fields.state ≠ some .queued
  | .write (.insertAttempt _) => false
  | .write (.updateAttempt _ fields) =>
    fields.leaseEpoch = none ∧ fields.leaseDeadline = none ∧
      fields.processIdentity = none ∧
      (fields.state = none ∨ fields.state = some .completed)
  | .write (.insertEvent _) => true
  | .send _ .leaseOffer _ => false
  | .send _ (.reconcileDecision adopt) _ => !adopt
  | .send _ _ _ => true
  | .file _ _ => true

/-- Why an event has an effect. -/
inductive Cause (state : ControllerState) : Event → Effect → Prop where
  | plain {event effect} (is : effect.plain = true) : Cause state event effect
  | renewed {event attemptId deadline}
      (later : state.memory.clock < deadline) :
      Cause state event
        (updateAttempt attemptId { leaseDeadline := some deadline })
  | supervised {index completion jobId attemptId}
      (runs : (jobId, attemptId) ∈ state.running) :
      Cause state (.resume index completion)
        (transitionAttemptState attemptId .running none)
  | moved {agentId header frame row moved outcome}
      (found : state.db.getAttempt header.attemptId = some row)
      (live : row.live)
      (reached : row.state = .leasing ∧ moved = .preparingSource ∨
        row.state = .preparingSource ∧ moved = .running ∨
        moved = .collectingArtifacts) :
      Cause state (.frame agentId header frame)
        (transitionAttemptState header.attemptId moved outcome)
  | rejected {agentId header reason row}
      (found : state.db.getAttempt header.attemptId = some row)
      (leasing : row.state = .leasing) :
      Cause state (.frame agentId header (.leaseReject reason))
        (updateAttempt header.attemptId
          { leaseEpoch := some (row.leaseEpoch + 1) })
  | requeued {agentId header reason row fields}
      (found : state.db.getAttempt header.attemptId = some row) :
      Cause state (.frame agentId header (.leaseReject reason))
        (transitionJobState row.jobId .queued fields)
  | identified {agentId header identity} :
      Cause state (.frame agentId header (.jobStarted (some identity)))
        (updateAttempt header.attemptId
          { processIdentity := some identity })
  | orphaned {attemptId row}
      (found : state.db.getAttempt attemptId = some row) (live : row.live) :
      Cause state (.timer .grace attemptId)
        (updateAttempt attemptId { state := some .orphaned })
  | adopted {agentId report row moved identity}
      (found : state.db.getAttempt report.header.attemptId = some row)
      (live : row.live)
      (reached : moved = .running ∨ moved = .collectingArtifacts)
      (known : row.processIdentity = some identity) :
      Cause state (.recoveryReport agentId report)
        (updateAttempt report.header.attemptId
          { state := some moved, processIdentity := some identity })
  | adopts {agentId report header} :
      Cause state (.recoveryReport agentId report)
        (.send agentId (.reconcileDecision true) header)
  | created {policy destructive row} :
      Cause state (.submit policy destructive) (.write (.insertJob row))
  | awaits {policy fields} :
      Cause state (.submit policy true)
        (transitionJobState state.db.jobs.length .awaitingConfirmation
          fields)
  | queued {policy fields} :
      Cause state (.submit policy false)
        (transitionJobState state.db.jobs.length .queued fields)
  | confirmed {jobId job fields} (found : state.db.getJob jobId = some job)
      (waiting : job.state = .awaitingConfirmation) :
      Cause state (.confirm jobId .valid)
        (transitionJobState jobId .queued fields)

/-- All effects of an event have a cause. -/
def Caused (state : ControllerState) (event : Event)
    (effects : List Effect) : Prop :=
  ∀ effect ∈ effects, Cause state event effect

section Effects

variable {state : ControllerState} {event : Event}
  {first second effects : List Effect}

theorem caused_plain (plain : effects.all Effect.plain = true) :
    Caused state event effects :=
  fun effect member => .plain (List.all_eq_true.mp plain effect member)

theorem caused_nil : Caused state event [] :=
  fun _ member => absurd member List.not_mem_nil

theorem caused_cons {effect : Effect} (cause : Cause state event effect)
    (rest : Caused state event effects) :
    Caused state event (effect :: effects) :=
  List.forall_mem_cons.mpr ⟨cause, rest⟩

theorem caused_append (before : Caused state event first)
    (behind : Caused state event second) :
    Caused state event (first ++ second) :=
  List.forall_mem_append.mpr ⟨before, behind⟩

theorem caused_flatMap {Item : Type} {items : List Item}
    {effects : Item → List Effect}
    (each : ∀ item, Caused state event (effects item)) :
    Caused state event (items.flatMap effects) := by
  intro effect member
  rcases List.mem_flatMap.mp member with ⟨item, _, made⟩
  exact each item effect made

theorem caused_sendFrame {agentId : Nat} {frame : Outgoing}
    {header : LeaseHeader}
    (cause : Cause state event (.send agentId frame header)) :
    Caused state event (state.sendFrame agentId frame header) := by
  unfold ControllerState.sendFrame
  split
  · exact caused_cons cause caused_nil
  · exact caused_nil

end Effects

/-! ## Shapes -/

/-- What an event does: a segment that claims nothing, or a way in which the
dispatch of a job starts or ends in an attempt. -/
inductive Shape (state : ControllerState) : Event → Segment → Prop where
  | calm {event segment} (effects : Caused state event segment.effects)
      (tidy : Tidy state segment.memory.tasks) : Shape state event segment
  | submitted {policy} :
      Shape state (.submit policy false) (state.handleJobSubmit policy false)
  | confirmed {jobId job} (found : state.db.getJob jobId = some job)
      (waiting : job.state = .awaitingConfirmation) :
      Shape state (.confirm jobId .valid)
        { effects :=
            [transitionJobState jobId .queued
              { queuedAt := some state.memory.clock }]
          memory := state.memory.spawn (.dispatch jobId []) }
  | swept {jobId rest} (queued : state.queuedJobs = jobId :: rest) :
      Shape state .sweepQueued
        { effects := []
          memory := state.memory.spawn (.dispatch jobId rest) }
  | sweeps {index completion jobId rest}
      (found : state.memory.tasks[index]? = some (.sweep (jobId :: rest))) :
      Shape state (.resume index completion)
        { effects := []
          memory := state.memory.replace index (.dispatch jobId rest) }
  | remote {index jobId rest agentId effects}
      (found : state.memory.tasks[index]? = some (.dispatch jobId rest))
      (initiated :
        state.initiateRemoteAttempt jobId agentId = some effects) :
      Shape state (.resume index (.remote agentId))
        { effects := effects, memory := state.memory.finish index rest }
  | localRun {index completion jobId rest}
      (found : state.memory.tasks[index]? =
        some (.localAdmitted jobId rest)) :
      Shape state (.resume index completion)
        { effects := [.write (.insertAttempt (state.localAttempt jobId))]
          memory :=
            state.memory.replace index
              (.localRun .preparing jobId state.db.attempts.length rest) }

section Started

variable {state : ControllerState}

theorem caused_submitted (policy : QueuePolicy) :
    Caused state (.submit policy false)
      (state.handleJobSubmit policy false).effects :=
  caused_cons .created
    (caused_cons (.plain rfl) (caused_cons .queued caused_nil))

theorem Shape.entered {event : Event} {segment : Segment}
    (shape : Shape state event segment) :
    Entered state segment.memory.tasks := by
  cases shape with
  | calm _ tidy => exact tidy.entered
  | submitted => exact entered_spawn (unchecked_none rfl)
  | confirmed => exact entered_spawn (unchecked_none rfl)
  | swept => exact entered_spawn (unchecked_none rfl)
  | sweeps found => exact entered_set found (unchecked_none rfl)
  | remote found =>
    exact (tidy_finished state.memory found rfl
      (List.subset_cons_self _ _)).entered
  | localRun found => exact entered_set found (unchecked_none rfl)

/-- Apart from the two that create an attempt, every segment has causes. -/
theorem Shape.caused {event : Event} {segment : Segment}
    (shape : Shape state event segment) :
    Caused state event segment.effects ∨
      (∃ index jobId rest agentId,
        event = .resume index (.remote agentId) ∧
        state.memory.tasks[index]? = some (.dispatch jobId rest) ∧
        state.initiateRemoteAttempt jobId agentId = some segment.effects) ∨
      ∃ jobId, segment.effects =
        [.write (.insertAttempt (state.localAttempt jobId))] := by
  cases shape with
  | calm effects _ => exact Or.inl effects
  | submitted => exact Or.inl (caused_submitted _)
  | confirmed found waiting =>
    exact Or.inl (caused_cons (.confirmed found waiting) caused_nil)
  | remote found initiated =>
    exact Or.inr (Or.inl ⟨_, _, _, _, rfl, found, initiated⟩)
  | localRun => exact Or.inr (Or.inr ⟨_, rfl⟩)
  | _ => exact Or.inl caused_nil

end Started

section Frames

variable {state : ControllerState} {agentId : Nat} {header : LeaseHeader}
  {attempt : AttemptRow}

/-- Only the handler of log chunks accepts a completed attempt. -/
theorem completed_notMem_expected {frame : Frame}
    (other : ∀ sequence, frame ≠ .logChunk sequence) :
    AttemptState.completed ∉ frame.expected := by
  cases frame with
  | logChunk sequence => exact absurd rfl (other sequence)
  | _ => simp [Frame.expected]

theorem live_of_accepted {frame : Frame}
    (other : ∀ sequence, frame ≠ .logChunk sequence)
    (accepted :
      state.acceptFrame agentId header frame.expected = some attempt) :
    attempt.live := by
  rcases ControllerState.acceptFrame_eq_some.mp accepted with
    ⟨_, _, _, _, _, there⟩
  intro completed
  rw [completed] at there
  exact completed_notMem_expected other there

theorem shape_leaseReject {reason : String}
    (found : state.db.getAttempt header.attemptId = some attempt)
    (leasing : attempt.state = .leasing) :
    Shape state (.frame agentId header (.leaseReject reason))
      (state.handleRemoteLeaseReject header attempt reason) := by
  unfold ControllerState.handleRemoteLeaseReject
  cases state.db.getJob attempt.jobId with
  | none =>
    exact .calm (caused_cons (.rejected found leasing) (caused_plain rfl))
      (tidy_same rfl)
  | some job =>
    dsimp only
    split
    · exact .calm (caused_cons (.rejected found leasing) (caused_plain rfl))
        (tidy_same rfl)
    · refine .calm (caused_cons (.rejected found leasing)
        (caused_cons (.plain rfl) (caused_cons ?_ caused_nil)))
        (tidy_same rfl)
      exact .requeued found

theorem shape_sourceNeed {event : Event} (need : SourceNeed)
    (accepts : state.Accepts (agentId, header)) :
    Shape state event
      (state.handleRemoteSourceNeed agentId header attempt need) := by
  have same : Tidy state state.memory.tasks := tidy_same rfl
  have entered : ∀ fence ∈ some (agentId, header), state.Accepts fence := by
    rintro _ ⟨⟩
    exact accepts
  cases need with
  | basePresent => exact .calm caused_nil same
  | bundle lookup =>
    unfold ControllerState.handleRemoteSourceNeed
    dsimp only
    split
    · exact .calm caused_nil same
    · cases lookup with
      | found => exact .calm caused_nil (tidy_spawn rfl rfl rfl entered)
      | _ => exact .calm (caused_plain rfl) same
  | fallback lookup =>
    unfold ControllerState.handleRemoteSourceNeed
    dsimp only
    split
    · exact .calm caused_nil same
    · cases lookup with
      | missingSnapshot => exact .calm (caused_plain rfl) same
      | full => exact .calm (caused_sendFrame (.plain rfl)) same
      | overlay => exact .calm caused_nil (tidy_spawn rfl rfl rfl entered)

theorem shape_receive (frame : Frame) :
    Shape state (.frame agentId header frame)
      (state.receive agentId header frame) := by
  have same : Tidy state state.memory.tasks := tidy_same rfl
  unfold ControllerState.receive
  split
  · exact .calm caused_nil (tidy_spawn rfl rfl rfl (unchecked_none rfl))
  · split
    · exact .calm caused_nil same
    · rename_i other _ attempt accepted
      have live := live_of_accepted other accepted
      rcases ControllerState.acceptFrame_eq_some.mp accepted with
        ⟨found, _, _, _, _, expected⟩
      have accepts (past : AttemptState.leasing ∉ frame.expected) :
          state.Accepts (agentId, header) :=
        ⟨_, _, accepted, fun leasing => past (leasing ▸ expected)⟩
      cases frame with
      | leaseAccept lookup =>
        have moved : Caused state
            (.frame agentId header (.leaseAccept lookup))
            [transitionAttemptState header.attemptId .preparingSource none,
              transitionJobState attempt.jobId .preparingSource {}] :=
          caused_cons (.moved found live
            (Or.inl ⟨List.mem_singleton.mp expected, rfl⟩)) (caused_plain rfl)
        cases lookup with
        | prepared =>
          exact .calm
            (caused_append moved (caused_sendFrame (.plain rfl))) same
        | _ => exact .calm (caused_append moved (caused_plain rfl)) same
      | leaseReject reason =>
        exact shape_leaseReject found (List.mem_singleton.mp expected)
      | sourceNeed need =>
        exact shape_sourceNeed need (accepts (by simp [Frame.expected]))
      | sourceReady =>
        refine .calm (caused_append ?_ (caused_sendFrame (.plain rfl))) same
        exact caused_cons (.moved found live
          (Or.inr (Or.inl ⟨List.mem_singleton.mp expected, rfl⟩)))
          (caused_plain rfl)
      | jobStarted identity =>
        cases identity with
        | none => exact .calm (caused_plain rfl) same
        | some identity =>
          exact .calm (caused_cons .identified (caused_plain rfl)) same
      | logChunk sequence => exact .calm caused_nil same
      | jobExit report =>
        exact .calm (caused_cons (.moved found live (Or.inr (Or.inr rfl)))
          (caused_plain rfl)) same
      | artifactManifest collection =>
        refine .calm ?_ (tidy_spawn rfl rfl rfl ?_)
        · cases collection with
          | false => exact caused_nil
          | true => exact caused_plain rfl
        · rintro _ ⟨⟩
          exact accepts (by simp [Frame.expected])
      | cleanupComplete report =>
        exact .calm caused_nil (tidy_spawn rfl rfl rfl (unchecked_none rfl))

end Frames

/-! ## Handlers that go on -/

section Resumed

variable {state : ControllerState} {index : Nat} {segment : Segment}
  {completion : Completion} {event : Event}

theorem shape_dropTask : Shape state event (state.dropTask index) :=
  .calm caused_nil tidy_removed

variable {header : LeaseHeader}

theorem shape_logChunk {agentId sequence : Nat} {phase : LogPhase}
    (found : state.memory.tasks[index]? =
      some (.logChunk agentId header sequence phase)) (resumed :
      state.resumeLogChunk index agentId header sequence phase completion =
        some segment) :
    Shape state event segment := by
  have again (next : LogPhase) :=
    @tidy_replaced state index _ (.logChunk agentId header sequence next)
      found (Or.inl rfl) (Or.inl rfl) (List.Subset.refl _)
  unfold ControllerState.resumeLogChunk at resumed
  split at resumed <;> cases resumed
  · unfold ControllerState.startLogChunk
    split
    · exact shape_dropTask
    · rename_i accepted
      split
      · exact .calm (caused_sendFrame (.plain rfl)) tidy_removed
      · split
        · exact shape_dropTask
        · refine .calm caused_nil (again .appending ?_)
          rintro _ ⟨⟩
          refine Or.inr ⟨_, _, accepted, fun leasing => ?_⟩
          have inside := (ControllerState.acceptFrame_eq_some.mp accepted).2
          simp [leasing, Frame.expected] at inside
  · exact .calm (caused_plain rfl) (again .appended fun _ => Or.inl)
  · exact .calm
      (caused_cons (.plain rfl) (caused_sendFrame (.plain rfl))) tidy_removed
  · exact shape_dropTask

theorem shape_resumeSourceNeed {agentId jobId : Nat} {kind : SourceKind}
    {written : Bool} (found : state.memory.tasks[index]? =
      some (.sourceNeed agentId header kind written)) (resumed :
      state.resumeSourceNeed index agentId header jobId kind written
        completion = some segment) :
    Shape state event segment := by
  have again : Tidy state (state.memory.tasks.set index
      (.sourceNeed agentId header kind true)) :=
    tidy_replaced found (Or.inl rfl) (Or.inl rfl) (List.Subset.refl _)
      fun _ => Or.inl
  unfold ControllerState.resumeSourceNeed at resumed
  split at resumed <;> cases resumed
  · exact .calm (caused_plain rfl) again
  · exact .calm (caused_sendFrame (.plain rfl)) tidy_removed
  · exact .calm (caused_plain rfl) tidy_removed
  · exact .calm (caused_plain rfl) again
  · exact .calm (caused_sendFrame (.plain rfl)) tidy_removed
  · exact .calm (caused_plain rfl) tidy_removed
  · exact shape_dropTask

theorem shape_artifactGrant {agentId : Nat} (resumed :
      state.resumeArtifactGrant index agentId header completion =
        some segment) :
    Shape state event segment := by
  unfold ControllerState.resumeArtifactGrant at resumed
  split at resumed <;> cases resumed
  · exact .calm (caused_sendFrame (.plain rfl)) tidy_removed
  · exact shape_dropTask

theorem shape_cleanup {agentId : Nat} {report : CleanupReport} :
    Shape state event (state.resumeCleanup index agentId header report) := by
  unfold ControllerState.resumeCleanup
  split
  · exact shape_dropTask
  · refine .calm (caused_append ?_ (caused_plain rfl)) tidy_removed
    split <;> exact caused_plain rfl

/-! ## Local runs -/

variable {jobId attemptId : Nat} {rest : List Nat} {phase : LocalPhase}

section

variable
  (found : state.memory.tasks[index]? =
    some (.localRun phase jobId attemptId rest))

include found

theorem shape_catchLocalRun {category : ErrorCategory} {message : String} :
    Shape state event
      (state.catchLocalRun index jobId attemptId rest category message) := by
  refine .calm (caused_cons (.plain rfl) ?_)
    (tidy_replaced found (Or.inl rfl) (Or.inl rfl) ?_ (unchecked_none rfl))
  · split
    · exact caused_nil
    · split <;> exact caused_plain rfl
  · apply List.cons_subset_cons
    split
    · exact List.Subset.refl _
    · exact List.nil_subset _

theorem shape_finalizeLocalRun :
    Shape state event
      (state.finalizeLocalRun index jobId attemptId rest) := by
  refine .calm caused_nil (tidy_finished
    ((state.memory.releaseAdmission).deletePendingCancel jobId) found rfl ?_)
  exact List.subset_cons_self _ _

/-- A local run may set its own attempt running, whatever its state. -/
theorem shape_localRun (resumed :
      state.resumeLocalRun index jobId attemptId rest phase completion =
        some segment) :
    Shape state (.resume index completion) segment := by
  have again (next : LocalPhase) : Tidy state (state.memory.tasks.set index
      (.localRun next jobId attemptId rest)) :=
    tidy_replaced found (Or.inl rfl) (Or.inl rfl) (List.Subset.refl _)
      (unchecked_none rfl)
  unfold ControllerState.resumeLocalRun at resumed
  split at resumed
  · split at resumed <;> cases resumed
    · exact shape_catchLocalRun found
    · exact .calm (caused_plain rfl) (again _)
  · cases resumed
    exact shape_dropTask
  · split at resumed <;> cases resumed
    · exact shape_catchLocalRun found
    · exact .calm caused_nil (again _)
  · cases resumed
    exact .calm (caused_plain rfl) (again _)
  · cases resumed
    refine .calm (caused_cons (.plain rfl) (caused_cons ?_ caused_nil))
      (again _)
    exact .supervised
      (List.mem_filterMap.mpr ⟨_, List.mem_of_getElem? found, rfl⟩)
  all_goals cases resumed
  · exact .calm (caused_plain rfl) (again _)
  · exact .calm (caused_plain rfl) (again _)
  · exact .calm caused_nil (again _)
  · exact shape_finalizeLocalRun found
  · exact shape_finalizeLocalRun found
  · exact shape_catchLocalRun found

end

/-! ## Dispatches -/

theorem shape_dispatch
    (found : state.memory.tasks[index]? = some (.dispatch jobId rest))
    (resumed :
      state.resumeDispatch index jobId rest completion = some segment) :
    Shape state (.resume index completion) segment := by
  have ends (memory : Memory) (same : memory.tasks = state.memory.tasks) :
      Tidy state (memory.finish index rest).tasks :=
    tidy_finished memory found same (List.subset_cons_self _ _)
  unfold ControllerState.resumeDispatch at resumed
  split at resumed
  · split at resumed <;> cases resumed
    · exact shape_dropTask
    · rename_i initiated
      exact .remote found initiated
  · split at resumed <;> cases resumed
    · exact .calm caused_nil
        (ends (state.memory.deletePendingCancel jobId) rfl)
    · exact .calm caused_nil (tidy_replaced found (Or.inl rfl) (Or.inl rfl)
        (List.Subset.refl _) (unchecked_none rfl))
  all_goals cases resumed
  · exact .calm (caused_plain rfl) (ends _ rfl)
  · exact .calm caused_nil (ends _ rfl)
  · exact shape_dropTask

theorem shape_startLocalRun
    (found : state.memory.tasks[index]? =
      some (.localAdmitted jobId rest)) :
    Shape state (.resume index completion)
      (state.startLocalRun index jobId rest) := by
  unfold ControllerState.startLocalRun
  split
  · refine .calm caused_nil (tidy_finished
      ((state.memory.releaseAdmission).deletePendingCancel jobId) found rfl ?_)
    exact List.subset_cons_self _ _
  · split
    · exact shape_dropTask
    · exact .localRun found

theorem shape_resume
    (resumed : state.resume index completion = some segment) :
    Shape state (.resume index completion) segment := by
  unfold ControllerState.resume at resumed
  cases found : state.memory.tasks[index]? with
  | none =>
    rw [found] at resumed
    cases resumed
  | some task =>
    rw [found] at resumed
    cases task with
    | sweep jobs =>
      cases resumed
      cases jobs with
      | nil => exact shape_dropTask
      | cons jobId rest => exact .sweeps found
    | dispatch jobId rest => exact shape_dispatch found resumed
    | localWaiting jobId rest =>
      unfold ControllerState.admitLocalRun at resumed
      dsimp only at resumed
      split at resumed <;> cases resumed
      exact .calm caused_nil (tidy_replaced found (Or.inl rfl) (Or.inl rfl)
        (List.Subset.refl _) (unchecked_none rfl))
    | localAdmitted jobId rest =>
      cases resumed
      exact shape_startLocalRun found
    | localRun phase jobId attemptId rest => exact shape_localRun found resumed
    | sourceNeed agentId header kind written =>
      dsimp only at resumed
      split at resumed
      · cases resumed
      · exact shape_resumeSourceNeed found resumed
    | logChunk agentId header sequence phase =>
      dsimp only at resumed
      split at resumed
      · cases resumed
      · exact shape_logChunk found resumed
    | artifactGrant agentId header => exact shape_artifactGrant resumed
    | cleanup agentId header report =>
      dsimp only at resumed
      split at resumed <;> cases resumed
      exact shape_cleanup

end Resumed

/-! ## Requests, sweeps and recovery -/

section Requests

variable {state : ControllerState} {event : Event}

theorem shape_submit (policy : QueuePolicy) (destructive : Bool) :
    Shape state (.submit policy destructive)
      (state.handleJobSubmit policy destructive) := by
  cases destructive with
  | true =>
    refine .calm (caused_cons .created (caused_cons (.plain rfl) ?_))
      (tidy_same rfl)
    exact caused_cons .awaits caused_nil
  | false => exact .submitted

theorem shape_confirm (jobId : Nat) (verdict : ConfirmationVerdict) :
    Shape state (.confirm jobId verdict)
      (state.handleJobConfirm jobId verdict) := by
  have nothing {event : Event} : Shape state event state.nothing :=
    .calm caused_nil (tidy_same rfl)
  unfold ControllerState.handleJobConfirm
  split
  · exact nothing
  · rename_i job found
    split
    · exact nothing
    · rename_i waiting
      cases verdict with
      | valid => exact .confirmed found (Decidable.not_not.mp waiting)
      | invalid =>
        dsimp only
        split
        · exact .calm (caused_plain rfl) (tidy_same rfl)
        · exact nothing
      | mismatch => exact nothing

theorem shape_requestJobCancel (jobId : Nat)
    (latest : Option (AttemptRow × Nat)) :
    Shape state event (state.requestJobCancel jobId latest) := by
  unfold ControllerState.requestJobCancel
  dsimp only
  split
  · exact .calm (caused_plain rfl) (tidy_same rfl)
  · split <;> exact .calm (caused_plain rfl) (tidy_same rfl)

theorem shape_jobCancel (jobId : Nat) (reason : Option String) :
    Shape state event (state.handleJobCancel jobId reason) := by
  unfold ControllerState.handleJobCancel
  split
  · exact .calm caused_nil (tidy_same rfl)
  · split
    · exact .calm caused_nil (tidy_same rfl)
    · split
      · split
        · exact shape_requestJobCancel jobId _
        · split <;> exact .calm (caused_plain rfl) (tidy_same rfl)
      · exact shape_requestJobCancel jobId none

theorem shape_leaseSweep :
    Shape state event
      (state.only
        (state.expireStaleLeases ++ state.expireStaleConfirmations)) := by
  refine .calm (caused_append ?_ ?_) (tidy_same rfl)
  · exact caused_flatMap fun _ => caused_plain rfl
  · intro effect member
    rcases List.mem_map.mp member with ⟨pair, _, rfl⟩
    exact .plain rfl

theorem shape_sweepQueued :
    Shape state .sweepQueued state.tryDispatchQueuedJobs := by
  unfold ControllerState.tryDispatchQueuedJobs
  split
  · exact .calm caused_nil (tidy_same rfl)
  · rename_i queued
    exact .swept queued

theorem shape_heartbeat (agentId : Nat) :
    Shape state event (state.only (state.renewActiveLease agentId)) := by
  refine .calm ?_ (tidy_same rfl)
  intro effect member
  rcases List.mem_map.mp member with ⟨pair, _, rfl⟩
  exact .renewed (Nat.lt_add_of_pos_right (by decide))

theorem shape_onAgentDisconnect (agentId : Nat) :
    Shape state event (state.onAgentDisconnect agentId) := by
  refine .calm (caused_flatMap fun pair => ?_) (tidy_same ?_)
  · split
    · exact caused_plain rfl
    · refine caused_cons (.renewed ?_) caused_nil
      show state.memory.clock < state.memory.clock + 60 + 300 + 30
      omega
  · apply Memory.foldl_tasks
    intro memory pair
    split <;> rfl

theorem shape_onAgentRestarted (agentId : Nat) :
    Shape state event (state.onAgentRestarted agentId) := by
  refine .calm (caused_flatMap fun _ => caused_plain rfl) (tidy_same ?_)
  apply Memory.foldl_tasks
  intro memory pair
  rfl

theorem shape_onTimer (kind : TimerKind) (attemptId : Nat) :
    Shape state (.timer kind attemptId) (state.onTimer kind attemptId) := by
  cases kind with
  | grace =>
    unfold ControllerState.onTimer ControllerState.onGraceElapsed
    dsimp only
    split
    · exact .calm caused_nil (tidy_same rfl)
    · rename_i attempt found
      split
      · rename_i live
        exact .calm (caused_cons (.orphaned found live) caused_nil)
          (tidy_same rfl)
      · exact .calm caused_nil (tidy_same rfl)
  | orphan =>
    unfold ControllerState.onTimer ControllerState.onOrphanTimeout
    dsimp only
    split
    · exact .calm caused_nil (tidy_same rfl)
    · split <;> exact .calm (caused_plain rfl) (tidy_same rfl)
  | reconcile =>
    unfold ControllerState.onTimer ControllerState.onReconcileDeadline
    dsimp only
    split
    · exact .calm caused_nil (tidy_same rfl)
    · split <;> exact .calm (caused_plain rfl) (tidy_same rfl)

theorem rearmOrphanWatchdog_tasks (memory : Memory) (attemptId : Nat)
    (attempt : AttemptRow) :
    (ControllerState.rearmOrphanWatchdog memory attemptId attempt).tasks =
      memory.tasks := by
  unfold ControllerState.rearmOrphanWatchdog
  split <;> rfl

theorem shape_onRecoveryReport (agentId : Nat) (report : RecoveryReport) :
    Shape state (.recoveryReport agentId report)
      (state.onRecoveryReport agentId report) := by
  have refused : Caused state (.recoveryReport agentId report)
      (state.sendFrame agentId (.reconcileDecision false) report.header) :=
    caused_sendFrame (.plain rfl)
  unfold ControllerState.onRecoveryReport
  dsimp only
  split
  · exact .calm refused (tidy_same rfl)
  · rename_i attempt found
    split
    · exact .calm refused (tidy_same rfl)
    · rename_i live
      split
      · exact .calm (caused_plain rfl)
          (tidy_same (rearmOrphanWatchdog_tasks _ _ _))
      · split
        · rename_i adopted
          have known := (staleReason_eq_none.mp adopted).2.2.2
          refine .calm (caused_append (caused_sendFrame .adopts)
            (caused_cons (.adopted found (Decidable.not_not.mp live) ?_ known)
              caused_nil)) (tidy_same rfl)
          split
          · exact Or.inr rfl
          · exact Or.inl rfl
        · exact .calm (caused_append refused (caused_plain rfl))
            (tidy_same (rearmOrphanWatchdog_tasks _ _ _))
        · exact .calm (caused_append refused (caused_plain rfl))
            (tidy_same rfl)

theorem shape_onControllerStartup :
    Shape state event state.onControllerStartup := by
  refine .calm caused_nil ⟨List.nil_sublist _, List.nil_subset _, ?_,
    entered_old (List.nil_subset _)⟩
  exact fun _ member => absurd member List.not_mem_nil

theorem shape_segment {segment : Segment}
    (taken : state.segment event = some segment) :
    Shape state event segment := by
  cases event with
  | resume index completion => exact shape_resume taken
  | timer kind attemptId =>
    simp only [ControllerState.segment] at taken
    split at taken <;> cases taken
    exact shape_onTimer kind attemptId
  | submit policy destructive =>
    cases taken
    exact shape_submit policy destructive
  | confirm jobId verdict =>
    cases taken
    exact shape_confirm jobId verdict
  | cancel jobId reason =>
    cases taken
    exact shape_jobCancel jobId reason
  | leaseSweep =>
    cases taken
    exact shape_leaseSweep
  | sweepQueued =>
    cases taken
    exact shape_sweepQueued
  | capabilities agentId restarted =>
    cases taken
    cases restarted with
    | false => exact .calm caused_nil (tidy_same rfl)
    | true => exact shape_onAgentRestarted agentId
  | heartbeat agentId =>
    cases taken
    exact shape_heartbeat agentId
  | disconnect agentId =>
    cases taken
    exact shape_onAgentDisconnect agentId
  | recoveryReport agentId report =>
    cases taken
    exact shape_onRecoveryReport agentId report
  | frame agentId header frame =>
    cases taken
    exact shape_receive frame
  | restart =>
    cases taken
    exact shape_onControllerStartup
  | _ =>
    -- The clock and the connections are not in the tables.
    cases taken
    exact .calm caused_nil (tidy_same rfl)

end Requests

end Rbo.Controller.Execution
