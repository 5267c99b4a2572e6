import Rbo.Controller.Watchdogs

/-!
# The fence at the time of an effect

Every handler of a frame checks the fence when it starts.  Those of
`source_need`, `log_chunk` and `artifact_manifest` go on after an await without
another check, so what they do then may find a lease that has expired or an
attempt that has moved on.
-/

namespace Rbo.Controller.Execution

open Rbo.Foundation
open Rbo.Controller.Lifecycle

/-! ## The fence of a frame -/

/-- The agent, the header and the accepted states of the frame of a task. -/
def Task.frame : Task → Option (Nat × LeaseHeader × List AttemptState)
  | .sourceNeed agentId header _ _ =>
    some (agentId, header, [.preparingSource])
  | .logChunk agentId header sequence _ =>
    some (agentId, header, (Frame.logChunk sequence).expected)
  | .artifactGrant agentId header =>
    some (agentId, header, [.collectingArtifacts])
  | .cleanup agentId header report =>
    some (agentId, header, (Frame.cleanupComplete report).expected)
  | _ => none

/-- The frame that an event handles or goes on to handle. -/
def ControllerState.handles (state : ControllerState) :
    Event → Option (Nat × LeaseHeader × List AttemptState)
  | .frame agentId header frame => some (agentId, header, frame.expected)
  | .resume index _ => (state.memory.tasks[index]?).bind Task.frame
  | _ => none

/-- The effects of a frame find the attempt under the fence of the frame. -/
def Fenced (state : ControllerState) (event : Event) : Prop :=
  ∀ segment agentId header expected, state.segment event = some segment →
    state.handles event = some (agentId, header, expected) →
    segment.effects ≠ [] →
    (state.acceptFrame agentId header expected).isSome = true

/-- Does an unchecked handler go on to an effect? -/
def Task.acts (connectedAgents : List Nat) : Task → Completion → Bool
  | .sourceNeed _ _ _ false, .done => true
  | .sourceNeed agentId _ _ true, .done => agentId ∈ connectedAgents
  | .sourceNeed _ _ .bundle _, .failed _ _ => true
  | .sourceNeed _ _ .fallback false, .unavailable => true
  | .logChunk _ _ _ .appending, .done => true
  | .logChunk _ _ _ .appended, .done => true
  | .artifactGrant agentId _, .done => agentId ∈ connectedAgents
  | _, _ => false

/-- When an unchecked handler goes on to an effect, the lease of its attempt
has not expired and the attempt has not left the accepted states. -/
def InForce (state : ControllerState) : Event → Prop
  | .resume index completion =>
    ∀ task agentId header expected row,
      state.memory.tasks[index]? = some task →
      task.acts state.memory.connectedAgents completion = true →
      task.frame = some (agentId, header, expected) →
      state.db.getAttempt header.attemptId = some row →
      ¬ state.leaseExpired row ∧ row.state ∈ expected
  | _ => True

/-! ## Rows past the offer keep their fence -/

section Rows

variable {state : ControllerState} {attemptId : Nat} {row : AttemptRow}

theorem fence_of_caused {event : Event} {effects : List Effect}
    (stored : state.db.getAttempt attemptId = some row)
    (past : row.state ≠ .leasing) (caused : Caused state event effects) :
    ∀ fields ∈ updatesOf attemptId effects,
      fields.leaseEpoch = none ∧ fields.state ≠ some .leasing := by
  intro fields member
  cases caused _ (mem_updatesOf.mp member) with
  | plain is =>
    rcases of_decide_eq_true (p := _ ∧ _) is with ⟨epoch, _, _, moves⟩
    refine ⟨epoch, ?_⟩
    rcases moves with none | completed
    · rw [none]
      nofun
    · rw [completed]
      nofun
  | moved _ _ reached =>
    rcases reached with ⟨_, rfl⟩ | ⟨_, rfl⟩ | rfl <;> exact ⟨rfl, nofun⟩
  | rejected found leasing =>
    cases stored.symm.trans found
    exact absurd leasing past
  | adopted _ _ reached =>
    rcases reached with rfl | rfl <;> exact ⟨rfl, nofun⟩
  | _ => exact ⟨rfl, nofun⟩

/-- The row is past its offer, under the fence of the agent's header. -/
def Bears (fence : Nat × LeaseHeader) (row : AttemptRow) : Prop :=
  row.leaseId = fence.2.leaseId ∧ row.leaseEpoch = fence.2.leaseEpoch ∧
    row.agentId = some fence.1 ∧ row.state ≠ .leasing

theorem bears_segment {event : Event} {segment : Segment}
    {fence : Nat × LeaseHeader}
    (taken : state.segment event = some segment)
    (stored : state.db.getAttempt attemptId = some row)
    (bears : Bears fence row) :
    ∃ after, (state.after segment).db.getAttempt attemptId = some after ∧
      Bears fence after := by
  refine ⟨_, getAttempt_after stored, ?_⟩
  rcases (shape_segment taken).caused with
    caused | ⟨_, jobId, _, agentId, _, _, initiated⟩ | ⟨jobId, created⟩
  · apply List.foldlRecOn _ AttemptRow.update
      (motive := fun after => Bears fence after) bears
    rintro after ⟨leaseId, leaseEpoch, agentId, past⟩ fields member
    have keeps := fence_of_caused stored bears.2.2.2 caused fields member
    refine ⟨leaseId, ?_, agentId, ?_⟩
    · show fields.leaseEpoch.getD after.leaseEpoch = _
      rw [keeps.1]
      exact leaseEpoch
    · show fields.state.getD after.state ≠ .leasing
      cases set : fields.state with
      | none => exact past
      | some moved => exact fun leasing => keeps.2 (set.trans (leasing ▸ rfl))
  · generalize segment.effects = effects at initiated ⊢
    unfold ControllerState.initiateRemoteAttempt at initiated
    split at initiated <;> cases initiated
    exact bears
  · rw [created]
    exact bears

end Rows

/-! ## Unchecked handlers -/

/-- The attempt of every unchecked handler still bears its fence. -/
def Bound (state : ControllerState) : Prop :=
  ∀ task ∈ state.memory.tasks, ∀ fence ∈ task.unchecked, ∃ row,
    state.db.getAttempt fence.2.attemptId = some row ∧ Bears fence row

section Handlers

variable {state next : ControllerState} {index : Nat} {task : Task}
  {completion : Completion} {segment : Segment}

theorem bound_step {event : Event} (bound : Bound state)
    (step : controllerMachine.step state event = some next) :
    Bound next := by
  rcases Option.map_eq_some_iff.mp step with ⟨segment, taken, rfl⟩
  intro task member fence unchecked
  rcases (shape_segment taken).entered task member fence unchecked with
    ⟨expected, row, accepted, past⟩ | ⟨old, there, before⟩
  · rcases ControllerState.acceptFrame_eq_some.mp accepted with
      ⟨stored, leaseId, leaseEpoch, agentId, _⟩
    exact bears_segment taken stored ⟨leaseId, leaseEpoch, agentId, past⟩
  · rcases bound old there fence before with ⟨row, stored, bears⟩
    exact bears_segment taken stored bears

theorem reachable_bound
    (reachable : controllerMachine.Reachable (fun _ _ => True) state) :
    Bound state := by
  apply reachable.invariant _ fun _ _ _ bound _ step => bound_step bound step
  rintro initial ⟨limit, rfl⟩ task member
  cases member

variable {header : LeaseHeader}

theorem effects_sendFrame {agentId : Nat} {frame : Outgoing} :
    state.sendFrame agentId frame header ≠ [] ↔
      agentId ∈ state.memory.connectedAgents := by
  unfold ControllerState.sendFrame
  split <;> simp [*]

/-- An unchecked handler has effects exactly when it acts. -/
theorem effects_iff_acts {fence : Nat × LeaseHeader}
    (found : state.memory.tasks[index]? = some task)
    (unchecked : task.unchecked = some fence)
    (resumed : state.resume index completion = some segment) :
    segment.effects ≠ [] ↔
      task.acts state.memory.connectedAgents completion = true := by
  unfold ControllerState.resume at resumed
  rw [found] at resumed
  cases task with
  | sourceNeed agentId header kind written =>
    dsimp only at resumed
    split at resumed
    · cases resumed
    · unfold ControllerState.resumeSourceNeed at resumed
      split at resumed <;> cases resumed
      all_goals simp [Task.acts, effects_sendFrame, failAttemptPrepare,
        closeAttempt, ControllerState.dropTask]
  | logChunk agentId header sequence phase =>
    dsimp only at resumed
    split at resumed
    · cases resumed
    · unfold ControllerState.resumeLogChunk at resumed
      split at resumed <;> cases resumed
      · cases unchecked
      · simp [Task.acts]
      · simp [Task.acts]
      · simp [Task.acts, ControllerState.dropTask]
  | artifactGrant agentId header =>
    unfold ControllerState.resumeArtifactGrant at resumed
    dsimp only at resumed
    split at resumed <;> cases resumed
    all_goals simp [Task.acts, effects_sendFrame, ControllerState.dropTask]
  | _ => cases unchecked

/-- The other handlers check the fence where they go on. -/
theorem accepts_of_checked {agentId : Nat} {expected : List AttemptState}
    (found : state.memory.tasks[index]? = some task)
    (checked : task.unchecked = none)
    (frame : task.frame = some (agentId, header, expected))
    (resumed : state.resume index completion = some segment)
    (acted : segment.effects ≠ []) :
    (state.acceptFrame agentId header expected).isSome = true := by
  unfold ControllerState.resume at resumed
  rw [found] at resumed
  cases task with
  | logChunk sender name sequence phase =>
    cases frame
    dsimp only at resumed
    split at resumed
    · cases resumed
    · unfold ControllerState.resumeLogChunk at resumed
      split at resumed <;> cases resumed
      · unfold ControllerState.startLogChunk at acted
        split at acted
        · exact absurd rfl acted
        next accepted => exact accepted ▸ rfl
      · cases checked
      · cases checked
      · exact absurd rfl acted
  | cleanup sender name report =>
    cases frame
    dsimp only at resumed
    split at resumed <;> cases resumed
    unfold ControllerState.resumeCleanup at acted
    split at acted
    · exact absurd rfl acted
    next accepted => exact accepted ▸ rfl
  | sourceNeed => cases checked
  | artifactGrant => cases checked
  | _ => cases frame

theorem unchecked_or_idle {agentId : Nat} {expected : List AttemptState}
    (connectedAgents : List Nat) (completion : Completion)
    (frame : task.frame = some (agentId, header, expected)) :
    task.unchecked = some (agentId, header) ∨ task.unchecked = none ∧
      task.acts connectedAgents completion = false := by
  cases task with
  | logChunk sender name sequence phase =>
    cases frame
    cases phase with
    | queued => exact Or.inr ⟨rfl, rfl⟩
    | _ => exact Or.inl rfl
  | cleanup sender name report => exact Or.inr ⟨rfl, rfl⟩
  | sourceNeed => cases frame; exact Or.inl rfl
  | artifactGrant => cases frame; exact Or.inl rfl
  | _ => cases frame

theorem accepts_of_received {agentId : Nat} {frame : Frame}
    (acted : (state.receive agentId header frame).effects ≠ []) :
    (state.acceptFrame agentId header frame.expected).isSome = true := by
  unfold ControllerState.receive at acted
  split at acted
  · exact absurd rfl acted
  · split at acted
    · exact absurd rfl acted
    next accepted => exact accepted ▸ rfl

end Handlers

/--
In every run the effects of an event find the attempt under the fence of the
frame exactly when no unchecked handler goes on to an effect after the lease
has expired or the attempt has left the accepted states.
-/
theorem fenced_iff_inForce (state next : ControllerState) (event : Event)
    (reachable : controllerMachine.Reachable (fun _ _ => True) state)
    (step : controllerMachine.step state event = some next) :
    Fenced state event ↔ InForce state event := by
  rcases Option.map_eq_some_iff.mp step with ⟨segment, taken, rfl⟩
  constructor
  · intro fenced
    cases event with
    | resume index completion =>
      intro task agentId header expected row found acts frame stored
      have unchecked : task.unchecked = some (agentId, header) := by
        rcases unchecked_or_idle _ _ frame with some | ⟨_, idle⟩
        · exact some
        · exact Bool.noConfusion (idle.symm.trans acts)
      have handled : state.handles (.resume index completion) =
          some (agentId, header, expected) :=
        Option.bind_eq_some_iff.mpr ⟨task, found, frame⟩
      rcases Option.isSome_iff_exists.mp (fenced segment _ _ _ taken handled
        ((effects_iff_acts found unchecked taken).mpr acts)) with
          ⟨other, accepted⟩
      rcases ControllerState.acceptFrame_eq_some.mp accepted with
        ⟨there, _, _, _, lease, inside⟩
      cases stored.symm.trans there
      exact ⟨lease, inside⟩
    | _ => exact trivial
  · intro inForce other agentId header expected there handled acted
    cases taken.symm.trans there
    cases event with
    | frame sender name frame =>
      cases handled
      cases taken
      exact accepts_of_received acted
    | resume index completion =>
      rcases Option.bind_eq_some_iff.mp handled with ⟨task, found, frame⟩
      rcases unchecked_or_idle state.memory.connectedAgents completion frame with
        unchecked | ⟨checked, _⟩
      · have acts := (effects_iff_acts found unchecked taken).mp acted
        rcases reachable_bound reachable task (List.mem_of_getElem? found) _
          unchecked with ⟨row, stored, leaseId, leaseEpoch, owned, _⟩
        rcases inForce task agentId header expected row found acts frame
          stored with ⟨lease, inside⟩
        exact Option.isSome_iff_exists.mpr ⟨row,
          ControllerState.acceptFrame_eq_some.mpr
            ⟨stored, leaseId, leaseEpoch, owned, lease, inside⟩⟩
      · exact accepts_of_checked found checked frame taken acted
    | _ => cases handled

/-! ## A chunk that is appended while its lease runs out -/

def chunkHeader : LeaseHeader := { attemptId := 0, leaseId := 0, leaseEpoch := 1 }

/-- The append of a chunk is awaited while time passes. -/
def chunkRun (seconds : Nat) : List Event :=
  startedRun none ++
    [.frame 1 chunkHeader (.logChunk 1), .resume 0 .done, .tick seconds]

def chunkState (seconds : Nat) : ControllerState :=
  (controllerMachine.run freshController (chunkRun seconds)).getD freshController

theorem chunkState_reachable {seconds : Nat}
    (ran : (controllerMachine.run freshController
      (chunkRun seconds)).isSome = true) :
    controllerMachine.Reachable (fun _ _ => True) (chunkState seconds) :=
  Machine.reachable_of_run freshController_initial
    (Option.eq_some_of_isSome ran)

/-- The chunk is written to its file. -/
theorem chunkState_step (seconds : Nat)
    (writes : ((chunkState seconds).segment (.resume 0 .done)).map
      Segment.effects = some [.file 0 (.logChunk 1)]) :
    ∃ segment, (chunkState seconds).segment (.resume 0 .done) = some segment ∧
      segment.effects ≠ [] ∧
      controllerMachine.step (chunkState seconds) (.resume 0 .done) =
        some ((chunkState seconds).after segment) := by
  rcases Option.map_eq_some_iff.mp writes with ⟨segment, taken, effects⟩
  refine ⟨segment, taken, by rw [effects]; nofun, ?_⟩
  exact Option.map_eq_some_iff.mpr ⟨segment, taken, rfl⟩

theorem fenced_iff_inForce_chunk :
    Fenced (chunkState 299) (.resume 0 .done) := by
  rcases chunkState_step 299 (by decide +kernel) with
    ⟨segment, _, _, step⟩
  refine (fenced_iff_inForce _ _ _
    (chunkState_reachable (by decide +kernel)) step).mpr ?_
  intro task agentId header expected row found _ frame stored
  have there : (chunkState 299).memory.tasks[0]? =
      some (.logChunk 1 chunkHeader 1 .appending) := by decide +kernel
  cases found.symm.trans there
  cases frame
  have view : ((chunkState 299).db.getAttempt 0).map (fun row =>
      (decide ((chunkState 299).leaseExpired row), row.state)) =
        some (false, .running) := by decide +kernel
  rw [show (chunkState 299).db.getAttempt 0 = some row from stored,
    Option.map_some, Option.some.injEq, Prod.mk.injEq] at view
  exact ⟨of_decide_eq_false view.1, by rw [view.2]; decide⟩

/-- A chunk is appended to its file after the lease has expired. -/
theorem log_chunk_appended_unfenced :
    ∃ state next, controllerMachine.Reachable (fun _ _ => True) state ∧
      controllerMachine.step state (.resume 0 .done) = some next ∧
      ¬ Fenced state (.resume 0 .done) := by
  rcases chunkState_step 300 (by decide +kernel) with
    ⟨segment, taken, acted, step⟩
  refine ⟨_, _, chunkState_reachable (by decide +kernel), step, ?_⟩
  intro fenced
  have accepted := fenced segment 1 chunkHeader (Frame.logChunk 1).expected
    taken (by decide +kernel) acted
  have refused : (chunkState 300).acceptFrame 1 chunkHeader
      (Frame.logChunk 1).expected = none := by decide +kernel
  rw [refused] at accepted
  cases accepted

end Rbo.Controller.Execution
