import Rbo.Controller.Attempts

/-!
# The timers of the recovery coordinator

The coordinator keeps three maps of timers in memory, and the rows of the
attempts are also changed by handlers that know nothing of them.  An attempt
that is orphaned has a timer; a timer of a completed attempt does nothing.

A segment is looked at from one attempt: the updates it makes of its row, in
their order, and the timers of it that are armed afterwards.
-/

namespace Rbo.Controller.Execution

open Rbo.Foundation
open Rbo.Controller.Lifecycle

/-! ## The updates of one attempt -/

/-- The columns of an attempt that an effect sets. -/
def Effect.update (attemptId : Nat) : Effect → Option AttemptFields
  | .write (.updateAttempt name fields) =>
    if name = attemptId then some fields else none
  | _ => none

/-- The updates of an attempt among effects. -/
def updatesOf (attemptId : Nat) (effects : List Effect) :
    List AttemptFields :=
  effects.filterMap (Effect.update attemptId)

section Updates

variable {attemptId : Nat}

variable {effects : List Effect}

theorem mem_updatesOf {fields : AttemptFields} :
    fields ∈ updatesOf attemptId effects ↔
      updateAttempt attemptId fields ∈ effects := by
  constructor
  · intro member
    rcases List.mem_filterMap.mp member with ⟨effect, there, updates⟩
    unfold Effect.update at updates
    split at updates
    · split at updates <;> cases updates
      next same => exact same ▸ there
    · cases updates
  · exact fun there => List.mem_filterMap.mpr ⟨_, there, if_pos rfl⟩

/-- The row of an attempt after effects. -/
theorem getAttempt_effects {db : Database} {row : AttemptRow}
    (stored : db.getAttempt attemptId = some row) :
    (db.writes (effects.filterMap Effect.statement)).getAttempt attemptId =
      some ((updatesOf attemptId effects).foldl AttemptRow.update row) := by
  induction effects generalizing db row with
  | nil => exact stored
  | cons effect effects induction =>
    cases effect with
    | send agentId frame header => exact induction stored
    | file name file => exact induction stored
    | write statement =>
      cases statement with
      | insertJob job => exact induction stored
      | updateJob jobId fields => exact induction stored
      | insertEvent name => exact induction stored
      | insertAttempt created =>
        apply induction
        have other : attemptId ≠ db.attempts.length :=
          Nat.ne_of_lt (Database.getAttempt_lt stored)
        rw [Database.getAttempt_insertAttempt, if_neg other]
        exact stored
      | updateAttempt name fields =>
        have written :
            (db.write (.updateAttempt name fields)).getAttempt
                attemptId =
              some (if name = attemptId then row.update fields
                else row) := by
          rw [Database.getAttempt_updateAttempt, stored]
          rfl
        have rest := induction written
        by_cases same : name = attemptId
        · rw [if_pos same] at rest
          have head :
              updatesOf attemptId
                  (.write (.updateAttempt name fields) :: effects) =
                fields :: updatesOf attemptId effects := by
            unfold updatesOf
            rw [List.filterMap_cons_some]
            simp only [Effect.update, if_pos same]
          rw [head]
          exact rest
        · rw [if_neg same] at rest
          have head :
              updatesOf attemptId
                  (.write (.updateAttempt name fields) :: effects) =
                updatesOf attemptId effects := by
            unfold updatesOf
            rw [List.filterMap_cons_none]
            simp only [Effect.update, if_neg same]
          rw [head]
          exact rest

theorem getAttempt_after {state : ControllerState} {segment : Segment}
    {row : AttemptRow} (stored : state.db.getAttempt attemptId = some row) :
    (state.after segment).db.getAttempt attemptId =
      some
        ((updatesOf attemptId segment.effects).foldl AttemptRow.update
          row) :=
  getAttempt_effects stored

@[simp]
theorem updatesOf_nil : updatesOf attemptId [] = [] :=
  rfl

@[simp]
theorem updatesOf_append (first second : List Effect) :
    updatesOf attemptId (first ++ second) =
      updatesOf attemptId first ++ updatesOf attemptId second :=
  List.filterMap_append

@[simp]
theorem updatesOf_job {jobId : Nat} {state : JobState} {fields : JobFields} :
    updatesOf attemptId (transitionJobState jobId state fields :: effects) =
      updatesOf attemptId effects :=
  rfl

theorem updatesOf_update {name : Nat} {fields : AttemptFields} :
    updatesOf attemptId (updateAttempt name fields :: effects) =
      (if name = attemptId then [fields] else []) ++
        updatesOf attemptId effects := by
  by_cases same : name = attemptId
  all_goals
    simp [updatesOf, updateAttempt, Effect.update, same]

theorem updatesOf_transition {name : Nat} {moved : AttemptState}
    {outcome : Option (Option JobOutcome)} :
    updatesOf attemptId (transitionAttemptState name moved outcome ::
        effects) =
      (if name = attemptId then
        [{ state := some moved, outcome := outcome }] else []) ++
        updatesOf attemptId effects :=
  updatesOf_update

/-- The update of the row of an attempt that ends. -/
def ended (outcome : JobOutcome) : AttemptFields where
  state := some .completed
  outcome := some (some outcome)

@[simp]
theorem updatesOf_closeAttempt {name jobId : Nat} {outcome : JobOutcome}
    {category : ErrorCategory} {message : String} :
    updatesOf attemptId
        (closeAttempt name jobId outcome category message) =
      if name = attemptId then [ended outcome] else [] := by
  unfold closeAttempt
  rw [updatesOf_transition, updatesOf_job, updatesOf_nil, List.append_nil]
  rfl

@[simp]
theorem updatesOf_sendFrame {state : ControllerState} {agentId : Nat}
    {frame : Outgoing} {header : LeaseHeader} :
    updatesOf attemptId (state.sendFrame agentId frame header) = [] := by
  unfold ControllerState.sendFrame
  split <;> rfl

theorem mem_updatesOf_flatMap {Item : Type} {items : List Item}
    {effects : Item → List Effect} {fields : AttemptFields} :
    fields ∈ updatesOf attemptId (items.flatMap effects) ↔
      ∃ item ∈ items, fields ∈ updatesOf attemptId (effects item) := by
  unfold updatesOf
  rw [List.filterMap_flatMap, List.mem_flatMap]

end Updates

/-! ## Timers -/

section Timers

variable {memory : Memory} {kind other : TimerKind} {attemptId name : Nat}

theorem mem_clearTimer :
    (kind, attemptId) ∈ (memory.clearTimer other name).timers ↔
      (kind, attemptId) ∈ memory.timers ∧
        ¬ (kind = other ∧ attemptId = name) := by
  unfold Memory.clearTimer
  simp only [List.mem_filter, decide_eq_true_eq, ne_eq, Prod.mk.injEq]

theorem mem_armTimer :
    (kind, attemptId) ∈ (memory.armTimer other name).timers ↔
      (kind, attemptId) ∈ memory.timers ∨
        (kind = other ∧ attemptId = name) := by
  unfold Memory.armTimer
  simp only [List.mem_append, mem_clearTimer, List.mem_singleton,
    Prod.mk.injEq]
  tauto

theorem mem_clearAllTimersFor :
    (kind, attemptId) ∈ (memory.clearAllTimersFor name).timers ↔
      (kind, attemptId) ∈ memory.timers ∧ attemptId ≠ name := by
  unfold Memory.clearAllTimersFor
  simp only [List.mem_filter, decide_eq_true_eq, ne_eq]

@[simp]
theorem finish_timers (index : Nat) (rest : List Nat) :
    (memory.finish index rest).timers = memory.timers := by
  unfold Memory.finish
  split <;> rfl

@[simp]
theorem finish_clock (index : Nat) (rest : List Nat) :
    (memory.finish index rest).clock = memory.clock := by
  unfold Memory.finish
  split <;> rfl

/-- Changes of the timers of other attempts leave an attempt's alone. -/
theorem mem_foldl_timers {Item : Type} {change : Memory → Item → Memory}
    {items : List Item}
    (kept : ∀ after, ∀ item ∈ items,
      (kind, attemptId) ∈ (change after item).timers ↔
        (kind, attemptId) ∈ after.timers) :
    (kind, attemptId) ∈ (items.foldl change memory).timers ↔
      (kind, attemptId) ∈ memory.timers :=
  List.foldlRecOn items change
    (motive := fun after =>
      (kind, attemptId) ∈ after.timers ↔ (kind, attemptId) ∈ memory.timers)
    Iff.rfl fun after same item member => (kept after item member).trans same

/-- What the change for one item establishes and the others keep. -/
theorem foldl_establishes {Item : Type} {change : Memory → Item → Memory}
    {items : List Item} {item : Item} {holds : Memory → Prop}
    (member : item ∈ items) (sets : ∀ after, holds (change after item))
    (keeps : ∀ after, ∀ later ∈ items, holds after →
      holds (change after later)) :
    holds (items.foldl change memory) := by
  rcases List.append_of_mem member with ⟨earlier, later, rfl⟩
  rw [List.foldl_append, List.foldl_cons]
  refine List.foldlRecOn later change (sets _) ?_
  intro after established next there
  exact keeps after next (List.mem_append_right _ (List.mem_cons_of_mem _ there))
    established

end Timers

/-! ## Segments that know nothing of the timers -/

/-- Does an effect leave an attempt orphaned? -/
def Effect.orphans : Effect → Bool
  | .write (.updateAttempt _ fields) => fields.state = some .orphaned
  | .write (.insertAttempt row) => row.state = .orphaned
  | _ => false

/-- A segment that leaves the timers and the clock, and orphans no attempt. -/
structure Blind (state : ControllerState) (segment : Segment) : Prop where
  timers : segment.memory.timers = state.memory.timers
  clock : segment.memory.clock = state.memory.clock
  spares : segment.effects.any Effect.orphans = false

/-- Does an event look at the timers or move the clock? -/
def Event.timed : Event → Bool
  | .tick _ => true
  | .capabilities _ _ => true
  | .disconnect _ => true
  | .timer _ _ => true
  | .recoveryReport _ _ => true
  | .restart => true
  | _ => false

section Blindness

variable {state : ControllerState} {segment : Segment}

/-- A memory with the same timers and the same clock. -/
def SameTimes (state : ControllerState) (memory : Memory) : Prop :=
  memory.timers = state.memory.timers ∧ memory.clock = state.memory.clock

theorem sameTimes_finish {memory : Memory} (index : Nat) (rest : List Nat)
    (same : SameTimes state memory) :
    SameTimes state (memory.finish index rest) :=
  ⟨(finish_timers index rest).trans same.1,
    (finish_clock index rest).trans same.2⟩

theorem sameTimes_receive (agentId : Nat) (header : LeaseHeader)
    (frame : Frame) :
    SameTimes state (state.receive agentId header frame).memory := by
  unfold ControllerState.receive
  split
  · exact ⟨rfl, rfl⟩
  · split
    · exact ⟨rfl, rfl⟩
    · cases frame with
      | leaseAccept lookup => cases lookup <;> exact ⟨rfl, rfl⟩
      | leaseReject reason =>
        unfold ControllerState.handleRemoteLeaseReject
        dsimp only
        split
        · exact ⟨rfl, rfl⟩
        · split <;> exact ⟨rfl, rfl⟩
      | sourceNeed need =>
        unfold ControllerState.handleRemoteSourceNeed
        cases need with
        | basePresent => exact ⟨rfl, rfl⟩
        | bundle lookup =>
          dsimp only
          split
          · exact ⟨rfl, rfl⟩
          · cases lookup <;> exact ⟨rfl, rfl⟩
        | fallback lookup =>
          dsimp only
          split
          · exact ⟨rfl, rfl⟩
          · cases lookup <;> exact ⟨rfl, rfl⟩
      | _ => exact ⟨rfl, rfl⟩

theorem sameTimes_localRun {index jobId attemptId : Nat} {rest : List Nat}
    {phase : LocalPhase} {completion : Completion}
    (resumed : state.resumeLocalRun index jobId attemptId rest phase
      completion = some segment) : SameTimes state segment.memory := by
  have finalized : SameTimes state
      (state.finalizeLocalRun index jobId attemptId rest).memory :=
    sameTimes_finish index rest ⟨rfl, rfl⟩
  unfold ControllerState.resumeLocalRun at resumed
  split at resumed
  · split at resumed <;> cases resumed <;> exact ⟨rfl, rfl⟩
  · cases resumed
    exact ⟨rfl, rfl⟩
  · split at resumed <;> cases resumed <;> exact ⟨rfl, rfl⟩
  all_goals cases resumed
  all_goals first
    | exact ⟨rfl, rfl⟩
    | exact finalized

theorem sameTimes_dispatch {index jobId : Nat} {rest : List Nat}
    {completion : Completion}
    (resumed : state.resumeDispatch index jobId rest completion =
      some segment) : SameTimes state segment.memory := by
  unfold ControllerState.resumeDispatch at resumed
  split at resumed
  · split at resumed <;> cases resumed
    · exact ⟨rfl, rfl⟩
    · exact sameTimes_finish index rest ⟨rfl, rfl⟩
  · split at resumed <;> cases resumed
    · exact sameTimes_finish index rest ⟨rfl, rfl⟩
    · exact ⟨rfl, rfl⟩
  all_goals cases resumed
  · exact sameTimes_finish index rest ⟨rfl, rfl⟩
  · exact sameTimes_finish index rest ⟨rfl, rfl⟩
  · exact ⟨rfl, rfl⟩

/-- A handler that goes on knows nothing of the timers. -/
theorem sameTimes_resume {index : Nat} {completion : Completion}
    (resumed : state.resume index completion = some segment) :
    SameTimes state segment.memory := by
  unfold ControllerState.resume at resumed
  split at resumed
  · cases resumed
  next jobs found =>
    cases resumed
    cases jobs <;> exact ⟨rfl, rfl⟩
  · exact sameTimes_dispatch resumed
  · unfold ControllerState.admitLocalRun at resumed
    split at resumed <;> cases resumed
    exact ⟨rfl, rfl⟩
  · cases resumed
    unfold ControllerState.startLocalRun
    split
    · exact sameTimes_finish index _ ⟨rfl, rfl⟩
    · split <;> exact ⟨rfl, rfl⟩
  · exact sameTimes_localRun resumed
  · split at resumed
    · cases resumed
    · unfold ControllerState.resumeSourceNeed at resumed
      split at resumed <;> cases resumed <;> exact ⟨rfl, rfl⟩
  · split at resumed
    · cases resumed
    · unfold ControllerState.resumeLogChunk at resumed
      split at resumed <;> cases resumed
      · unfold ControllerState.startLogChunk
        split
        · exact ⟨rfl, rfl⟩
        · split
          · exact ⟨rfl, rfl⟩
          · split <;> exact ⟨rfl, rfl⟩
      all_goals exact ⟨rfl, rfl⟩
  · unfold ControllerState.resumeArtifactGrant at resumed
    split at resumed <;> cases resumed <;> exact ⟨rfl, rfl⟩
  · split at resumed <;> cases resumed
    unfold ControllerState.resumeCleanup
    split <;> exact ⟨rfl, rfl⟩

theorem sameTimes_cancel (jobId : Nat) (reason : Option String) :
    SameTimes state (state.handleJobCancel jobId reason).memory := by
  have requested (latest : Option (AttemptRow × Nat)) :
      SameTimes state (state.requestJobCancel jobId latest).memory := by
    unfold ControllerState.requestJobCancel
    dsimp only
    split
    · exact ⟨rfl, rfl⟩
    · split <;> exact ⟨rfl, rfl⟩
  unfold ControllerState.handleJobCancel
  split
  · exact ⟨rfl, rfl⟩
  · split
    · exact ⟨rfl, rfl⟩
    · split
      · split
        · exact requested _
        · split <;> exact ⟨rfl, rfl⟩
      · exact requested _

theorem sameTimes_segment {event : Event} (apart : event.timed = false)
    (taken : state.segment event = some segment) :
    SameTimes state segment.memory := by
  cases event with
  | submit queuePolicy destructive =>
    cases taken
    cases destructive <;> exact ⟨rfl, rfl⟩
  | confirm jobId verdict =>
    cases taken
    unfold ControllerState.handleJobConfirm
    split
    · exact ⟨rfl, rfl⟩
    · split
      · exact ⟨rfl, rfl⟩
      · cases verdict with
        | invalid =>
          dsimp only
          split <;> exact ⟨rfl, rfl⟩
        | _ => exact ⟨rfl, rfl⟩
  | cancel jobId reason =>
    cases taken
    exact sameTimes_cancel jobId reason
  | sweepQueued =>
    cases taken
    unfold ControllerState.tryDispatchQueuedJobs
    split <;> exact ⟨rfl, rfl⟩
  | leaseSweep =>
    cases taken
    exact ⟨rfl, rfl⟩
  | connect agentId =>
    cases taken
    exact ⟨rfl, rfl⟩
  | heartbeat agentId =>
    cases taken
    exact ⟨rfl, rfl⟩
  | frame agentId header frame =>
    cases taken
    exact sameTimes_receive agentId header frame
  | resume index completion => exact sameTimes_resume taken
  | _ => cases apart

theorem orphans_of_plain {effect : Effect} (plain : effect.plain = true) :
    effect.orphans = false := by
  cases effect with
  | write statement =>
    cases statement with
    | insertAttempt row => cases plain
    | updateAttempt attemptId fields =>
      rcases of_decide_eq_true plain with ⟨_, _, _, none | completed⟩
      · simp [Effect.orphans, none]
      · simp [Effect.orphans, completed]
    | _ => rfl
  | _ => rfl

/-- Only the end of a grace period orphans an attempt. -/
theorem spares_segment {event : Event}
    (other : ∀ attemptId, event ≠ .timer .grace attemptId)
    (taken : state.segment event = some segment) :
    segment.effects.any Effect.orphans = false := by
  have spares {effects : List Effect} (caused : Caused state event effects) :
      effects.any Effect.orphans = false := by
    rw [List.any_eq_false]
    intro effect member
    rw [Bool.not_eq_true]
    cases caused effect member with
    | plain is => exact orphans_of_plain is
    | moved _ _ reached =>
      rcases reached with ⟨_, rfl⟩ | ⟨_, rfl⟩ | rfl <;> rfl
    | orphaned => exact absurd rfl (other _)
    | adopted _ _ reached => rcases reached with rfl | rfl <;> rfl
    | _ => rfl
  cases shape_segment taken with
  | calm effects _ => exact spares effects
  | remote found initiated =>
    unfold ControllerState.initiateRemoteAttempt at initiated
    split at initiated <;> cases initiated
    rfl
  | _ => rfl

theorem blind_segment {event : Event} (apart : event.timed = false)
    (taken : state.segment event = some segment) : Blind state segment := by
  have times := sameTimes_segment apart taken
  refine ⟨times.1, times.2, spares_segment ?_ taken⟩
  rintro attemptId rfl
  cases apart

end Blindness

/-! ## Orphaned attempts -/

/-- Every orphaned attempt has a timer. -/
def Watched (state : ControllerState) : Prop :=
  ∀ attemptId row, state.db.getAttempt attemptId = some row →
    row.state = .orphaned → ∃ kind, (kind, attemptId) ∈ state.memory.timers

section Orphans

variable {state : ControllerState} {segment : Segment} {attemptId : Nat}

variable {row : AttemptRow}

/-- Effects that orphan no attempt leave only the orphans there were. -/
theorem orphaned_effects {effects : List Effect} {db : Database}
    (spares : effects.any Effect.orphans = false)
    (found : (db.writes (effects.filterMap Effect.statement)).getAttempt
      attemptId = some row) (orphaned : row.state = .orphaned) :
    ∃ before, db.getAttempt attemptId = some before ∧
      before.state = .orphaned := by
  induction effects generalizing db with
  | nil => exact ⟨row, found, orphaned⟩
  | cons effect effects induction =>
    rw [List.any_cons, Bool.or_eq_false_iff] at spares
    cases effect with
    | send agentId frame header => exact induction spares.2 found
    | file name file => exact induction spares.2 found
    | write statement =>
      rcases induction spares.2 found with ⟨middle, there, was⟩
      cases statement with
      | insertJob job => exact ⟨middle, there, was⟩
      | updateJob jobId fields => exact ⟨middle, there, was⟩
      | insertEvent name => exact ⟨middle, there, was⟩
      | insertAttempt created =>
        rw [Database.getAttempt_insertAttempt] at there
        split at there
        · cases there
          have other := spares.1
          simp [Effect.orphans, was] at other
        · exact ⟨middle, there, was⟩
      | updateAttempt name fields =>
        rw [Database.getAttempt_updateAttempt,
          Option.map_eq_some_iff] at there
        rcases there with ⟨before, stored, rfl⟩
        refine ⟨before, stored, ?_⟩
        split at was
        · have other : fields.state ≠ some .orphaned := by
            simpa [Effect.orphans] using spares.1
          cases set : fields.state with
          | none => simpa [AttemptRow.update, set] using was
          | some moved =>
            rw [set] at other
            have reached : moved = .orphaned := by
              simpa [AttemptRow.update, set] using was
            rw [reached] at other
            exact absurd rfl other
        · exact was

/-- A segment that knows nothing of the timers leaves the orphans watched. -/
theorem watched_of_blind (watched : Watched state)
    (blind : Blind state segment) : Watched (state.after segment) := by
  intro attemptId row found orphaned
  rcases orphaned_effects blind.spares found orphaned with
    ⟨before, stored, was⟩
  rcases watched attemptId before stored was with ⟨kind, armed⟩
  refine ⟨kind, ?_⟩
  show (kind, attemptId) ∈ segment.memory.timers
  rw [blind.timers]
  exact armed

/-- Updates that all end an attempt. -/
theorem completed_of_ended {updates : List AttemptFields}
    (some_update : updates ≠ [])
    (each : ∀ fields ∈ updates, fields.state = some .completed) :
    (updates.foldl AttemptRow.update row).state = .completed := by
  rcases List.eq_nil_or_concat updates with none | ⟨earlier, last, rfl⟩
  · exact absurd none some_update
  · rw [List.concat_eq_append] at each ⊢
    have closes : last.state = some .completed :=
      each last (List.mem_append_right _ List.mem_cons_self)
    rw [List.foldl_append, List.foldl_cons, List.foldl_nil]
    simp [AttemptRow.update, closes]

/-- What a recovery segment does about one attempt that was orphaned, when it
orphans no other. -/
theorem watched_of_spares (watched : Watched state)
    (spares : segment.effects.any Effect.orphans = false)
    (each : ∀ attemptId row, state.db.getAttempt attemptId = some row →
      row.state = .orphaned →
      (∃ kind, (kind, attemptId) ∈ state.memory.timers) →
      ((updatesOf attemptId segment.effects).foldl AttemptRow.update
          row).state = .orphaned →
      ∃ kind, (kind, attemptId) ∈ segment.memory.timers) :
    Watched (state.after segment) := by
  intro attemptId row found orphaned
  rcases orphaned_effects spares found orphaned with ⟨before, stored, was⟩
  rw [getAttempt_after stored, Option.some.injEq] at found
  rw [← found] at orphaned
  exact each attemptId before stored was
    (watched attemptId before stored was) orphaned

theorem mem_liveAttemptsOf {agentId : Nat} {pair : AttemptRow × Nat} :
    pair ∈ state.liveAttemptsOf agentId ↔
      state.db.getAttempt pair.2 = some pair.1 ∧
        pair.1.agentId = some agentId ∧ pair.1.live := by
  unfold ControllerState.liveAttemptsOf
  rw [ControllerState.mem_attemptIds, decide_eq_true_iff]
  rfl

theorem not_isPreStart_of_orphaned (orphaned : row.state = .orphaned) :
    ¬ ControllerState.isPreStart row := by
  rintro ⟨_, early⟩
  rw [orphaned] at early
  exact absurd early (by decide)

theorem watched_onAgentDisconnect (watched : Watched state)
    (agentId : Nat) :
    Watched (state.after (state.onAgentDisconnect agentId)) := by
  apply watched_of_spares watched
  · have taken : state.segment (.disconnect agentId) =
        some (state.onAgentDisconnect agentId) := rfl
    refine spares_segment ?_ taken
    rintro _ ⟨⟩
  · intro attemptId row stored orphaned armed _
    by_cases swept : (row, attemptId) ∈ state.liveAttemptsOf agentId
    · refine ⟨.grace, ?_⟩
      let Armed : Memory → Prop := fun memory =>
        (TimerKind.grace, attemptId) ∈ memory.timers
      suffices armed : Armed _ from armed
      apply foldl_establishes swept
      · intro after
        rw [if_neg (not_isPreStart_of_orphaned orphaned)]
        exact mem_armTimer.mpr (Or.inr ⟨rfl, rfl⟩)
      · intro after pair member there
        have found := (mem_liveAttemptsOf.mp member).1
        split
        next early =>
          refine mem_clearAllTimersFor.mpr ⟨there, ?_⟩
          rintro rfl
          rw [stored, Option.some.injEq] at found
          rw [← found] at early
          exact not_isPreStart_of_orphaned orphaned early
        next => exact mem_armTimer.mpr (Or.inl there)
    · rcases armed with ⟨kind, there⟩
      refine ⟨kind, (mem_foldl_timers ?_).mpr there⟩
      intro after pair member
      have other : attemptId ≠ pair.2 := by
        rintro rfl
        have found := (mem_liveAttemptsOf.mp member).1
        rw [stored, Option.some.injEq] at found
        rw [found] at swept
        exact swept member
      split
      · rw [mem_clearAllTimersFor]
        tauto
      · rw [mem_armTimer]
        tauto

theorem watched_onAgentRestarted (watched : Watched state)
    (agentId : Nat) :
    Watched (state.after (state.onAgentRestarted agentId)) := by
  apply watched_of_spares watched
  · have taken : state.segment (.capabilities agentId true) =
        some (state.onAgentRestarted agentId) := rfl
    refine spares_segment ?_ taken
    rintro _ ⟨⟩
  · intro attemptId row stored orphaned armed still
    have spared : ∀ pair ∈ state.liveAttemptsOf agentId,
        attemptId ≠ pair.2 := by
      rintro pair member rfl
      apply absurd still
      rw [completed_of_ended]
      · decide
      · apply List.ne_nil_of_mem (a := ended .lost)
        apply mem_updatesOf_flatMap.mpr
        refine ⟨pair, member, ?_⟩
        simp [ControllerState.markLost]
      · intro fields change
        rcases mem_updatesOf_flatMap.mp change with ⟨other, _, there⟩
        simp only [ControllerState.markLost, updatesOf_closeAttempt] at there
        split at there
        · rw [List.mem_singleton.mp there]
          rfl
        · cases there
    rcases armed with ⟨kind, there⟩
    refine ⟨kind, (mem_foldl_timers ?_).mpr there⟩
    intro after pair member
    rw [mem_clearAllTimersFor]
    exact and_iff_left (spared pair member)

/-- Does an effect create an attempt? -/
def Effect.inserts : Effect → Bool
  | .write (.insertAttempt _) => true
  | _ => false

/-- Without inserts, the attempts are the ones there were. -/
theorem stored_effects {effects : List Effect} {db : Database}
    (kept : effects.any Effect.inserts = false)
    (found : (db.writes (effects.filterMap Effect.statement)).getAttempt
      attemptId = some row) :
    ∃ before, db.getAttempt attemptId = some before := by
  induction effects generalizing db with
  | nil => exact ⟨row, found⟩
  | cons effect effects induction =>
    rw [List.any_cons, Bool.or_eq_false_iff] at kept
    cases effect with
    | send agentId frame header => exact induction kept.2 found
    | file name file => exact induction kept.2 found
    | write statement =>
      rcases induction kept.2 found with ⟨middle, there⟩
      cases statement with
      | insertJob job => exact ⟨middle, there⟩
      | updateJob jobId fields => exact ⟨middle, there⟩
      | insertEvent name => exact ⟨middle, there⟩
      | insertAttempt created => cases kept.1
      | updateAttempt name fields =>
        rw [Database.getAttempt_updateAttempt,
          Option.map_eq_some_iff] at there
        rcases there with ⟨before, stored, _⟩
        exact ⟨before, stored⟩

/-- A segment about one attempt, of which the rest is up to it. -/
theorem watched_of_alone (name : Nat) (watched : Watched state)
    (kept : segment.effects.any Effect.inserts = false)
    (alone : ∀ attemptId, attemptId ≠ name →
      updatesOf attemptId segment.effects = [])
    (timers : ∀ kind attemptId, attemptId ≠ name →
      (kind, attemptId) ∈ state.memory.timers →
      (kind, attemptId) ∈ segment.memory.timers)
    (own : ∀ row, state.db.getAttempt name = some row →
      ((updatesOf name segment.effects).foldl AttemptRow.update
          row).state = .orphaned →
      ∃ kind, (kind, name) ∈ segment.memory.timers) :
    Watched (state.after segment) := by
  intro attemptId row found orphaned
  rcases stored_effects kept found with ⟨before, stored⟩
  rw [getAttempt_after stored, Option.some.injEq] at found
  rw [← found] at orphaned
  by_cases same : attemptId = name
  · subst same
    exact own before stored orphaned
  · rw [alone attemptId same] at orphaned
    rcases watched attemptId before stored orphaned with ⟨kind, armed⟩
    exact ⟨kind, timers kind attemptId same armed⟩

theorem live_of_orphaned (orphaned : row.state = .orphaned) : row.live := by
  unfold AttemptRow.live
  rw [orphaned]
  decide

/-- An attempt that ends is not orphaned any more. -/
theorem not_orphaned_of_ended {outcome : JobOutcome} :
    (row.update (ended outcome)).state ≠ .orphaned := by
  simp [AttemptRow.update, ended]

/-- A timer that elapses without an effect on an attempt without need. -/
theorem watched_of_elapsed {kind : TimerKind} {name : Nat}
    (watched : Watched state)
    (settled : ∀ row, state.db.getAttempt name = some row →
      row.state ≠ .orphaned) :
    Watched (state.after
      { effects := [], memory := state.memory.clearTimer kind name }) := by
  apply watched_of_alone name watched rfl (fun _ _ => rfl)
  · intro other attemptId different armed
    exact mem_clearTimer.mpr ⟨armed, fun same => different same.2⟩
  · intro row found orphaned
    exact absurd orphaned (settled row found)

/-- A timer that elapses and ends its attempt. -/
theorem watched_of_lost {kind : TimerKind} {name : Nat}
    (watched : Watched state) :
    Watched (state.after
      { effects := ControllerState.markLost name row.jobId
        memory :=
          (state.memory.clearTimer kind name).clearAllTimersFor name }) := by
  have updates : ∀ attemptId,
      updatesOf attemptId (ControllerState.markLost name row.jobId) =
        if name = attemptId then [ended .lost] else [] :=
    fun _ => updatesOf_closeAttempt
  apply watched_of_alone name watched rfl
  · intro attemptId different
    rw [updates, if_neg (Ne.symm different)]
  · intro other attemptId different armed
    apply mem_clearAllTimersFor.mpr
    exact ⟨mem_clearTimer.mpr ⟨armed, fun same => different same.2⟩,
      different⟩
  · intro found _ orphaned
    rw [updates, if_pos rfl] at orphaned
    exact absurd orphaned not_orphaned_of_ended

theorem watched_onTimer (watched : Watched state) (kind : TimerKind)
    (name : Nat) : Watched (state.after (state.onTimer kind name)) := by
  cases kind with
  | grace =>
    unfold ControllerState.onTimer ControllerState.onGraceElapsed
    dsimp only
    split
    next missing =>
      apply watched_of_elapsed watched
      intro row found
      rw [missing] at found
      cases found
    next attempt stored =>
      split
      · apply watched_of_alone name watched rfl
        · intro attemptId different
          rw [updatesOf_update, if_neg (Ne.symm different)]
          rfl
        · intro other attemptId different armed
          apply mem_armTimer.mpr
          exact Or.inl (mem_clearTimer.mpr
            ⟨armed, fun same => different same.2⟩)
        · intro row found orphaned
          exact ⟨.orphan, mem_armTimer.mpr (Or.inr ⟨rfl, rfl⟩)⟩
      next finished =>
        apply watched_of_elapsed watched
        intro row found orphaned
        rw [stored, Option.some.injEq] at found
        exact finished (found ▸ live_of_orphaned orphaned)
  | orphan =>
    unfold ControllerState.onTimer ControllerState.onOrphanTimeout
    dsimp only
    split
    next missing =>
      apply watched_of_elapsed watched
      intro row found
      rw [missing] at found
      cases found
    next attempt stored =>
      split
      · exact watched_of_lost watched
      next other =>
        apply watched_of_elapsed watched
        intro row found orphaned
        rw [stored, Option.some.injEq] at found
        exact other (found ▸ orphaned)
  | reconcile =>
    unfold ControllerState.onTimer ControllerState.onReconcileDeadline
    dsimp only
    split
    next missing =>
      apply watched_of_elapsed watched
      intro row found
      rw [missing] at found
      cases found
    next attempt stored =>
      split
      · exact watched_of_lost watched
      next finished =>
        apply watched_of_elapsed watched
        intro row found orphaned
        rw [stored, Option.some.injEq] at found
        exact finished (found ▸ live_of_orphaned orphaned)

/-- A timer of the attempt is armed again. -/
theorem mem_rearmOrphanWatchdog {memory : Memory} {kind : TimerKind}
    {name : Nat} :
    (kind, attemptId) ∈
        (ControllerState.rearmOrphanWatchdog memory name row).timers ↔
      (kind, attemptId) ∈ memory.timers ∨
        (kind = (if row.state = .orphaned then .orphan else .grace) ∧
          attemptId = name) := by
  unfold ControllerState.rearmOrphanWatchdog
  split
  · exact mem_armTimer
  · exact mem_armTimer

theorem inserts_sendFrame (agentId : Nat) (frame : Outgoing)
    (header : LeaseHeader) :
    (state.sendFrame agentId frame header).any Effect.inserts = false := by
  unfold ControllerState.sendFrame
  split <;> rfl

/-- A report clears the timers of the attempt; it ends, or one is armed. -/
theorem watched_of_reported {name : Nat} {memory : Memory}
    {effects : List Effect} (watched : Watched state)
    (kept : effects.any Effect.inserts = false)
    (alone : ∀ attemptId, attemptId ≠ name →
      updatesOf attemptId effects = [])
    (timers : ∀ kind attemptId,
      (kind, attemptId) ∈ (state.memory.clearAllTimersFor name).timers →
      (kind, attemptId) ∈ memory.timers)
    (own : ∀ row, state.db.getAttempt name = some row →
      ((updatesOf name effects).foldl AttemptRow.update
          row).state = .orphaned →
      ∃ kind, (kind, name) ∈ memory.timers) :
    Watched (state.after { effects := effects, memory := memory }) := by
  apply watched_of_alone _ watched kept alone _ own
  intro kind attemptId different armed
  exact timers kind attemptId (mem_clearAllTimersFor.mpr ⟨armed, different⟩)

theorem watched_onRecoveryReport (watched : Watched state) (agentId : Nat)
    (report : RecoveryReport) :
    Watched (state.after (state.onRecoveryReport agentId report)) := by
  have rearmed : ∀ row : AttemptRow, ∃ kind,
      (kind, report.header.attemptId) ∈
        (ControllerState.rearmOrphanWatchdog
          (state.memory.clearAllTimersFor report.header.attemptId)
          report.header.attemptId row).timers :=
    fun row => ⟨_, mem_rearmOrphanWatchdog.mpr (Or.inr ⟨rfl, rfl⟩)⟩
  unfold ControllerState.onRecoveryReport
  dsimp only
  split
  next missing =>
    apply watched_of_reported watched (inserts_sendFrame _ _ _)
      (fun _ _ => updatesOf_sendFrame) fun _ _ => id
    intro row found
    rw [missing] at found
    cases found
  next attempt stored =>
    split
    next finished =>
      apply watched_of_reported watched (inserts_sendFrame _ _ _)
        (fun _ _ => updatesOf_sendFrame) fun _ _ => id
      intro row found orphaned
      rw [updatesOf_sendFrame] at orphaned
      rw [stored, Option.some.injEq] at found
      exact absurd (found ▸ live_of_orphaned orphaned) finished
    next live =>
      split
      · apply watched_of_reported watched rfl
        · intro attemptId different
          rw [updatesOf_update, if_neg (Ne.symm different)]
          rfl
        · intro kind attemptId armed
          exact mem_rearmOrphanWatchdog.mpr (Or.inl armed)
        · intro row found orphaned
          exact rearmed attempt
      · split
        · apply watched_of_reported watched
          · rw [List.any_append, inserts_sendFrame]
            rfl
          · intro attemptId different
            rw [updatesOf_append, updatesOf_sendFrame, updatesOf_update,
              if_neg (Ne.symm different)]
            rfl
          · exact fun _ _ => id
          · intro row found orphaned
            rw [updatesOf_append, updatesOf_sendFrame, updatesOf_update,
              if_pos rfl] at orphaned
            simp only [List.nil_append, List.append_nil, updatesOf_nil,
              List.foldl_cons, List.foldl_nil, AttemptRow.update,
              Option.getD_some] at orphaned
            split at orphaned <;> cases orphaned
        · apply watched_of_reported watched
          · rw [List.any_append, inserts_sendFrame]
            rfl
          · intro attemptId different
            rw [updatesOf_append, updatesOf_sendFrame, updatesOf_update,
              if_neg (Ne.symm different)]
            rfl
          · intro kind attemptId armed
            exact mem_rearmOrphanWatchdog.mpr (Or.inl armed)
          · intro row found orphaned
            exact rearmed attempt
        · have updates : ∀ attemptId reason,
              updatesOf attemptId
                  (ControllerState.markTerminateStaleFailed
                    report.header.attemptId attempt.jobId reason) =
                if report.header.attemptId = attemptId
                then [ended .failed] else [] :=
            fun _ _ => updatesOf_closeAttempt
          apply watched_of_reported watched
          · rw [List.any_append, inserts_sendFrame]
            rfl
          · intro attemptId different
            rw [updatesOf_append, updatesOf_sendFrame, updates,
              if_neg (Ne.symm different)]
            rfl
          · exact fun _ _ => id
          · intro row found orphaned
            rw [updatesOf_append, updatesOf_sendFrame, updates,
              if_pos rfl] at orphaned
            exact absurd orphaned not_orphaned_of_ended

theorem watched_onControllerStartup :
    Watched (state.after state.onControllerStartup) := by
  intro attemptId row found orphaned
  have stored : state.db.getAttempt attemptId = some row := found
  refine ⟨.reconcile, ?_⟩
  show _ ∈ List.map _ _
  apply List.mem_map.mpr
  refine ⟨(row, attemptId), ?_, rfl⟩
  apply ControllerState.mem_attemptIds.mpr
  refine ⟨stored, ?_⟩
  rw [decide_eq_true_eq]
  exact live_of_orphaned orphaned

end Orphans

/-! ## No attempt is stuck in recovery -/

theorem step_watched {state next : ControllerState} {event : Event}
    (watched : Watched state)
    (step : controllerMachine.step state event = some next) :
    Watched next := by
  rcases Option.map_eq_some_iff.mp step with ⟨segment, taken, rfl⟩
  cases event with
  | tick seconds =>
    cases taken
    exact watched
  | capabilities agentId restarted =>
    cases taken
    cases restarted with
    | false => exact watched_of_blind watched ⟨rfl, rfl, rfl⟩
    | true => exact watched_onAgentRestarted watched agentId
  | disconnect agentId =>
    cases taken
    exact watched_onAgentDisconnect watched agentId
  | timer kind attemptId =>
    unfold ControllerState.segment at taken
    dsimp only at taken
    split at taken <;> cases taken
    exact watched_onTimer watched kind attemptId
  | recoveryReport agentId report =>
    cases taken
    exact watched_onRecoveryReport watched agentId report
  | restart =>
    cases taken
    exact watched_onControllerStartup
  | _ => exact watched_of_blind watched (blind_segment rfl taken)

/-- A timer of a completed attempt does nothing to the tables. -/
theorem timer_of_completed {state next : ControllerState}
    {kind : TimerKind} {attemptId : Nat} {row : AttemptRow}
    (stored : state.db.getAttempt attemptId = some row)
    (completed : row.state = .completed)
    (step : controllerMachine.step state (.timer kind attemptId) =
      some next) : next.db = state.db := by
  rcases Option.map_eq_some_iff.mp step with ⟨segment, taken, rfl⟩
  have dead : ¬ row.live := fun live => live completed
  have settled : row.state ≠ .orphaned := by
    rw [completed]
    decide
  unfold ControllerState.segment at taken
  dsimp only at taken
  split at taken
  · cases taken
    cases kind with
    | grace =>
      simp only [ControllerState.onTimer, ControllerState.onGraceElapsed,
        stored, if_neg dead]
      rfl
    | orphan =>
      simp only [ControllerState.onTimer, ControllerState.onOrphanTimeout,
        stored, if_neg settled]
      rfl
    | reconcile =>
      simp only [ControllerState.onTimer,
        ControllerState.onReconcileDeadline, stored, if_neg dead]
      rfl
  · cases taken

/--
In every reachable state an orphaned attempt has a timer, and no timer of a
completed attempt changes the attempt or its job.
-/
theorem no_attempt_stuck_in_recovery {state : ControllerState}
    (reachable : controllerMachine.Reachable (fun _ _ => True) state) :
    (∀ attemptId row, state.db.getAttempt attemptId = some row →
      row.state = .orphaned →
      ∃ kind, (kind, attemptId) ∈ state.memory.timers) ∧
    ∀ kind attemptId row next,
      state.db.getAttempt attemptId = some row → row.state = .completed →
      controllerMachine.step state (.timer kind attemptId) = some next →
      next.db = state.db := by
  constructor
  · have preserved : ∀ state event next, Watched state → True →
        controllerMachine.step state event = some next → Watched next :=
      fun state event next watched _ => step_watched watched
    apply reachable.invariant _ preserved
    rintro initial ⟨limit, rfl⟩ attemptId row found
    cases found
  · intro kind attemptId row next stored completed
    exact timer_of_completed stored completed

/-- A job runs on an agent, whose process has an identity. -/
def startedRun (identity : Option Nat) : List Event :=
  let header : LeaseHeader := { attemptId := 0, leaseId := 0, leaseEpoch := 1 }
  [.connect 1, .submit .wait false, .resume 0 (.remote 1),
    .frame 1 header (.leaseAccept .prepared), .frame 1 header .sourceReady,
    .frame 1 header (.jobStarted identity)]

/-- What a reader sees of the attempts and of their timers. -/
def recoveryColumns (state : ControllerState) :
    List (AttemptState × Option JobOutcome) × List (TimerKind × Nat) ×
      List Nat :=
  (state.db.attempts.map fun row => (row.state, row.outcome),
    state.memory.timers, state.memory.connectedAgents)

theorem no_attempt_stuck_in_recovery_orphaned :
    ∃ (state : ControllerState) (row : AttemptRow),
      state.db.getAttempt 0 = some row ∧ row.state = .orphaned ∧
        ∃ kind, (kind, 0) ∈ state.memory.timers := by
  have run :
      (controllerMachine.run freshController
          (startedRun (some 7) ++ [.disconnect 1, .timer .grace 0])).map
          recoveryColumns =
        some ([(.orphaned, none)], [(.orphan, 0)], []) := by
    decide +kernel
  rcases Option.map_eq_some_iff.mp run with ⟨state, ran, columns⟩
  have reachable := Machine.reachable_of_run freshController_initial ran
  have rows : (state.db.attempts[0]?).map
      (fun row => (row.state, row.outcome)) =
        some (AttemptState.orphaned, none) := by
    have first := congrArg Prod.fst columns
    rw [← List.getElem?_map]
    exact congrArg (·[0]?) first
  rcases Option.map_eq_some_iff.mp rows with ⟨row, stored, seen⟩
  have orphaned : row.state = .orphaned := congrArg Prod.fst seen
  exact ⟨state, row, stored, orphaned,
    (no_attempt_stuck_in_recovery reachable).1 0 row stored orphaned⟩

end Rbo.Controller.Execution
