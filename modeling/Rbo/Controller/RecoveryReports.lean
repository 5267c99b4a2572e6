import Rbo.Controller.Watchdogs

/-!
# Reports of other agents

A `recovery_report` clears the timers of the attempt it names before the
Controller looks at who sent it.  What a report from another agent arms again
depends on the attempt alone: the grace timer, when the attempt is not
orphaned, although its agent may be connected.
-/

namespace Rbo.Controller.Execution

open Rbo.Foundation
open Rbo.Controller.Lifecycle

/-! ## What the timers of an attempt do -/

/-- A timer of the attempt elapses. -/
def OwnTimer (attemptId : Nat) (_ : ControllerState) (event : Event) :
    Prop :=
  ∃ kind, event = .timer kind attemptId

/-- The timers that are armed can orphan the attempt or end it. -/
def Endangered (attemptId : Nat) (state : ControllerState) : Prop :=
  ∃ later row, controllerMachine.Steps (OwnTimer attemptId) state later ∧
    later.db.getAttempt attemptId = some row ∧
    (row.state = .orphaned ∨ row.state = .completed)

/-- The timers that are armed can end the attempt. -/
def TimesOut (attemptId : Nat) (state : ControllerState) : Prop :=
  ∃ later row, controllerMachine.Steps (OwnTimer attemptId) state later ∧
    later.db.getAttempt attemptId = some row ∧ row.state = .completed

section OwnTimers

variable {state next : ControllerState} {attemptId : Nat}
  {row : AttemptRow}

theorem step_timer {kind : TimerKind}
    (armed : (kind, attemptId) ∈ state.memory.timers) :
    controllerMachine.step state (.timer kind attemptId) =
      some (state.after (state.onTimer kind attemptId)) := by
  show (if _ then some _ else none).map state.after = _
  rw [if_pos armed]
  rfl

theorem steps_own {kind : TimerKind}
    (step : controllerMachine.step state (.timer kind attemptId) =
      some next) :
    controllerMachine.Steps (OwnTimer attemptId) state next :=
  .single ⟨.timer kind attemptId, ⟨kind, rfl⟩, step⟩

theorem step_grace (armed : (.grace, attemptId) ∈ state.memory.timers)
    (stored : state.db.getAttempt attemptId = some row)
    (live : row.live) :
    ∃ next, controllerMachine.step state (.timer .grace attemptId) =
        some next ∧
      next.db.getAttempt attemptId =
        some (row.update { state := some .orphaned }) ∧
      (.orphan, attemptId) ∈ next.memory.timers := by
  refine ⟨_, step_timer armed, ?_⟩
  simp only [ControllerState.onTimer, ControllerState.onGraceElapsed,
    stored, if_pos live]
  constructor
  · rw [getAttempt_after stored, updatesOf_update, if_pos rfl]
    rfl
  · exact mem_armTimer.mpr (Or.inr ⟨rfl, rfl⟩)

theorem step_orphan (armed : (.orphan, attemptId) ∈ state.memory.timers)
    (stored : state.db.getAttempt attemptId = some row)
    (orphaned : row.state = .orphaned) :
    ∃ next, controllerMachine.step state (.timer .orphan attemptId) =
        some next ∧
      next.db.getAttempt attemptId = some (row.update (ended .lost)) := by
  refine ⟨_, step_timer armed, ?_⟩
  simp only [ControllerState.onTimer, ControllerState.onOrphanTimeout,
    stored, if_pos orphaned, ControllerState.markLost]
  rw [getAttempt_after stored, updatesOf_closeAttempt, if_pos rfl]
  rfl

theorem step_reconcile
    (armed : (.reconcile, attemptId) ∈ state.memory.timers)
    (stored : state.db.getAttempt attemptId = some row)
    (live : row.live) :
    ∃ next, controllerMachine.step state (.timer .reconcile attemptId) =
        some next ∧
      next.db.getAttempt attemptId = some (row.update (ended .lost)) := by
  refine ⟨_, step_timer armed, ?_⟩
  simp only [ControllerState.onTimer, ControllerState.onReconcileDeadline,
    stored, if_pos live, ControllerState.markLost]
  rw [getAttempt_after stored, updatesOf_closeAttempt, if_pos rfl]
  rfl

theorem timesOut_of_orphan
    (armed : (.orphan, attemptId) ∈ state.memory.timers)
    (stored : state.db.getAttempt attemptId = some row)
    (orphaned : row.state = .orphaned) : TimesOut attemptId state := by
  rcases step_orphan armed stored orphaned with ⟨next, step, lost⟩
  exact ⟨next, _, steps_own step, lost, rfl⟩

theorem timesOut_of_grace
    (armed : (.grace, attemptId) ∈ state.memory.timers)
    (stored : state.db.getAttempt attemptId = some row)
    (live : row.live) : TimesOut attemptId state := by
  rcases step_grace armed stored live with ⟨next, step, there, orphan⟩
  rcases timesOut_of_orphan orphan there rfl with
    ⟨later, lost, steps, found, completed⟩
  exact ⟨later, lost, (steps_own step).trans steps, found,
    completed⟩

/-- A working attempt is in danger when its grace or reconcile timer is
armed. -/
theorem endangered_iff (stored : state.db.getAttempt attemptId = some row)
    (live : row.live) (kept : row.state ≠ .orphaned) :
    Endangered attemptId state ↔
      (.grace, attemptId) ∈ state.memory.timers ∨
        (.reconcile, attemptId) ∈ state.memory.timers := by
  constructor
  · intro endangered
    apply Decidable.byContradiction
    rw [not_or]
    rintro ⟨noGrace, noReconcile⟩
    rcases endangered with ⟨later, final, steps, found, harmed⟩
    let safe (reached : ControllerState) : Prop :=
      reached.db.getAttempt attemptId = some row ∧
        (.grace, attemptId) ∉ reached.memory.timers ∧
        (.reconcile, attemptId) ∉ reached.memory.timers
    have preserved : ∀ before event after, safe before →
        OwnTimer attemptId before event →
        controllerMachine.step before event = some after → safe after := by
      rintro before _ after ⟨there, grace, reconcile⟩ ⟨kind, rfl⟩ step
      rcases Option.map_eq_some_iff.mp step with ⟨segment, taken, rfl⟩
      unfold ControllerState.segment at taken
      dsimp only at taken
      split at taken
      next armed =>
        cases taken
        cases kind with
        | grace => exact absurd armed grace
        | reconcile => exact absurd armed reconcile
        | orphan =>
          simp only [ControllerState.onTimer,
            ControllerState.onOrphanTimeout, there, if_neg kept]
          refine ⟨there, ?_, ?_⟩
          · exact fun back => grace (mem_clearTimer.mp back).1
          · exact fun back => reconcile (mem_clearTimer.mp back).1
      next => cases taken
    have same : safe later :=
      steps.preserves preserved ⟨stored, noGrace, noReconcile⟩
    rw [same.1, Option.some.injEq] at found
    subst found
    exact harmed.elim kept live
  · rintro (grace | reconcile)
    · rcases step_grace grace stored live with ⟨next, step, there, _⟩
      exact ⟨next, _, steps_own step, there, Or.inl rfl⟩
    · rcases step_reconcile reconcile stored live with ⟨next, step, there⟩
      exact ⟨next, _, steps_own step, there,
        Or.inr rfl⟩

end OwnTimers

/-! ## Recovery of other attempts -/

/-- A segment that passes an attempt by. -/
structure Aside (attemptId : Nat) (state : ControllerState)
    (segment : Segment) : Prop where
  updates : updatesOf attemptId segment.effects = []
  timers : ∀ kind, (kind, attemptId) ∈ segment.memory.timers ↔
    (kind, attemptId) ∈ state.memory.timers

section Others

variable {state : ControllerState} {attemptId : Nat} {row : AttemptRow}

theorem Aside.getAttempt {segment : Segment}
    (aside : Aside attemptId state segment)
    (stored : state.db.getAttempt attemptId = some row) :
    (state.after segment).db.getAttempt attemptId = some row := by
  rw [getAttempt_after stored, aside.updates]
  rfl

section

variable {agentId owner : Nat}
  (stored : state.db.getAttempt attemptId = some row)
  (owned : row.agentId = some owner) (other : agentId ≠ owner)

include stored owned other

/-- Only its own agent's attempts are touched when an agent comes or goes. -/
theorem updatesOf_liveAttempts {effects : AttemptRow × Nat → List Effect}
    (own : ∀ pair, pair.2 ≠ attemptId →
      updatesOf attemptId (effects pair) = []) :
    updatesOf attemptId
      ((state.liveAttemptsOf agentId).flatMap effects) = [] := by
  rw [List.eq_nil_iff_forall_not_mem]
  intro fields member
  rcases mem_updatesOf_flatMap.mp member with ⟨pair, swept, updated⟩
  rcases mem_liveAttemptsOf.mp swept with ⟨found, belongs, _⟩
  rw [own pair] at updated
  · cases updated
  · rintro rfl
    rw [stored, Option.some.injEq] at found
    rw [← found, owned, Option.some.injEq] at belongs
    exact other belongs.symm

theorem liveAttempts_ne :
    ∀ pair ∈ state.liveAttemptsOf agentId, attemptId ≠ pair.2 := by
  rintro pair swept rfl
  rcases mem_liveAttemptsOf.mp swept with ⟨found, belongs, _⟩
  rw [stored, Option.some.injEq] at found
  rw [← found, owned, Option.some.injEq] at belongs
  exact other belongs.symm

theorem aside_onAgentDisconnect :
    Aside attemptId state (state.onAgentDisconnect agentId) where
  updates := by
    apply updatesOf_liveAttempts stored owned other
    intro pair different
    split
    · rw [updatesOf_closeAttempt, if_neg different]
    · rw [updatesOf_update, if_neg different]
      rfl
  timers kind := by
    apply mem_foldl_timers
    intro after pair member
    have different := liveAttempts_ne stored owned other pair member
    split
    · rw [mem_clearAllTimersFor]
      exact and_iff_left different
    · rw [mem_armTimer]
      exact or_iff_left fun same => different same.2

theorem aside_onAgentRestarted :
    Aside attemptId state (state.onAgentRestarted agentId) where
  updates := by
    apply updatesOf_liveAttempts stored owned other
    intro pair different
    exact updatesOf_closeAttempt.trans (if_neg different)
  timers kind := by
    apply mem_foldl_timers
    intro after pair member
    rw [mem_clearAllTimersFor]
    exact and_iff_left (liveAttempts_ne stored owned other pair member)

end

theorem aside_onTimer {kind : TimerKind} {name : Nat}
    (other : name ≠ attemptId) :
    Aside attemptId state (state.onTimer kind name) := by
  have elapsed : ∀ other, (other, attemptId) ∈
      (state.memory.clearTimer kind name).timers ↔
        (other, attemptId) ∈ state.memory.timers := by
    intro kind
    rw [mem_clearTimer]
    exact and_iff_left fun same => other same.2.symm
  have lost : ∀ jobId,
      updatesOf attemptId (ControllerState.markLost name jobId) = [] :=
    fun jobId => updatesOf_closeAttempt.trans (if_neg other)
  have cleared : ∀ other, (other, attemptId) ∈
      ((state.memory.clearTimer kind name).clearAllTimersFor name).timers ↔
        (other, attemptId) ∈ state.memory.timers := by
    intro kind
    rw [mem_clearAllTimersFor, elapsed]
    exact and_iff_left fun same => other same.symm
  cases kind with
  | grace =>
    unfold ControllerState.onTimer ControllerState.onGraceElapsed
    dsimp only
    split
    · exact ⟨rfl, elapsed⟩
    · split
      · constructor
        · rw [updatesOf_update, if_neg other]
          rfl
        · intro kind
          rw [mem_armTimer, elapsed]
          exact or_iff_left fun same => other same.2.symm
      · exact ⟨rfl, elapsed⟩
  | orphan =>
    unfold ControllerState.onTimer ControllerState.onOrphanTimeout
    dsimp only
    split
    · exact ⟨rfl, elapsed⟩
    · split
      · exact ⟨lost _, cleared⟩
      · exact ⟨rfl, elapsed⟩
  | reconcile =>
    unfold ControllerState.onTimer ControllerState.onReconcileDeadline
    dsimp only
    split
    · exact ⟨rfl, elapsed⟩
    · split
      · exact ⟨lost _, cleared⟩
      · exact ⟨rfl, elapsed⟩

theorem aside_onRecoveryReport {agentId : Nat} {report : RecoveryReport}
    (other : report.header.attemptId ≠ attemptId) :
    Aside attemptId state (state.onRecoveryReport agentId report) := by
  have cleared : ∀ kind, (kind, attemptId) ∈
      (state.memory.clearAllTimersFor report.header.attemptId).timers ↔
        (kind, attemptId) ∈ state.memory.timers := by
    intro kind
    rw [mem_clearAllTimersFor]
    exact and_iff_left (Ne.symm other)
  have rearmed : ∀ row kind, (kind, attemptId) ∈
      (ControllerState.rearmOrphanWatchdog
        (state.memory.clearAllTimersFor report.header.attemptId)
        report.header.attemptId row).timers ↔
        (kind, attemptId) ∈ state.memory.timers := by
    intro row kind
    rw [mem_rearmOrphanWatchdog, cleared]
    exact or_iff_left fun same => other same.2.symm
  have updated : ∀ fields, updatesOf attemptId
      [updateAttempt report.header.attemptId fields] = [] := by
    intro fields
    rw [updatesOf_update, if_neg other]
    rfl
  unfold ControllerState.onRecoveryReport
  dsimp only
  split
  · exact ⟨updatesOf_sendFrame, cleared⟩
  · split
    · exact ⟨updatesOf_sendFrame, cleared⟩
    · split
      · exact ⟨updated _, rearmed _⟩
      · split
        · refine ⟨?_, cleared⟩
          rw [updatesOf_append, updatesOf_sendFrame, updated]
          rfl
        · refine ⟨?_, rearmed _⟩
          rw [updatesOf_append, updatesOf_sendFrame, updated]
          rfl
        · refine ⟨?_, cleared⟩
          rw [updatesOf_append, updatesOf_sendFrame]
          exact updatesOf_closeAttempt.trans (if_neg other)

end Others

/-! ## Reports of other agents -/

/-- An attempt that goes on: its agent is connected, it is not orphaned, and
no timer of it can change that. -/
structure Working (attemptId owner : Nat) (state : ControllerState) :
    Prop where
  stored : ∃ row, state.db.getAttempt attemptId = some row ∧
    row.agentId = some owner ∧ row.live ∧ row.state ≠ .orphaned
  connected : owner ∈ state.memory.connectedAgents
  noGrace : (.grace, attemptId) ∉ state.memory.timers
  noReconcile : (.reconcile, attemptId) ∉ state.memory.timers

/-- A step that endangers no attempt of a connected agent, and takes no
watch from an attempt of a disconnected one. -/
structure Harmless (attemptId owner : Nat) (before after : ControllerState) :
    Prop where
  spares : ∀ row, before.db.getAttempt attemptId = some row → row.live →
    row.state ≠ .orphaned → owner ∈ before.memory.connectedAgents →
    Endangered attemptId after → Endangered attemptId before
  watches : owner ∉ before.memory.connectedAgents →
    TimesOut attemptId before → TimesOut attemptId after

section Foreign

variable {state next : ControllerState} {agentId owner : Nat}
  {report : RecoveryReport} {row : AttemptRow}

section

variable (stored : state.db.getAttempt report.header.attemptId = some row)

include stored

/-- A report from another agent leaves the row, and one timer armed. -/
theorem report_of_other (owned : row.agentId = some owner)
    (foreign : agentId ≠ owner) (live : row.live) :
    let after := state.after (state.onRecoveryReport agentId report)
    after.db.getAttempt report.header.attemptId = some row ∧
      ∀ kind, (kind, report.header.attemptId) ∈ after.memory.timers ↔
        kind = if row.state = .orphaned then .orphan else .grace := by
  have armed : ∀ kind, (kind, report.header.attemptId) ∈
      (ControllerState.rearmOrphanWatchdog
        (state.memory.clearAllTimersFor report.header.attemptId)
        report.header.attemptId row).timers ↔
        kind = if row.state = .orphaned then .orphan else .grace := by
    intro kind
    rw [mem_rearmOrphanWatchdog, mem_clearAllTimersFor]
    constructor
    · rintro (⟨_, other⟩ | ⟨same, _⟩)
      · exact absurd rfl other
      · exact same
    · exact fun same => Or.inr ⟨same, rfl⟩
  have mismatch : staleReason agentId row report = some .agentMismatch := by
    unfold staleReason
    rw [if_pos]
    rw [owned]
    exact fun same => foreign (Option.some.inj same).symm
  have kept : ∀ effects, updatesOf report.header.attemptId effects = [{}] →
      ∀ memory, (state.after { effects := effects, memory := memory }
        ).db.getAttempt report.header.attemptId = some row := by
    intro effects updates memory
    rw [getAttempt_after stored, updates]
    rfl
  unfold ControllerState.onRecoveryReport
  simp only [stored]
  rw [if_neg (not_not_intro live)]
  by_cases pending : row.processIdentity = none
  · rw [if_pos pending]
    refine ⟨kept _ ?_ _, armed⟩
    rw [updatesOf_update, if_pos rfl]
    rfl
  · rw [if_neg pending, mismatch]
    refine ⟨kept _ ?_ _, armed⟩
    rw [updatesOf_append, updatesOf_sendFrame, updatesOf_update, if_pos rfl]
    rfl

theorem report_of_completed (completed : row.state = .completed) :
    (state.after (state.onRecoveryReport agentId report)).db.getAttempt
      report.header.attemptId = some row := by
  have dead : ¬ row.live := fun live => live completed
  rw [getAttempt_after stored]
  unfold ControllerState.onRecoveryReport
  simp only [stored, if_pos dead, updatesOf_sendFrame]
  rfl

/-- After a report from another agent, the timers of a live attempt end it
in time. -/
theorem timesOut_of_report (owned : row.agentId = some owner)
    (foreign : agentId ≠ owner) :
    TimesOut report.header.attemptId
      (state.after (state.onRecoveryReport agentId report)) := by
  by_cases completed : row.state = .completed
  · exact ⟨_, row, .refl, report_of_completed stored completed, completed⟩
  · rcases report_of_other stored owned foreign completed with
      ⟨there, armed⟩
    by_cases orphaned : row.state = .orphaned
    · apply timesOut_of_orphan ((armed .orphan).mpr _) there orphaned
      rw [if_pos orphaned]
    · apply timesOut_of_grace ((armed .grace).mpr _) there completed
      rw [if_neg orphaned]

/-- A report from another agent does harm to working attempts only. -/
theorem harmless_report_iff (owned : row.agentId = some owner)
    (foreign : agentId ≠ owner)
    (step : controllerMachine.step state (.recoveryReport agentId report) =
      some next) :
    Harmless report.header.attemptId owner state next ↔
      ¬ Working report.header.attemptId owner state := by
  cases step
  constructor
  · rintro harmless ⟨⟨found, there, _, live, kept⟩, connected, noGrace,
      noReconcile⟩
    rw [stored, Option.some.injEq] at there
    subst there
    rcases report_of_other stored owned foreign live with ⟨after, armed⟩
    have endangered : Endangered report.header.attemptId
        (state.after (state.onRecoveryReport agentId report)) := by
      apply (endangered_iff after live kept).mpr
      left
      rw [armed, if_neg kept]
    have before := harmless.spares row stored live kept connected endangered
    rcases (endangered_iff stored live kept).mp before with grace | reconcile
    · exact noGrace grace
    · exact noReconcile reconcile
  · intro idle
    constructor
    · intro found there live kept connected _
      rw [stored, Option.some.injEq] at there
      subst there
      apply (endangered_iff stored live kept).mpr
      apply Decidable.byContradiction
      rw [not_or]
      rintro ⟨noGrace, noReconcile⟩
      exact idle ⟨⟨row, stored, owned, live, kept⟩, connected, noGrace,
        noReconcile⟩
    · intro _ _
      exact timesOut_of_report stored owned foreign

end

/-- The updates of a heartbeat leave the state and the agent of a row. -/
theorem renewed_row {name : Nat} (agentId : Nat)
    (stored : state.db.getAttempt name = some row) :
    ∃ after, (state.after
        (state.only (state.renewActiveLease agentId))).db.getAttempt name =
          some after ∧
      after.agentId = row.agentId ∧ after.state = row.state := by
  refine ⟨_, getAttempt_after stored, ?_⟩
  apply List.foldlRecOn _ AttemptRow.update
    (motive := fun after =>
      after.agentId = row.agentId ∧ after.state = row.state) ⟨rfl, rfl⟩
  rintro after ⟨sameAgent, sameState⟩ fields member
  refine ⟨sameAgent, ?_⟩
  have renewal : fields.state = none := by
    unfold ControllerState.only ControllerState.renewActiveLease at member
    dsimp only at member
    rw [← List.flatMap_singleton' (List.map _ _), List.flatMap_map] at member
    rcases mem_updatesOf_flatMap.mp member with ⟨pair, _, there⟩
    rw [updatesOf_update] at there
    split at there
    · rw [List.mem_singleton.mp there]
    · cases there
  show fields.state.getD after.state = row.state
  rw [renewal]
  exact sameState

end Foreign

/-- What the agents and the timers do, apart from the owner of an attempt;
reports from other agents find the attempt not working. -/
def Bystanding (attemptId owner : Nat) (state : ControllerState) :
    Event → Prop
  | .connect _ => True
  | .capabilities agentId restarted => agentId = owner → restarted = false
  | .heartbeat _ => True
  | .disconnect agentId => agentId ≠ owner
  | .timer _ _ => True
  | .recoveryReport agentId report =>
    report.header.attemptId = attemptId →
      agentId ≠ owner ∧ ¬ Working attemptId owner state
  | _ => False

theorem working_of_aside {state : ControllerState} {segment : Segment}
    {attemptId owner : Nat} (working : Working attemptId owner state)
    (aside : Aside attemptId state segment)
    (connected : owner ∈ segment.memory.connectedAgents) :
    Working attemptId owner (state.after segment) := by
  rcases working.stored with ⟨row, stored, facts⟩
  refine ⟨⟨row, aside.getAttempt stored, facts⟩, connected, ?_, ?_⟩
  · exact fun armed => working.noGrace ((aside.timers _).mp armed)
  · exact fun armed => working.noReconcile ((aside.timers _).mp armed)

section Memory

variable {state : ControllerState}

theorem memory_onTimer (kind : TimerKind) (attemptId : Nat) :
    (state.onTimer kind attemptId).memory =
      { state.memory with
        timers := (state.onTimer kind attemptId).memory.timers } := by
  cases kind with
  | grace =>
    unfold ControllerState.onTimer ControllerState.onGraceElapsed
    dsimp only
    split
    · rfl
    · split <;> rfl
  | orphan =>
    unfold ControllerState.onTimer ControllerState.onOrphanTimeout
    dsimp only
    split
    · rfl
    · split <;> rfl
  | reconcile =>
    unfold ControllerState.onTimer ControllerState.onReconcileDeadline
    dsimp only
    split
    · rfl
    · split <;> rfl

theorem memory_rearm (memory : Memory) (attemptId : Nat)
    (row : AttemptRow) :
    ControllerState.rearmOrphanWatchdog memory attemptId row =
      { memory with
        timers := (ControllerState.rearmOrphanWatchdog memory attemptId
          row).timers } := by
  unfold ControllerState.rearmOrphanWatchdog
  split <;> rfl

theorem memory_onRecoveryReport (agentId : Nat)
    (report : RecoveryReport) :
    (state.onRecoveryReport agentId report).memory =
      { state.memory with
        timers := (state.onRecoveryReport agentId report).memory.timers } := by
  unfold ControllerState.onRecoveryReport
  dsimp only
  split
  · rfl
  · split
    · rfl
    · split
      · exact memory_rearm _ _ _
      · split
        · rfl
        · exact memory_rearm _ _ _
        · rfl

theorem memory_onAgentRestarted (agentId : Nat) :
    (state.onAgentRestarted agentId).memory =
      { state.memory with
        timers := (state.onAgentRestarted agentId).memory.timers } := by
  unfold ControllerState.onAgentRestarted
  apply List.foldlRecOn _ _
    (motive := fun after : Memory =>
      after = { state.memory with timers := after.timers }) rfl
  intro after same pair _
  rw [same]
  rfl

theorem memory_onAgentDisconnect (agentId : Nat) :
    (state.onAgentDisconnect agentId).memory =
      { state.memory with
        timers := (state.onAgentDisconnect agentId).memory.timers
        connectedAgents :=
          state.memory.connectedAgents.filter fun other =>
            other ≠ agentId } := by
  unfold ControllerState.onAgentDisconnect
  apply List.foldlRecOn _ _
    (motive := fun after : Memory =>
      after =
        { state.memory with
          timers := after.timers
          connectedAgents :=
            state.memory.connectedAgents.filter fun other =>
              other ≠ agentId }) rfl
  intro after same pair _
  split
  · rw [same]
    rfl
  · rw [same]
    rfl

end Memory

/-- A working attempt keeps working beside the other agents. -/
theorem working_step {state next : ControllerState} {event : Event}
    {attemptId owner : Nat} (working : Working attemptId owner state)
    (bystanding : Bystanding attemptId owner state event)
    (step : controllerMachine.step state event = some next) :
    Working attemptId owner next := by
  rcases Option.map_eq_some_iff.mp step with ⟨segment, taken, rfl⟩
  rcases working.stored with ⟨row, stored, owned, live, kept⟩
  cases event with
  | connect agentId =>
    cases taken
    exact working_of_aside working ⟨rfl, fun _ => Iff.rfl⟩
      (List.mem_cons_of_mem _ working.connected)
  | capabilities agentId restarted =>
    cases taken
    cases restarted with
    | false =>
      exact working_of_aside working ⟨rfl, fun _ => Iff.rfl⟩
        working.connected
    | true =>
      have other : agentId ≠ owner := fun same =>
        absurd (bystanding same) (by decide)
      apply working_of_aside working
        (aside_onAgentRestarted stored owned other)
      show _ ∈ (state.onAgentRestarted agentId).memory.connectedAgents
      rw [memory_onAgentRestarted]
      exact working.connected
  | heartbeat agentId =>
    cases taken
    rcases renewed_row agentId stored with
      ⟨after, there, sameAgent, sameState⟩
    refine ⟨⟨after, there, sameAgent.trans owned, ?_, ?_⟩,
      working.connected, working.noGrace, working.noReconcile⟩
    · unfold AttemptRow.live
      rw [sameState]
      exact live
    · rw [sameState]
      exact kept
  | disconnect agentId =>
    cases taken
    apply working_of_aside working
      (aside_onAgentDisconnect stored owned bystanding)
    rw [memory_onAgentDisconnect, List.mem_filter, decide_eq_true_eq]
    exact ⟨working.connected, Ne.symm bystanding⟩
  | timer kind name =>
    unfold ControllerState.segment at taken
    dsimp only at taken
    split at taken
    next armed =>
      cases taken
      have connected : owner ∈
          (state.onTimer kind name).memory.connectedAgents := by
        rw [memory_onTimer]
        exact working.connected
      by_cases same : name = attemptId
      · subst same
        cases kind with
        | grace => exact absurd armed working.noGrace
        | reconcile => exact absurd armed working.noReconcile
        | orphan =>
          simp only [ControllerState.onTimer,
            ControllerState.onOrphanTimeout, stored, if_neg kept]
          refine ⟨⟨row, stored, owned, live, kept⟩,
            working.connected, ?_, ?_⟩
          · exact fun back => working.noGrace (mem_clearTimer.mp back).1
          · exact fun back =>
              working.noReconcile (mem_clearTimer.mp back).1
      · exact working_of_aside working (aside_onTimer same) connected
    next => cases taken
  | recoveryReport agentId report =>
    cases taken
    by_cases same : report.header.attemptId = attemptId
    · exact absurd working (bystanding same).2
    · apply working_of_aside working (aside_onRecoveryReport same)
      rw [memory_onRecoveryReport]
      exact working.connected
  | _ => exact absurd bystanding id

/-- The attempt of a job that runs on agent 1. -/
def startedAttempt (identity : Option Nat) : AttemptRow where
  jobId := 0
  ordinal := 1
  agentId := some 1
  leaseId := 0
  leaseEpoch := 1
  leaseDeadline := some 300
  state := .running
  outcome := none
  logAckedSequence := 0
  processIdentity := identity

/-- A report about the attempt. -/
def startedReport : RecoveryReport where
  header := { attemptId := 0, leaseId := 0, leaseEpoch := 1 }
  awaitingUpload := false
  processIdentity := 7

/-- The rows of the attempts, their timers and the connected agents. -/
def recoveryView (state : ControllerState) :
    List AttemptRow × List (TimerKind × Nat) × List Nat :=
  (state.db.attempts, state.memory.timers, state.memory.connectedAgents)

/-- A running attempt of a connected agent, and another agent. -/
theorem startedRun_state :
    ∃ state, controllerMachine.run freshController
        (startedRun (some 7) ++ [.connect 2]) = some state ∧
      controllerMachine.Reachable (fun _ _ => True) state ∧
      recoveryView state = ([startedAttempt (some 7)], [], [2, 1]) := by
  have run :
      (controllerMachine.run freshController
        (startedRun (some 7) ++ [.connect 2])).map recoveryView =
        some ([startedAttempt (some 7)], [], [2, 1]) := by
    decide +kernel
  rcases Option.map_eq_some_iff.mp run with ⟨state, ran, view⟩
  exact ⟨state, ran, Machine.reachable_of_run freshController_initial ran,
    view⟩

theorem startedRun_working {state : ControllerState}
    (view : recoveryView state =
      ([startedAttempt (some 7)], [], [2, 1])) :
    Working 0 1 state := by
  have attempts : state.db.attempts = [startedAttempt (some 7)] :=
    congrArg Prod.fst view
  have timers : state.memory.timers = [] :=
    congrArg (fun view => view.2.1) view
  have connected : state.memory.connectedAgents = [2, 1] :=
    congrArg (fun view => view.2.2) view
  constructor
  · refine ⟨startedAttempt (some 7), ?_, rfl, by decide, by decide⟩
    unfold Database.getAttempt
    rw [attempts]
    rfl
  · rw [connected]
    decide
  · rw [timers]
    nofun
  · rw [timers]
    nofun

end Rbo.Controller.Execution
