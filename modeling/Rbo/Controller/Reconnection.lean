import Rbo.Controller.RecoveryReports

/-!
# Reconnection within the grace window

When the agent of an attempt reconnects, its own report disarms the timers and
the attempt goes on, if the Controller has stored the identity that the agent
reports.  From then on the row is only written by the frames of its agent, by
renewals of its lease and by what ends it.
-/

namespace Rbo.Controller.Execution

open Rbo.Foundation
open Rbo.Controller.Lifecycle

/-! ## What may happen to a row -/

/-- An update that leaves the fence of an attempt, renews its lease if
anything, and ends it or leaves it in some states. -/
def Keeps (states : List AttemptState) (clock : Nat) (row : AttemptRow)
    (fields : AttemptFields) : Prop :=
  fields.leaseEpoch = none ∧
    (∀ deadline ∈ fields.leaseDeadline, clock < deadline) ∧
    ∀ moved ∈ fields.state,
      moved = .completed ∨ moved ∈ states ∧ row.live

/-- An attempt under its fence: completed, or in some states with a lease
that has not expired. -/
structure Held (header : LeaseHeader) (owner : Nat)
    (states : List AttemptState) (clock : Nat) (row : AttemptRow) :
    Prop where
  leaseId : row.leaseId = header.leaseId
  leaseEpoch : row.leaseEpoch = header.leaseEpoch
  agentId : row.agentId = some owner
  state : row.state = .completed ∨ row.state ∈ states
  lease : row.live → ∀ deadline ∈ row.leaseDeadline, clock < deadline

section Rows

variable {header : LeaseHeader} {owner clock : Nat}
  {states : List AttemptState} {row : AttemptRow}

theorem completed_updates {updates : List AttemptFields}
    (completed : row.state = .completed)
    (keeps : ∀ fields ∈ updates, Keeps states clock row fields) :
    (updates.foldl AttemptRow.update row).state = .completed := by
  apply List.foldlRecOn updates AttemptRow.update
    (motive := fun after => after.state = .completed) completed
  intro after stays fields member
  show fields.state.getD after.state = .completed
  cases set : fields.state with
  | none => exact stays
  | some moved =>
    apply ((keeps fields member).2.2 moved set).resolve_right
    rintro ⟨_, live⟩
    exact live completed

/-- Updates that keep the row leave it under its fence. -/
theorem held_updates {updates : List AttemptFields}
    (held : Held header owner states clock row)
    (keeps : ∀ fields ∈ updates, Keeps states clock row fields) :
    Held header owner states clock
      (updates.foldl AttemptRow.update row) := by
  have fenced :
      (updates.foldl AttemptRow.update row).leaseId = header.leaseId ∧
        (updates.foldl AttemptRow.update row).leaseEpoch =
          header.leaseEpoch ∧
        (updates.foldl AttemptRow.update row).agentId = some owner := by
    apply List.foldlRecOn updates AttemptRow.update
      (motive := fun after => after.leaseId = header.leaseId ∧
        after.leaseEpoch = header.leaseEpoch ∧ after.agentId = some owner)
      ⟨held.leaseId, held.leaseEpoch, held.agentId⟩
    rintro after ⟨leaseId, leaseEpoch, agentId⟩ fields member
    refine ⟨leaseId, ?_, agentId⟩
    show fields.leaseEpoch.getD after.leaseEpoch = header.leaseEpoch
    rw [(keeps fields member).1]
    exact leaseEpoch
  by_cases completed : row.state = .completed
  · have stays := completed_updates completed keeps
    exact ⟨fenced.1, fenced.2.1, fenced.2.2, Or.inl stays,
      fun live => absurd stays live⟩
  · have both :
        ((updates.foldl AttemptRow.update row).state = .completed ∨
          (updates.foldl AttemptRow.update row).state ∈ states) ∧
        ∀ deadline ∈
          (updates.foldl AttemptRow.update row).leaseDeadline,
            clock < deadline := by
      apply List.foldlRecOn updates AttemptRow.update
        (motive := fun after =>
          (after.state = .completed ∨ after.state ∈ states) ∧
            ∀ deadline ∈ after.leaseDeadline, clock < deadline)
        ⟨held.state, held.lease completed⟩
      rintro after ⟨state, lease⟩ fields member
      rcases keeps fields member with ⟨_, renews, moves⟩
      constructor
      · show fields.state.getD after.state = .completed ∨
          fields.state.getD after.state ∈ states
        cases set : fields.state with
        | none => exact state
        | some moved => exact (moves moved set).imp_right And.left
      · intro deadline there
        have either :
            deadline ∈ fields.leaseDeadline.or after.leaseDeadline := there
        cases set : fields.leaseDeadline with
        | none =>
          rw [set] at either
          exact lease deadline either
        | some renewed =>
          rw [set] at either
          exact renews deadline (set ▸ either)
    exact ⟨fenced.1, fenced.2.1, fenced.2.2, both.1, fun _ => both.2⟩

/-- Columns that are neither the fence, the lease nor the state. -/
theorem keeps_columns {fields : AttemptFields}
    (noEpoch : fields.leaseEpoch = none)
    (noDeadline : fields.leaseDeadline = none)
    (noState : fields.state = none) : Keeps states clock row fields := by
  refine ⟨noEpoch, ?_, ?_⟩
  · rw [noDeadline]
    nofun
  · rw [noState]
    nofun

end Rows

/-! ## What segments do to a row -/

/-- A segment that keeps the row of an attempt. -/
def KeepsRow (header : LeaseHeader) (states : List AttemptState)
    (state : ControllerState) (row : AttemptRow) (effects : List Effect) :
    Prop :=
  ∀ fields ∈ updatesOf header.attemptId effects,
    Keeps states state.memory.clock row fields

section Segments

variable {state : ControllerState} {header : LeaseHeader} {owner : Nat}
  {states : List AttemptState} {row : AttemptRow}

theorem keepsRow_of_none {effects : List Effect}
    (none : updatesOf header.attemptId effects = []) :
    KeepsRow header states state row effects := by
  intro fields member
  rw [none] at member
  cases member

theorem keepsRow_append {first second : List Effect}
    (keepsFirst : KeepsRow header states state row first)
    (keepsSecond : KeepsRow header states state row second) :
    KeepsRow header states state row (first ++ second) := by
  intro fields member
  rw [updatesOf_append] at member
  rcases List.mem_append.mp member with there | there
  · exact keepsFirst fields there
  · exact keepsSecond fields there

theorem keepsRow_update {name : Nat} {fields : AttemptFields}
    {effects : List Effect}
    (keeps : name = header.attemptId →
      Keeps states state.memory.clock row fields)
    (rest : KeepsRow header states state row effects) :
    KeepsRow header states state row
      (updateAttempt name fields :: effects) := by
  intro other member
  rw [updatesOf_update] at member
  rcases List.mem_append.mp member with there | there
  · split at there
    next same =>
      rw [List.mem_singleton.mp there]
      exact keeps same
    next => cases there
  · exact rest other there

theorem keeps_of_plain {name : Nat} {fields : AttemptFields}
    (plain : (updateAttempt name fields).plain = true) :
    Keeps states state.memory.clock row fields := by
  rcases of_decide_eq_true (p := _ ∧ _) plain with ⟨epoch, deadline, _, moves⟩
  refine ⟨epoch, ?_, ?_⟩
  · rw [deadline]
    nofun
  · intro moved reached
    rcases moves with none | completed
    · rw [none] at reached
      cases reached
    · rw [completed] at reached
      exact Or.inl (Option.some.inj reached).symm

/-- What keeps the row of an attempt past its start, without a local run: all
causes but the end of its grace period and its reports. -/
theorem keepsRow_of_caused {event : Event} {effects : List Effect}
    (stored : state.db.getAttempt header.attemptId = some row)
    (held : Held header owner states state.memory.clock row)
    (collects : .collectingArtifacts ∈ states)
    (started : ∀ moved ∈ states,
      moved = .running ∨ moved = .collectingArtifacts)
    (remote : ∀ jobId, (jobId, header.attemptId) ∉ state.running)
    (timer : event ≠ .timer .grace header.attemptId)
    (report : ∀ agentId report, event = .recoveryReport agentId report →
      report.header.attemptId ≠ header.attemptId)
    (caused : Caused state event effects) :
    KeepsRow header states state row effects := by
  have past : row.state ≠ .leasing ∧ row.state ≠ .preparingSource := by
    rcases held.state with is | inside
    · rw [is]
      decide
    · rcases started _ inside with is | is <;> rw [is] <;> decide
  intro fields member
  have there := mem_updatesOf.mp member
  clear held member
  generalize header.attemptId = attemptId at *
  cases caused _ there with
  | plain is => exact keeps_of_plain is
  | renewed later =>
    refine ⟨rfl, ?_, nofun⟩
    rintro _ ⟨⟩
    exact later
  | supervised runs => exact absurd runs (remote _)
  | moved found live reached =>
    cases stored.symm.trans found
    rcases reached with ⟨early, _⟩ | ⟨early, _⟩ | rfl
    · exact absurd early past.1
    · exact absurd early past.2
    · refine ⟨rfl, nofun, ?_⟩
      rintro _ ⟨⟩
      exact Or.inr ⟨collects, live⟩
  | rejected found leasing =>
    cases stored.symm.trans found
    exact absurd leasing past.1
  | identified => exact keeps_columns rfl rfl rfl
  | orphaned => exact absurd rfl timer
  | adopted => exact absurd rfl (report _ _ rfl)

theorem keepsRow_segment {event : Event} {segment : Segment}
    (stored : state.db.getAttempt header.attemptId = some row)
    (held : Held header owner states state.memory.clock row)
    (collects : .collectingArtifacts ∈ states)
    (started : ∀ moved ∈ states,
      moved = .running ∨ moved = .collectingArtifacts)
    (remote : ∀ jobId, (jobId, header.attemptId) ∉ state.running)
    (timer : event ≠ .timer .grace header.attemptId)
    (report : ∀ agentId report, event = .recoveryReport agentId report →
      report.header.attemptId ≠ header.attemptId)
    (taken : state.segment event = some segment) :
    KeepsRow header states state row segment.effects := by
  cases shape_segment taken with
  | calm effects _ =>
    exact keepsRow_of_caused stored held collects started remote timer report
      effects
  | remote found initiated =>
    unfold ControllerState.initiateRemoteAttempt at initiated
    split at initiated <;> cases initiated
    exact keepsRow_of_none rfl
  | _ => exact keepsRow_of_none rfl

end Segments

/-! ## Local runs -/

/-- The attempts of local runs have no agent. -/
def LocalRuns (state : ControllerState) : Prop :=
  ∀ jobId attemptId, (jobId, attemptId) ∈ state.running →
    ∃ row, state.db.getAttempt attemptId = some row ∧ row.agentId = none

section Local

variable {state : ControllerState} {segment : Segment} {index : Nat}

theorem agentId_updates {updates : List AttemptFields} {row : AttemptRow} :
    (updates.foldl AttemptRow.update row).agentId = row.agentId :=
  List.foldlRecOn updates AttemptRow.update
    (motive := fun after => after.agentId = row.agentId) rfl
    fun after same fields _ =>
      (rfl : (after.update fields).agentId = after.agentId).trans same

theorem localRuns_of_subset (localRuns : LocalRuns state)
    (runs : segment.memory.tasks.filterMap Task.running ⊆ state.running) :
    LocalRuns (state.after segment) := by
  intro jobId attemptId member
  rcases localRuns jobId attemptId (runs member) with ⟨row, stored, none⟩
  exact ⟨_, getAttempt_after stored, agentId_updates.trans none⟩

theorem running_finish {rest : List Nat} :
    (state.memory.finish index rest).tasks.filterMap Task.running ⊆
      state.running := by
  rw [Memory.finish_tasks]
  split
  · exact keys_eraseIdx_sublist.subset
  · rw [keys_set_none rfl]
    exact keys_eraseIdx_sublist.subset

theorem running_dispatch {jobId : Nat} {rest : List Nat} :
    (state.memory.spawn (.dispatch jobId rest)).tasks.filterMap
      Task.running ⊆ state.running := by
  rw [Memory.spawn_tasks, List.filterMap_append,
    List.filterMap_cons_none rfl, List.filterMap_nil, List.append_nil]
  exact List.Subset.refl _

theorem localRuns_start (localRuns : LocalRuns state) (jobId : Nat)
    (rest : List Nat) :
    LocalRuns
      (state.after
        { effects := [.write (.insertAttempt (state.localAttempt jobId))]
          memory :=
            state.memory.replace index
              (.localRun .preparing jobId state.db.attempts.length
                rest) }) := by
  intro job attemptId member
  by_cases new : attemptId = state.db.attempts.length
  · refine ⟨state.localAttempt jobId, ?_, rfl⟩
    show (state.db.write
      (.insertAttempt (state.localAttempt jobId))).getAttempt _ = _
    rw [Database.getAttempt_insertAttempt, if_pos new]
  · have old : (job, attemptId) ∈ state.running := by
      rcases List.mem_filterMap.mp member with ⟨task, there, runs⟩
      rcases List.mem_or_eq_of_mem_set there with before | rfl
      · exact List.mem_filterMap.mpr ⟨task, before, runs⟩
      · cases runs
        exact absurd rfl new
    rcases localRuns job attemptId old with ⟨row, stored, none⟩
    exact ⟨_, getAttempt_after stored, agentId_updates.trans none⟩

theorem step_localRuns {next : ControllerState} {event : Event}
    (localRuns : LocalRuns state)
    (step : controllerMachine.step state event = some next) :
    LocalRuns next := by
  rcases Option.map_eq_some_iff.mp step with ⟨segment, taken, rfl⟩
  cases shape_segment taken with
  | calm _ tidy => exact localRuns_of_subset localRuns tidy.running
  | sweeps found =>
    apply localRuns_of_subset localRuns
    exact (keys_set_sublist found (Or.inr rfl)).subset
  | remote => exact localRuns_of_subset localRuns running_finish
  | localRun => exact localRuns_start localRuns _ _
  | _ => exact localRuns_of_subset localRuns running_dispatch

theorem reachable_localRuns
    (reachable : controllerMachine.Reachable (fun _ _ => True) state) :
    LocalRuns state := by
  have preserved : ∀ state event next, LocalRuns state → True →
      controllerMachine.step state event = some next → LocalRuns next :=
    fun _ _ _ localRuns _ step => step_localRuns localRuns step
  apply reachable.invariant _ preserved
  rintro initial ⟨limit, rfl⟩ jobId attemptId member
  cases member

/-- An attempt of an agent has no local run. -/
theorem remote_of_localRuns {row : AttemptRow} {attemptId owner : Nat}
    (localRuns : LocalRuns state)
    (stored : state.db.getAttempt attemptId = some row)
    (owned : row.agentId = some owner) (jobId : Nat) :
    (jobId, attemptId) ∉ state.running := by
  intro member
  rcases localRuns jobId attemptId member with ⟨found, there, none⟩
  rw [stored, Option.some.injEq] at there
  rw [← there, owned] at none
  cases none

end Local

/-! ## Steps that keep a row -/

/-- A report of a live attempt under its fence, with the identity that is
stored; it awaits its upload when the exit of the process is known. -/
def Answers (state : ControllerState) (report : RecoveryReport) : Prop :=
  ∀ row, state.db.getAttempt report.header.attemptId = some row →
    row.live →
    row.leaseId = report.header.leaseId ∧
      row.leaseEpoch = report.header.leaseEpoch ∧
      row.processIdentity = some report.processIdentity ∧
      (row.state = .collectingArtifacts → report.awaitingUpload = true)

/-- The clock does not reach the deadline of the attempt's lease. -/
def InTime (attemptId : Nat) (state : ControllerState) (seconds : Nat) :
    Prop :=
  ∀ row, state.db.getAttempt attemptId = some row → row.live →
    ∀ deadline ∈ row.leaseDeadline, state.memory.clock + seconds < deadline

/-- A step that neither lets the lease expire, nor a timer that could end the
attempt, nor brings a report that does not answer. -/
def Gentle (header : LeaseHeader) (owner : Nat) (state : ControllerState) :
    Event → Prop
  | .tick seconds => InTime header.attemptId state seconds
  | .timer kind name => name = header.attemptId → kind ≠ .orphan →
      (kind, name) ∉ state.memory.timers
  | .recoveryReport agentId report =>
    report.header.attemptId = header.attemptId →
      agentId = owner ∧ Answers state report
  | _ => True

/-- A segment that does not end an attempt. -/
def SparesRow (attemptId : Nat) (effects : List Effect) : Prop :=
  ∀ fields ∈ updatesOf attemptId effects, fields.state ≠ some .completed

section Steps

variable {state next : ControllerState} {header : LeaseHeader}
  {owner : Nat} {states : List AttemptState} {row : AttemptRow}

theorem sparesRow_of_none {attemptId : Nat} {effects : List Effect}
    (none : updatesOf attemptId effects = []) :
    SparesRow attemptId effects := by
  intro fields member
  rw [none] at member
  cases member

/-- The report of the agent of an attempt, when it answers. -/
theorem report_of_owner {report : RecoveryReport}
    (stored : state.db.getAttempt header.attemptId = some row)
    (held : Held header owner states state.memory.clock row)
    (running : .running ∈ states ∨ ∀ moved ∈ states,
      moved = .collectingArtifacts)
    (collects : .collectingArtifacts ∈ states)
    (own : report.header.attemptId = header.attemptId)
    (answers : Answers state report) :
    KeepsRow header states state row
        (state.onRecoveryReport owner report).effects ∧
      (∀ kind, (kind, header.attemptId) ∉
        (state.onRecoveryReport owner report).memory.timers) ∧
      SparesRow header.attemptId
        (state.onRecoveryReport owner report).effects := by
  have cleared : ∀ kind, (kind, header.attemptId) ∉
      (state.memory.clearAllTimersFor header.attemptId).timers :=
    fun kind armed => (mem_clearAllTimersFor.mp armed).2 rfl
  unfold ControllerState.onRecoveryReport
  simp only [own, stored]
  by_cases live : row.live
  · rw [if_neg (not_not_intro live)]
    rcases answers row (own ▸ stored) live with
      ⟨leaseId, leaseEpoch, identity, uploads⟩
    have adopted : staleReason owner row report = none :=
      staleReason_eq_none.mpr ⟨held.agentId, leaseEpoch, leaseId, identity⟩
    rw [if_neg (by rw [identity]; nofun), adopted]
    refine ⟨?_, cleared, ?_⟩
    · apply keepsRow_append (keepsRow_of_none updatesOf_sendFrame)
      apply keepsRow_update _ (keepsRow_of_none rfl)
      intro _
      refine ⟨rfl, nofun, ?_⟩
      intro moved set
      right
      refine ⟨?_, live⟩
      have reached := Option.some.inj set
      split at reached
      · exact reached ▸ collects
      next noUpload =>
        subst reached
        rcases running with there | only
        · exact there
        · have collecting := only _ (held.state.resolve_left live)
          exact absurd (uploads collecting) noUpload
    · intro fields member
      rw [updatesOf_append, updatesOf_sendFrame, List.nil_append,
        updatesOf_update, if_pos rfl] at member
      rw [List.mem_singleton.mp member]
      dsimp only
      split
      · nofun
      · nofun
  · rw [if_pos live]
    exact ⟨keepsRow_of_none updatesOf_sendFrame, cleared,
      sparesRow_of_none updatesOf_sendFrame⟩

/-- A gentle step keeps the row of an attempt past its start. -/
theorem held_step {event : Event} (localRuns : LocalRuns state)
    (stored : state.db.getAttempt header.attemptId = some row)
    (held : Held header owner states state.memory.clock row)
    (running : .running ∈ states ∨ ∀ moved ∈ states,
      moved = .collectingArtifacts)
    (collects : .collectingArtifacts ∈ states)
    (started : ∀ moved ∈ states,
      moved = .running ∨ moved = .collectingArtifacts)
    (gentle : Gentle header owner state event)
    (step : controllerMachine.step state event = some next) :
    ∃ after, next.db.getAttempt header.attemptId = some after ∧
      Held header owner states next.memory.clock after := by
  rcases Option.map_eq_some_iff.mp step with ⟨segment, taken, rfl⟩
  have concludes : segment.memory.clock = state.memory.clock →
      KeepsRow header states state row segment.effects →
      ∃ after,
        (state.after segment).db.getAttempt header.attemptId = some after ∧
          Held header owner states (state.after segment).memory.clock
            after := by
    intro clock keeps
    refine ⟨_, getAttempt_after stored, ?_⟩
    show Held header owner states segment.memory.clock _
    rw [clock]
    exact held_updates held keeps
  have remote := remote_of_localRuns localRuns stored held.agentId
  have apart {other : Event} (taken : state.segment other = some segment)
      (timer : other ≠ .timer .grace header.attemptId)
      (report : ∀ agentId report, other = .recoveryReport agentId report →
        report.header.attemptId ≠ header.attemptId) :
      KeepsRow header states state row segment.effects :=
    keepsRow_segment stored held collects started remote timer report taken
  cases event with
  | tick seconds =>
    cases taken
    refine ⟨row, stored, held.leaseId, held.leaseEpoch, held.agentId,
      held.state, ?_⟩
    exact gentle row stored
  | capabilities agentId restarted =>
    refine concludes ?_ (apart taken nofun nofun)
    cases taken
    cases restarted with
    | false => rfl
    | true =>
      show (state.onAgentRestarted agentId).memory.clock = _
      rw [memory_onAgentRestarted]
  | disconnect agentId =>
    refine concludes ?_ (apart taken nofun nofun)
    cases taken
    rw [memory_onAgentDisconnect]
  | timer kind name =>
    have keeps := apart taken
    unfold ControllerState.segment at taken
    dsimp only at taken
    split at taken
    next armed =>
      cases taken
      refine concludes (by rw [memory_onTimer]) (keeps ?_ nofun)
      rintro ⟨⟩
      exact gentle rfl (by decide) armed
    next => cases taken
  | recoveryReport agentId report =>
    have keeps := apart taken nofun
    cases taken
    apply concludes (by rw [memory_onRecoveryReport])
    by_cases own : report.header.attemptId = header.attemptId
    · rcases gentle own with ⟨rfl, answers⟩
      exact (report_of_owner stored held running collects own answers).1
    · apply keeps
      rintro _ _ ⟨⟩
      exact own
  | restart =>
    cases taken
    exact concludes rfl (keepsRow_of_none rfl)
  | _ => exact concludes (blind_segment rfl taken).clock (apart taken nofun nofun)

/-! ## Sweeps, timers and connections -/

/-- What the clock, the sweeps, the timers and the connections bring. -/
def Event.watches : Event → Prop
  | .leaseSweep => True
  | .tick _ => True
  | .connect _ => True
  | .capabilities _ _ => True
  | .heartbeat _ => True
  | .disconnect _ => True
  | .timer _ _ => True
  | .recoveryReport _ _ => True
  | _ => False

/-- The process of the agent is the one that the Controller knows. -/
def SameProcess (owner : Nat) : Event → Prop
  | .capabilities agentId restarted => agentId = owner → restarted = false
  | _ => True

theorem live_updates {updates : List AttemptFields} (live : row.live)
    (spares : ∀ fields ∈ updates, fields.state ≠ some .completed) :
    (updates.foldl AttemptRow.update row).live := by
  apply List.foldlRecOn updates AttemptRow.update
    (motive := fun after => after.live) live
  intro after lives fields member
  show fields.state.getD after.state ≠ .completed
  cases set : fields.state with
  | none => exact lives
  | some moved =>
    rintro rfl
    exact spares fields member set

theorem sparesRow_leaseSweep
    (stored : state.db.getAttempt header.attemptId = some row)
    (held : Held header owner states state.memory.clock row)
    (live : row.live) :
    SparesRow header.attemptId
      (state.expireStaleLeases ++ state.expireStaleConfirmations) := by
  intro fields member
  rw [updatesOf_append] at member
  rcases List.mem_append.mp member with expired | asked
  · rcases mem_updatesOf_flatMap.mp expired with ⟨pair, swept, updated⟩
    rw [updatesOf_closeAttempt] at updated
    split at updated
    next own =>
      rcases ControllerState.mem_attemptIds.mp swept with ⟨found, due⟩
      rw [own, stored, Option.some.injEq] at found
      rw [← found] at due
      rcases (of_decide_eq_true due).2.2 with ⟨deadline, there, passed⟩
      have ahead := held.lease live deadline there
      exact absurd passed (Nat.not_le.mpr ahead)
    next => cases updated
  · unfold ControllerState.expireStaleConfirmations at asked
    rw [← List.flatMap_singleton' (List.map _ _), List.flatMap_map] at asked
    rcases mem_updatesOf_flatMap.mp asked with ⟨pair, _, updated⟩
    cases updated

theorem sparesRow_heartbeat (agentId : Nat) :
    SparesRow header.attemptId (state.renewActiveLease agentId) := by
  intro fields member
  unfold ControllerState.renewActiveLease at member
  rw [← List.flatMap_singleton' (List.map _ _), List.flatMap_map] at member
  rcases mem_updatesOf_flatMap.mp member with ⟨pair, _, updated⟩
  rw [updatesOf_update] at updated
  split at updated
  · rw [List.mem_singleton.mp updated]
    nofun
  · cases updated

/-- An attempt past its start waits for its agent when the socket drops. -/
theorem sparesRow_disconnect {agentId : Nat}
    (stored : state.db.getAttempt header.attemptId = some row)
    (past : ¬ ControllerState.isPreStart row) :
    SparesRow header.attemptId (state.onAgentDisconnect agentId).effects := by
  intro fields member
  rcases mem_updatesOf_flatMap.mp member with ⟨pair, swept, updated⟩
  rcases mem_liveAttemptsOf.mp swept with ⟨found, _, _⟩
  split at updated
  next early =>
    rw [updatesOf_closeAttempt] at updated
    split at updated
    next own =>
      rw [own, stored, Option.some.injEq] at found
      exact absurd (found ▸ early) past
    next => cases updated
  next =>
    rw [updatesOf_update] at updated
    split at updated
    · rw [List.mem_singleton.mp updated]
      nofun
    · cases updated

/-- No sweep, timer or connection ends an attempt past its start, if its
process is the same and the step is gentle. -/
theorem spared_step {event : Event}
    (stored : state.db.getAttempt header.attemptId = some row)
    (held : Held header owner [.running, .collectingArtifacts]
      state.memory.clock row)
    (live : row.live) (watches : event.watches)
    (same : SameProcess owner event)
    (gentle : Gentle header owner state event)
    (step : controllerMachine.step state event = some next) :
    ∃ after, next.db.getAttempt header.attemptId = some after ∧
      after.live := by
  rcases Option.map_eq_some_iff.mp step with ⟨segment, taken, rfl⟩
  have at_work : row.state = .running ∨ row.state = .collectingArtifacts := by
    rcases List.mem_cons.mp (held.state.resolve_left live) with is | is
    · exact Or.inl is
    · exact Or.inr (List.mem_singleton.mp is)
  have concludes : SparesRow header.attemptId segment.effects →
      ∃ after,
        (state.after segment).db.getAttempt header.attemptId = some after ∧
          after.live :=
    fun spares => ⟨_, getAttempt_after stored, live_updates live spares⟩
  have nothing : SparesRow header.attemptId [] := sparesRow_of_none rfl
  cases event with
  | leaseSweep =>
    cases taken
    exact concludes (sparesRow_leaseSweep stored held live)
  | tick seconds =>
    cases taken
    exact concludes nothing
  | connect agentId =>
    cases taken
    exact concludes nothing
  | capabilities agentId restarted =>
    cases taken
    cases restarted with
    | false => exact concludes nothing
    | true =>
      have other : agentId ≠ owner := fun own =>
        absurd (same own) (by decide)
      apply concludes (sparesRow_of_none _)
      exact (aside_onAgentRestarted stored held.agentId other).updates
  | heartbeat agentId =>
    cases taken
    exact concludes (sparesRow_heartbeat agentId)
  | disconnect agentId =>
    cases taken
    apply concludes (sparesRow_disconnect stored _)
    rintro ⟨_, early⟩
    rcases at_work with is | is
    all_goals
      rw [is] at early
      exact absurd early (by decide)
  | timer kind name =>
    unfold ControllerState.segment at taken
    dsimp only at taken
    split at taken
    next armed =>
      cases taken
      apply concludes (sparesRow_of_none _)
      by_cases own : name = header.attemptId
      · have orphan : kind = .orphan := by
          apply Decidable.byContradiction
          intro other
          exact gentle own other armed
        subst orphan own
        have kept : row.state ≠ .orphaned := by
          intro orphaned
          rcases at_work with is | is
          all_goals
            rw [orphaned] at is
            cases is
        simp only [ControllerState.onTimer,
          ControllerState.onOrphanTimeout, stored, if_neg kept]
        rfl
      · exact (aside_onTimer own).updates
    next => cases taken
  | recoveryReport agentId report =>
    cases taken
    apply concludes
    by_cases own : report.header.attemptId = header.attemptId
    · rcases gentle own with ⟨rfl, answers⟩
      exact (report_of_owner stored held (Or.inl (by decide)) (by decide)
        own answers).2.2
    · exact sparesRow_of_none (aside_onRecoveryReport own).updates
  | _ => exact absurd watches id

end Steps

/-! ## The drop, the reconnection and the report -/

/-- What may happen between the drop of the socket and the agent's report:
the lease is kept, neither the grace nor the reconcile timer of the attempt
elapses, and nobody reports the attempt. -/
def Away (header : LeaseHeader) (owner : Nat) (state : ControllerState) :
    Event → Prop
  | .tick seconds => InTime header.attemptId state seconds
  | .capabilities agentId restarted => agentId = owner → restarted = false
  | .timer kind name => name = header.attemptId → kind = .orphan
  | .recoveryReport _ report => report.header.attemptId ≠ header.attemptId
  | _ => True

/-- What may happen after the report: the lease is kept, the agent stays, and
whoever reports the attempt is its agent with an answer. -/
def Back (header : LeaseHeader) (owner : Nat) (state : ControllerState) :
    Event → Prop
  | .tick seconds => InTime header.attemptId state seconds
  | .capabilities agentId restarted => agentId = owner → restarted = false
  | .disconnect agentId => agentId ≠ owner
  | .recoveryReport agentId report =>
    report.header.attemptId = header.attemptId →
      agentId = owner ∧ Answers state report
  | .restart => False
  | _ => True

/-- No timer of an attempt is armed. -/
def NoTimers (attemptId : Nat) (state : ControllerState) : Prop :=
  ∀ kind, (kind, attemptId) ∉ state.memory.timers

/-- An attempt that goes on: it stands under its fence; no sweep, timer or
connection that is allowed ends it; and the frames of its agent are
accepted while it lives. -/
structure GoesOn (header : LeaseHeader) (owner : Nat)
    (allowed : ControllerState → Event → Prop) (state : ControllerState) :
    Prop where
  held : ∃ row, state.db.getAttempt header.attemptId = some row ∧
    Held header owner [.running, .collectingArtifacts]
      state.memory.clock row
  spared : ∀ row event next,
    state.db.getAttempt header.attemptId = some row → row.live →
    event.watches → allowed state event →
    controllerMachine.step state event = some next →
    ∃ after, next.db.getAttempt header.attemptId = some after ∧
      after.live ∧ after.state ≠ .orphaned
  accepts : ∀ row, state.db.getAttempt header.attemptId = some row →
    row.live →
    (∀ sequence, state.acceptFrame owner header
      (Frame.logChunk sequence).expected = some row) ∧
    (∀ report, state.acceptFrame owner header
      (Frame.jobExit report).expected = some row) ∧
    (row.state = .collectingArtifacts → ∀ report,
      state.acceptFrame owner header
        (Frame.cleanupComplete report).expected = some row)
  exits : ∀ row report next,
    state.db.getAttempt header.attemptId = some row → row.live →
    controllerMachine.step state (.frame owner header (.jobExit report)) =
      some next →
    ∃ after, next.db.getAttempt header.attemptId = some after ∧
      after.state = .collectingArtifacts

section Runs

variable {state next : ControllerState} {header : LeaseHeader}
  {owner : Nat} {row : AttemptRow}

variable {event : Event}

theorem Away.gentle (away : Away header owner state event) :
    Gentle header owner state event := by
  cases event with
  | tick seconds => exact away
  | timer kind name => exact fun own other => absurd (away own) other
  | recoveryReport agentId report => exact fun own => absurd own away
  | _ => trivial

theorem Away.sameProcess (away : Away header owner state event) :
    SameProcess owner event := by
  cases event with
  | capabilities agentId restarted => exact away
  | _ => trivial

theorem Back.gentle (back : Back header owner state event)
    (disarmed : NoTimers header.attemptId state) :
    Gentle header owner state event := by
  cases event with
  | tick seconds => exact back
  | timer kind name => exact fun own _ => own ▸ disarmed kind
  | recoveryReport agentId report => exact back
  | _ => trivial

theorem Back.sameProcess (back : Back header owner state event) :
    SameProcess owner event := by
  cases event with
  | capabilities agentId restarted => exact back
  | _ => trivial

/-- While the agent stays, no timer of its attempt is armed. -/
theorem noTimers_step
    (stored : state.db.getAttempt header.attemptId = some row)
    (held : Held header owner [.running, .collectingArtifacts]
      state.memory.clock row) (disarmed : NoTimers header.attemptId state)
    (back : Back header owner state event)
    (step : controllerMachine.step state event = some next) :
    NoTimers header.attemptId next := by
  rcases Option.map_eq_some_iff.mp step with ⟨segment, taken, rfl⟩
  have blind : Blind state segment →
      NoTimers header.attemptId (state.after segment) := by
    intro blind kind armed
    apply disarmed kind
    rw [← blind.timers]
    exact armed
  have aside : Aside header.attemptId state segment →
      NoTimers header.attemptId (state.after segment) :=
    fun aside kind armed => disarmed kind ((aside.timers kind).mp armed)
  cases event with
  | tick seconds =>
    cases taken
    exact disarmed
  | capabilities agentId restarted =>
    cases taken
    cases restarted with
    | false => exact disarmed
    | true =>
      apply aside (aside_onAgentRestarted stored held.agentId _)
      exact fun own => absurd (back own) (by decide)
  | disconnect agentId =>
    cases taken
    exact aside (aside_onAgentDisconnect stored held.agentId back)
  | timer kind name =>
    unfold ControllerState.segment at taken
    dsimp only at taken
    split at taken
    next armed =>
      cases taken
      apply aside (aside_onTimer _)
      rintro rfl
      exact disarmed kind armed
    next => cases taken
  | recoveryReport agentId report =>
    cases taken
    by_cases own : report.header.attemptId = header.attemptId
    · rcases back own with ⟨rfl, answers⟩
      exact (report_of_owner stored held (Or.inl (by decide)) (by decide)
        own answers).2.1
    · exact aside (aside_onRecoveryReport own)
  | restart => exact absurd back id
  | _ => exact blind (blind_segment rfl taken)

variable {states : List AttemptState}

theorem mem_of_held (held : Held header owner states state.memory.clock row)
    (live : row.live) : row.state ∈ states :=
  held.state.resolve_left live

/-- The frames that the owner of a live attempt sends meet its fence. -/
theorem accept_of_held {expected : List AttemptState}
    (stored : state.db.getAttempt header.attemptId = some row)
    (held : Held header owner states state.memory.clock row) (live : row.live)
    (includes : row.state ∈ expected) :
    state.acceptFrame owner header expected = some row := by
  apply ControllerState.acceptFrame_eq_some.mpr
  refine ⟨stored, held.leaseId, held.leaseEpoch, held.agentId, ?_, includes⟩
  rintro ⟨deadline, there, passed⟩
  have ahead := held.lease live deadline there
  exact absurd passed (Nat.not_le.mpr ahead)

/-- An attempt under its fence goes on, if what is allowed is gentle. -/
theorem goesOn_of_held {allowed : ControllerState → Event → Prop}
    (stored : state.db.getAttempt header.attemptId = some row)
    (held : Held header owner [.running, .collectingArtifacts]
      state.memory.clock row)
    (localRuns : LocalRuns state)
    (gentle : ∀ event, allowed state event →
      Gentle header owner state event)
    (same : ∀ event, allowed state event → SameProcess owner event) :
    GoesOn header owner allowed state := by
  have found : ∀ other,
      state.db.getAttempt header.attemptId = some other → other = row := by
    intro other there
    rw [stored, Option.some.injEq] at there
    exact there.symm
  have logs : row.live → ∀ sequence,
      row.state ∈ (Frame.logChunk sequence).expected := by
    intro live sequence
    show row.state ∈ [.running, .collectingArtifacts] ++ [.completed]
    exact List.mem_append_left _ (mem_of_held held live)
  have exits : row.live → ∀ report,
      row.state ∈ (Frame.jobExit report).expected := by
    intro live report
    rcases List.mem_cons.mp (mem_of_held held live) with is | is
    · rw [is]
      simp [Frame.expected]
    · rw [List.mem_singleton.mp is]
      simp [Frame.expected]
  constructor
  · exact ⟨row, stored, held⟩
  · intro other event next there live watches may step
    obtain rfl := found other there
    rcases spared_step stored held live watches (same event may)
      (gentle event may) step with ⟨after, reached, lives⟩
    rcases held_step localRuns stored held (Or.inl (by decide)) (by decide)
      (by decide) (gentle event may) step with ⟨again, also, keeps⟩
    rw [reached, Option.some.injEq] at also
    subst also
    refine ⟨after, reached, lives, ?_⟩
    intro orphaned
    have inside := mem_of_held keeps lives
    rw [orphaned] at inside
    exact absurd inside (by decide)
  · intro other there live
    obtain rfl := found other there
    refine ⟨?_, ?_, ?_⟩
    · exact fun sequence =>
        accept_of_held stored held live (logs live sequence)
    · exact fun report =>
        accept_of_held stored held live (exits live report)
    · exact fun collecting report =>
        accept_of_held stored held live (List.mem_singleton.mpr collecting)
  · intro other report next there live step
    obtain rfl := found other there
    have accepted := accept_of_held stored held live (exits live report)
    cases step
    refine ⟨_, getAttempt_after stored, ?_⟩
    unfold ControllerState.receive
    simp only [accepted, ControllerState.handleRemoteJobExit,
      ControllerState.only, updatesOf_transition, updatesOf_update]
    rfl

/-- An attempt under its fence, whatever its timers. -/
def Going (header : LeaseHeader) (owner : Nat) (state : ControllerState) :
    Prop :=
  LocalRuns state ∧
    ∃ row, state.db.getAttempt header.attemptId = some row ∧
      Held header owner [.running, .collectingArtifacts]
        state.memory.clock row

theorem Going.step (going : Going header owner state)
    (gentle : Gentle header owner state event)
    (step : controllerMachine.step state event = some next) :
    Going header owner next := by
  rcases going with ⟨localRuns, row, stored, held⟩
  exact ⟨step_localRuns localRuns step,
    held_step localRuns stored held (Or.inl (by decide)) (by decide)
      (by decide) gentle step⟩

/-- The reports are answered, so the attempt's timers stay disarmed. -/
structure Returned (header : LeaseHeader) (owner : Nat)
    (states : List AttemptState) (state : ControllerState) : Prop where
  localRuns : LocalRuns state
  disarmed : NoTimers header.attemptId state
  held : ∃ row, state.db.getAttempt header.attemptId = some row ∧
    Held header owner states state.memory.clock row

theorem held_mono {more : List AttemptState} {clock : Nat}
    (held : Held header owner states clock row) (subset : states ⊆ more) :
    Held header owner more clock row :=
  ⟨held.leaseId, held.leaseEpoch, held.agentId,
    held.state.imp_right fun inside => subset inside, held.lease⟩

theorem returned_steps {first last : ControllerState}
    (running : .running ∈ states ∨ ∀ moved ∈ states,
      moved = .collectingArtifacts) (collects : .collectingArtifacts ∈ states)
    (started : ∀ moved ∈ states,
      moved = .running ∨ moved = .collectingArtifacts)
    (returned : Returned header owner states first)
    (steps : controllerMachine.Steps (Back header owner) first last) :
    Returned header owner states last := by
  have preserved : ∀ state event next,
      Returned header owner states state → Back header owner state event →
      controllerMachine.step state event = some next →
      Returned header owner states next := by
    intro state event next returned back step
    rcases returned.held with ⟨row, stored, held⟩
    have subset : states ⊆ [.running, .collectingArtifacts] := by
      intro moved member
      rcases started moved member with rfl | rfl
      · exact List.mem_cons_self
      · exact List.mem_cons_of_mem _ List.mem_cons_self
    exact ⟨step_localRuns returned.localRuns step,
      noTimers_step stored (held_mono held subset) returned.disarmed back
        step,
      held_step returned.localRuns stored held running collects started
        (back.gentle returned.disarmed) step⟩
  exact steps.preserves preserved returned

end Runs

/--
An agent whose socket drops past the start of an attempt returns, and its
report finds the identity stored.  Then the attempt goes on: neither before
the report nor after it does a sweep, a timer or a connection end it, no timer
stays armed, the agent's frames are accepted, and once the exit is collected
it is collected until the attempt completes.
-/
theorem reconnected_attempt_goes_on
    {start dropped returned answered final : ControllerState}
    {header : LeaseHeader} {owner : Nat} {row : AttemptRow}
    {report : RecoveryReport}
    (reachable : controllerMachine.Reachable (fun _ _ => True) start)
    (stored : start.db.getAttempt header.attemptId = some row)
    (held : Held header owner [.running, .collectingArtifacts]
      start.memory.clock row)
    (drop : controllerMachine.step start (.disconnect owner) = some dropped)
    (away : controllerMachine.Steps (Away header owner) dropped returned)
    (own : report.header.attemptId = header.attemptId)
    (answers : Answers returned report)
    (reported : controllerMachine.step returned
      (.recoveryReport owner report) = some answered)
    (back : controllerMachine.Steps (Back header owner) answered final) :
    GoesOn header owner (Away header owner) returned ∧
      GoesOn header owner (Back header owner) final ∧
      NoTimers header.attemptId final ∧
      ∀ middle row,
        controllerMachine.Steps (Back header owner) answered middle →
        middle.db.getAttempt header.attemptId = some row →
        row.state = .collectingArtifacts →
        controllerMachine.Steps (Back header owner) middle final →
        ∃ after, final.db.getAttempt header.attemptId = some after ∧
          (after.live → after.state = .collectingArtifacts) := by
  have starts : Going header owner start :=
    ⟨reachable_localRuns reachable, row, stored, held⟩
  have dropping : Gentle header owner start (.disconnect owner) := trivial
  have drops := starts.step dropping drop
  have returns : Going header owner returned := by
    have preserved : ∀ state event next, Going header owner state →
        Away header owner state event →
        controllerMachine.step state event = some next →
        Going header owner next :=
      fun state event next goes may step => goes.step may.gentle step
    exact away.preserves preserved drops
  have answering : Gentle header owner returned
      (.recoveryReport owner report) := fun _ => ⟨rfl, answers⟩
  have goes := returns.step answering reported
  rcases returns with ⟨localRuns, before, there, stands⟩
  have disarmed : NoTimers header.attemptId answered := by
    cases reported
    exact (report_of_owner there stands (Or.inl (by decide)) (by decide)
      own answers).2.1
  have settled := returned_steps (Or.inl (by decide)) (by decide)
    (by decide) ⟨goes.1, disarmed, goes.2⟩ back
  rcases settled.held with ⟨last, found, keeps⟩
  refine ⟨?_, ?_, settled.disarmed, ?_⟩
  · exact goesOn_of_held there stands localRuns
      (fun event may => may.gentle) (fun event may => may.sameProcess)
  · exact goesOn_of_held found keeps settled.localRuns
      (fun event may => may.gentle settled.disarmed)
      (fun event may => may.sameProcess)
  · intro middle row first at_middle collecting rest
    have midway := returned_steps (Or.inl (by decide)) (by decide)
      (by decide) ⟨goes.1, disarmed, goes.2⟩ first
    rcases midway.held with ⟨same, again, holds⟩
    rw [at_middle, Option.some.injEq] at again
    subst again
    have narrow : Held header owner [.collectingArtifacts]
        middle.memory.clock row :=
      ⟨holds.leaseId, holds.leaseEpoch, holds.agentId,
        Or.inr (List.mem_singleton.mpr collecting), holds.lease⟩
    have collected := returned_steps (Or.inr (by decide)) (by decide)
      (by decide) ⟨midway.localRuns, midway.disarmed, row, at_middle,
        narrow⟩ rest
    rcases collected.held with ⟨after, reached, keeps⟩
    exact ⟨after, reached, fun live =>
      List.mem_singleton.mp (mem_of_held keeps live)⟩

/-- The fence of the attempt that runs on agent 1. -/
def startedHeader : LeaseHeader :=
  { attemptId := 0, leaseId := 0, leaseEpoch := 1 }

/-- The attempt after its agent returned; its lease was renewed when the
socket dropped. -/
def awaitedAttempt : AttemptRow :=
  { startedAttempt (some 7) with leaseDeadline := some 390 }

/-- The events of a reconnection. -/
def reconnects (_ : ControllerState) : Event → Bool
  | .connect _ => true
  | .capabilities _ restarted => !restarted
  | _ => false

theorem reconnects_away (state : ControllerState) (event : Event)
    (met : reconnects state event = true) :
    Away startedHeader 1 state event := by
  cases event with
  | connect agentId => trivial
  | capabilities agentId restarted =>
    exact fun _ => (Bool.not_eq_true' restarted).mp met
  | _ => cases met

theorem reconnected_attempt_goes_on_startedRun :
    ∃ answered final : ControllerState,
      controllerMachine.run freshController
          ((startedRun (some 7) ++ [.disconnect 1]) ++
            ([.connect 1, .capabilities 1 false] ++
              [.recoveryReport 1 startedReport])) = some answered ∧
      controllerMachine.run answered [.leaseSweep] = some final ∧
      NoTimers 0 final ∧
      GoesOn startedHeader 1 (Back startedHeader 1) final := by
  have started :
      (controllerMachine.run freshController (startedRun (some 7))).map
          (fun state => (recoveryView state, state.memory.clock)) =
        some (([startedAttempt (some 7)], [], [1]), 0) := by
    decide +kernel
  have returning :
      (controllerMachine.run freshController
          ((startedRun (some 7) ++ [.disconnect 1]) ++
            [.connect 1, .capabilities 1 false])).map recoveryView =
        some ([awaitedAttempt], [(.grace, 0)], [1]) := by
    decide +kernel
  rcases Option.map_eq_some_iff.mp started with ⟨start, ran, seen⟩
  have rows : start.db.attempts = [startedAttempt (some 7)] :=
    congrArg (fun view => view.1.1) seen
  have clock : start.memory.clock = 0 := congrArg Prod.snd seen
  have stored : start.db.getAttempt startedHeader.attemptId =
      some (startedAttempt (some 7)) := by
    unfold Database.getAttempt
    rw [rows]
    rfl
  have held : Held startedHeader 1 [.running, .collectingArtifacts]
      start.memory.clock (startedAttempt (some 7)) := by
    refine ⟨rfl, rfl, rfl, Or.inr (by decide), ?_⟩
    rintro _ deadline ⟨⟩
    rw [clock]
    decide
  have drop : controllerMachine.step start (.disconnect 1) =
      some (start.after (start.onAgentDisconnect 1)) := rfl
  rw [Machine.run_append, Machine.run_append, ran, Option.bind_some,
    Machine.run_single, drop, Option.bind_some] at returning
  rcases Option.map_eq_some_iff.mp returning with ⟨returned, back, view⟩
  have away : controllerMachine.Steps (Away startedHeader 1)
      (start.after (start.onAgentDisconnect 1)) returned :=
    Machine.steps_of_run reconnects reconnects_away rfl back
  have answers : Answers returned startedReport := by
    intro row found _
    have attempts : returned.db.attempts = [awaitedAttempt] :=
      congrArg Prod.fst view
    unfold Database.getAttempt at found
    rw [attempts] at found
    cases found
    exact ⟨rfl, rfl, rfl, nofun⟩
  have reported : controllerMachine.step returned
      (.recoveryReport 1 startedReport) =
        some (returned.after (returned.onRecoveryReport 1 startedReport)) :=
    rfl
  have swept : ∀ state : ControllerState,
      controllerMachine.step state .leaseSweep = some (state.after
        (state.only
          (state.expireStaleLeases ++ state.expireStaleConfirmations))) :=
    fun _ => rfl
  refine ⟨returned.after (returned.onRecoveryReport 1 startedReport), _, ?_,
    Machine.run_single.trans (swept _), ?_⟩
  · rw [Machine.run_append, Machine.run_append, ran, Option.bind_some,
      Machine.run_single, drop, Option.bind_some, Machine.run_append, back,
      Option.bind_some, Machine.run_single]
    exact reported
  · have goes := reconnected_attempt_goes_on
      (Machine.reachable_of_run freshController_initial ran) stored held drop away
      rfl answers reported (.single ⟨.leaseSweep, trivial, swept _⟩)
    exact ⟨goes.2.2.1, goes.2.1⟩

/-- The Controller has stored no identity, as the process runs on the agent's
host.  The agent returns and reports at once, the grace timer elapses, and the
attempt of the connected agent is lost. -/
theorem reconnected_attempt_is_lost :
    ∃ start dropped returned answered final : ControllerState,
      controllerMachine.run freshController (startedRun none) = some start ∧
      start.db.getAttempt 0 = some (startedAttempt none) ∧
      controllerMachine.step start (.disconnect 1) = some dropped ∧
      controllerMachine.Steps (Away startedHeader 1) dropped returned ∧
      controllerMachine.step returned (.recoveryReport 1 startedReport) =
        some answered ∧
      controllerMachine.run answered [.timer .grace 0, .timer .orphan 0] =
        some final ∧
      recoveryColumns final = ([(.completed, some .lost)], [], [1]) := by
  have started :
      (controllerMachine.run freshController (startedRun none)).map
          recoveryView = some ([startedAttempt none], [], [1]) := by
    decide +kernel
  have lost :
      (controllerMachine.run freshController
          (startedRun none ++
            ([.disconnect 1] ++
              ([.connect 1, .capabilities 1 false] ++
                ([.recoveryReport 1 startedReport] ++
                  [.timer .grace 0, .timer .orphan 0]))))).map
          recoveryColumns =
        some ([(.completed, some .lost)], [], [1]) := by
    decide +kernel
  rcases Option.map_eq_some_iff.mp started with ⟨start, ran, seen⟩
  rw [Machine.run_append, ran, Option.bind_some] at lost
  rcases Option.map_eq_some_iff.mp lost with ⟨final, dropping, columns⟩
  rw [Machine.run_append] at dropping
  rcases Option.bind_eq_some_iff.mp dropping with ⟨dropped, drop, returning⟩
  rw [Machine.run_append] at returning
  rcases Option.bind_eq_some_iff.mp returning with
    ⟨returned, back, answering⟩
  rw [Machine.run_append] at answering
  rcases Option.bind_eq_some_iff.mp answering with
    ⟨answered, reported, elapsed⟩
  rw [Machine.run_single] at drop reported
  refine ⟨start, dropped, returned, answered, final, ran, ?_, drop, ?_,
    reported, elapsed, columns⟩
  · have rows : start.db.attempts = [startedAttempt none] :=
      congrArg Prod.fst seen
    unfold Database.getAttempt
    rw [rows]
    rfl
  · exact Machine.steps_of_run reconnects reconnects_away rfl back

end Rbo.Controller.Execution
