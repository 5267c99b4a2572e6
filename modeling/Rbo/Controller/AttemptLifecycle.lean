import Rbo.Controller.Capacity
import Rbo.Controller.Fencing
import Rbo.Controller.SlotAgreement

/-!
# The life of an attempt

An attempt is never removed, and the columns that name it never change.  The
attempt of an agent only goes forward, from its offer over the preparation of
its source to its end, and it is not adopted before it has been started.  No
two attempts of a job have the same ordinal.
-/

namespace Rbo.Controller.Execution

open Rbo.Foundation
open Rbo.Controller.Lifecycle
open Rbo.Controller.SlotAgreement (adoption_of_sent)

/-! ## Going forward -/

/-- How far an attempt has come: offered, accepted, under way or ended. -/
def phaseOf : AttemptState → Nat
  | .starting => 0
  | .leasing => 0
  | .preparingSource => 1
  | .running => 2
  | .collectingArtifacts => 2
  | .orphaned => 2
  | .completed => 3

/-- What a later row of an attempt keeps of an earlier one. -/
structure Forward (before after : AttemptRow) : Prop where
  named : identity after = identity before
  further : phaseOf before.state ≤ phaseOf after.state
  epochs : before.leaseEpoch ≤ after.leaseEpoch
  fenced : 0 < phaseOf before.state → after.leaseEpoch = before.leaseEpoch

/-- An update that does not take a row back. -/
def Onward (row : AttemptRow) (fields : AttemptFields) : Prop :=
  (∀ epoch ∈ fields.leaseEpoch,
      row.state = .leasing ∧ row.leaseEpoch ≤ epoch) ∧
    ∀ moved ∈ fields.state, phaseOf row.state ≤ phaseOf moved

section Rows

variable {row : AttemptRow}

theorem Forward.refl : Forward row row :=
  ⟨rfl, Nat.le_refl _, Nat.le_refl _, fun _ => rfl⟩

theorem Forward.trans {middle last : AttemptRow}
    (first : Forward row middle) (second : Forward middle last) :
    Forward row last where
  named := second.named.trans first.named
  further := Nat.le_trans first.further second.further
  epochs := Nat.le_trans first.epochs second.epochs
  fenced past :=
    (second.fenced (Nat.lt_of_lt_of_le past first.further)).trans
      (first.fenced past)

theorem phaseOf_le (state : AttemptState) : phaseOf state ≤ 3 := by
  cases state <;> decide

theorem phaseOf_le_of_live (live : row.live) : phaseOf row.state ≤ 2 := by
  unfold AttemptRow.live at live
  cases is : row.state with
  | completed => exact absurd is live
  | _ => decide

theorem forward_updates {updates : List AttemptFields}
    (onward : ∀ fields ∈ updates, Onward row fields) :
    Forward row (updates.foldl AttemptRow.update row) := by
  apply List.foldlRecOn updates AttemptRow.update
    (motive := fun after => Forward row after) Forward.refl
  intro after forward fields member
  rcases onward fields member with ⟨raises, moves⟩
  refine ⟨forward.named, ?_, ?_, ?_⟩
  · show phaseOf row.state ≤ phaseOf (fields.state.getD after.state)
    cases set : fields.state with
    | none => exact forward.further
    | some moved => exact moves moved set
  · show row.leaseEpoch ≤ fields.leaseEpoch.getD after.leaseEpoch
    cases set : fields.leaseEpoch with
    | none => exact forward.epochs
    | some epoch => exact (raises epoch set).2
  · intro past
    show fields.leaseEpoch.getD after.leaseEpoch = row.leaseEpoch
    cases set : fields.leaseEpoch with
    | none => exact forward.fenced past
    | some epoch =>
      -- The epoch is raised where an offer is rejected.
      rw [(raises epoch set).1] at past
      exact absurd past (Nat.lt_irrefl 0)

end Rows

section Steps

variable {state : ControllerState} {attemptId owner : Nat}
  {row : AttemptRow} {event : Event} {segment : Segment}

/-- Only a cause updates an attempt: those that create one do not. -/
theorem cause_of_update (taken : state.segment event = some segment)
    {fields : AttemptFields}
    (member : fields ∈ updatesOf attemptId segment.effects) :
    Cause state event (updateAttempt attemptId fields) := by
  rcases (shape_segment taken).caused with
    caused | ⟨_, jobId, _, agentId, _, _, initiated⟩ | ⟨jobId, created⟩
  · exact caused _ (mem_updatesOf.mp member)
  · generalize segment.effects = effects at initiated member
    unfold ControllerState.initiateRemoteAttempt at initiated
    split at initiated <;> cases initiated
    exact absurd member List.not_mem_nil
  · rw [created] at member
    exact absurd member List.not_mem_nil

/-- Apart from the supervision of local runs, no cause takes a row back. -/
theorem onward_of_cause {fields : AttemptFields}
    (stored : state.db.getAttempt attemptId = some row)
    (remote : ∀ jobId, (jobId, attemptId) ∉ state.running)
    (cause : Cause state event (updateAttempt attemptId fields)) :
    Onward row fields := by
  cases cause with
  | plain is =>
    rcases of_decide_eq_true (p := _ ∧ _) is with ⟨epoch, _, _, moves⟩
    constructor
    · rw [epoch]
      nofun
    · intro moved reached
      rcases moves with none | completed
      · rw [none] at reached
        cases reached
      · rw [completed] at reached
        cases reached
        exact phaseOf_le _
  | supervised runs => exact absurd runs (remote _)
  | moved found live reached =>
    cases stored.symm.trans found
    refine ⟨nofun, ?_⟩
    rintro _ ⟨⟩
    rcases reached with ⟨is, rfl⟩ | ⟨is, rfl⟩ | rfl
    · rw [is]
      decide
    · rw [is]
      decide
    · exact phaseOf_le_of_live live
  | rejected found leasing =>
    cases stored.symm.trans found
    refine ⟨?_, nofun⟩
    rintro _ ⟨⟩
    exact ⟨leasing, Nat.le_succ _⟩
  | orphaned found live =>
    cases stored.symm.trans found
    refine ⟨nofun, ?_⟩
    rintro _ ⟨⟩
    exact phaseOf_le_of_live live
  | adopted found live reached =>
    cases stored.symm.trans found
    refine ⟨nofun, ?_⟩
    rintro _ ⟨⟩
    rcases reached with rfl | rfl <;> exact phaseOf_le_of_live live
  | _ => exact ⟨nofun, nofun⟩

theorem forward_segment (localRuns : LocalRuns state)
    (stored : state.db.getAttempt attemptId = some row)
    (owned : row.agentId = some owner)
    (taken : state.segment event = some segment) :
    Forward row
      ((updatesOf attemptId segment.effects).foldl AttemptRow.update row) :=
  forward_updates fun _ member =>
    onward_of_cause stored (remote_of_localRuns localRuns stored owned)
      (cause_of_update taken member)

end Steps

/--
In every run the attempt of an agent stays in its table under its names and
only goes forward: it is never offered or started again, a completed one
stays completed, and the lease epoch is fixed once the offer is accepted.
-/
theorem attempt_goes_forward (state last : ControllerState)
    (attemptId owner : Nat) (row : AttemptRow)
    (reachable : controllerMachine.Reachable (fun _ _ => True) state)
    (steps : controllerMachine.Steps (fun _ _ => True) state last)
    (stored : state.db.getAttempt attemptId = some row)
    (owned : row.agentId = some owner) :
    ∃ after, last.db.getAttempt attemptId = some after ∧
      Forward row after := by
  induction steps with
  | refl => exact ⟨row, stored, Forward.refl⟩
  | tail before step induction =>
    rcases induction with ⟨middle, there, forward⟩
    rcases step with ⟨event, _, step⟩
    rcases Option.map_eq_some_iff.mp step with ⟨segment, taken, rfl⟩
    have same : middle.agentId = row.agentId :=
      congrArg (fun names => names.2.2.1) forward.named
    refine ⟨_, getAttempt_after there, forward.trans ?_⟩
    exact forward_segment (reachable_localRuns (reachable.steps before)) there
      (same.trans owned) taken

/-- An attempt is offered; its agent accepts it and starts its process. -/
theorem attempt_goes_forward_started :
    ∃ last, controllerMachine.run freshController (startedRun (some 7)) =
        some last ∧
      ∃ after, last.db.getAttempt 0 = some after ∧
        Forward { startedAttempt none with state := .leasing } after := by
  have offer :
      (controllerMachine.run freshController
          ((startedRun (some 7)).take 3)).map
          (fun state => state.db.getAttempt 0) =
        some (some { startedAttempt none with state := .leasing }) := by
    decide +kernel
  have starts : (controllerMachine.run freshController
      (startedRun (some 7))).isSome = true := by decide +kernel
  rcases Option.map_eq_some_iff.mp offer with ⟨state, ran, stored⟩
  rcases Option.isSome_iff_exists.mp starts with ⟨last, whole⟩
  refine ⟨last, whole, ?_⟩
  rw [← List.take_append_drop 3 (startedRun _), Machine.run_append, ran,
    Option.bind_some] at whole
  exact attempt_goes_forward state last 0 1 _
    (Machine.reachable_of_run freshController_initial ran)
    (Machine.steps_of_run_eq_some whole) stored rfl

/-! ## The ordinals of attempts -/

/-- No two attempts of a job have the same ordinal. -/
def OrdinalsDiffer (db : Database) : Prop :=
  ∀ first second row other, db.getAttempt first = some row →
    db.getAttempt second = some other → first < second →
    (row.jobId, row.ordinal) ≠ (other.jobId, other.ordinal)

section Ordinals

variable {state : ControllerState}

theorem ordinalsDiffer_tame {after : Database} (tame : Tame state after)
    (differ : OrdinalsDiffer state.db) : OrdinalsDiffer after := by
  intro first second row other found later below
  rcases tame.row first row found with ⟨_, stored, tamed⟩
  rcases tame.row second other later with ⟨_, there, others⟩
  have slot {row other : AttemptRow} (same : identity row = identity other) :
      (row.jobId, row.ordinal) = (other.jobId, other.ordinal) :=
    congrArg (fun names => (names.1, names.2.1)) same
  rw [slot tamed.same, slot others.same]
  exact differ first second _ _ stored there below

theorem ordinalsDiffer_concat (differ : OrdinalsDiffer state.db)
    {created : AttemptRow}
    (free : ∀ pair ∈ state.db.attemptsOf created.jobId,
      pair.1.ordinal ≠ created.ordinal) :
    OrdinalsDiffer (state.db.write (.insertAttempt created)) := by
  intro first second row other found later below
  rw [Database.getAttempt_insertAttempt] at found later
  split at later
  · cases later
    rw [if_neg (by omega)] at found
    intro same
    have job := congrArg Prod.fst same
    exact free (row, first) (Database.mem_attemptsOf.mpr ⟨found, job⟩)
      (congrArg Prod.snd same)
  · have ⟨inside, _⟩ := List.getElem?_eq_some_iff.mp later
    rw [if_neg (by omega)] at found
    exact differ first second row other found later below

/-- The insert of a local run is only reached when its ordinal is free. -/
theorem ordinal_free {index jobId : Nat} {rest : List Nat} {row : AttemptRow}
    (inserts : (state.startLocalRun index jobId rest).effects =
      [.write (.insertAttempt row)]) :
    ∀ pair ∈ state.db.attemptsOf jobId, pair.1.ordinal ≠ 1 := by
  unfold ControllerState.startLocalRun at inserts
  split at inserts
  · cases inserts
  · split at inserts
    · cases inserts
    next free => exact fun pair member first => free ⟨pair, member, first⟩

theorem step_ordinalsDiffer {next : ControllerState} {event : Event}
    (differ : OrdinalsDiffer state.db)
    (step : controllerMachine.step state event = some next) :
    OrdinalsDiffer next.db := by
  rcases Option.map_eq_some_iff.mp step with ⟨segment, taken, rfl⟩
  have kept (caused : Caused state event segment.effects) :
      OrdinalsDiffer (state.after segment).db :=
    ordinalsDiffer_tame (tame_writes (quiet_of_caused caused)) differ
  cases shape_segment taken with
  | remote found initiated =>
    cases (initiateRemoteAttempt_eq_some initiated).2
    apply ordinalsDiffer_concat differ
    intro pair member
    exact Nat.ne_of_lt (Nat.lt_succ_of_le ((Database.le_foldl_max
      (fun pair : AttemptRow × Nat => pair.1.ordinal) _ 0).2 pair member))
  | localRun found =>
    have resumed := taken
    dsimp only [ControllerState.segment] at resumed
    unfold ControllerState.resume at resumed
    rw [found] at resumed
    exact ordinalsDiffer_concat differ (ordinal_free
      (congrArg Segment.effects (Option.some.inj resumed)))
  | calm effects _ => exact kept effects
  | submitted => exact kept (caused_submitted _)
  | confirmed found waiting =>
    exact kept (caused_cons (.confirmed found waiting) caused_nil)
  | swept => exact kept caused_nil
  | sweeps => exact kept caused_nil

end Ordinals

/-- An attempt whose process is known belongs to an agent and was started. -/
def Started (state : ControllerState) : Prop :=
  ∀ attemptId row identity, state.db.getAttempt attemptId = some row →
    row.processIdentity = some identity →
      row.agentId ≠ none ∧ 2 ≤ phaseOf row.state

section Adoption

variable {state : ControllerState} {event : Event} {segment : Segment}

theorem identity_set {row : AttemptRow} {updates : List AttemptFields}
    {identity : Nat} (known : (updates.foldl AttemptRow.update
      row).processIdentity = some identity) :
    row.processIdentity = some identity ∨
      ∃ fields ∈ updates, fields.processIdentity = some identity := by
  induction updates generalizing row with
  | nil => exact Or.inl known
  | cons fields updates induction =>
    rcases induction known with set | ⟨later, member, sets⟩
    · rcases Option.or_eq_some_iff.mp set with here | ⟨_, before⟩
      · exact Or.inr ⟨fields, List.mem_cons_self, here⟩
      · exact Or.inl before
    · exact Or.inr ⟨later, List.mem_cons_of_mem _ member, sets⟩

/-- An identity is stored where it was, or for an attempt that runs. -/
theorem started_of_cause {attemptId identity : Nat} {row : AttemptRow}
    {fields : AttemptFields} (started : Started state)
    (stored : state.db.getAttempt attemptId = some row)
    (taken : state.segment event = some segment)
    (member : fields ∈ updatesOf attemptId segment.effects)
    (sets : fields.processIdentity = some identity) :
    row.agentId ≠ none ∧ 2 ≤ phaseOf row.state := by
  cases cause_of_update taken member with
  | plain is =>
    rcases of_decide_eq_true (p := _ ∧ _) is with ⟨_, _, none, _⟩
    cases none.symm.trans sets
  | identified =>
    have acted : segment.effects ≠ [] := by
      intro nothing
      rw [nothing] at member
      exact absurd member List.not_mem_nil
    cases taken
    rcases Option.isSome_iff_exists.mp (accepts_of_received acted) with
      ⟨other, accepted⟩
    rcases ControllerState.acceptFrame_eq_some.mp accepted with
      ⟨found, _, _, owned, _, inside⟩
    cases stored.symm.trans found
    rw [List.mem_singleton.mp inside, owned]
    exact ⟨Option.some_ne_none _, Nat.le_refl _⟩
  | adopted found live reached known =>
    cases stored.symm.trans found
    exact started _ _ _ stored known
  | _ => cases sets

theorem step_started {next : ControllerState} (localRuns : LocalRuns state)
    (started : Started state)
    (step : controllerMachine.step state event = some next) :
    Started next := by
  rcases Option.map_eq_some_iff.mp step with ⟨segment, taken, rfl⟩
  intro attemptId after identity found known
  have old {row : AttemptRow}
      (stored : state.db.getAttempt attemptId = some row) :
      after.agentId ≠ none ∧ 2 ≤ phaseOf after.state := by
    rw [getAttempt_after stored, Option.some.injEq] at found
    subst found
    have ⟨owned, past⟩ : row.agentId ≠ none ∧ 2 ≤ phaseOf row.state := by
      rcases identity_set known with before | ⟨fields, member, sets⟩
      · exact started _ _ _ stored before
      · exact started_of_cause started stored taken member sets
    rcases Option.ne_none_iff_exists'.mp owned with ⟨owner, is⟩
    have forward := forward_segment localRuns stored is taken
    rw [agentId_updates]
    exact ⟨owned, Nat.le_trans past forward.further⟩
  have created {row : AttemptRow} (unknown : row.processIdentity = none)
      (attempts : (state.after segment).db.attempts =
        state.db.attempts ++ [row]) :
      after.agentId ≠ none ∧ 2 ≤ phaseOf after.state := by
    cases stored : state.db.getAttempt attemptId with
    | some row => exact old stored
    | none =>
      unfold Database.getAttempt at found stored
      rw [attempts, List.getElem?_append_right
        (List.getElem?_eq_none_iff.mp stored)] at found
      cases List.mem_singleton.mp (List.mem_of_getElem? found)
      rw [unknown] at known
      cases known
  rcases Capacity.growth_segment taken with growth | ⟨_, _, _, _, _, _, _, growth⟩
  · cases growth with
    | tame tame =>
      rcases tame.row attemptId after found with ⟨row, stored, _⟩
      exact old stored
    | localRun jobId attempts => exact created rfl attempts
  · cases growth with
    | remote jobId agentId attempts => exact created rfl attempts

theorem reachable_started
    (reachable : controllerMachine.Reachable (fun _ _ => True) state) :
    Started state := by
  have both : LocalRuns state ∧ Started state := by
    have preserved : ∀ state event next,
        LocalRuns state ∧ Started state → True →
        controllerMachine.step state event = some next →
        LocalRuns next ∧ Started next :=
      fun _ _ _ holds _ step =>
        ⟨step_localRuns holds.1 step, step_started holds.1 holds.2 step⟩
    apply reachable.invariant _ preserved
    rintro initial ⟨limit, rfl⟩
    constructor
    · intro jobId attemptId member
      cases member
    · intro attemptId row identity found
      cases found
  exact both.2

end Adoption

/-- An agent is told to adopt by the answer to its own report. -/
theorem report_of_adopts {state : ControllerState} {event : Event}
    {segment : Segment} {agentId : Nat} {header : LeaseHeader}
    (taken : state.segment event = some segment)
    (adopts : .send agentId (.reconcileDecision true) header ∈
      segment.effects) :
    ∃ report, event = .recoveryReport agentId report ∧
      segment = state.onRecoveryReport agentId report := by
  rcases (shape_segment taken).caused with
    caused | ⟨_, _, _, _, _, _, initiated⟩ | ⟨_, created⟩
  · cases caused _ adopts with
    | plain is => cases is
    | adopts => exact ⟨_, rfl, (Option.some.inj taken).symm⟩
  · rw [(initiateRemoteAttempt_eq_some initiated).2] at adopts
    simp [transitionJobState] at adopts
  · rw [created] at adopts
    cases List.mem_singleton.mp adopts

/--
Whatever the Controller does in a reachable state, it tells an agent to adopt
an attempt only in answer to a report of that agent, and only when the attempt
is held by the agent under the reported fence, has the reported process and is
under way: not when it was only offered, prepares its source or has ended.
-/
theorem adopts_current_attempt (state : ControllerState) (event : Event)
    (segment : Segment) (agentId : Nat) (header : LeaseHeader)
    (reachable : controllerMachine.Reachable (fun _ _ => True) state)
    (taken : state.segment event = some segment)
    (adopts : .send agentId (.reconcileDecision true) header ∈
      segment.effects) :
    ∃ report row, event = .recoveryReport agentId report ∧
      header = report.header ∧
      state.db.getAttempt header.attemptId = some row ∧
      row.agentId = some agentId ∧ row.leaseId = header.leaseId ∧
      row.leaseEpoch = header.leaseEpoch ∧
      row.processIdentity = some report.processIdentity ∧
      phaseOf row.state = 2 := by
  rcases report_of_adopts taken adopts with ⟨report, reported, rfl⟩
  rcases adoption_of_sent adopts with
    ⟨_, rfl, row, stored, live, current, _⟩
  rcases staleReason_eq_none.mp current with ⟨owned, epoch, lease, known⟩
  refine ⟨report, row, reported, rfl, stored, owned, lease, epoch, known, ?_⟩
  have started := reachable_started reachable _ _ _ stored known
  exact Nat.le_antisymm (phaseOf_le_of_live live) started.2

/-- The agent of a started attempt is gone, returns and reports it. -/
theorem adopts_current_attempt_returned :
    ∃ state, controllerMachine.run freshController
          (startedRun (some 7) ++ [.disconnect 1, .connect 1]) = some state ∧
      ∃ report row, Event.recoveryReport 1 startedReport =
          .recoveryReport 1 report ∧
        startedHeader = report.header ∧
        state.db.getAttempt startedHeader.attemptId = some row ∧
        row.agentId = some 1 ∧ row.leaseId = startedHeader.leaseId ∧
        row.leaseEpoch = startedHeader.leaseEpoch ∧
        row.processIdentity = some report.processIdentity ∧
        phaseOf row.state = 2 := by
  have told :
      (controllerMachine.run freshController
          (startedRun (some 7) ++ [.disconnect 1, .connect 1])).map
          (fun state =>
            decide (Effect.send 1 (.reconcileDecision true) startedHeader ∈
              (state.onRecoveryReport 1 startedReport).effects)) =
        some true := by
    decide +kernel
  rcases Option.map_eq_some_iff.mp told with ⟨state, ran, sent⟩
  exact ⟨state, ran, adopts_current_attempt state _ _ 1 startedHeader
    (Machine.reachable_of_run freshController_initial ran) rfl
    (of_decide_eq_true sent)⟩

end Rbo.Controller.Execution
