import Rbo.Agent.Executor
import Rbo.Controller.Reconnection
import Rbo.Controller.RoutineEffects

/-!
# Slots on both sides

The Controller is composed with the executors of its agents over reliable
channels.  An entry of an agent's attempts map takes one of its slots; when
nothing is left to happen, the attempt of every entry should still be live on
the Controller.  It need not be: the Controller may end an attempt on its own,
and most of these ends tell the agent nothing.
-/

namespace Rbo.Controller.SlotAgreement

open Rbo.Foundation
open Rbo.Controller.Lifecycle
open Rbo.Controller.Execution
open Rbo.Agent
open Rbo.Agent.Executor (AgentEvent AgentFrame AgentState Keeps Message
  Reception releasesFrame takesFrame)

/-! ## The composition -/

/-- The Controller and its agents, which hold both channels. -/
structure Plane where
  controller : ControllerState
  agents : List AgentState

/-- The frames that effects send to an agent. -/
def sentTo (agentId : Nat) (effects : List Effect) :
    List (Outgoing × LeaseHeader) :=
  effects.filterMap fun
    | .send owner frame header =>
      if owner = agentId then some (frame, header) else none
    | _ => none

/-- A frame as the Controller handles it: what it looks up is its own, the
rest is as the agent has sent it. -/
def carries : AgentFrame → Frame → Bool
  | .leaseAccept, .leaseAccept _ => true
  | .leaseReject reason, .leaseReject other => reason = other
  | .sourceNeed .bundle, .sourceNeed (.bundle _) => true
  | .sourceNeed .fallback, .sourceNeed (.fallback _) => true
  | .sourceReady, .sourceReady => true
  | .jobStarted, .jobStarted _ => true
  | .logChunk sequence, .logChunk other => sequence = other
  | .jobExit report, .jobExit other => report = other
  | .artifactManifest collection, .artifactManifest other =>
    collection = other
  | .cleanupComplete report, .cleanupComplete other => report = other
  | _, _ => false

inductive PlaneEvent where
  | controller (event : Event)
  | deliver (agentId : Nat) (frame : Frame)
  | deliverReport (agentId : Nat)
  | agent (agentId : Nat) (event : AgentEvent)
  deriving DecidableEq

namespace Plane

variable (plane : Plane)

def setAgent (agentId : Nat) (agent : AgentState) : Plane :=
  { plane with agents := plane.agents.set agentId agent }

/-- A segment of the Controller, with the frames that it sends. -/
def runSegment (segment : Segment) : Plane where
  controller := plane.controller.after segment
  agents :=
    plane.agents.mapIdx fun agentId agent =>
      { agent with inbox := agent.inbox ++ sentTo agentId segment.effects }

/-- The event of the Controller that an event of the plane is. -/
def controllerEvent : PlaneEvent → Option Event
  | .controller event =>
    match event with
    | .frame _ _ _ => none
    | .recoveryReport _ _ => none
    | other => some other
  | .deliver agentId frame =>
    match (plane.agents[agentId]?.map AgentState.outbox) with
    | some (.frame header sent :: _) =>
      if carries sent frame then some (.frame agentId header frame)
      else none
    | _ => none
  | .deliverReport agentId =>
    match (plane.agents[agentId]?.map AgentState.outbox) with
    | some (.recoveryReport report :: _) =>
      some (.recoveryReport agentId report)
    | _ => none
  | .agent _ _ => none

/-- The next message of an agent leaves its channel. -/
def takeMessage (agentId : Nat) : Plane :=
  { plane with
    agents :=
      plane.agents.modify agentId fun agent =>
        { agent with outbox := agent.outbox.tail } }

/-- Nothing is in flight, no handler is suspended, and no timer of an agent is
pending. -/
def Quiescent : Prop :=
  plane.controller.memory.tasks = [] ∧ ∀ agent ∈ plane.agents, agent.Idle

instance : Decidable plane.Quiescent :=
  inferInstanceAs (Decidable (_ ∧ _))

end Plane

def planeMachine : Machine Plane PlaneEvent where
  initial plane :=
    controllerMachine.initial plane.controller ∧
      ∀ agent ∈ plane.agents, agent.Idle ∧ agent.attempts = ∅
  step plane
    | .agent agentId event =>
      (plane.agents[agentId]?.bind fun agent => agent.act event).map
        (plane.setAgent agentId)
    | .controller event =>
      (plane.controllerEvent (.controller event)).bind fun change =>
        (plane.controller.segment change).map plane.runSegment
    | .deliver agentId frame =>
      (plane.controllerEvent (.deliver agentId frame)).bind fun change =>
        (plane.controller.segment change).map
          (plane.takeMessage agentId).runSegment
    | .deliverReport agentId =>
      (plane.controllerEvent (.deliverReport agentId)).bind fun change =>
        (plane.controller.segment change).map
          (plane.takeMessage agentId).runSegment

/-! ## What the Controller gives its agents -/

section Segments

variable {state : ControllerState} {event : Event} {segment : Segment}
  {agentId name : Nat}

variable {sent : Outgoing × LeaseHeader}

theorem mem_sentTo {effects : List Effect} :
    sent ∈ sentTo agentId effects ↔
      .send agentId sent.1 sent.2 ∈ effects := by
  unfold sentTo
  rw [List.mem_filterMap]
  constructor
  · rintro ⟨effect, member, sends⟩
    split at sends
    · split at sends
      next same =>
        cases sends
        exact same ▸ member
      · cases sends
    · cases sends
  · intro member
    refine ⟨_, member, ?_⟩
    dsimp only
    rw [if_pos rfl]

/-- A live attempt of an agent. -/
def Owned (db : Database) (agentId name : Nat) : Prop :=
  ∃ row, db.getAttempt name = some row ∧ row.agentId = some agentId ∧
    row.live

/-- Routine effects grant no slot. -/
theorem not_takes_of_routine {effects : List Effect}
    (routine : Routine effects) (member : sent ∈ sentTo agentId effects) :
    ¬ takesFrame name sent := by
  unfold Routine at routine
  rw [List.any_eq_false] at routine
  have plain := routine _ (mem_sentTo.mp member)
  rintro ⟨_, offers | adopts⟩
  · apply plain
    rw [offers]
    rfl
  · apply plain
    rw [adopts]
    rfl

variable {owner : Nat}

variable {header : LeaseHeader}

theorem eq_of_mem_sendFrame {effect : Effect} {frame : Outgoing}
    (member : effect ∈ state.sendFrame agentId frame header) :
    effect = .send agentId frame header := by
  unfold ControllerState.sendFrame at member
  split at member
  · exact List.mem_singleton.mp member
  · cases member

/-- A report that is not adopted is answered by nothing or by a refusal. -/
theorem refusal_of_mem {decided : LeaseHeader} {effects : List Effect}
    (writes : ∀ effect ∈ effects, effect.statement ≠ none)
    (member : .send agentId (.reconcileDecision true) header ∈
      state.sendFrame owner (.reconcileDecision false) decided ++
        effects) : False := by
  rcases List.mem_append.mp member with decided | written
  · cases eq_of_mem_sendFrame decided
  · exact writes _ written rfl

/-- The fields that an adoption writes. -/
def adoptedFields (report : RecoveryReport) : AttemptFields where
  state :=
    some (if report.awaitingUpload then .collectingArtifacts else .running)
  processIdentity := some report.processIdentity

/-- What a report does that is adopted. -/
theorem adoption_of_sent {report : RecoveryReport}
    (member : .send agentId (.reconcileDecision true) header ∈
      (state.onRecoveryReport owner report).effects) :
    agentId = owner ∧ header = report.header ∧ ∃ row,
      state.db.getAttempt report.header.attemptId = some row ∧
        row.live ∧ staleReason owner row report = none ∧
        (state.onRecoveryReport owner report).effects =
          state.sendFrame owner (.reconcileDecision true) report.header ++
            [updateAttempt report.header.attemptId
              (adoptedFields report)] := by
  unfold ControllerState.onRecoveryReport at member ⊢
  dsimp only at member ⊢
  cases stored : state.db.getAttempt report.header.attemptId with
  | none =>
    rw [stored] at member
    cases eq_of_mem_sendFrame member
  | some row =>
    rw [stored] at member
    dsimp only at member ⊢
    by_cases ended : ¬ row.live
    · rw [if_pos ended] at member
      cases eq_of_mem_sendFrame member
    rw [if_neg ended] at member ⊢
    by_cases unknown : row.processIdentity = none
    · rw [if_pos unknown] at member
      cases List.mem_singleton.mp member
    rw [if_neg unknown] at member ⊢
    cases reason : staleReason owner row report with
    | none =>
      rw [reason] at member
      rcases List.mem_append.mp member with decided | written
      · cases eq_of_mem_sendFrame decided
        exact ⟨rfl, rfl, row, rfl, Decidable.not_not.mp ended, reason, rfl⟩
      · cases List.mem_singleton.mp written
    | some stale =>
      rw [reason] at member
      have closes : ∀ effect ∈
          ControllerState.markTerminateStaleFailed
            report.header.attemptId row.jobId stale,
          effect.statement ≠ none := by
        intro effect there
        rcases List.mem_cons.mp there with rfl | last
        · nofun
        · cases List.mem_singleton.mp last
          nofun
      cases stale with
      | agentMismatch =>
        refine (refusal_of_mem ?_ member).elim
        intro effect there
        cases List.mem_singleton.mp there
        nofun
      | attemptTerminalOrUnknown =>
        exact (refusal_of_mem closes member).elim
      | newerEpoch => exact (refusal_of_mem closes member).elim
      | leaseMismatch => exact (refusal_of_mem closes member).elim
      | processIdentityMismatch =>
        exact (refusal_of_mem closes member).elim

/-- An adopted attempt is live, and the agent's. -/
theorem owned_of_adopted {report : RecoveryReport}
    (member : .send agentId (.reconcileDecision true) header ∈
      (state.onRecoveryReport owner report).effects) :
    Owned (state.after (state.onRecoveryReport owner report)).db agentId
      header.attemptId := by
  rcases adoption_of_sent member with
    ⟨rfl, rfl, row, stored, _, current, effects⟩
  have owned := (staleReason_eq_none.mp current).1
  refine ⟨_, getAttempt_after stored, agentId_updates.trans owned, ?_⟩
  rw [effects, updatesOf_append, updatesOf_sendFrame, updatesOf_update,
    if_pos rfl]
  show AttemptRow.live (row.update (adoptedFields report))
  unfold AttemptRow.live AttemptRow.update adoptedFields
  dsimp only
  cases report.awaitingUpload <;> nofun

/-- A dispatched attempt is live, and the agent's. -/
theorem owned_of_offered {jobId : Nat}
    (initiated : state.initiateRemoteAttempt jobId owner =
      some segment.effects) {frame : Outgoing}
    (member : .send agentId frame header ∈ segment.effects) :
    Owned (state.after segment).db agentId header.attemptId := by
  have effects := (initiateRemoteAttempt_eq_some initiated).2
  rw [effects] at member
  have sends : Effect.send agentId frame header =
      .send owner .leaseOffer
        { attemptId := state.db.attempts.length
          leaseId := state.db.attempts.length
          leaseEpoch := state.db.nextLeaseEpochForJob jobId } := by
    rcases List.mem_cons.mp member with inserts | later
    · cases inserts
    · rcases List.mem_cons.mp later with moves | last
      · cases moves
      · exact List.mem_singleton.mp last
  cases sends
  refine ⟨state.remoteAttempt jobId agentId, ?_, rfl, ?_⟩
  · unfold ControllerState.after Segment.writes
    rw [effects]
    exact List.getElem?_concat_length
  · nofun

/-- A slot is granted for a live attempt of the agent. -/
theorem owned_of_granted (taken : state.segment event = some segment)
    (member : sent ∈ sentTo agentId segment.effects)
    (takes : takesFrame name sent) :
    Owned (state.after segment).db agentId name := by
  have there := mem_sentTo.mp member
  rcases takes with ⟨rfl, grants⟩
  by_cases reports : ∃ owner report, event = .recoveryReport owner report
  · rcases reports with ⟨owner, report, rfl⟩
    cases taken
    have adopts : sent.1 = .reconcileDecision true := by
      refine grants.resolve_left ?_
      intro offer
      have none : (state.onRecoveryReport owner report).effects.any
          Effect.offers = false := offers_onRecoveryReport owner report
      rw [List.any_eq_false] at none
      apply none _ there
      rw [offer]
      rfl
    rw [adopts] at there
    exact owned_of_adopted there
  by_cases starts : ∃ owner header identity,
      event = .frame owner header (.jobStarted identity)
  · rcases starts with ⟨owner, header, identity, rfl⟩
    cases taken
    revert there
    simp only [ControllerState.receive]
    split
    · nofun
    · cases identity with
      | none => nofun
      | some identity => nofun
  rcases routine_segment
      (fun owner header identity same =>
        starts ⟨owner, header, identity, same⟩)
      (fun owner report same => reports ⟨owner, report, same⟩)
      taken with routine | ⟨jobId, owner, initiated⟩
  · exact absurd ⟨rfl, grants⟩ (not_takes_of_routine routine member)
  · exact owned_of_offered initiated there

end Segments

/-! ## Ends that free the slot -/

/-- An event ends an attempt that is live. -/
def Ends (state : ControllerState) (event : Event) (name : Nat) : Prop :=
  ∃ segment row, state.segment event = some segment ∧
    state.db.getAttempt name = some row ∧ row.live ∧
    ¬ ((updatesOf name segment.effects).foldl AttemptRow.update row).live

/-- A report of its agent that is refused makes the agent clear the attempt,
when the refusal can be sent. -/
def Refuses (state : ControllerState) (event : Event) (agentId name : Nat) :
    Prop :=
  agentId ∈ state.memory.connectedAgents ∧ ∃ report,
    event = .recoveryReport agentId report ∧ report.header.attemptId = name

/-- An attempt is ended only when its agent keeps no slot for it and takes
none, or is on the way to clear the slot that it keeps. -/
def Frees (plane : Plane) (event : PlaneEvent) : Prop :=
  ∀ change, plane.controllerEvent event = some change →
    ∀ agentId agent name row, plane.agents[agentId]? = some agent →
      plane.controller.db.getAttempt name = some row →
      row.agentId = some agentId → Ends plane.controller change name →
      ¬ agent.Takes name ∧
        (name ∈ agent.attempts →
          agent.Releases name ∨
            Refuses plane.controller change agentId name)

/-- A slot that is to be taken is for a live attempt of the agent.  A slot
that is kept is for one, or is about to be cleared. -/
structure Slotted (db : Database) (agentId : Nat) (agent : AgentState) :
    Prop where
  takes : ∀ name, agent.Takes name → Owned db agentId name
  entries : ∀ name, name ∈ agent.attempts → ∃ row,
    db.getAttempt name = some row ∧ row.agentId = some agentId ∧
      (row.live ∨ agent.Releases name)

def Agreed (plane : Plane) : Prop :=
  ∀ agentId agent, plane.agents[agentId]? = some agent →
    Slotted plane.controller.db agentId agent

section Runs

variable {plane next : Plane} {event : PlaneEvent} {db : Database}
  {agent after : AgentState} {agentId name : Nat}
  {state : ControllerState} {change : Event} {segment : Segment}

theorem Slotted.keeps (slotted : Slotted db agentId agent)
    (keeps : Keeps agent after) : Slotted db agentId after where
  takes name there := slotted.takes name (keeps.takes name there)
  entries name there := by
    have known : agent.Takes name → ∃ row, db.getAttempt name = some row ∧
        row.agentId = some agentId ∧
        (row.live ∨ after.Releases name) := by
      intro taken
      rcases slotted.takes name taken with ⟨row, stored, owned, live⟩
      exact ⟨row, stored, owned, Or.inl live⟩
    rcases keeps.entries name there with kept | taken
    · rcases slotted.entries name kept with
        ⟨row, stored, owned, live | releasing⟩
      · exact ⟨row, stored, owned, Or.inl live⟩
      · rcases keeps.releases name there releasing with still | taken
        · exact ⟨row, stored, owned, Or.inr still⟩
        · exact known taken
    · exact known taken

/-- A refused report sends the refusal when it ends its attempt. -/
theorem refusal_sent
    (refuses : Refuses state change agentId name)
    (ends : Ends state change name)
    (taken : state.segment change = some segment) :
    ∃ header, header.attemptId = name ∧
      .send agentId (.reconcileDecision false) header ∈ segment.effects := by
  rcases refuses with ⟨connected, report, rfl, rfl⟩
  rcases ends with ⟨_, row, again, stored, live, ended⟩
  cases taken
  cases again
  refine ⟨report.header, rfl, ?_⟩
  have sends : ∀ effects : List Effect,
      Effect.send agentId (.reconcileDecision false) report.header ∈
        state.sendFrame agentId (.reconcileDecision false) report.header ++
          effects := by
    intro effects
    unfold ControllerState.sendFrame
    rw [if_pos connected]
    exact List.mem_cons_self
  have kept : (row.update {}).live := live
  have adopted : (row.update (adoptedFields report)).live := by
    unfold AttemptRow.live AttemptRow.update adoptedFields
    dsimp only
    cases report.awaitingUpload <;> nofun
  unfold ControllerState.onRecoveryReport at ended ⊢
  dsimp only at ended ⊢
  rw [stored] at ended ⊢
  dsimp only at ended ⊢
  rw [if_neg (Decidable.not_not.mpr live)] at ended ⊢
  by_cases unknown : row.processIdentity = none
  · rw [if_pos unknown, updatesOf_update, if_pos rfl] at ended
    exact absurd kept ended
  rw [if_neg unknown] at ended ⊢
  cases reason : staleReason agentId row report with
  | none =>
    rw [reason, updatesOf_append, updatesOf_sendFrame, updatesOf_update,
      if_pos rfl] at ended
    exact absurd adopted ended
  | some stale =>
    cases stale with
    | agentMismatch => exact sends _
    | attemptTerminalOrUnknown => exact sends _
    | newerEpoch => exact sends _
    | leaseMismatch => exact sends _
    | processIdentityMismatch => exact sends _

/-- The frames that a segment sends reach the agent's channel. -/
theorem slotted_segment (slotted : Slotted state.db agentId agent)
    (taken : state.segment change = some segment)
    (frees : ∀ name row, state.db.getAttempt name = some row →
      row.agentId = some agentId → Ends state change name →
      ¬ agent.Takes name ∧
        (name ∈ agent.attempts → agent.Releases name ∨
          Refuses state change agentId name)) :
    Slotted (state.after segment).db agentId
      { agent with
        inbox := agent.inbox ++ sentTo agentId segment.effects } := by
  constructor
  · rintro name takes
    have before : agent.Takes name ∨ Owned (state.after segment).db agentId
        name := by
      rcases takes with tasks | ⟨sent, there, granted⟩
      · exact Or.inl (Or.inl tasks)
      · rcases List.mem_append.mp there with earlier | last
        · exact Or.inl (Or.inr ⟨sent, earlier, granted⟩)
        · exact Or.inr (owned_of_granted taken last granted)
    rcases before with earlier | granted
    · rcases slotted.takes name earlier with ⟨row, stored, owned, live⟩
      refine ⟨_, getAttempt_after stored, agentId_updates.trans owned, ?_⟩
      by_contra ended
      have ends : Ends state change name :=
        ⟨segment, row, taken, stored, live, ended⟩
      exact (frees name row stored owned ends).1 earlier
    · exact granted
  · intro name there
    have keeps : agent.Releases name → AgentState.Releases
        { agent with
          inbox := agent.inbox ++ sentTo agentId segment.effects } name := by
      rintro (tasks | ⟨sent, earlier, releasing⟩)
      · exact Or.inl tasks
      · exact Or.inr ⟨sent, List.mem_append_left _ earlier, releasing⟩
    rcases slotted.entries name there with ⟨row, stored, owned, held⟩
    refine ⟨_, getAttempt_after stored, agentId_updates.trans owned, ?_⟩
    rcases held with live | releasing
    · by_cases still :
          ((updatesOf name segment.effects).foldl AttemptRow.update row).live
      · exact Or.inl still
      · have ends : Ends state change name :=
          ⟨segment, row, taken, stored, live, still⟩
        right
        rcases (frees name row stored owned ends).2 there with
          releasing | refuses
        · exact keeps releasing
        · rcases refusal_sent refuses ends taken with ⟨header, same, sent⟩
          refine Or.inr ⟨(_, header), ?_, same, rfl⟩
          exact List.mem_append_right _ (mem_sentTo.mpr sent)
    · exact Or.inr (keeps releasing)

theorem agreed_runSegment (agreed : Agreed plane)
    (taken : plane.controller.segment change = some segment)
    (frees : ∀ agentId agent name row, plane.agents[agentId]? = some agent →
      plane.controller.db.getAttempt name = some row →
      row.agentId = some agentId → Ends plane.controller change name →
      ¬ agent.Takes name ∧
        (name ∈ agent.attempts → agent.Releases name ∨
          Refuses plane.controller change agentId name)) :
    Agreed (plane.runSegment segment) := by
  intro agentId agent there
  have found : (plane.agents.mapIdx _)[agentId]? = some agent := there
  rw [List.getElem?_mapIdx] at found
  rcases Option.map_eq_some_iff.mp found with ⟨before, stored, rfl⟩
  apply slotted_segment (agreed agentId before stored) taken
  intro name row
  exact frees agentId before name row stored

theorem agreed_takeMessage (agreed : Agreed plane) (agentId : Nat) :
    Agreed (plane.takeMessage agentId) := by
  intro other agent there
  have found : (plane.agents.modify agentId _)[other]? = some agent := there
  rw [List.getElem?_modify] at found
  rcases Option.map_eq_some_iff.mp found with ⟨before, stored, rfl⟩
  have slotted := agreed other before stored
  split
  · exact slotted.keeps (Executor.keeps_of_same rfl rfl rfl)
  · exact slotted

theorem agreed_step (agreed : Agreed plane) (frees : Frees plane event)
    (step : planeMachine.step plane event = some next) : Agreed next := by
  have delivered : ∀ agentId change segment,
      plane.controllerEvent event = some change →
      plane.controller.segment change = some segment →
      Agreed ((plane.takeMessage agentId).runSegment segment) := by
    intro agentId change segment changes taken
    apply agreed_runSegment (agreed_takeMessage agreed agentId) taken
    intro other agent name row there
    have found : (plane.agents.modify agentId _)[other]? = some agent := there
    rw [List.getElem?_modify] at found
    rcases Option.map_eq_some_iff.mp found with ⟨before, stored, rfl⟩
    have freed := frees change changes other before name row stored
    split
    · exact freed
    · exact freed
  cases event with
  | agent agentId event =>
    simp only [planeMachine] at step
    rcases Option.map_eq_some_iff.mp step with ⟨after, went, rfl⟩
    rcases Option.bind_eq_some_iff.mp went with ⟨agent, stored, acted⟩
    intro other found there
    have set : (plane.agents.set agentId after)[other]? = some found :=
      there
    by_cases same : agentId = other
    · subst same
      rw [List.getElem?_set_self
        (List.getElem?_eq_some_iff.mp stored).1] at set
      cases set
      exact (agreed agentId agent stored).keeps
        (Executor.keeps_act acted)
    · rw [List.getElem?_set_ne same] at set
      exact agreed other found set
  | controller event =>
    simp only [planeMachine] at step
    rcases Option.bind_eq_some_iff.mp step with ⟨change, changes, ran⟩
    rcases Option.map_eq_some_iff.mp ran with ⟨segment, taken, rfl⟩
    exact agreed_runSegment agreed taken (frees change changes)
  | deliver agentId frame =>
    simp only [planeMachine] at step
    rcases Option.bind_eq_some_iff.mp step with ⟨change, changes, ran⟩
    rcases Option.map_eq_some_iff.mp ran with ⟨segment, taken, rfl⟩
    exact delivered agentId change segment changes taken
  | deliverReport agentId =>
    simp only [planeMachine] at step
    rcases Option.bind_eq_some_iff.mp step with ⟨change, changes, ran⟩
    rcases Option.map_eq_some_iff.mp ran with ⟨segment, taken, rfl⟩
    exact delivered agentId change segment changes taken

theorem agreed_initial (initial : planeMachine.initial plane) :
    Agreed plane := by
  intro agentId agent there
  rcases initial.2 agent (List.mem_of_getElem? there) with
    ⟨⟨tasks, inbox, _⟩, attempts⟩
  constructor
  · rintro name (⟨task, member, _⟩ | ⟨sent, member, _⟩)
    · rw [tasks] at member
      cases member
    · rw [inbox] at member
      cases member
  · intro name member
    rw [attempts] at member
    exact absurd member (AList.notMem_empty name)

theorem not_releases_of_idle (idle : agent.Idle) : ¬ agent.Releases name := by
  rcases idle with ⟨tasks, inbox, _⟩
  rintro (⟨task, member, _⟩ | ⟨sent, member, _⟩)
  · rw [tasks] at member
    cases member
  · rw [inbox] at member
    cases member

end Runs

/--
In every run in which the Controller ends attempts only whose slots are free
or about to be freed, a quiescent agent keeps slots only for attempts of its
own that are live on the Controller.
-/
theorem slots_agree_at_quiescence {plane : Plane}
    (reachable : planeMachine.Reachable Frees plane)
    (quiescent : plane.Quiescent) {agentId : Nat} {agent : AgentState}
    (there : plane.agents[agentId]? = some agent) {name : Nat}
    (kept : name ∈ agent.attempts) :
    Owned plane.controller.db agentId name := by
  have preserved : ∀ plane event next, Agreed plane → Frees plane event →
      planeMachine.step plane event = some next → Agreed next :=
    fun _ _ _ agreed frees step => agreed_step agreed frees step
  have agreed : Agreed plane :=
    reachable.invariant (fun _ initial => agreed_initial initial) preserved
  have idle : agent.Idle :=
    quiescent.2 agent (List.mem_of_getElem? there)
  rcases (agreed agentId agent there).entries name kept with
    ⟨row, stored, owned, live | releasing⟩
  · exact ⟨row, stored, owned, live⟩
  · exact absurd releasing (not_releases_of_idle idle)

/-! ## A preparation that fails on the Controller -/

/-- One agent with one slot, and a Controller on which nothing has happened. -/
def freshPlane : Plane where
  controller := freshController
  agents :=
    [{ maxJobs := 1
       runtimes := []
       attempts := ∅
       rejectedAttempts := []
       tasks := []
       inbox := []
       outbox := [] }]

/-- A source of some mode, for an attempt of a safe job. -/
def receives (mode : Executor.SourceMode) : PlaneEvent :=
  .agent 0
    (.receive
      { underPressure := false
        spoolPressure := false
        destructive := false
        mode := mode
        reason := none
        metadata := none })

/-- A job is offered to the agent, which accepts it. -/
def acceptedRun (mode : Executor.SourceMode) : List PlaneEvent :=
  [.controller (.connect 0), .controller (.submit .wait false),
    .controller (.resume 0 (.remote 0)), receives mode,
    .deliver 0 (.leaseAccept .prepared), receives mode]

/-- The base commit is missing on the agent, and the Controller cannot bundle
it.  The wait for the bundle times out, and so does the lease. -/
def unbundledRun : List PlaneEvent :=
  acceptedRun .gitOverlay ++
    [.agent 0 (.resume 0 .done), .agent 0 (.resume 0 .done),
      .agent 0 (.resume 0 .missing), .deliver 0 (.sourceNeed (.bundle .found)),
      .controller (.resume 0 (.failed .internal "git bundle create")),
      .agent 0 (.bundleTimer 0), .agent 0 (.resume 0 .done),
      .deliver 0 (.sourceNeed (.fallback .full)), .agent 0 (.leaseTimer 0)]

/-- What the two sides hold of the attempt. -/
structure SlotView where
  quiescent : Bool
  owner : Option Nat
  state : Option AttemptState
  slots : List (Nat × List Nat)
  deriving DecidableEq

def slotView (plane : Plane) : SlotView where
  quiescent := plane.Quiescent
  owner := (plane.controller.db.getAttempt 0).bind AttemptRow.agentId
  state := (plane.controller.db.getAttempt 0).map AttemptRow.state
  slots := plane.agents.map fun agent => (agent.maxJobs, agent.attempts.keys)

theorem freshPlane_initial : planeMachine.initial freshPlane := by
  refine ⟨freshController_initial, ?_⟩
  intro agent member
  cases List.mem_singleton.mp member
  exact ⟨by decide, rfl⟩

/-- One agent keeps its only slot for the attempt. -/
def keptView (state : AttemptState) : SlotView where
  quiescent := true
  owner := some 0
  state := some state
  slots := [(1, [0])]

theorem agent_of_keptView {plane : Plane} {state : AttemptState}
    (view : slotView plane = keptView state) :
    plane.Quiescent ∧ (plane.controller.db.getAttempt 0).map
        AttemptRow.state = some state ∧
      ∃ agent, plane.agents[0]? = some agent ∧ agent.maxJobs = 1 ∧
        0 ∈ agent.attempts := by
  simp only [slotView, keptView, SlotView.mk.injEq] at view
  rcases view with ⟨quiescent, _, stored, slots⟩
  rcases List.map_eq_singleton_iff.mp slots with ⟨agent, agents, same⟩
  rcases Prod.mk.inj same with ⟨one, keys⟩
  refine ⟨of_decide_eq_true quiescent, stored, agent, ?_, one, ?_⟩
  · rw [agents]
    rfl
  · rw [AList.mem_keys, keys]
    exact List.mem_singleton.mpr rfl

/-- The Controller has failed the attempt, and the agent keeps its only slot
for it. -/
theorem failed_prepare_keeps_slot :
    ∃ plane agent, planeMachine.run freshPlane unbundledRun = some plane ∧
      plane.Quiescent ∧ plane.agents[0]? = some agent ∧
      agent.maxJobs = 1 ∧ 0 ∈ agent.attempts ∧
      (plane.controller.db.getAttempt 0).map AttemptRow.state =
        some .completed ∧
      ¬ Owned plane.controller.db 0 0 := by
  have ended : (planeMachine.run freshPlane unbundledRun).map slotView =
      some (keptView .completed) := by
    decide +kernel
  rcases Option.map_eq_some_iff.mp ended with ⟨plane, ran, view⟩
  rcases agent_of_keptView view with
    ⟨quiescent, completed, agent, there, one, kept⟩
  refine ⟨plane, agent, ran, quiescent, there, one, kept, completed, ?_⟩
  rintro ⟨row, stored, _, live⟩
  rw [stored, Option.map_some, Option.some.injEq] at completed
  exact live completed

/-- The agent cannot make the directory of the attempt, and the lease times
out. -/
def unpreparedRun : List PlaneEvent :=
  acceptedRun .full ++
    [.agent 0 (.resume 0 (.failed "EACCES")), .agent 0 (.leaseTimer 0)]

/-- Does an effect end an attempt? -/
def endsAttempt : Effect → Bool
  | .write (.updateAttempt _ fields) => fields.state = some .completed
  | _ => false

/-- Steps of which the Controller's part ends no attempt. -/
def endsNone (plane : Plane) (event : PlaneEvent) : Bool :=
  match (plane.controllerEvent event).bind plane.controller.segment with
  | none => true
  | some segment => segment.effects.any endsAttempt = false

theorem endsNone_frees (plane : Plane) (event : PlaneEvent)
    (silent : endsNone plane event = true) : Frees plane event := by
  rintro change changes agentId agent name row _ _ _
    ⟨segment, found, taken, _, live, ended⟩
  unfold endsNone at silent
  rw [changes, Option.bind_some, taken] at silent
  refine absurd (live_updates live ?_) ended
  intro fields member completes
  rcases List.mem_filterMap.mp member with ⟨effect, there, updates⟩
  have quiet :=
    List.any_eq_false.mp (of_decide_eq_true silent) effect there
  unfold Effect.update at updates
  split at updates
  · split at updates
    · cases updates
      exact quiet (decide_eq_true completes)
    · cases updates
  · cases updates

theorem slots_agree_at_quiescence_unpreparedRun :
    ∃ plane agent, planeMachine.run freshPlane unpreparedRun = some plane ∧
      plane.Quiescent ∧ plane.agents[0]? = some agent ∧
      0 ∈ agent.attempts ∧ Owned plane.controller.db 0 0 := by
  have ended : (planeMachine.run freshPlane unpreparedRun).map slotView =
      some (keptView .preparingSource) := by
    decide +kernel
  rcases Option.map_eq_some_iff.mp ended with ⟨plane, ran, view⟩
  rcases agent_of_keptView view with
    ⟨quiescent, _, agent, there, _, kept⟩
  have reachable : planeMachine.Reachable Frees plane :=
    ⟨freshPlane, freshPlane_initial,
      Machine.steps_of_run endsNone endsNone_frees (by decide +kernel) ran⟩
  exact ⟨plane, agent, ran, quiescent, there, kept,
    slots_agree_at_quiescence reachable quiescent there kept⟩

end Rbo.Controller.SlotAgreement
