import Mathlib.Data.Nat.Pairing
import Rbo.Controller.Reconnection
import Rbo.Controller.RoutineEffects

/-!
# The process identity of a remote attempt

The agent and the Controller derive the identity of a job's process from its
pid, each on its own host: the agent when it has spawned the process, the
Controller when it handles `job_started`.  A later `recovery_report` is
adopted when the two agree, so the runs of a Controller are composed here with
the process tables of the hosts and the metadata of the agents.
-/

namespace Rbo.Controller.Execution

open Rbo.Foundation
open Rbo.Controller.Lifecycle

/-! ## Identities of processes -/

/-- The start times of the processes of one host, as `processStartTimeMs`
finds them. -/
abbrev ProcessTable := Nat → Option Nat

/-- The name that the tables of this model keep for an identity. -/
def identityOf (host : ProcessTable) (pid : Nat) : Option Nat :=
  if pid = 0 then none
  else (host pid).map (Nat.pair pid)

/-! ## The stored identity of a row -/

/-- The owner of an attempt with its stored identity. -/
def AttemptRow.owned (row : AttemptRow) : Option Nat × Option Nat :=
  (row.agentId, row.processIdentity)

section Rows

variable {state : ControllerState} {db : Database} {attemptId : Nat}
  {row : AttemptRow}

/-- A row stays, with its owner and its identity. -/
def KeepsOwned (before after : Database) : Prop :=
  ∀ attemptId,
    (∀ row, before.getAttempt attemptId = some row →
      ∃ later, after.getAttempt attemptId = some later ∧
        AttemptRow.owned later = AttemptRow.owned row) ∧
    (before.getAttempt attemptId = none →
      ∀ later, after.getAttempt attemptId = some later →
        later.processIdentity = none)

theorem keepsOwned_refl : KeepsOwned db db := by
  intro attemptId
  refine ⟨fun row stored => ⟨row, stored, rfl⟩, ?_⟩
  intro missing later stored
  cases missing.symm.trans stored

/-- The row that a dispatch creates has no identity. -/
theorem keepsOwned_insert {created : AttemptRow}
    (unnamed : created.processIdentity = none) :
    KeepsOwned db (db.write (.insertAttempt created)) := by
  intro name
  rw [Database.getAttempt_insertAttempt]
  constructor
  · intro row stored
    rw [if_neg (Nat.ne_of_lt (Database.getAttempt_lt stored))]
    exact ⟨row, stored, rfl⟩
  · intro missing later stored
    split at stored
    · rw [← Option.some.inj stored]
      exact unnamed
    · cases missing.symm.trans stored

/-- Apart from `job_started`, no cause stores an identity but the one that is
stored already. -/
theorem identity_of_caused {event : Event} {effects : List Effect}
    (started : ∀ agentId header identity,
      event ≠ .frame agentId header (.jobStarted identity))
    (stored : state.db.getAttempt attemptId = some row)
    (caused : Caused state event effects) :
    ∀ fields ∈ updatesOf attemptId effects,
      fields.processIdentity = none ∨
        fields.processIdentity = row.processIdentity := by
  intro fields member
  cases caused _ (mem_updatesOf.mp member) with
  | plain is =>
    have columns := of_decide_eq_true (p := _ ∧ _) is
    exact Or.inl columns.2.2.1
  | identified => exact absurd rfl (started _ _ _)
  | adopted found _ _ known =>
    cases stored.symm.trans found
    exact Or.inr known.symm
  | _ => exact Or.inl rfl

theorem keepsOwned_segment {event : Event} {segment : Segment}
    (started : ∀ agentId header identity,
      event ≠ .frame agentId header (.jobStarted identity))
    (taken : state.segment event = some segment) :
    KeepsOwned state.db (state.after segment).db := by
  rcases (shape_segment taken).caused with
    caused | ⟨index, jobId, rest, agentId, _, _, initiated⟩ | ⟨jobId, created⟩
  · intro attemptId
    constructor
    · intro row stored
      refine ⟨_, getAttempt_after stored, Prod.ext agentId_updates ?_⟩
      apply List.foldlRecOn _ AttemptRow.update
        (motive := fun later => later.processIdentity = row.processIdentity)
        rfl
      intro later same fields member
      show fields.processIdentity.or later.processIdentity = _
      rcases identity_of_caused started stored caused fields member with
        none | known
      · rw [none, Option.none_or]
        exact same
      · rw [known, same, Option.or_self]
    · intro missing later stored
      rcases (tame_writes (quiet_of_caused caused)).row attemptId later stored
        with ⟨row, there, _⟩
      cases missing.symm.trans there
  · unfold ControllerState.after Segment.writes
    rw [(initiateRemoteAttempt_eq_some initiated).2]
    exact keepsOwned_insert rfl
  · unfold ControllerState.after Segment.writes
    rw [created]
    exact keepsOwned_insert rfl

theorem keepsOwned_report (agentId : Nat) (report : RecoveryReport) :
    KeepsOwned state.db
      (state.after (state.onRecoveryReport agentId report)).db := by
  refine @keepsOwned_segment state (.recoveryReport agentId report) _ ?_ rfl
  rintro _ _ _ ⟨⟩

end Rows

/-! ## Hosts, agents and the Controller -/

/-- How far the `job_started` frame of a spawned process is. -/
inductive Delivery where
  | inFlight
  | refused
  | handled
  deriving DecidableEq

/-- A spawned process of an attempt: its pid, when the spawn returned one, and
the identity in the agent's metadata. -/
structure JobRun where
  header : LeaseHeader
  pid : Option Nat
  processIdentity : Option Nat
  delivery : Delivery
  deriving DecidableEq

/-- The Controller and the agents, each with the processes of its own host. -/
structure Fleet where
  controller : ControllerState
  controllerHost : ProcessTable
  agentHosts : Nat → ProcessTable
  runs : Nat → Nat → Option JobRun

inductive FleetEvent where
  | controllerProcess (pid : Nat) (startMs : Option Nat)
  | agentProcess (agentId pid : Nat) (startMs : Option Nat)
  | spawn (agentId : Nat) (header : LeaseHeader) (pid : Option Nat)
  | jobStarted (agentId attemptId : Nat)
  | recoveryReport (agentId attemptId : Nat) (awaitingUpload : Bool)
  | controller (event : Event)
  deriving DecidableEq

/-- The events of the Controller that are no message of an agent's run. -/
def Event.ownMessage : Event → Bool
  | .frame _ _ (.jobStarted _) => false
  | .recoveryReport _ _ => false
  | _ => true

/-- The identity that the Controller looks up for `job_started`. -/
def Fleet.located (fleet : Fleet) (run : JobRun) : Option Nat :=
  run.pid.bind (identityOf fleet.controllerHost)

def Fleet.setRun (fleet : Fleet) (agentId attemptId : Nat) (run : JobRun) :
    Fleet :=
  { fleet with
    runs := fun agent attempt =>
      if agent = agentId ∧ attempt = attemptId then some run
      else fleet.runs agent attempt }

def Fleet.accepts (fleet : Fleet) (agentId : Nat) (run : JobRun) : Bool :=
  (fleet.controller.acceptFrame agentId run.header [.running]).isSome

/-- The agent spawns the process once and persists what it finds; its
`job_started` is handled once, with what the Controller's host finds then. -/
def fleetMachine : Machine Fleet FleetEvent where
  initial fleet :=
    controllerMachine.initial fleet.controller ∧
      fleet.runs = fun _ _ => none
  step fleet
    | .controllerProcess pid startMs =>
      some
        { fleet with
          controllerHost :=
            Function.update fleet.controllerHost pid startMs }
    | .agentProcess agentId pid startMs =>
      some
        { fleet with
          agentHosts :=
            Function.update fleet.agentHosts agentId
              (Function.update (fleet.agentHosts agentId) pid startMs) }
    | .spawn agentId header pid =>
      match fleet.runs agentId header.attemptId with
      | some _ => none
      | none =>
        some
          (fleet.setRun agentId header.attemptId
            { header := header
              pid := pid
              processIdentity :=
                pid.bind (identityOf (fleet.agentHosts agentId))
              delivery := .inFlight })
    | .jobStarted agentId attemptId =>
      match fleet.runs agentId attemptId with
      | none => none
      | some run =>
        if run.delivery = .inFlight then
          (controllerMachine.step fleet.controller
            (.frame agentId run.header
              (.jobStarted (fleet.located run)))).map
            fun controller =>
              { fleet.setRun agentId attemptId
                  { run with
                    delivery :=
                      if fleet.accepts agentId run then .handled
                      else .refused } with
                controller }
        else none
    | .recoveryReport agentId attemptId awaitingUpload =>
      match fleet.runs agentId attemptId with
      | none => none
      | some run =>
        match run.processIdentity with
        | none => none
        | some processIdentity =>
          (controllerMachine.step fleet.controller
            (.recoveryReport agentId
              { header := run.header
                awaitingUpload := awaitingUpload
                processIdentity := processIdentity })).map
            fun controller => { fleet with controller }
    | .controller event =>
      if event.ownMessage then
        (controllerMachine.step fleet.controller event).map
          fun controller => { fleet with controller }
      else none

/-- The Controller stores for an attempt what its agent has persisted. -/
def Agrees (fleet : Fleet) (agentId attemptId : Nat) : Prop :=
  ∃ row run, fleet.controller.db.getAttempt attemptId = some row ∧
    fleet.runs agentId attemptId = some run ∧
    row.agentId = some agentId ∧
    row.processIdentity = run.processIdentity

/-- What holds in every run: an identity is stored only for an attempt whose
own `job_started` was handled. -/
structure Placed (fleet : Fleet) : Prop where
  named : ∀ agentId attemptId run,
    fleet.runs agentId attemptId = some run →
      run.header.attemptId = attemptId
  identified : ∀ attemptId row,
    fleet.controller.db.getAttempt attemptId = some row →
      row.processIdentity ≠ none →
      ∃ agentId run, row.agentId = some agentId ∧
        fleet.runs agentId attemptId = some run ∧ run.delivery = .handled
  handled : ∀ agentId attemptId run,
    fleet.runs agentId attemptId = some run → run.delivery = .handled →
      ∃ row, fleet.controller.db.getAttempt attemptId = some row ∧
        row.agentId = some agentId

/-- Every handled `job_started` left an agreement. -/
def Agreed (fleet : Fleet) : Prop :=
  ∀ agentId attemptId run, fleet.runs agentId attemptId = some run →
    run.delivery = .handled → Agrees fleet agentId attemptId

section Fleets

variable {fleet next : Fleet} {agentId attemptId : Nat} {run : JobRun}

theorem runs_setRun {agent attempt : Nat} :
    (fleet.setRun agentId attemptId run).runs agent attempt =
      if agent = agentId ∧ attempt = attemptId then some run
      else fleet.runs agent attempt :=
  rfl

variable {controller : ControllerState}

/-- A step of the Controller that keeps the identities. -/
theorem placed_controller
    (kept : KeepsOwned fleet.controller.db controller.db)
    (placed : Placed fleet) : Placed { fleet with controller } := by
  refine ⟨placed.named, ?_, ?_⟩
  · intro attemptId row stored known
    cases before : fleet.controller.db.getAttempt attemptId with
    | none => exact absurd ((kept attemptId).2 before row stored) known
    | some earlier =>
      rcases (kept attemptId).1 earlier before with ⟨later, there, same⟩
      cases stored.symm.trans there
      rcases Prod.mk.inj same with ⟨owner, identity⟩
      rw [identity] at known
      rcases placed.identified attemptId earlier before known with
        ⟨agentId, run, owned, running, handled⟩
      exact ⟨agentId, run, owner.trans owned, running, handled⟩
  · intro agentId attemptId run running handled
    rcases placed.handled agentId attemptId run running handled with
      ⟨row, stored, owned⟩
    rcases (kept attemptId).1 row stored with ⟨later, there, same⟩
    exact ⟨later, there, (congrArg Prod.fst same).trans owned⟩

theorem agrees_controller
    (kept : KeepsOwned fleet.controller.db controller.db)
    (agrees : Agrees fleet agentId attemptId) :
    Agrees { fleet with controller } agentId attemptId := by
  rcases agrees with ⟨row, run, stored, running, owned, same⟩
  rcases (kept attemptId).1 row stored with ⟨later, there, equal⟩
  rcases Prod.mk.inj equal with ⟨owner, identity⟩
  exact ⟨later, run, there, running, owner.trans owned,
    identity.trans same⟩

theorem keepsOwned_own {event : Event} (own : event.ownMessage = true)
    (step : controllerMachine.step fleet.controller event = some controller) :
    KeepsOwned fleet.controller.db controller.db := by
  rcases Option.map_eq_some_iff.mp step with ⟨segment, taken, rfl⟩
  refine keepsOwned_segment ?_ taken
  rintro agentId header identity rfl
  cases own

/-- The tables after a handled `job_started`. -/
theorem started_accepted {header : LeaseHeader} {row : AttemptRow}
    {identity : Option Nat} {state : ControllerState}
    (accepted : state.acceptFrame agentId header [.running] = some row)
    (step : controllerMachine.step state
      (.frame agentId header (.jobStarted identity)) = some controller)
    (name : Nat) :
    controller.db.getAttempt name =
      (state.db.getAttempt name).map fun row =>
        if header.attemptId = name then
          row.update { processIdentity := identity }
        else row := by
  cases step
  have segment :
      state.receive agentId header (.jobStarted identity) =
        state.handleRemoteJobStarted header identity := by
    unfold ControllerState.receive Frame.expected
    dsimp only
    rw [accepted]
  show (state.db.writes (state.receive agentId header
    (.jobStarted identity)).writes).getAttempt name = _
  rw [segment]
  cases identity with
  | some stored =>
    exact Database.getAttempt_updateAttempt header.attemptId
      { processIdentity := some stored } name
  | none =>
    show state.db.getAttempt name = _
    cases state.db.getAttempt name with
    | none => rfl
    | some row =>
      rw [Option.map_some]
      split <;> rfl

theorem started_refused {header : LeaseHeader} {identity : Option Nat}
    {state : ControllerState}
    (refused : state.acceptFrame agentId header [.running] = none)
    (step : controllerMachine.step state
      (.frame agentId header (.jobStarted identity)) = some controller) :
    controller.db = state.db := by
  cases step
  have segment :
      state.receive agentId header (.jobStarted identity) =
        state.nothing := by
    unfold ControllerState.receive Frame.expected
    dsimp only
    rw [refused]
  show state.db.writes (state.receive agentId header
    (.jobStarted identity)).writes = _
  rw [segment]
  rfl

/-- Before its `job_started` is handled an attempt has no identity. -/
theorem unidentified (placed : Placed fleet) {row : AttemptRow}
    (running : fleet.runs agentId attemptId = some run)
    (waiting : run.delivery ≠ .handled)
    (stored : fleet.controller.db.getAttempt attemptId = some row)
    (owned : row.agentId = some agentId) :
    row.processIdentity = none := by
  by_contra known
  rcases placed.identified attemptId row stored known with
    ⟨other, process, owner, runs, handled⟩
  cases owned.symm.trans owner
  cases running.symm.trans runs
  exact waiting handled

/-- The row of an attempt once its `job_started` is handled. -/
theorem started_row (placed : Placed fleet)
    (running : fleet.runs agentId attemptId = some run)
    (waiting : run.delivery = .inFlight)
    (accepts : fleet.accepts agentId run = true)
    (step : fleetMachine.step fleet (.jobStarted agentId attemptId) =
      some next) :
    ∃ row, next.controller.db.getAttempt attemptId = some row ∧
      row.agentId = some agentId ∧
      row.processIdentity = fleet.located run ∧
      next.runs agentId attemptId =
        some { run with delivery := .handled } := by
  simp only [fleetMachine, running, waiting, if_true] at step
  rcases Option.map_eq_some_iff.mp step with ⟨controller, went, rfl⟩
  rcases Option.isSome_iff_exists.mp accepts with ⟨row, accepted⟩
  have named := placed.named agentId attemptId run running
  rcases ControllerState.acceptFrame_eq_some.mp accepted with
    ⟨stored, _, _, owned, _⟩
  rw [named] at stored
  have fresh : row.processIdentity = none := by
    apply unidentified placed running _ stored owned
    rw [waiting]
    nofun
  refine ⟨row.update { processIdentity := fleet.located run }, ?_, owned,
    ?_, ?_⟩
  · rw [started_accepted accepted went, stored, named, Option.map_some,
      if_pos rfl]
  · show (fleet.located run).or row.processIdentity = _
    rw [fresh, Option.or_none]
  · show (if agentId = agentId ∧ attemptId = attemptId then _ else _) = _
    rw [if_pos ⟨rfl, rfl⟩, if_pos accepts]

/-- A run may be written anew, and be handled once its row is its own. -/
theorem placed_setRun (placed : Placed fleet)
    (named : run.header.attemptId = attemptId)
    (grows : ∀ earlier, fleet.runs agentId attemptId = some earlier →
      earlier.delivery = .handled → run.delivery = .handled)
    (backed : run.delivery = .handled → ∃ row,
      fleet.controller.db.getAttempt attemptId = some row ∧
        row.agentId = some agentId) :
    Placed (fleet.setRun agentId attemptId run) := by
  refine ⟨?_, ?_, ?_⟩
  · intro agent attempt process runs
    rw [runs_setRun] at runs
    split at runs
    next both =>
      rw [← Option.some.inj runs, both.2]
      exact named
    next => exact placed.named agent attempt process runs
  · intro attempt row stored known
    rcases placed.identified attempt row stored known with
      ⟨agent, process, owner, runs, done⟩
    by_cases both : agent = agentId ∧ attempt = attemptId
    · rcases both with ⟨rfl, rfl⟩
      refine ⟨agent, run, owner, ?_, grows process runs done⟩
      rw [runs_setRun, if_pos ⟨rfl, rfl⟩]
    · refine ⟨agent, process, owner, ?_, done⟩
      rw [runs_setRun, if_neg both]
      exact runs
  · intro agent attempt process runs done
    rw [runs_setRun] at runs
    split at runs
    next both =>
      rw [← Option.some.inj runs] at done
      rw [both.1, both.2]
      exact backed done
    next => exact placed.handled agent attempt process runs done

/-- The identity of an attempt may be stored once its run is handled. -/
theorem placed_stored (placed : Placed fleet) {identity : Option Nat}
    {row : AttemptRow} (running : fleet.runs agentId attemptId = some run)
    (done : run.delivery = .handled)
    (stored : fleet.controller.db.getAttempt attemptId = some row)
    (owned : row.agentId = some agentId)
    (writes : ∀ name, controller.db.getAttempt name =
      (fleet.controller.db.getAttempt name).map fun row =>
        if attemptId = name then
          row.update { processIdentity := identity }
        else row) :
    Placed { fleet with controller } := by
  refine ⟨placed.named, ?_, ?_⟩
  · intro attempt later there known
    rw [writes, Option.map_eq_some_iff] at there
    rcases there with ⟨before, earlier, rfl⟩
    split at known
    next same =>
      subst same
      cases stored.symm.trans earlier
      refine ⟨agentId, run, ?_, running, done⟩
      rw [if_pos rfl]
      exact owned
    next other =>
      rw [if_neg other]
      exact placed.identified attempt before earlier known
  · intro agent attempt process runs finished
    rcases placed.handled agent attempt process runs finished with
      ⟨before, earlier, owner⟩
    refine ⟨_, (writes attempt).trans
      (congrArg (Option.map _) earlier), ?_⟩
    dsimp only
    split <;> exact owner

theorem placed_started (placed : Placed fleet)
    (running : fleet.runs agentId attemptId = some run)
    (waiting : run.delivery = .inFlight)
    (step : fleetMachine.step fleet (.jobStarted agentId attemptId) =
      some next) : Placed next := by
  have named := placed.named agentId attemptId run running
  simp only [fleetMachine, running, waiting, if_true] at step
  rcases Option.map_eq_some_iff.mp step with ⟨controller, went, rfl⟩
  cases accepted :
      fleet.controller.acceptFrame agentId run.header [.running] with
  | none =>
    have refuses : fleet.accepts agentId run = false := by
      unfold Fleet.accepts
      rw [accepted]
      rfl
    have same := started_refused accepted went
    apply placed_controller (by rw [same]; exact keepsOwned_refl)
    refine placed_setRun placed ?_ ?_ ?_
    · exact named
    · intro earlier runs done
      cases running.symm.trans runs
      cases waiting.symm.trans done
    · rw [refuses]
      nofun
  | some row =>
    have accepts : fleet.accepts agentId run = true := by
      unfold Fleet.accepts
      rw [accepted]
      rfl
    rcases ControllerState.acceptFrame_eq_some.mp accepted with
      ⟨stored, _, _, owned, _⟩
    rw [named] at stored
    have set : Placed (fleet.setRun agentId attemptId
        { run with delivery := .handled }) :=
      placed_setRun placed named (fun _ _ _ => rfl)
        (fun _ => ⟨row, stored, owned⟩)
    have runs : (fleet.setRun agentId attemptId
        { run with delivery := .handled }).runs agentId attemptId =
          some { run with delivery := .handled } :=
      if_pos ⟨rfl, rfl⟩
    have writes := started_accepted accepted went
    rw [named] at writes
    rw [accepts]
    exact placed_stored set runs rfl stored owned writes

/-- What holds of the identities is kept by every step. -/
theorem placed_step {event : FleetEvent} (placed : Placed fleet)
    (step : fleetMachine.step fleet event = some next) : Placed next := by
  cases event with
  | controllerProcess pid startMs =>
    cases step
    exact ⟨placed.named, placed.identified, placed.handled⟩
  | agentProcess agentId pid startMs =>
    cases step
    exact ⟨placed.named, placed.identified, placed.handled⟩
  | spawn agentId header pid =>
    simp only [fleetMachine] at step
    split at step
    · cases step
    next free =>
      cases step
      refine placed_setRun placed ?_ ?_ ?_
      · rfl
      · intro earlier runs
        cases free.symm.trans runs
      · nofun
  | jobStarted agentId attemptId =>
    have taken := step
    simp only [fleetMachine] at step
    split at step
    · cases step
    next run running =>
      split at step
      next waiting => exact placed_started placed running waiting taken
      next => cases step
  | recoveryReport agentId attemptId awaitingUpload =>
    simp only [fleetMachine] at step
    split at step
    · cases step
    · split at step
      · cases step
      · rcases Option.map_eq_some_iff.mp step with ⟨controller, went, rfl⟩
        cases went
        exact placed_controller (keepsOwned_report _ _) placed
  | controller event =>
    simp only [fleetMachine] at step
    split at step
    next own =>
      rcases Option.map_eq_some_iff.mp step with ⟨controller, went, rfl⟩
      exact placed_controller (keepsOwned_own own went) placed
    next => cases step

/-- The Controller's host finds for a handled `job_started` what the agent
has persisted. -/
def SameIdentity (fleet : Fleet) : FleetEvent → Prop
  | .jobStarted agentId attemptId =>
    ∀ run, fleet.runs agentId attemptId = some run →
      fleet.accepts agentId run = true →
      fleet.located run = run.processIdentity
  | _ => True

theorem agreed_controller
    (kept : KeepsOwned fleet.controller.db controller.db)
    (agreed : Agreed fleet) : Agreed { fleet with controller } := by
  intro agent attempt process runs done
  exact agrees_controller kept (agreed agent attempt process runs done)

/-- An agreement that a run written elsewhere leaves. -/
theorem agrees_setRun {agent attempt : Nat}
    (agrees : Agrees fleet agent attempt)
    (other : ¬ (agent = agentId ∧ attempt = attemptId)) :
    Agrees (fleet.setRun agentId attemptId run) agent attempt := by
  rcases agrees with ⟨row, process, stored, runs, owned, same⟩
  refine ⟨row, process, stored, ?_, owned, same⟩
  rw [runs_setRun, if_neg other]
  exact runs

theorem agreed_started (placed : Placed fleet) (agreed : Agreed fleet)
    (same : SameIdentity fleet (.jobStarted agentId attemptId))
    (running : fleet.runs agentId attemptId = some run)
    (waiting : run.delivery = .inFlight)
    (step : fleetMachine.step fleet (.jobStarted agentId attemptId) =
      some next) : Agreed next := by
  have named := placed.named agentId attemptId run running
  have taken := step
  simp only [fleetMachine, running, waiting, if_true] at step
  rcases Option.map_eq_some_iff.mp step with ⟨controller, went, rfl⟩
  intro agent attempt process runs done
  cases accepted :
      fleet.controller.acceptFrame agentId run.header [.running] with
  | none =>
    have refuses : fleet.accepts agentId run = false := by
      unfold Fleet.accepts
      rw [accepted]
      rfl
    have unchanged := started_refused accepted went
    rw [show _ = ite _ _ _ from runs_setRun] at runs
    split at runs
    · rw [refuses] at runs
      rw [← Option.some.inj runs] at done
      cases done
    next other =>
      have before := agreed agent attempt process runs done
      have kept : KeepsOwned fleet.controller.db controller.db := by
        rw [unchanged]
        exact keepsOwned_refl
      exact agrees_controller kept (agrees_setRun before other)
  | some first =>
    have accepts : fleet.accepts agentId run = true := by
      unfold Fleet.accepts
      rw [accepted]
      rfl
    rcases started_row placed running waiting accepts taken with
      ⟨row, stored, owned, identity, handled⟩
    by_cases both : agent = agentId ∧ attempt = attemptId
    · rcases both with ⟨rfl, rfl⟩
      exact ⟨row, _, stored, handled, owned,
        identity.trans (same run running accepts)⟩
    · rw [show _ = ite _ _ _ from runs_setRun, if_neg both] at runs
      rcases agreed agent attempt process runs done with
        ⟨before, found, there, runs', owner, equal⟩
      cases runs.symm.trans runs'
      have elsewhere : attempt ≠ attemptId := by
        rintro rfl
        rcases ControllerState.acceptFrame_eq_some.mp accepted with
          ⟨held, _, _, own, _⟩
        rw [named] at held
        cases held.symm.trans there
        cases own.symm.trans owner
        exact both ⟨rfl, rfl⟩
      refine ⟨before, process, ?_, ?_, owner, equal⟩
      · show controller.db.getAttempt attempt = some before
        rw [started_accepted accepted went, named, there, Option.map_some,
          if_neg (Ne.symm elsewhere)]
      · show ite _ _ _ = _
        rw [if_neg both]
        exact runs

theorem agreed_step {event : FleetEvent} (placed : Placed fleet)
    (agreed : Agreed fleet) (same : SameIdentity fleet event)
    (step : fleetMachine.step fleet event = some next) : Agreed next := by
  cases event with
  | controllerProcess pid startMs =>
    cases step
    exact agreed
  | agentProcess agentId pid startMs =>
    cases step
    exact agreed
  | spawn agentId header pid =>
    simp only [fleetMachine] at step
    split at step
    · cases step
    next free =>
      cases step
      intro agent attempt process runs done
      rw [runs_setRun] at runs
      split at runs
      · rw [← Option.some.inj runs] at done
        cases done
      next other =>
        exact agrees_setRun (agreed agent attempt process runs done)
          other
  | jobStarted agentId attemptId =>
    have taken := step
    simp only [fleetMachine] at step
    split at step
    · cases step
    next run running =>
      split at step
      next waiting =>
        exact agreed_started placed agreed same running waiting taken
      next => cases step
  | recoveryReport agentId attemptId awaitingUpload =>
    simp only [fleetMachine] at step
    split at step
    · cases step
    · split at step
      · cases step
      · rcases Option.map_eq_some_iff.mp step with ⟨controller, went, rfl⟩
        cases went
        exact agreed_controller (keepsOwned_report _ _) agreed
  | controller event =>
    simp only [fleetMachine] at step
    split at step
    next own =>
      rcases Option.map_eq_some_iff.mp step with ⟨controller, went, rfl⟩
      exact agreed_controller (keepsOwned_own own went) agreed
    next => cases step

end Fleets

/-! ## Recovery reports of the owner -/

/-- The report is decided `adopt`. -/
def Adopts (state : ControllerState) (agentId : Nat)
    (report : RecoveryReport) : Prop :=
  updateAttempt report.header.attemptId
      { state :=
          some
            (if report.awaitingUpload then .collectingArtifacts
            else .running)
        processIdentity := some report.processIdentity } ∈
    (state.onRecoveryReport agentId report).effects

/-- A report of the owner under the current lease is adopted exactly when it
names the stored identity. -/
theorem adopts_iff {state : ControllerState} {agentId : Nat}
    {report : RecoveryReport} {row : AttemptRow}
    (stored : state.db.getAttempt report.header.attemptId = some row)
    (live : row.live) (owned : row.agentId = some agentId)
    (leaseId : row.leaseId = report.header.leaseId)
    (leaseEpoch : row.leaseEpoch = report.header.leaseEpoch) :
    Adopts state agentId report ↔
      row.processIdentity = some report.processIdentity := by
  constructor
  · intro adopts
    cases shape_onRecoveryReport agentId report with
    | calm effects _ =>
      cases effects _ adopts with
      | plain is => simp [updateAttempt, Effect.plain] at is
      | adopted found _ _ known =>
        cases stored.symm.trans found
        exact known
  · intro known
    have adopted : staleReason agentId row report = none :=
      staleReason_eq_none.mpr ⟨owned, leaseEpoch, leaseId, known⟩
    unfold Adopts ControllerState.onRecoveryReport
    simp only [stored]
    rw [if_neg (not_not_intro live),
      if_neg (by rw [known]; exact Option.some_ne_none _), adopted]
    exact List.mem_append_right _ List.mem_cons_self

theorem placed_initial {fleet : Fleet} (initial : fleetMachine.initial fleet) :
    Placed fleet := by
  rcases initial with ⟨⟨maxConcurrentJobs, fresh⟩, idle⟩
  refine ⟨?_, ?_, ?_⟩
  · intro agentId attemptId run running
    rw [idle] at running
    cases running
  · intro attemptId row stored
    rw [fresh] at stored
    cases stored
  · intro agentId attemptId run running
    rw [idle] at running
    cases running

theorem reachable_placed {allowed : Fleet → FleetEvent → Prop}
    {fleet : Fleet} (reachable : fleetMachine.Reachable allowed fleet) :
    Placed fleet := by
  have preserved : ∀ fleet event next, Placed fleet → allowed fleet event →
      fleetMachine.step fleet event = some next → Placed next :=
    fun _ _ _ placed _ step => placed_step placed step
  exact reachable.invariant (fun _ initial => placed_initial initial)
    preserved

/--
A handled `job_started` leaves the Controller with the agent's identity
exactly when the Controller's host finds the same one, and the owner's report
is adopted exactly then.  Where every handled frame finds the same identity,
the two agree in every run.
-/
theorem process_identity_agrees_iff (fleet : Fleet) :
    (∀ next agentId attemptId run,
      fleetMachine.Reachable (fun _ _ => True) fleet →
      fleet.runs agentId attemptId = some run →
      run.delivery = .inFlight →
      fleet.accepts agentId run = true →
      fleetMachine.step fleet (.jobStarted agentId attemptId) = some next →
      (Agrees next agentId attemptId ↔
        fleet.located run = run.processIdentity)) ∧
    (∀ agentId attemptId run row processIdentity awaitingUpload,
      fleetMachine.Reachable (fun _ _ => True) fleet →
      fleet.runs agentId attemptId = some run →
      run.delivery = .handled →
      fleet.controller.db.getAttempt attemptId = some row → row.live →
      row.leaseId = run.header.leaseId →
      row.leaseEpoch = run.header.leaseEpoch →
      run.processIdentity = some processIdentity →
      (Adopts fleet.controller agentId
          { header := run.header
            awaitingUpload := awaitingUpload
            processIdentity := processIdentity } ↔
        Agrees fleet agentId attemptId)) ∧
    (fleetMachine.Reachable SameIdentity fleet → Agreed fleet) := by
  refine ⟨?_, ?_, ?_⟩
  · intro next agentId attemptId run reachable running waiting accepts step
    rcases started_row (reachable_placed reachable) running waiting accepts
      step with ⟨row, stored, owned, identity, handled⟩
    constructor
    · rintro ⟨other, process, there, runs, _, same⟩
      cases stored.symm.trans there
      cases handled.symm.trans runs
      exact identity.symm.trans same
    · intro same
      exact ⟨row, _, stored, handled, owned, identity.trans same⟩
  · intro agentId attemptId run row processIdentity awaitingUpload
      reachable running done stored live leaseId leaseEpoch persisted
    have placed := reachable_placed reachable
    have named := placed.named agentId attemptId run running
    rcases placed.handled agentId attemptId run running done with
      ⟨other, there, owned⟩
    cases stored.symm.trans there
    have lookup : fleet.controller.db.getAttempt run.header.attemptId =
        some row := by
      rw [named]
      exact stored
    rw [adopts_iff lookup live owned leaseId leaseEpoch]
    constructor
    · intro known
      exact ⟨row, run, stored, running, owned, known.trans persisted.symm⟩
    · rintro ⟨second, process, found, runs, _, same⟩
      cases stored.symm.trans found
      cases running.symm.trans runs
      exact same.trans persisted
  · intro reachable
    have preserved : ∀ fleet event next,
        Placed fleet ∧ Agreed fleet → SameIdentity fleet event →
        fleetMachine.step fleet event = some next →
        Placed next ∧ Agreed next := by
      rintro fleet event next ⟨placed, agreed⟩ same step
      exact ⟨placed_step placed step, agreed_step placed agreed same step⟩
    have initially : ∀ fleet, fleetMachine.initial fleet →
        Placed fleet ∧ Agreed fleet := by
      intro fleet initial
      refine ⟨placed_initial initial, ?_⟩
      intro agentId attemptId run running
      rw [initial.2] at running
      cases running
    exact (reachable.invariant initially preserved).2

/-! ## An agent on a host of its own -/

def readyHeader : LeaseHeader where
  attemptId := 0
  leaseId := 0
  leaseEpoch := 1

/-- Process 42 of agent 1's host started at 1000; nothing else runs. -/
def agentTable (agentId pid : Nat) : Option Nat :=
  if agentId = 1 ∧ pid = 42 then some 1000 else none

/-- A fleet before its first job, with the Controller on some host. -/
def freshFleet (controllerHost : ProcessTable) : Fleet where
  controller := freshController
  controllerHost := controllerHost
  agentHosts := agentTable
  runs := fun _ _ => none

/-- Agent 1 prepares the source of an attempt and spawns its process. -/
def spawnedRun : List FleetEvent :=
  [.controller (.connect 1), .controller (.submit .wait false),
    .controller (.resume 0 (.remote 1)),
    .controller (.frame 1 readyHeader (.leaseAccept .prepared)),
    .controller (.frame 1 readyHeader .sourceReady),
    .spawn 1 readyHeader (some 42)]

/-- The row of the attempt, its run, and whether its frame is accepted. -/
def identityView (fleet : Fleet) :
    Option AttemptRow × Option JobRun × Option Nat × Option Bool :=
  (fleet.controller.db.getAttempt 0, fleet.runs 1 0,
    (fleet.runs 1 0).bind fleet.located,
    (fleet.runs 1 0).map (fleet.accepts 1))

def spawnedJob (delivery : Delivery) : JobRun where
  header := readyHeader
  pid := some 42
  processIdentity := some (Nat.pair 42 1000)
  delivery := delivery

def spawnedReport : RecoveryReport where
  header := readyHeader
  awaitingUpload := false
  processIdentity := Nat.pair 42 1000

theorem freshFleet_initial (controllerHost : ProcessTable) :
    fleetMachine.initial (freshFleet controllerHost) :=
  ⟨freshController_initial, rfl⟩

/-- On another host the Controller stores no identity for the process, and
the report of its living process is not adopted. -/
theorem remote_process_unidentified :
    ∃ fleet row run,
      fleetMachine.run (freshFleet fun _ => none)
          (spawnedRun ++ [.jobStarted 1 0]) = some fleet ∧
        fleet.controller.db.getAttempt 0 = some row ∧
        fleet.runs 1 0 = some run ∧ run.delivery = .handled ∧
        run.processIdentity = some spawnedReport.processIdentity ∧
        row.agentId = some 1 ∧ row.live ∧
        row.leaseId = spawnedReport.header.leaseId ∧
        row.leaseEpoch = spawnedReport.header.leaseEpoch ∧
        ¬ Agrees fleet 1 0 ∧
        ¬ Adopts fleet.controller 1 spawnedReport := by
  have went :
      (fleetMachine.run (freshFleet fun _ => none)
          (spawnedRun ++ [.jobStarted 1 0])).map identityView =
        some (some (startedAttempt none), some (spawnedJob .handled), none,
          some true) := by
    decide +kernel
  rcases Option.map_eq_some_iff.mp went with ⟨fleet, ran, view⟩
  simp only [identityView, Prod.mk.injEq] at view
  rcases view with ⟨stored, running, _, _⟩
  have differs : ¬ Agrees fleet 1 0 := by
    rintro ⟨row, run, there, runs, _, same⟩
    cases stored.symm.trans there
    cases running.symm.trans runs
    cases same
  refine ⟨fleet, _, _, ran, stored, running, rfl, rfl, rfl, by decide, rfl,
    rfl, differs, ?_⟩
  intro adopts
  have known := (adopts_iff stored (by decide) rfl rfl rfl).mp adopts
  cases known

/-- On the agent's own host the same run ends in agreement. -/
theorem process_identity_agrees_iff_sameHost :
    ∃ before after row,
      fleetMachine.run (freshFleet (agentTable 1)) spawnedRun =
          some before ∧
        fleetMachine.step before (.jobStarted 1 0) = some after ∧
        (Agrees after 1 0 ↔
          before.located (spawnedJob .inFlight) =
            (spawnedJob .inFlight).processIdentity) ∧
        after.controller.db.getAttempt 0 = some row ∧
        (Adopts after.controller 1 spawnedReport ↔ Agrees after 1 0) ∧
        Agreed after := by
  have spawned :
      (fleetMachine.run (freshFleet (agentTable 1)) spawnedRun).map
          identityView =
        some (some (startedAttempt none), some (spawnedJob .inFlight),
          some (Nat.pair 42 1000), some true) := by
    decide +kernel
  have started :
      (fleetMachine.run (freshFleet (agentTable 1))
          (spawnedRun ++ [.jobStarted 1 0])).map identityView =
        some (some (startedAttempt (some (Nat.pair 42 1000))),
          some (spawnedJob .handled), some (Nat.pair 42 1000),
          some true) := by
    decide +kernel
  rcases Option.map_eq_some_iff.mp spawned with ⟨before, ran, view⟩
  rcases Option.map_eq_some_iff.mp started with ⟨after, went, later⟩
  rw [Machine.run_append, ran, Option.bind_some,
    Machine.run_single] at went
  simp only [identityView, Prod.mk.injEq] at view later
  rcases view with ⟨_, running, located, accepts⟩
  rcases later with ⟨stored, handled, _, _⟩
  rw [running, Option.bind_some] at located
  rw [running, Option.map_some, Option.some.injEq] at accepts
  have harmless : ∀ allowed : Fleet → FleetEvent → Prop,
      (∀ fleet event, (∀ agentId attemptId,
        event ≠ .jobStarted agentId attemptId) → allowed fleet event) →
      fleetMachine.Steps allowed (freshFleet (agentTable 1)) before := by
    intro allowed meets
    refine Machine.steps_of_run
      (fun _ event => match event with
        | .jobStarted _ _ => false
        | _ => true) ?_ (by decide +kernel) ran
    intro fleet event plain
    apply meets
    rintro agentId attemptId rfl
    cases plain
  have unrestricted : fleetMachine.Reachable (fun _ _ => True) before :=
    ⟨_, freshFleet_initial _, harmless _ fun _ _ _ => trivial⟩
  have same : SameIdentity before (.jobStarted 1 0) := by
    intro run runs _
    cases running.symm.trans runs
    exact located
  have reachable : fleetMachine.Reachable SameIdentity before := by
    refine ⟨_, freshFleet_initial _, harmless _ ?_⟩
    intro fleet event other
    cases event with
    | jobStarted agentId attemptId => exact absurd rfl (other _ _)
    | _ => exact trivial
  exact ⟨before, after, _, ran, went,
    (process_identity_agrees_iff before).1 after 1 0 _ unrestricted running
      rfl accepts went,
    stored,
    (process_identity_agrees_iff after).2.1 1 0 _ _ _ false
      (unrestricted.next trivial went) handled rfl stored (by decide) rfl
      rfl rfl,
    (process_identity_agrees_iff after).2.2 (reachable.next same went)⟩

end Rbo.Controller.Execution
