import Mathlib.Algebra.Order.Ring.Rat
import Rbo.Controller.Reconnection
import Rbo.Controller.RoutineEffects
import Rbo.Controller.Scheduler

/-!
# The capacity of an agent

A dispatch counts the jobs of every agent before it awaits the source
requirements, and leases to the agent that it selects by that count after it.
A second dispatch may lease to the same agent in between, and an orphaned
attempt is not counted at all.  If neither happens, and the capacity is a
whole number, no agent is ever leased more than the report of its selection
allows.
-/

namespace Rbo.Controller.Capacity

open Rbo.Foundation
open Rbo.Controller.Lifecycle
open Rbo.Controller.Execution
open Rbo.Controller.Scheduler (AgentCapabilityReport SchedulerAgent JobRequest
  SchedulerOptions GitSourceRequirements Platform SchedulingDecision
  agentIsAtCapacity selectAgentForJob mergeGitSourceToolRequirements)

/-! ## Attempts of an agent -/

/-- An attempt of the agent that is not completed. -/
def Holds (agentId : Nat) (row : AttemptRow) : Prop :=
  row.live ∧ row.agentId = some agentId

instance (agentId : Nat) (row : AttemptRow) : Decidable (Holds agentId row) :=
  inferInstanceAs (Decidable (_ ∧ _))

/-- The attempts leased to an agent that are not completed. -/
def unfinished (db : Database) (agentId : Nat) : Nat :=
  db.attempts.countP fun row => Holds agentId row

/-- The states that the query counts, among those that attempts have. -/
def activeStates : List AttemptState :=
  [.leasing, .preparingSource, .starting, .running, .collectingArtifacts]

/-- `getActiveJobsForAgents`, for one agent. -/
def getActiveJobsForAgents (db : Database) (agentId : Nat) : Nat :=
  db.attempts.countP fun row =>
    row.state ∈ activeStates ∧ row.agentId = some agentId

/-! ## How the table of attempts grows -/

/-- What a segment does to the attempts: it creates none and revives none, or
it creates one. -/
inductive Growth (state : ControllerState) (after : Database) :
    Option Nat → Prop where
  | tame (tame : Tame state after) : Growth state after none
  | localRun (jobId : Nat)
      (attempts : after.attempts =
        state.db.attempts ++ [state.localAttempt jobId]) :
      Growth state after none
  | remote (jobId agentId : Nat)
      (attempts : after.attempts =
        state.db.attempts ++ [state.remoteAttempt jobId agentId]) :
      Growth state after (some agentId)

section Growth

variable {state : ControllerState} {segment : Segment} {index jobId : Nat}
  {rest : List Nat}

/-- Only a resumed dispatch leases an attempt to an agent. -/
theorem growth_segment {event : Event}
    (taken : state.segment event = some segment) :
    Growth state (state.after segment).db none ∨
      ∃ index jobId rest agentId,
        event = .resume index (.remote agentId) ∧
        state.memory.tasks[index]? = some (.dispatch jobId rest) ∧
        (state.initiateRemoteAttempt jobId agentId).isSome ∧
        Growth state (state.after segment).db (some agentId) := by
  unfold ControllerState.after Segment.writes
  rcases (shape_segment taken).caused with
    caused | ⟨index, jobId, rest, agentId, is, found, initiated⟩ |
      ⟨jobId, inserted⟩
  · exact Or.inl (.tame (tame_writes (quiet_of_caused caused)))
  · right
    refine ⟨index, jobId, rest, agentId, is, found, by rw [initiated]; rfl, ?_⟩
    rw [(initiateRemoteAttempt_eq_some initiated).2]
    exact .remote jobId agentId rfl
  · left
    rw [inserted]
    exact .localRun jobId rfl

end Growth

/-- The agent to which a resumed dispatch leases. -/
def leasesTo : Completion → Option Nat
  | .remote agentId => some agentId
  | _ => none

/-! ## Later tables -/

/-- A later table of attempts: an attempt that the agent holds and that was
there before was held before. -/
structure Later (seen now : Database) : Prop where
  length : seen.attempts.length ≤ now.attempts.length
  held : ∀ attemptId agentId row, now.getAttempt attemptId = some row →
    Holds agentId row → attemptId < seen.attempts.length →
    ∃ before, seen.getAttempt attemptId = some before ∧ Holds agentId before

theorem Later.refl (db : Database) : Later db db where
  length := Nat.le_refl _
  held := fun _ _ row found holds _ => ⟨row, found, holds⟩

theorem Later.trans {seen middle now : Database} (first : Later seen middle)
    (second : Later middle now) : Later seen now where
  length := Nat.le_trans first.length second.length
  held := by
    intro attemptId agentId row found holds inside
    rcases second.held attemptId agentId row found holds
      (Nat.lt_of_lt_of_le inside first.length) with ⟨between, there, held⟩
    exact first.held attemptId agentId between there held inside

theorem countP_le {Item : Type} {counts counted : Item → Bool}
    {before after : List Item}
    (kept : ∀ (place : Nat) item, after[place]? = some item →
      counts item = true →
      ∃ old, before[place]? = some old ∧ counted old = true) :
    after.countP counts ≤ before.countP counted := by
  induction after generalizing before with
  | nil => exact Nat.zero_le _
  | cons item after induction =>
    have rest : after.countP counts ≤ before.tail.countP counted := by
      refine induction fun place later found holds => ?_
      rcases kept (place + 1) later found holds with ⟨old, there, was⟩
      exact ⟨old, by rwa [List.getElem?_tail], was⟩
    rw [List.countP_cons]
    split
    · rename_i holds
      rcases kept 0 item rfl holds with ⟨old, there, was⟩
      cases before with
      | nil => cases there
      | cons first before =>
        cases there
        rw [List.countP_cons, if_pos was]
        exact Nat.succ_le_succ rest
    · exact Nat.le_trans rest
        (List.tail_sublist before).countP_le

/-- Without a new attempt an agent holds no more than it did. -/
theorem Later.unfinished_le {seen now : Database} (later : Later seen now)
    (old : now.attempts.length = seen.attempts.length) (agentId : Nat) :
    unfinished now agentId ≤ unfinished seen agentId := by
  unfold unfinished
  apply countP_le
  intro attemptId row found holds
  rw [decide_eq_true_iff] at holds
  have inside := Database.getAttempt_lt found
  rw [old] at inside
  rcases later.held attemptId agentId row found holds inside with
    ⟨before, there, held⟩
  exact ⟨before, there, decide_eq_true held⟩

theorem later_of_tame {state : ControllerState} {after : Database}
    (localRuns : LocalRuns state) (tame : Tame state after) :
    Later state.db after where
  length := tame.length.ge
  held := by
    intro attemptId agentId row found holds _
    rcases tame.row attemptId row found with ⟨before, there, tamed⟩
    have sameAgent : before.agentId = some agentId := by
      have same := congrArg (fun columns => columns.2.2.1) tamed.same
      exact same.symm.trans holds.2
    refine ⟨before, there, ?_, sameAgent⟩
    rcases tamed.liveClaimed holds.1 with ⟨stored, again, live⟩ | ⟨jobId, runs⟩
    · rw [there, Option.some.injEq] at again
      exact again ▸ live
    · exact absurd runs (remote_of_localRuns localRuns there sameAgent jobId)

theorem later_of_append {before after : Database} {row : AttemptRow}
    (attempts : after.attempts = before.attempts ++ [row]) :
    Later before after where
  length := by
    rw [attempts, List.length_append]
    exact Nat.le_add_right _ _
  held := by
    intro attemptId agentId found there holds inside
    unfold Database.getAttempt at there
    rw [attempts, List.getElem?_append_left inside] at there
    exact ⟨found, there, holds⟩

theorem later_of_growth {state : ControllerState} {after : Database}
    {leased : Option Nat} (localRuns : LocalRuns state)
    (growth : Growth state after leased) : Later state.db after := by
  cases growth with
  | tame tame => exact later_of_tame localRuns tame
  | localRun jobId attempts => exact later_of_append attempts
  | remote jobId agentId attempts => exact later_of_append attempts

/-- A step leases at most one attempt more, to the agent it names. -/
theorem unfinished_growth {state : ControllerState} {after : Database}
    {leased : Option Nat} (localRuns : LocalRuns state)
    (growth : Growth state after leased) (agentId : Nat) :
    unfinished after agentId ≤ unfinished state.db agentId +
      if leased = some agentId then 1 else 0 := by
  cases growth with
  | tame tame =>
    exact (later_of_tame localRuns tame).unfinished_le tame.length agentId
  | localRun jobId attempts =>
    unfold unfinished
    rw [attempts, List.countP_append, List.countP_singleton,
      if_neg (by simp [Holds, ControllerState.localAttempt])]
    exact Nat.le_refl _
  | remote jobId owner attempts =>
    unfold unfinished
    rw [attempts, List.countP_append, List.countP_singleton]
    apply Nat.add_le_add_left
    by_cases same : owner = agentId
    · rw [if_pos (congrArg some same)]
      split <;> omega
    · rw [if_neg (by simp [Holds, ControllerState.remoteAttempt, same]),
        if_neg (by simpa using same)]

/-! ## Dispatches with their counts -/

/-- A row of `agents`; a report that does not parse is none. -/
structure AgentRow where
  capabilities : Option AgentCapabilityReport
  disabled : Bool
  deriving DecidableEq

/-- What a dispatch has read before it awaits, and the tables it read. -/
structure Reading where
  jobId : Nat
  seen : Database
  candidates : List (SchedulerAgent Nat)
  deriving DecidableEq

/-- The Controller with its agents and the dispatches under way; `selections`
names the capacities by which attempts were leased, the latest first. -/
structure Dispatcher where
  controller : ControllerState
  agents : List (Nat × AgentRow)
  readings : List Reading
  selections : List (Nat × ℚ)
  deriving DecidableEq

/-- What happens to the Controller.  A dispatch that goes on has the request,
the requirements of its sources and the options as inputs. -/
inductive Label where
  | report (agentId : Nat) (capabilities : Option AgentCapabilityReport)
      (restarted : Bool)
  | disable (agentId : Nat) (disabled : Bool)
  | controller (event : Event)
  | decide (index place : Nat) (request : JobRequest Nat)
      (sources : GitSourceRequirements) (options : SchedulerOptions Nat)
      (completion : Completion)

def dispatchedJob : Task → Option Nat
  | .dispatch jobId _ => some jobId
  | _ => none

namespace Dispatcher

variable (platform : Platform Nat) (state : Dispatcher)

/-- The candidates that `dispatchJobExecution` gathers. -/
def candidates : List (SchedulerAgent Nat) :=
  state.agents.filterMap fun (agentId, row) =>
    if row.disabled ∨ agentId ∉ state.controller.memory.connectedAgents then
      none
    else
      row.capabilities.map fun capabilities =>
        { agentId, capabilities
          activeJobsCount :=
            getActiveJobsForAgents state.controller.db agentId
          recentFailurePenalty := none }

/-- `INSERT ... ON CONFLICT DO UPDATE` of an agent's row. -/
def setAgent (agentId : Nat) (change : AgentRow → AgentRow) : Dispatcher :=
  let row := (state.agents.lookup agentId).getD
    { capabilities := none, disabled := false }
  { state with
    agents := (agentId, change row) ::
      state.agents.filter fun entry => entry.1 ≠ agentId }

/-- The Controller makes a step; the dispatches that start read at once. -/
def advance (event : Event) : Option Dispatcher := do
  let next ← controllerMachine.step state.controller event
  let started := (next.memory.tasks.filterMap dispatchedJob).diff
    (state.controller.memory.tasks.filterMap dispatchedJob)
  let moved := { state with controller := next }
  some
    { moved with
      readings :=
        (if event = .restart then [] else state.readings) ++
          started.map fun jobId =>
            { jobId, seen := next.db, candidates := moved.candidates } }

/-- The task waits for the source requirements of a dispatch. -/
def awaits (index : Nat) : Bool :=
  (state.controller.memory.tasks[index]?.bind dispatchedJob).isSome

/-- What a dispatch does with its decision.  Without a port or an agent it
does nothing, as it does when the agent plane shuts down. -/
def followsDecision (decision : SchedulingDecision Nat) :
    Completion → Bool
  | .remote agentId =>
    decision.action = .remote ∧
      decision.selectedAgent.map SchedulerAgent.agentId = some agentId
  | .localFallback => decision.action = .localFallback
  | .failFast hint =>
    decision.action = .failFast ∧
      hint = decision.noMatchDiagnostic.map fun diagnostic =>
        diagnostic.hint
  | .wait => true
  | .failed _ _ => true
  | _ => false

/-- The capacity in the report of the selected agent. -/
def capacityOf (decision : SchedulingDecision Nat) : ℚ :=
  (decision.selectedAgent.map fun agent => agent.capabilities.maxJobs).getD 0

/-- A dispatch goes on with what it read. -/
def decideDispatch (index place : Nat) (request : JobRequest Nat)
    (sources : GitSourceRequirements) (options : SchedulerOptions Nat)
    (completion : Completion) : Option Dispatcher := do
  let reading ← state.readings[place]?
  let jobId ← state.controller.memory.tasks[index]?.bind dispatchedJob
  let decision := selectAgentForJob platform reading.candidates
    (mergeGitSourceToolRequirements request sources) options
  if reading.jobId = jobId ∧ followsDecision decision completion then
    let next ← ({ state with
      readings := state.readings.eraseIdx place }).advance
        (.resume index completion)
    let leased := (leasesTo completion).filter fun agentId =>
      (state.controller.initiateRemoteAttempt jobId agentId).isSome
    some
      { next with
        selections := leased.toList.map (·, capacityOf decision) ++
          state.selections }
  else
    none

def step : Label → Option Dispatcher
  | .report agentId capabilities restarted =>
    (state.setAgent agentId fun row => { row with capabilities }).advance
      (.capabilities agentId restarted)
  | .disable agentId disabled =>
    some (state.setAgent agentId fun row => { row with disabled })
  | .controller event =>
    match event with
    | .resume index completion =>
      if state.awaits index then none
      else state.advance (.resume index completion)
    | event => state.advance event
  | .decide index place request sources options completion =>
    state.decideDispatch platform index place request sources options
      completion

end Dispatcher

/-- Every capacity by which attempts were leased is kept: an agent holds no
more unfinished attempts than the report of its latest selection allows. -/
def WithinCapacity (state : Dispatcher) : Prop :=
  ∀ agentId, (unfinished state.controller.db agentId : ℚ) ≤
    (state.selections.lookup agentId).getD 0

def dispatchMachine (platform : Platform Nat) : Machine Dispatcher Label where
  initial state :=
    ∃ controller, controllerMachine.initial controller ∧
      state = { controller, agents := [], readings := [], selections := [] }
  step := Dispatcher.step platform

/-! ## What keeps the capacity -/

/-- The counts that a dispatch has read still hold for an agent: whatever it
has not completed was leased before the dispatch read, and was not orphaned
then, and it reported a whole number of jobs. -/
structure StillCurrent (reading : Reading) (db : Database) (agentId : Nat) :
    Prop where
  counted : ∀ attemptId row, db.getAttempt attemptId = some row →
    Holds agentId row → ∃ before,
      reading.seen.getAttempt attemptId = some before ∧
        before.state ≠ .orphaned
  whole : ∀ candidate ∈ reading.candidates, candidate.agentId = agentId →
    candidate.capabilities.maxJobs.isInt = true

/-- A dispatch leases to an agent only by counts that still hold. -/
def Current (state : Dispatcher) : Label → Prop
  | .decide _ place _ _ _ (.remote agentId) =>
    ∀ reading ∈ state.readings[place]?,
      StillCurrent reading state.controller.db agentId
  | _ => True

variable {platform : Platform Nat} {options : SchedulerOptions Nat}

/-- The selected agent is a candidate with a free slot. -/
theorem selected_of_remote {agents : List (SchedulerAgent Nat)}
    {request : JobRequest Nat} {agent : SchedulerAgent Nat}
    (selected : (selectAgentForJob platform agents request
      options).selectedAgent = some agent) :
    agent ∈ agents ∧ agentIsAtCapacity agent = false := by
  unfold selectAgentForJob at selected
  dsimp only at selected
  split at selected
  · rename_i chosen others sorted
    cases selected
    have member : chosen ∈ agents.filterMap
        (Scheduler.eligibleCandidate platform request options) := by
      rw [← List.mem_insertionSort (Scheduler.precedes platform), sorted]
      exact List.mem_cons_self
    rcases List.mem_filterMap.mp member with ⟨candidate, inside, eligible⟩
    unfold Scheduler.eligibleCandidate at eligible
    split at eligible
    · rename_i passes
      rcases Option.map_eq_some_iff.mp eligible with ⟨toolchains, -, rfl⟩
      refine ⟨inside, ?_⟩
      unfold Scheduler.passesFilters at passes
      simp only [decide_eq_true_eq] at passes
      exact Bool.eq_false_iff.mpr passes.1
    · cases eligible
  · exfalso
    revert selected
    split
    · nofun
    · nofun
    · split
      · nofun
      · split
        · split <;> nofun
        · split <;> nofun

/-- What was read, at the time it was read. -/
def Counted (reading : Reading) : Prop :=
  ∀ candidate ∈ reading.candidates, candidate.activeJobsCount =
    getActiveJobsForAgents reading.seen candidate.agentId

variable {state : Dispatcher}

theorem counted_candidates :
    ∀ candidate ∈ state.candidates, candidate.activeJobsCount =
      getActiveJobsForAgents state.controller.db candidate.agentId := by
  intro candidate member
  rcases List.mem_filterMap.mp member with ⟨⟨agentId, row⟩, -, is⟩
  dsimp only at is
  split at is
  · cases is
  · rcases Option.map_eq_some_iff.mp is with ⟨capabilities, -, rfl⟩
    rfl

variable {next : Dispatcher}

/-- What a step of the Controller leaves of the readings and selections. -/
theorem advance_spec {event : Event}
    (advanced : state.advance event = some next) :
    ∃ segment, state.controller.segment event = some segment ∧
      next.controller = state.controller.after segment ∧
      next.selections = state.selections ∧
      ∀ reading ∈ next.readings, reading ∈ state.readings ∨
        reading.seen = next.controller.db ∧ Counted reading := by
  unfold Dispatcher.advance at advanced
  rw [Option.bind_eq_bind, Option.bind_eq_some_iff] at advanced
  rcases advanced with ⟨controller, stepped, is⟩
  cases is
  rcases Option.map_eq_some_iff.mp stepped with ⟨segment, taken, rfl⟩
  refine ⟨segment, taken, rfl, rfl, ?_⟩
  intro reading member
  rcases List.mem_append.mp member with old | new
  · split at old
    · cases old
    · exact Or.inl old
  · rcases List.mem_map.mp new with ⟨jobId, -, rfl⟩
    exact Or.inr ⟨rfl, counted_candidates⟩

/-- What holds of the dispatches and of the capacities in every state. -/
structure Sound (state : Dispatcher) : Prop where
  localRuns : LocalRuns state.controller
  later : ∀ reading ∈ state.readings,
    Later reading.seen state.controller.db
  counted : ∀ reading ∈ state.readings, Counted reading
  within : WithinCapacity state

/-- The parts of soundness that do not look at capacities. -/
theorem Sound.advance {event : Event} (sound : Sound state)
    (advanced : state.advance event = some next) :
    LocalRuns next.controller ∧
      (∀ reading ∈ next.readings, Later reading.seen next.controller.db) ∧
      ∀ reading ∈ next.readings, Counted reading := by
  rcases advance_spec advanced with ⟨segment, taken, moved, -, readings⟩
  have growth : ∃ leased,
      Growth state.controller next.controller.db leased := by
    rw [moved]
    rcases growth_segment taken with grown | ⟨_, _, _, _, -, -, -, grown⟩
    · exact ⟨_, grown⟩
    · exact ⟨_, grown⟩
  rcases growth with ⟨leased, growth⟩
  have later := later_of_growth sound.localRuns growth
  refine ⟨?_, ?_, ?_⟩
  · have stepped : controllerMachine.step state.controller event =
        some next.controller := by
      rw [moved]
      exact Option.map_eq_some_iff.mpr ⟨segment, taken, rfl⟩
    exact step_localRuns sound.localRuns stepped
  · intro reading member
    rcases readings reading member with old | ⟨seen, -⟩
    · exact (sound.later reading old).trans later
    · rw [seen]
      exact Later.refl _
  · intro reading member
    rcases readings reading member with old | ⟨-, counted⟩
    · exact sound.counted reading old
    · exact counted

theorem Sound.setAgent (sound : Sound state) (agentId : Nat)
    (change : AgentRow → AgentRow) : Sound (state.setAgent agentId change) :=
  ⟨sound.localRuns, sound.later, sound.counted, sound.within⟩

/-- A step that leases nothing. -/
theorem Sound.advance_unleased {event : Event} (sound : Sound state)
    (advanced : state.advance event = some next)
    (leases : ∀ index jobId rest agentId,
      event = .resume index (.remote agentId) →
      state.controller.memory.tasks[index]? ≠ some (.dispatch jobId rest)) :
    Sound next := by
  rcases sound.advance advanced with ⟨localRuns, later, counted⟩
  refine ⟨localRuns, later, counted, ?_⟩
  rcases advance_spec advanced with ⟨segment, taken, moved, same, -⟩
  intro agentId
  rw [same, moved]
  rcases growth_segment taken with grown | ⟨index, jobId, rest, owner, is,
    found, -, -⟩
  · have bound := unfinished_growth sound.localRuns grown agentId
    rw [if_neg (by simp), Nat.add_zero] at bound
    exact le_trans (by exact_mod_cast bound) (sound.within agentId)
  · exact absurd found (leases index jobId rest owner is)

/-- Counts that still hold bound what the agent holds now. -/
theorem StillCurrent.unfinished_le {reading : Reading} {db : Database}
    {agentId : Nat} (current : StillCurrent reading db agentId)
    (later : Later reading.seen db) :
    unfinished db agentId ≤ getActiveJobsForAgents reading.seen agentId := by
  unfold unfinished getActiveJobsForAgents
  apply countP_le
  intro attemptId row found holds
  rw [decide_eq_true_iff] at holds
  rcases current.counted attemptId row found holds with
    ⟨before, there, spared⟩
  rcases later.held attemptId agentId row found holds
    (Database.getAttempt_lt there) with ⟨same, again, held⟩
  rw [there, Option.some.injEq] at again
  subst again
  refine ⟨before, there, ?_⟩
  rw [decide_eq_true_iff]
  refine ⟨?_, held.2⟩
  have live := held.1
  unfold AttemptRow.live at live
  cases is : before.state with
  | completed => exact absurd is live
  | orphaned => exact absurd is spared
  | _ => decide

/-- With a whole capacity, a free slot is a slot. -/
theorem succ_le_of_free {candidate : SchedulerAgent Nat}
    (free : agentIsAtCapacity candidate = false)
    (whole : candidate.capabilities.maxJobs.isInt = true) :
    ((candidate.activeJobsCount + 1 : Nat) : ℚ) ≤
      candidate.capabilities.maxJobs := by
  unfold agentIsAtCapacity at free
  simp only [decide_eq_false_iff_not, not_or, not_le] at free
  have asInt : candidate.capabilities.maxJobs =
      (candidate.capabilities.maxJobs.num : ℚ) :=
    Rat.eq_num_of_isInt whole
  have below := free.2
  rw [asInt] at below ⊢
  have strict : (candidate.activeJobsCount : Int) <
      candidate.capabilities.maxJobs.num := by
    exact_mod_cast below
  exact_mod_cast Int.add_one_le_of_lt strict

theorem Sound.dropReading (sound : Sound state) (place : Nat) :
    Sound { state with readings := state.readings.eraseIdx place } :=
  ⟨sound.localRuns,
    fun reading member =>
      sound.later reading (List.mem_of_mem_eraseIdx member),
    fun reading member =>
      sound.counted reading (List.mem_of_mem_eraseIdx member),
    sound.within⟩

/-- What a dispatch that goes on has read and decided. -/
theorem decideDispatch_eq_some {index place : Nat} {request : JobRequest Nat}
    {sources : GitSourceRequirements} {completion : Completion}
    (decided : state.decideDispatch platform index place request sources
      options completion = some next) :
    ∃ reading jobId decision moved,
      state.readings[place]? = some reading ∧
        state.controller.memory.tasks[index]?.bind dispatchedJob =
          some jobId ∧
        decision = selectAgentForJob platform reading.candidates
          (mergeGitSourceToolRequirements request sources) options ∧
        Dispatcher.followsDecision decision completion = true ∧
        Dispatcher.advance
            { state with readings := state.readings.eraseIdx place }
            (.resume index completion) = some moved ∧
        next = { moved with
          selections :=
            ((leasesTo completion).filter fun agentId =>
                (state.controller.initiateRemoteAttempt jobId
                  agentId).isSome).toList.map
              (·, Dispatcher.capacityOf decision) ++ state.selections } := by
  unfold Dispatcher.decideDispatch at decided
  simp only [Option.bind_eq_bind, Option.bind_eq_some_iff] at decided
  rcases decided with ⟨reading, found, jobId, task, decided⟩
  split at decided
  · rename_i follows
    rcases Option.bind_eq_some_iff.mp decided with ⟨moved, advanced, is⟩
    cases is
    exact ⟨reading, jobId, _, moved, found,
      Option.bind_eq_some_iff.mpr task, rfl, follows.2, advanced, rfl⟩
  · cases decided

/-- A lease by counts that still hold keeps the capacities. -/
theorem within_of_lease {moved : Dispatcher} {reading : Reading}
    {agentId : Nat} {request : JobRequest Nat} (sound : Sound state)
    (known : reading ∈ state.readings)
    (current : StillCurrent reading state.controller.db agentId)
    (follows : Dispatcher.followsDecision
      (selectAgentForJob platform reading.candidates request options)
      (.remote agentId) = true)
    (bound : ∀ other, unfinished moved.controller.db other ≤
      unfinished state.controller.db other +
        if other = agentId then 1 else 0) :
    WithinCapacity { moved with
      selections :=
        (agentId, Dispatcher.capacityOf (selectAgentForJob platform
          reading.candidates request options)) :: state.selections } := by
  intro other
  have bound := bound other
  by_cases same : other = agentId
  · subst same
    unfold Dispatcher.followsDecision at follows
    simp only [decide_eq_true_eq, Option.map_eq_some_iff] at follows
    rcases follows.2 with ⟨candidate, selected, is⟩
    rcases selected_of_remote selected with ⟨inside, free⟩
    have counted := sound.counted reading known candidate inside
    have whole := current.whole candidate inside is
    have held := current.unfinished_le (sound.later reading known)
    have capacity : Dispatcher.capacityOf (selectAgentForJob platform
        reading.candidates request options) =
          candidate.capabilities.maxJobs := by
      unfold Dispatcher.capacityOf
      rw [selected]
      rfl
    have latest : (List.lookup other ((other, Dispatcher.capacityOf
        (selectAgentForJob platform reading.candidates request options)) ::
          state.selections)).getD 0 = candidate.capabilities.maxJobs := by
      rw [List.lookup_cons_self, Option.getD_some, capacity]
    rw [latest]
    refine le_trans ?_ (succ_le_of_free free whole)
    rw [if_pos rfl] at bound
    rw [counted, is]
    exact_mod_cast bound.trans (Nat.succ_le_succ held)
  · rw [if_neg same, Nat.add_zero] at bound
    have earlier : List.lookup other ((agentId, Dispatcher.capacityOf
        (selectAgentForJob platform reading.candidates request options)) ::
          state.selections) = List.lookup other state.selections := by
      simp only [List.lookup_cons, beq_false_of_ne same]
    rw [earlier]
    exact le_trans (by exact_mod_cast bound) (sound.within other)

theorem step_sound {label : Label} (sound : Sound state)
    (current : Current state label)
    (stepped : (dispatchMachine platform).step state label = some next) :
    Sound next := by
  cases label with
  | report agentId capabilities restarted =>
    exact (sound.setAgent agentId _).advance_unleased stepped nofun
  | disable agentId disabled =>
    cases stepped
    exact sound.setAgent agentId _
  | controller event =>
    cases event with
    | resume index completion =>
      change (if state.awaits index then none
        else state.advance (.resume index completion)) = _ at stepped
      split at stepped
      · cases stepped
      · rename_i elsewhere
        refine sound.advance_unleased stepped ?_
        rintro _ jobId rest agentId ⟨⟩ found
        apply elsewhere
        unfold Dispatcher.awaits
        rw [found]
        rfl
    | _ => exact sound.advance_unleased stepped nofun
  | decide index place request sources options completion =>
    rcases decideDispatch_eq_some stepped with
      ⟨reading, jobId, decision, moved, found, task, rfl, follows,
        advanced, rfl⟩
    have dropped := sound.dropReading place
    rcases dropped.advance advanced with ⟨localRuns, later, counted⟩
    refine ⟨localRuns, later, counted, ?_⟩
    rcases advance_spec advanced with ⟨segment, taken, controller, -, -⟩
    have grown := growth_segment taken
    rw [← controller] at grown
    cases leased : (leasesTo completion).filter fun agentId =>
        (state.controller.initiateRemoteAttempt jobId agentId).isSome with
    | some agentId =>
      rcases Option.filter_eq_some_iff.mp leased with ⟨leases, -⟩
      have is : completion = .remote agentId := by
        cases completion <;> cases leases
        rfl
      subst is
      refine within_of_lease sound (List.mem_of_getElem? found)
        (current reading found) follows fun other => ?_
      rcases grown with grown | ⟨_, _, _, _, ⟨⟩, -, -, grown⟩
      · exact (unfinished_growth sound.localRuns grown other).trans
          (Nat.add_le_add_left (Nat.zero_le _) _)
      · refine (unfinished_growth sound.localRuns grown other).trans
          (Nat.add_le_add_left ?_ _)
        simp only [Option.some.injEq, eq_comm, le_refl]
    | none =>
      intro other
      rcases grown with grown | ⟨_, same, rest, agentId, ⟨⟩, dispatch,
        initiated, -⟩
      · have bound := unfinished_growth sound.localRuns grown other
        rw [if_neg (by simp), Nat.add_zero] at bound
        exact le_trans (by exact_mod_cast bound) (sound.within other)
      · rw [dispatch] at task
        cases task
        exact absurd initiated (Option.filter_eq_none_iff.mp leased _ rfl)

theorem initial_sound (initial : (dispatchMachine platform).initial state) :
    Sound state := by
  rcases initial with ⟨controller, ⟨limit, rfl⟩, rfl⟩
  refine ⟨?_, ?_, ?_, ?_⟩
  · intro jobId attemptId member
    cases member
  · nofun
  · nofun
  · intro agentId
    exact le_refl _

/-- In every run whose dispatches lease only by counts that still hold, no
agent holds more unfinished attempts than the report of its latest selection
allows. -/
theorem agents_within_capacity {platform : Platform Nat} {state : Dispatcher}
    (reachable : (dispatchMachine platform).Reachable Current state) :
    WithinCapacity state :=
  (reachable.invariant (fun _ => initial_sound)
    fun _ _ _ sound current stepped =>
      step_sound sound current stepped).within

/-- A platform whose texts are compared as they are. -/
def plainPlatform : Platform Nat where
  toLowerCase := id
  trim := id
  localeCompare := compare
  matchesVersionSpec := fun version wished => version = wished
  computeBuildCacheKey := fun _ => ""

/-- The report of an agent that runs one job at a time. -/
def singleJobReport : AgentCapabilityReport where
  osFamily := .linux
  arch := "x64"
  memoryFreeMb := 4096
  diskFreeMb := 4096
  cpuLoad := none
  maxJobs := 1
  shells := ["bash"]
  tools := []
  toolchainProfiles := []
  labels := []
  secretRefs := []
  repositoryCache := none
  buildCaches := none
  configuredPriority := none

def plainRequest : JobRequest Nat where
  requirements := none
  preferences := none
  queuePolicy := none
  riskLevel := .normal
  shell := none
  secretRefs := none

def plainSources : GitSourceRequirements where
  submodules := false
  lfs := false

def plainOptions : SchedulerOptions Nat where
  allowLocalFallback := none
  localHostExecution := none
  repoCanonicalId := none
  baseCommit := none
  buildCacheKeys := none
  buildCacheProjectIdentity := none
  estimatedTransferBytes := none
  recentFailurePenalties := []
  registeredAgentCount := none
  hostLoad := none
  maxHostCpuBusyFraction := none

/-- A dispatch that leases to the first agent. -/
def leaseFirst : Label :=
  .decide 0 0 plainRequest plainSources plainOptions (.remote 1)

def freshDispatcher : Dispatcher where
  controller := freshController
  agents := []
  readings := []
  selections := []

/-- A job is dispatched to an agent. -/
def singleRun : List Label :=
  [.controller (.connect 1), .report 1 (some singleJobReport) false,
    .controller (.submit .wait false), leaseFirst]

/-- Two jobs are dispatched before the first of them is leased. -/
def concurrentRun : List Label :=
  [.controller (.connect 1), .report 1 (some singleJobReport) false,
    .controller (.submit .wait false), .controller (.submit .wait false),
    leaseFirst, leaseFirst]

theorem freshDispatcher_initial :
    (dispatchMachine plainPlatform).initial freshDispatcher :=
  ⟨freshController, freshController_initial, rfl⟩

/-- Nothing was leased yet to the agents of the reading. -/
def startsCurrent (state : Dispatcher) : Label → Bool
  | .decide _ place _ _ _ (.remote _) =>
    state.controller.db.attempts = [] ∧
      (state.readings[place]?.toList.flatMap Reading.candidates).all
        fun candidate => candidate.capabilities.maxJobs.isInt
  | _ => true

theorem current_of_startsCurrent (state : Dispatcher) (label : Label)
    (starts : startsCurrent state label = true) : Current state label := by
  cases label with
  | decide index place request sources options completion =>
    cases completion with
    | remote agentId =>
      intro reading found
      have known : state.readings[place]? = some reading := found
      unfold startsCurrent at starts
      rw [decide_eq_true_iff, known] at starts
      refine ⟨?_, ?_⟩
      · intro attemptId row there
        unfold Database.getAttempt at there
        rw [starts.1] at there
        cases there
      · intro candidate member _
        exact List.all_eq_true.mp starts.2 candidate
          (List.mem_flatMap.mpr
            ⟨reading, List.mem_cons_self, member⟩)
    | _ => exact trivial
  | _ => exact trivial

theorem agents_within_capacity_singleRun :
    ∃ state,
      (dispatchMachine plainPlatform).Reachable Current state ∧
        unfinished state.controller.db 1 = 1 ∧
        state.selections = [(1, 1)] ∧ WithinCapacity state := by
  have run :
      ((dispatchMachine plainPlatform).run freshDispatcher singleRun).map
          (fun state => (unfinished state.controller.db 1,
            state.selections)) =
        some (1, [(1, 1)]) := by
    decide +kernel
  rcases Option.map_eq_some_iff.mp run with ⟨state, ran, columns⟩
  have steps : (dispatchMachine plainPlatform).Steps Current freshDispatcher
      state :=
    Machine.steps_of_run startsCurrent current_of_startsCurrent
      (by decide +kernel) ran
  have reachable : (dispatchMachine plainPlatform).Reachable Current state :=
    ⟨freshDispatcher, freshDispatcher_initial, steps⟩
  rw [Prod.mk.injEq] at columns
  exact ⟨state, reachable, columns.1, columns.2,
    agents_within_capacity reachable⟩

theorem concurrent_dispatches_overcommit :
    ∃ state,
      (dispatchMachine plainPlatform).Reachable (fun _ _ => True) state ∧
        ¬ WithinCapacity state := by
  have run :
      ((dispatchMachine plainPlatform).run freshDispatcher
          concurrentRun).map
          (fun state => (unfinished state.controller.db 1,
            state.selections)) =
        some (2, [(1, 1), (1, 1)]) := by
    decide +kernel
  rcases Option.map_eq_some_iff.mp run with ⟨state, ran, columns⟩
  refine ⟨state, Machine.reachable_of_run freshDispatcher_initial ran, ?_⟩
  rw [Prod.mk.injEq] at columns
  intro within
  have kept := within 1
  rw [columns.1, columns.2, List.lookup_cons_self, Option.getD_some] at kept
  exact absurd kept (by norm_num)

end Rbo.Controller.Capacity
