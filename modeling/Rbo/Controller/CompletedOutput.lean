import Rbo.Agent.OutputSpool

/-!
# The output of a run that has completed

An executor receives the output of its child in data events and chains the
appends to the log of the attempt.  When `waitForCompletion` has settled it
waits for the chain, flushes its redactors, kills the child unless it has
exited, and reports the completion.

The chain is waited for once.  What the child writes after that, and what it
wrote before it exited when nobody had waited for its pipes to close, is not
in the log when the completion is reported.
-/

namespace Rbo.Controller.CompletedOutput

open Rbo.Foundation
open Rbo.Executor.Logs
open Rbo.Agent.Redactor
open Rbo.Agent.OutputSpool

/-! ## Executors -/

/-- What an executor does with the output of its child. -/
structure Executor where
  Run : Type
  Task : Type
  start : Run
  /-- The data handlers are attached when the child is spawned. -/
  attached : Bool
  /-- A data handler, with the appends it chains. -/
  receive : Run → DataEvent → Run × List Task
  /-- The flush of a stream, with the appends it chains. -/
  flush : Run → Stream → Run × List Task
  append : Run → Task → Run
  /-- The log of the attempt. -/
  file : Run → Stream → List UInt8
  spoolLimitBreached : Run → Bool
  /-- What belongs in the log for the data of a stream. -/
  logged : List (List UInt8) → List UInt8

namespace Executor

variable (executor : Executor)

def put (run : executor.Run) (tasks : List executor.Task) : executor.Run :=
  tasks.foldl executor.append run

/-- Every data event is handled, and its appends are made at once. -/
def handleAll (events : List DataEvent) : executor.Run :=
  events.foldl
    (fun run event =>
      executor.put (executor.receive run event).1
        (executor.receive run event).2)
    executor.start

def flushed (run : executor.Run) (stream : Stream) : executor.Run :=
  executor.put (executor.flush run stream).1 (executor.flush run stream).2

/-- All data events, and the flush of both streams. -/
def complete (events : List DataEvent) : executor.Run :=
  executor.flushed (executor.flushed (executor.handleAll events) .stdout)
    .stderr

/-- Handlers and appends do not touch what the other one reads, and output
that is handled at once is in the log. -/
structure Lawful : Prop where
  receive_append : ∀ run task event,
    executor.receive (executor.append run task) event =
      (executor.append (executor.receive run event).1 task,
        (executor.receive run event).2)
  complete_file : ∀ events,
    executor.spoolLimitBreached (executor.complete events) = true ∨
      ∀ stream, executor.file (executor.complete events) stream =
        executor.logged (dataOf stream events)

end Executor

/-! ## A run -/

/-- How `waitForCompletion` settles. -/
inductive Completion where
  | exit
  | timeout
  | durationComplete
  | logSuccess
  | logFailure
  deriving DecidableEq

/-- Where a run stands.  A number counts the appends that are waited for. -/
inductive Phase where
  /-- Between the spawn and `waitForCompletion`. -/
  | spawned
  /-- In `waitForCompletion`.  It was entered after the child had exited, or
  before. -/
  | waiting (hadExited : Bool)
  | draining (completion : Completion) (left : Nat)
  | flushing (stream : Stream) (completion : Completion) (left : Nat)
  /-- The kill with grace, the artifacts and the cleanup. -/
  | finishing (completion : Completion)
  | reported
  deriving DecidableEq

/-- One append less to wait for. -/
def Phase.appended : Phase → Phase
  | .draining completion left => .draining completion (left - 1)
  | .flushing stream completion left => .flushing stream completion (left - 1)
  | phase => phase

section Runs

variable (executor : Executor)

/-- What is there when the completion is reported. -/
structure Report where
  completion : Completion
  run : executor.Run
  /-- The data events that have occurred. -/
  occurred : List DataEvent

structure RunState where
  run : executor.Run
  /-- The chained appends that are not made yet. -/
  chain : List executor.Task
  /-- What stands in the streams of the process before a handler reads it. -/
  buffer : List DataEvent
  flowing : Bool
  exited : Bool
  closed : Bool
  phase : Phase
  /-- The data events of the child, as they occurred. -/
  occurred : List DataEvent
  report : Option (Report executor)

inductive Label where
  /-- A data event of the child. -/
  | data (event : DataEvent)
  | exit
  | close
  /-- The streams with handlers begin to flow. -/
  | flow
  | waitForCompletion
  | settle (completion : Completion)
  /-- The next append of the chain, which may fail. -/
  | append (succeeds : Bool)
  /-- The run goes on behind what it waited for. -/
  | proceed
  deriving DecidableEq

variable {executor}

namespace RunState

variable (state : RunState executor)

/-- A data handler. -/
def handle (event : DataEvent) : RunState executor :=
  let received := executor.receive state.run event
  { state with run := received.1, chain := state.chain ++ received.2 }

/-- The events of the child come when its streams flow, or before they have
handlers. -/
def listening : Bool :=
  state.flowing || state.phase = .spawned

def data (event : DataEvent) : RunState executor :=
  let state := { state with occurred := state.occurred ++ [event] }
  if state.flowing then state.handle event
  else { state with buffer := state.buffer ++ [event] }

/-- The streams begin to flow one after the other. -/
def flow : RunState executor :=
  (state.buffer.filter (·.1 = .stdout) ++
      state.buffer.filter (·.1 = .stderr)).foldl handle
    { state with flowing := true, buffer := [] }

/-- The flush of a stream; what it appends is waited for. -/
def flush (stream : Stream) (completion : Completion) : RunState executor :=
  let flushed := executor.flush state.run stream
  let chain := state.chain ++ flushed.2
  { state with
    run := flushed.1
    chain := chain
    phase :=
      .flushing stream completion
        (if flushed.2.isEmpty then 0 else chain.length) }

/-- `waitForExit` has resolved: at once when the child had exited, else when
it closes. -/
def settles (hadExited : Bool) (completion : Completion) : Bool :=
  if completion = .exit then hadExited || (state.closed && state.flowing)
  else state.flowing

def proceed : Option (RunState executor) :=
  match state.phase with
  | .draining completion 0 => some (state.flush .stdout completion)
  | .flushing .stdout completion 0 => some (state.flush .stderr completion)
  | .flushing .stderr completion 0 =>
    some { state with phase := .finishing completion }
  | .finishing completion =>
    some
      { state with
        phase := .reported
        report := some ⟨completion, state.run, state.occurred⟩ }
  | _ => none

end RunState

variable (executor)

def startState : RunState executor where
  run := executor.start
  chain := []
  buffer := []
  flowing := executor.attached
  exited := false
  closed := false
  phase := .spawned
  occurred := []
  report := none

def machine : Machine (RunState executor) Label where
  initial state := state = startState executor
  step state label :=
    match label with
    | .data event =>
      if state.closed || !state.listening then none
      else some (state.data event)
    | .exit =>
      if state.exited || !state.listening then none
      else some { state with exited := true }
    | .close =>
      if state.closed || !state.exited || !state.listening then none
      else some { state with closed := true }
    | .flow =>
      if state.flowing || state.phase = .spawned then none
      else some state.flow
    | .waitForCompletion =>
      if state.phase = .spawned then
        some { state with phase := .waiting state.exited }
      else none
    | .settle completion =>
      match state.phase with
      | .waiting hadExited =>
        if state.settles hadExited completion then
          some
            { state with
              phase := .draining completion state.chain.length }
        else none
      | _ => none
    | .append succeeds =>
      match state.chain with
      | [] => none
      | task :: chain =>
        some
          { state with
            run :=
              if succeeds then executor.append state.run task
              else state.run
            chain := chain
            phase := state.phase.appended }
    | .proceed => state.proceed

/-- The condition on a step: `waitForCompletion` is entered before the child
has exited, or after it has closed and all of its output was handled; the child
writes nothing between the end of `waitForCompletion` and the report; and no
append fails. -/
def settled (state : RunState executor) : Label → Bool
  | .waitForCompletion =>
    !state.exited || (state.closed && state.buffer.isEmpty)
  | .data _ =>
    match state.phase with
    | .spawned => true
    | .waiting _ => true
    | .reported => true
    | _ => false
  | .append succeeds => succeeds
  | _ => true

/-- When the completion was reported, all output was in the log, unless the
spool limit was breached; and after a report of an exit there is none. -/
structure Kept (state : RunState executor) : Prop where
  logged : ∀ report, state.report = some report →
    executor.spoolLimitBreached report.run = true ∨
      ∀ stream, executor.file report.run stream =
        executor.logged (dataOf stream report.occurred)
  last : ∀ report, state.report = some report →
    report.completion = .exit → state.occurred = report.occurred

end Runs

/-! ## Handlers and appends -/

section Laws

variable {executor : Executor}

theorem receive_put (lawful : executor.Lawful) (run : executor.Run)
    (tasks : List executor.Task) (event : DataEvent) :
    executor.receive (executor.put run tasks) event =
      (executor.put (executor.receive run event).1 tasks,
        (executor.receive run event).2) := by
  induction tasks generalizing run with
  | nil => rfl
  | cons task tasks inductionHypothesis =>
    have first := inductionHypothesis (executor.append run task)
    rw [lawful.receive_append] at first
    exact first

theorem put_append (run : executor.Run) (first second : List executor.Task) :
    executor.put run (first ++ second) =
      executor.put (executor.put run first) second :=
  List.foldl_append

theorem handleAll_concat (events : List DataEvent) (event : DataEvent) :
    executor.handleAll (events ++ [event]) =
      executor.put (executor.receive (executor.handleAll events) event).1
        (executor.receive (executor.handleAll events) event).2 := by
  unfold Executor.handleAll
  rw [List.foldl_append]
  rfl

variable {state : RunState executor} {handled : List DataEvent}

/-- With its chain, a run has handled an event more. -/
theorem put_handle (lawful : executor.Lawful)
    (before : executor.put state.run state.chain =
      executor.handleAll handled) (event : DataEvent) :
    executor.put (state.handle event).run (state.handle event).chain =
      executor.handleAll (handled ++ [event]) := by
  rw [handleAll_concat, ← before, receive_put lawful]
  exact put_append _ _ _

theorem put_handles (lawful : executor.Lawful) (events : List DataEvent)
    (before : executor.put state.run state.chain =
      executor.handleAll handled) :
    executor.put (events.foldl RunState.handle state).run
        (events.foldl RunState.handle state).chain =
      executor.handleAll (handled ++ events) := by
  induction events generalizing state handled with
  | nil => rw [List.append_nil]; exact before
  | cons event events inductionHypothesis =>
    rw [List.append_cons]
    exact inductionHypothesis (put_handle lawful before event)

/-- Handlers change the run and the chain only. -/
theorem handles_eq (events : List DataEvent) (state : RunState executor) :
    events.foldl RunState.handle state =
      { state with
        run := (events.foldl RunState.handle state).run
        chain := (events.foldl RunState.handle state).chain } := by
  induction events generalizing state with
  | nil => rfl
  | cons event events inductionHypothesis =>
    exact inductionHypothesis (state.handle event)

end Laws

theorem dataOf_append (stream : Stream) (first second : List DataEvent) :
    dataOf stream (first ++ second) =
      dataOf stream first ++ dataOf stream second :=
  List.filterMap_append

/-- The streams flow one after the other, each in its order. -/
theorem dataOf_streams (stream : Stream) (events : List DataEvent) :
    dataOf stream (events.filter (·.1 = .stdout) ++
        events.filter (·.1 = .stderr)) =
      dataOf stream events := by
  have filtered : ∀ target, dataOf stream (events.filter (·.1 = target)) =
      if target = stream then dataOf stream events else [] := by
    intro target
    unfold dataOf
    rw [List.filterMap_filter]
    by_cases same : target = stream
    · rw [if_pos same, same]
      refine List.filterMap_congr fun event _ => ?_
      by_cases here : event.1 = stream <;> simp [here]
    · rw [if_neg same]
      refine List.filterMap_eq_nil_iff.mpr fun event _ => ?_
      by_cases here : event.1 = target <;> simp [here, same]
  rw [dataOf_append, filtered, filtered]
  cases stream <;> simp

/-! ## Where a run stands -/

section Standing

variable {executor : Executor}

/-- What the chain leads to. -/
def Phase.target (phase : Phase) (handled : List DataEvent) :
    executor.Run :=
  match phase with
  | .spawned => executor.handleAll handled
  | .waiting _ => executor.handleAll handled
  | .draining .. => executor.handleAll handled
  | .flushing .stdout _ _ =>
    executor.flushed (executor.handleAll handled) .stdout
  | _ => executor.complete handled

/-- How many appends are waited for. -/
def Phase.left : Phase → Option Nat
  | .draining _ left => some left
  | .flushing _ _ left => some left
  | .finishing _ => some 0
  | _ => none

/-- How `waitForCompletion` has settled. -/
def Phase.completion : Phase → Option Completion
  | .draining completion _ => some completion
  | .flushing _ completion _ => some completion
  | .finishing completion => some completion
  | _ => none

/-- What holds before the report. -/
structure Standing (state : RunState executor) : Prop where
  handled : ∃ handled,
    (∀ stream, dataOf stream state.occurred =
      dataOf stream (handled ++ state.buffer)) ∧
    executor.put state.run state.chain = state.phase.target handled
  quiet : state.flowing = true → state.buffer = []
  left : ∀ left, state.phase.left = some left → left = state.chain.length
  ended : ∀ completion, state.phase.completion = some completion →
    state.buffer = [] ∧ (completion = .exit → state.closed = true)
  entered : state.phase = .waiting true →
    state.closed = true ∧ state.buffer = []

/-- What holds after the report. -/
structure Told (state : RunState executor) (report : Report executor) :
    Prop where
  complete : ∃ handled, report.run = executor.complete handled ∧
    ∀ stream, dataOf stream report.occurred = dataOf stream handled
  last : report.completion = .exit →
    state.closed = true ∧ state.occurred = report.occurred

def Sound (state : RunState executor) : Prop :=
  match state.report with
  | none => state.phase ≠ .reported ∧ Standing state
  | some report => state.phase = .reported ∧ Told state report

theorem Sound.kept {state : RunState executor} (lawful : executor.Lawful)
    (sound : Sound state) : Kept executor state := by
  unfold Sound at sound
  constructor
  · intro report reported
    rw [reported] at sound
    obtain ⟨handled, run, occurred⟩ := sound.2.complete
    rw [run]
    refine (lawful.complete_file handled).imp_right fun files stream => ?_
    rw [files, occurred]
  · intro report reported exit
    rw [reported] at sound
    exact (sound.2.last exit).2

/-! ## What a step preserves -/

variable {state : RunState executor}

/-- A phase before `waitForCompletion` has settled. -/
structure Phase.Early (phase : Phase) (executor : Executor) : Prop where
  target : ∀ handled, (phase.target handled : executor.Run) =
    executor.handleAll handled
  left : phase.left = none
  completion : phase.completion = none

theorem early_spawned : Phase.Early .spawned executor :=
  ⟨fun _ => rfl, rfl, rfl⟩

theorem early_waiting (hadExited : Bool) :
    Phase.Early (.waiting hadExited) executor :=
  ⟨fun _ => rfl, rfl, rfl⟩

/-- A state before the end of `waitForCompletion` stands as it should. -/
theorem Standing.of_early (handled : List DataEvent)
    (early : state.phase.Early executor)
    (occurred : ∀ stream, dataOf stream state.occurred =
      dataOf stream (handled ++ state.buffer))
    (chained : executor.put state.run state.chain =
      executor.handleAll handled)
    (quiet : state.flowing = true → state.buffer = [])
    (entered : state.phase = .waiting true →
      state.closed = true ∧ state.buffer = []) : Standing state where
  handled := ⟨handled, occurred, chained.trans (early.target _).symm⟩
  quiet := quiet
  left := by
    intro left same
    cases early.left.symm.trans same
  ended := by
    intro completion same
    cases early.completion.symm.trans same
  entered := entered

theorem Standing.data (standing : Standing state) (lawful : executor.Lawful)
    (early : state.phase.Early executor) (event : DataEvent)
    (opened : state.closed = false) : Standing (state.data event) := by
  obtain ⟨handled, occurred, chained⟩ := standing.handled
  rw [early.target] at chained
  have not_entered : state.phase ≠ .waiting true := by
    intro entered
    rw [(standing.entered entered).1] at opened
    cases opened
  unfold RunState.data
  dsimp only
  by_cases flowing : state.flowing = true
  · have empty := standing.quiet flowing
    rw [if_pos flowing]
    refine Standing.of_early (handled ++ [event]) early ?_
      (put_handle lawful chained event) (fun _ => empty)
      fun same => absurd same not_entered
    intro stream
    change dataOf stream (state.occurred ++ [event]) =
      dataOf stream (handled ++ [event] ++ state.buffer)
    rw [dataOf_append, occurred, empty, List.append_nil, List.append_nil,
      dataOf_append]
  · rw [if_neg flowing]
    refine Standing.of_early handled early ?_ chained
      (fun same => absurd same flowing) fun same => absurd same not_entered
    intro stream
    dsimp only
    rw [dataOf_append, occurred, ← dataOf_append, List.append_assoc]

theorem Standing.flow_empty (standing : Standing state)
    (empty : state.buffer = []) : Standing state.flow := by
  have same : state.flow = { state with flowing := true } := by
    rcases state
    obtain rfl := empty
    rfl
  rw [same]
  exact ⟨standing.handled, fun _ => empty, standing.left, standing.ended,
    standing.entered⟩

theorem Standing.flow (standing : Standing state) (lawful : executor.Lawful)
    (still : state.phase ≠ .reported) (later : state.phase ≠ .spawned) :
    Standing state.flow := by
  by_cases empty : state.buffer = []
  · exact standing.flow_empty empty
  · obtain ⟨hadExited, phase⟩ : ∃ hadExited,
        state.phase = .waiting hadExited := by
      cases phase : state.phase with
      | spawned => exact absurd phase later
      | waiting hadExited => exact ⟨hadExited, rfl⟩
      | reported => exact absurd phase still
      | _ =>
        exact absurd
          (standing.ended _ (congrArg Phase.completion phase)).1 empty
    have early : state.phase.Early executor :=
      phase ▸ early_waiting hadExited
    obtain ⟨handled, occurred, chained⟩ := standing.handled
    rw [early.target] at chained
    unfold RunState.flow
    rw [handles_eq]
    refine Standing.of_early
      (handled ++ (state.buffer.filter (·.1 = .stdout) ++
        state.buffer.filter (·.1 = .stderr))) early ?_ ?_ (fun _ => rfl)
      fun same => absurd (standing.entered same).2 empty
    · intro stream
      dsimp only
      rw [occurred, List.append_nil, dataOf_append, dataOf_append,
        dataOf_streams]
    · exact @put_handles executor { state with flowing := true, buffer := [] }
        handled lawful _ chained

theorem target_appended (phase : Phase) (handled : List DataEvent) :
    (phase.appended.target handled : executor.Run) =
      phase.target handled := by
  cases phase with
  | flushing stream completion left => cases stream <;> rfl
  | _ => rfl

theorem Standing.append (standing : Standing state) {task : executor.Task}
    {chain : List executor.Task} (next : state.chain = task :: chain) :
    Standing
      { state with
        run := executor.append state.run task
        chain := chain
        phase := state.phase.appended } := by
  obtain ⟨handled, occurred, target⟩ := standing.handled
  rw [next] at target
  refine ⟨⟨handled, occurred, ?_⟩, standing.quiet, ?_, ?_, ?_⟩
  · exact target.trans (target_appended _ _).symm
  · intro left same
    have before := standing.left
    rw [next] at before
    dsimp only at same ⊢
    cases phase : state.phase with
    | finishing completion =>
      rw [phase] at before
      cases before 0 rfl
    | draining completion awaited =>
      rw [phase] at before same
      rw [← Option.some.inj same, before awaited rfl]
      rfl
    | flushing stream completion awaited =>
      rw [phase] at before same
      rw [← Option.some.inj same, before awaited rfl]
      rfl
    | _ =>
      rw [phase] at same
      cases same
  · intro completion same
    refine standing.ended completion (Eq.trans ?_ same)
    dsimp only
    cases state.phase <;> rfl
  · intro same
    refine standing.entered (Eq.trans ?_ same)
    dsimp only at same ⊢
    cases phase : state.phase with
    | draining completion left =>
      rw [phase] at same
      cases same
    | flushing stream completion left =>
      rw [phase] at same
      cases same
    | _ => rfl

variable {completion : Completion}

theorem Standing.settle (standing : Standing state) {hadExited : Bool}
    (phase : state.phase = .waiting hadExited)
    (settles : state.settles hadExited completion = true) :
    Standing
      { state with phase := .draining completion state.chain.length } := by
  obtain ⟨handled, occurred, target⟩ := standing.handled
  rw [phase] at target
  unfold RunState.settles at settles
  have ended : state.buffer = [] ∧
      (completion = .exit → state.closed = true) := by
    by_cases exit : completion = .exit
    · rw [if_pos exit, Bool.or_eq_true, Bool.and_eq_true] at settles
      rcases settles with early | ⟨closed, flowing⟩
      · rw [early] at phase
        exact ⟨(standing.entered phase).2,
          fun _ => (standing.entered phase).1⟩
      · exact ⟨standing.quiet flowing, fun _ => closed⟩
    · rw [if_neg exit] at settles
      exact ⟨standing.quiet settles, fun same => absurd same exit⟩
  refine ⟨⟨handled, occurred, target⟩, standing.quiet, ?_, ?_, nofun⟩
  · rintro left ⟨⟩
    rfl
  · rintro other ⟨⟩
    exact ended

/-- When nothing is left to wait for, the chain is empty. -/
theorem Standing.chain_eq_nil (standing : Standing state)
    (none_left : state.phase.left = some 0) : state.chain = [] :=
  List.length_eq_zero_iff.mp (standing.left 0 none_left).symm

theorem Standing.flush (standing : Standing state) {stream : Stream}
    (none_left : state.phase.left = some 0)
    (ended : state.phase.completion = some completion) (behind : ∀ handled left,
      ((Phase.flushing stream completion left).target handled :
          executor.Run) =
        executor.flushed (state.phase.target handled) stream) :
    Standing (state.flush stream completion) := by
  obtain ⟨handled, occurred, target⟩ := standing.handled
  have empty := standing.chain_eq_nil none_left
  rw [empty] at target
  change state.run = _ at target
  unfold RunState.flush
  refine ⟨⟨handled, occurred, ?_⟩, standing.quiet, ?_, ?_, nofun⟩
  · dsimp only
    rw [behind, ← target, empty]
    rfl
  · rintro left ⟨⟩
    dsimp only
    rw [empty]
    cases (executor.flush state.run stream).2 <;> rfl
  · rintro other ⟨⟩
    exact standing.ended completion ended

theorem Standing.finish (standing : Standing state)
    (phase : state.phase = .flushing .stderr completion 0) :
    Standing { state with phase := .finishing completion } := by
  obtain ⟨handled, occurred, target⟩ := standing.handled
  rw [phase] at target
  refine ⟨⟨handled, occurred, target⟩, standing.quiet, ?_, ?_, nofun⟩
  · rintro left ⟨⟩
    exact standing.left 0 (congrArg Phase.left phase)
  · rintro other ⟨⟩
    exact standing.ended completion (congrArg Phase.completion phase)

theorem Standing.told (standing : Standing state)
    (phase : state.phase = .finishing completion) (next : RunState executor)
    (closed : next.closed = state.closed)
    (occurred : next.occurred = state.occurred) :
    Told next ⟨completion, state.run, state.occurred⟩ := by
  obtain ⟨handled, same, target⟩ := standing.handled
  have empty := standing.chain_eq_nil (congrArg Phase.left phase)
  have ended :=
    standing.ended completion (congrArg Phase.completion phase)
  rw [empty, phase] at target
  refine ⟨⟨handled, target, ?_⟩, ?_⟩
  · intro stream
    rw [same, ended.1, List.append_nil]
  · intro exit
    exact ⟨closed.trans (ended.2 exit), occurred⟩

theorem Sound.of_standing (unreported : state.report = none)
    (still : state.phase ≠ .reported) (standing : Standing state) :
    Sound state := by
  unfold Sound
  rw [unreported]
  exact ⟨still, standing⟩

/-- After the report nothing is told anew. -/
theorem Sound.of_told {report : Report executor}
    (reported : state.report = some report)
    (phase : state.phase = .reported) (told : Told state report) :
    Sound state := by
  unfold Sound
  rw [reported]
  exact ⟨phase, told⟩

theorem phase_handles (events : List DataEvent) (state : RunState executor) :
    (events.foldl RunState.handle state).phase = state.phase ∧
      (events.foldl RunState.handle state).report = state.report ∧
      (events.foldl RunState.handle state).closed = state.closed ∧
      (events.foldl RunState.handle state).occurred = state.occurred := by
  rw [handles_eq]
  exact ⟨rfl, rfl, rfl, rfl⟩

/-- The four places where a run goes on. -/
theorem proceed_eq_some {next : RunState executor}
    (proceeds : state.proceed = some next) :
    (∃ completion, state.phase = .draining completion 0 ∧
      next = state.flush .stdout completion) ∨
    (∃ completion, state.phase = .flushing .stdout completion 0 ∧
      next = state.flush .stderr completion) ∨
    (∃ completion, state.phase = .flushing .stderr completion 0 ∧
      next = { state with phase := .finishing completion }) ∨
    ∃ completion, state.phase = .finishing completion ∧
      next =
        { state with
          phase := .reported
          report := some ⟨completion, state.run, state.occurred⟩ } := by
  unfold RunState.proceed at proceeds
  split at proceeds
  · exact .inl ⟨_, ‹_›, (Option.some.inj proceeds).symm⟩
  · exact .inr (.inl ⟨_, ‹_›, (Option.some.inj proceeds).symm⟩)
  · exact .inr (.inr (.inl ⟨_, ‹_›, (Option.some.inj proceeds).symm⟩))
  · exact .inr (.inr (.inr ⟨_, ‹_›, (Option.some.inj proceeds).symm⟩))
  · cases proceeds

theorem Sound.step_unreported {label : Label} {next : RunState executor}
    (lawful : executor.Lawful) (unreported : state.report = none)
    (still : state.phase ≠ .reported) (standing : Standing state)
    (meets : settled executor state label = true)
    (step : (machine executor).step state label = some next) :
    Sound next := by
  cases label with
  | data event =>
    obtain ⟨opened, same⟩ := Option.ite_none_left_eq_some.mp step
    obtain rfl := Option.some.inj same
    rw [Bool.or_eq_true, not_or, Bool.not_eq_true] at opened
    have early : state.phase.Early executor := by
      cases phase : state.phase with
      | spawned => exact early_spawned
      | waiting hadExited => exact early_waiting hadExited
      | reported => exact absurd phase still
      | _ =>
        rw [settled, phase] at meets
        cases meets
    refine Sound.of_standing ?_ ?_ (standing.data lawful early event
      opened.1)
    · unfold RunState.data
      dsimp only
      split <;> exact unreported
    · unfold RunState.data
      dsimp only
      split <;> exact still
  | exit =>
    obtain ⟨-, same⟩ := Option.ite_none_left_eq_some.mp step
    obtain rfl := Option.some.inj same
    exact Sound.of_standing unreported still ⟨standing.handled,
      standing.quiet, standing.left, standing.ended, standing.entered⟩
  | close =>
    obtain ⟨-, same⟩ := Option.ite_none_left_eq_some.mp step
    obtain rfl := Option.some.inj same
    exact Sound.of_standing unreported still ⟨standing.handled,
      standing.quiet, standing.left,
      fun completion same => ⟨(standing.ended completion same).1,
        fun _ => rfl⟩,
      fun same => ⟨rfl, (standing.entered same).2⟩⟩
  | flow =>
    obtain ⟨later, same⟩ := Option.ite_none_left_eq_some.mp step
    obtain rfl := Option.some.inj same
    rw [Bool.or_eq_true, not_or, decide_eq_true_eq] at later
    obtain ⟨phase, report, -, -⟩ := phase_handles
      (state.buffer.filter (·.1 = .stdout) ++
        state.buffer.filter (·.1 = .stderr))
      { state with flowing := true, buffer := [] }
    exact Sound.of_standing (report.trans unreported)
      (fun same => still (phase.symm.trans same))
      (standing.flow lawful still later.2)
  | waitForCompletion =>
    obtain ⟨phase, same⟩ := Option.ite_none_right_eq_some.mp step
    obtain rfl := Option.some.inj same
    obtain ⟨handled, occurred, chained⟩ := standing.handled
    rw [phase] at chained
    refine Sound.of_standing unreported nofun
      (Standing.of_early handled (early_waiting state.exited) occurred
        chained standing.quiet ?_)
    intro entered
    rw [settled, Bool.or_eq_true, Bool.and_eq_true,
      Phase.waiting.inj entered] at meets
    rcases meets with ⟨⟨⟩⟩ | ⟨closed, empty⟩
    exact ⟨closed, List.isEmpty_iff.mp empty⟩
  | settle completion =>
    cases phase : state.phase with
    | waiting hadExited =>
      simp only [machine, phase] at step
      obtain ⟨settles, same⟩ := Option.ite_none_right_eq_some.mp step
      obtain rfl := Option.some.inj same
      exact Sound.of_standing unreported nofun
        (standing.settle phase settles)
    | _ =>
      simp only [machine, phase] at step
      cases step
  | append succeeds =>
    obtain rfl : succeeds = true := meets
    cases chain : state.chain with
    | nil =>
      simp only [machine, chain] at step
      cases step
    | cons task tasks =>
      simp only [machine, chain] at step
      obtain rfl := Option.some.inj step
      refine Sound.of_standing unreported ?_ (standing.append chain)
      intro same
      dsimp only at same
      cases phase : state.phase with
      | reported => exact still phase
      | _ =>
        rw [phase] at same
        cases same
  | proceed =>
    rcases proceed_eq_some step with ⟨completion, phase, rfl⟩ |
      ⟨completion, phase, rfl⟩ | ⟨completion, phase, rfl⟩ |
      ⟨completion, phase, rfl⟩
    · refine Sound.of_standing unreported nofun (standing.flush
        (congrArg Phase.left phase) (congrArg Phase.completion phase) ?_)
      intro handled left
      rw [phase]
      rfl
    · refine Sound.of_standing unreported nofun (standing.flush
        (congrArg Phase.left phase) (congrArg Phase.completion phase) ?_)
      intro handled left
      rw [phase]
      rfl
    · exact Sound.of_standing unreported nofun (standing.finish phase)
    · exact Sound.of_told rfl rfl (standing.told phase _ rfl rfl)

/-- After the report the child may write when it has not closed. -/
theorem Sound.step_reported {label : Label} {next : RunState executor}
    {report : Report executor} (reported : state.report = some report)
    (phase : state.phase = .reported) (told : Told state report)
    (step : (machine executor).step state label = some next) :
    Sound next := by
  have kept : next.report = some report ∧ next.phase = .reported ∧
      (state.closed = true →
        next.closed = true ∧ next.occurred = state.occurred) := by
    cases label with
    | data event =>
      obtain ⟨opened, same⟩ := Option.ite_none_left_eq_some.mp step
      obtain rfl := Option.some.inj same
      rw [Bool.or_eq_true, not_or] at opened
      unfold RunState.data
      dsimp only
      split <;> exact ⟨reported, phase, fun closed =>
        absurd closed opened.1⟩
    | exit =>
      obtain ⟨-, same⟩ := Option.ite_none_left_eq_some.mp step
      obtain rfl := Option.some.inj same
      exact ⟨reported, phase, fun closed => ⟨closed, rfl⟩⟩
    | close =>
      obtain ⟨-, same⟩ := Option.ite_none_left_eq_some.mp step
      obtain rfl := Option.some.inj same
      exact ⟨reported, phase, fun _ => ⟨rfl, rfl⟩⟩
    | flow =>
      obtain ⟨-, same⟩ := Option.ite_none_left_eq_some.mp step
      obtain rfl := Option.some.inj same
      obtain ⟨samePhase, sameReport, closed, occurred⟩ := phase_handles
        (state.buffer.filter (·.1 = .stdout) ++
          state.buffer.filter (·.1 = .stderr))
        { state with flowing := true, buffer := [] }
      exact ⟨sameReport.trans reported, samePhase.trans phase,
        fun before => ⟨closed.trans before, occurred⟩⟩
    | waitForCompletion =>
      cases phase.symm.trans (Option.ite_none_right_eq_some.mp step).1
    | settle completion =>
      simp only [machine, phase] at step
      cases step
    | append succeeds =>
      cases chain : state.chain with
      | nil =>
        simp only [machine, chain] at step
        cases step
      | cons task tasks =>
        simp only [machine, chain] at step
        obtain rfl := Option.some.inj step
        refine ⟨reported, ?_, fun closed => ⟨closed, rfl⟩⟩
        dsimp only
        rw [phase]
        rfl
    | proceed =>
      simp only [machine, RunState.proceed, phase] at step
      cases step
  refine Sound.of_told kept.1 kept.2.1 ⟨told.complete, ?_⟩
  intro exit
  obtain ⟨closed, occurred⟩ := told.last exit
  obtain ⟨still, same⟩ := kept.2.2 closed
  exact ⟨still, same.trans occurred⟩

/-- In every run whose steps meet the condition, the output is in the log when
the completion is reported. -/
theorem kept_of_settled_of (lawful : executor.Lawful)
    (reachable : (machine executor).Reachable
      (fun state label => settled executor state label = true) state) :
    Kept executor state := by
  refine Sound.kept lawful (reachable.invariant ?_ ?_)
  · rintro _ rfl
    exact Sound.of_standing rfl nofun
      (Standing.of_early [] early_spawned (fun _ => rfl) rfl (fun _ => rfl)
        nofun)
  · intro state label next sound meets step
    unfold Sound at sound
    cases reported : state.report with
    | none =>
      rw [reported] at sound
      exact Sound.step_unreported lawful reported sound.1 sound.2 meets
        step
    | some report =>
      rw [reported] at sound
      exact Sound.step_reported reported sound.1 sound.2 step

end Standing

/-! ## The agent and the controller -/

/-- The append that is chained for a text that is not empty. -/
def chained (stream : Stream) (text : Text) : List (Stream × Text) :=
  if text = [] then [] else [(stream, text)]

/-- The handlers of `'data'` events of the agent. -/
def redactData (run : OutputRun) (event : DataEvent) :
    OutputRun × List (Stream × Text) :=
  let redacted :=
    (run.redactors.get event.1).redact
      (Utf16.encode (Utf8.decode event.2))
  ({ run with redactors := run.redactors.set event.1 redacted.2 },
    chained event.1 redacted.1)

def flushRedactor (run : OutputRun) (stream : Stream) :
    OutputRun × List (Stream × Text) :=
  let redactor := run.redactors.get stream
  ({ run with
      redactors :=
        run.redactors.set stream { redactor with tailBuffer := [] } },
    chained stream redactor.flush)

/-- The output of a job that the agent runs. -/
def agentExecutor (secrets : List Text) (logSpoolMaxBytes : Nat) :
    Executor where
  Run := OutputRun
  Task := Stream × Text
  start := startRun secrets
  attached := false
  receive := redactData
  flush := flushRedactor
  append run task := run.appendAndEnqueue logSpoolMaxBytes task.1 task.2
  file run := run.logs.file
  spoolLimitBreached run := run.spoolLimitBreached
  logged data :=
    ((create secrets).outputs (data.map received)).flatMap Utf16.toBytes

/-- The log of a job that the controller runs. -/
structure LocalRun where
  logs : AttemptLogs
  /-- The sequence that `readLastChunkSequence` finds. -/
  lastSequence : Nat
  nextLogSequence : Nat
  deriving DecidableEq

/-- What `enqueueLocalLog` chains. -/
structure LocalChunk where
  sequence : Nat
  stream : Stream
  chunk : List UInt8
  deriving DecidableEq

/-- `appendIndexedLogChunk`, which throws when the sequence is not larger. -/
def LocalRun.append (run : LocalRun) (task : LocalChunk) : LocalRun :=
  if task.sequence ≤ run.lastSequence then run
  else
    { run with
      logs :=
        writeChunk run.logs task.chunk
          (newEntry run.logs task.stream task.chunk task.sequence none)
      lastSequence := task.sequence }

/-- `enqueueLocalLog`. -/
def LocalRun.enqueueLocalLog (run : LocalRun) (event : DataEvent) :
    LocalRun × List LocalChunk :=
  ({ run with nextLogSequence := run.nextLogSequence + 1 },
    [⟨run.nextLogSequence, event.1, event.2⟩])

/-- The output of a job that the controller runs itself; nothing is redacted,
and nothing flushed. -/
def localExecutor : Executor where
  Run := LocalRun
  Task := LocalChunk
  start :=
    { logs := ensureAttemptLogs, lastSequence := 0, nextLogSequence := 1 }
  attached := true
  receive := LocalRun.enqueueLocalLog
  flush run _ := (run, [])
  append := LocalRun.append
  file run := run.logs.file
  spoolLimitBreached _ := false
  logged := List.flatten

/-! ## Their laws -/

section Agent

variable {secrets : List Text} {logSpoolMaxBytes : Nat}

theorem put_chained (run : OutputRun) (stream : Stream) (text : Text) :
    (agentExecutor secrets logSpoolMaxBytes).put run (chained stream text) =
      run.put logSpoolMaxBytes stream text := by
  unfold OutputRun.put chained
  by_cases empty : text = []
  · rw [if_pos empty, if_pos empty]
    rfl
  · rw [if_neg empty, if_neg empty]
    rfl

theorem handleAll_agent (events : List DataEvent) (run : OutputRun) :
    (((events.foldl (OutputRun.onData logSpoolMaxBytes) run).flushStream
        logSpoolMaxBytes .stdout).flushStream logSpoolMaxBytes .stderr) =
      run.complete logSpoolMaxBytes events := by
  induction events generalizing run with
  | nil => rfl
  | cons event events inductionHypothesis => exact inductionHypothesis _

/-- Output that is handled at once is the output of `outputRun`. -/
theorem complete_agent (events : List DataEvent) :
    (agentExecutor secrets logSpoolMaxBytes).complete events =
      outputRun secrets logSpoolMaxBytes events := by
  have flushed : (agentExecutor secrets logSpoolMaxBytes).flushed =
      fun run stream => OutputRun.flushStream logSpoolMaxBytes run stream :=
    funext fun run => funext fun stream => put_chained _ _ _
  have handled : (agentExecutor secrets logSpoolMaxBytes).handleAll events =
      events.foldl (OutputRun.onData logSpoolMaxBytes)
        (startRun secrets) :=
    congrArg (fun handle => events.foldl handle (startRun secrets))
      (funext fun run => funext fun event => put_chained _ _ _)
  unfold Executor.complete
  rw [flushed, handled]
  exact handleAll_agent events _

theorem redactData_append (run : OutputRun) (stream : Stream) (text : Text)
    (event : DataEvent) :
    redactData (run.appendAndEnqueue logSpoolMaxBytes stream text) event =
      ((redactData run event).1.appendAndEnqueue logSpoolMaxBytes stream
        text, (redactData run event).2) := by
  unfold OutputRun.appendAndEnqueue redactData
  by_cases breached : run.spoolLimitBreached = true
  · simp only [breached, if_true]
  · simp only [breached, if_false, Bool.false_eq_true]

theorem agentExecutor_lawful :
    (agentExecutor secrets logSpoolMaxBytes).Lawful where
  receive_append run task event := redactData_append run task.1 task.2 event
  complete_file := by
    intro events
    rw [complete_agent]
    cases breached :
        (outputRun secrets logSpoolMaxBytes events).spoolLimitBreached with
    | true => exact .inl breached
    | false =>
      refine .inr fun stream => ?_
      have grown := @complete_file logSpoolMaxBytes (startRun secrets)
        stream events breached
      have start : (startRun secrets).redactors.get stream =
          create secrets := by
        cases stream <;> rfl
      have empty : (startRun secrets).logs.file stream = [] := by
        cases stream <;> rfl
      rw [start, empty, List.nil_append] at grown
      exact grown

end Agent

theorem file_writeChunk (logs : AttemptLogs) (chunk : List UInt8)
    (sequence : Nat) (target stream : Stream) :
    (writeChunk logs chunk
        (newEntry logs target chunk sequence none)).file stream =
      logs.file stream ++ if target = stream then chunk else [] := by
  cases target <;> cases stream <;>
    simp [writeChunk, appendCheckpointText, appendChunksText,
      appendLogChunk, newEntry, AttemptLogs.file]

theorem enqueueLocalLog_append (run : LocalRun) (task : LocalChunk)
    (event : DataEvent) :
    (run.append task).enqueueLocalLog event =
      ((run.enqueueLocalLog event).1.append task,
        (run.enqueueLocalLog event).2) := by
  unfold LocalRun.append LocalRun.enqueueLocalLog
  by_cases refused : task.sequence ≤ run.lastSequence
  · simp only [refused, if_true]
  · simp only [refused, if_false]

/-- The sequences of a run that appends at once go up by one. -/
structure LocalRun.Follows (run : LocalRun) (events : List DataEvent) :
    Prop where
  next : run.nextLogSequence = run.lastSequence + 1
  file : ∀ stream, run.logs.file stream = (dataOf stream events).flatten

theorem LocalRun.Follows.concat {run : LocalRun} {events : List DataEvent}
    (follows : run.Follows events) (event : DataEvent) :
    ((run.enqueueLocalLog event).1.append
      ⟨run.nextLogSequence, event.1, event.2⟩).Follows
        (events ++ [event]) := by
  have passes : ¬ run.nextLogSequence ≤ run.lastSequence := by
    rw [follows.next]
    exact Nat.not_succ_le_self _
  unfold LocalRun.append LocalRun.enqueueLocalLog
  rw [if_neg passes]
  refine ⟨rfl, fun stream => ?_⟩
  dsimp only
  rw [file_writeChunk, follows.file, dataOf_append, List.flatten_append]
  by_cases same : event.1 = stream
  · rw [if_pos same, dataOf_cons_same same]
    simp [dataOf]
  · rw [if_neg same, dataOf_cons_other same]
    rfl

theorem follows_handleAll (events : List DataEvent) :
    LocalRun.Follows (localExecutor.handleAll events) events := by
  induction events using List.reverseRecOn with
  | nil =>
    refine ⟨rfl, fun stream => ?_⟩
    cases stream <;> rfl
  | append_singleton events event inductionHypothesis =>
    rw [handleAll_concat]
    exact inductionHypothesis.concat event

theorem localExecutor_lawful : localExecutor.Lawful where
  receive_append := enqueueLocalLog_append
  complete_file := fun events =>
    .inr (follows_handleAll events).file

/-! ## Both executors -/

/-- Where a job runs. -/
inductive Side where
  | agent (secrets : List Text) (logSpoolMaxBytes : Nat)
  | controller

def Side.executor : Side → Executor
  | .agent secrets logSpoolMaxBytes =>
    agentExecutor secrets logSpoolMaxBytes
  | .controller => localExecutor

theorem Side.lawful (side : Side) : side.executor.Lawful := by
  cases side with
  | agent secrets logSpoolMaxBytes => exact agentExecutor_lawful
  | controller => exact localExecutor_lawful

/-- When `waitForCompletion` is entered in time, the child writes nothing
between its end and the report, and no append fails, then all output is in the
log when the completion is reported, and none follows a report of an exit. -/
theorem kept_of_settled (side : Side) {state : RunState side.executor}
    (reachable : (machine side.executor).Reachable
      (fun state label => settled side.executor state label = true) state) :
    Kept side.executor state :=
  kept_of_settled_of side.lawful reachable

/-! ## Runs -/

/-- A child that writes, exits and closes. -/
def exitLabels : List Label :=
  [.data (.stdout, [0x68, 0x69]), .waitForCompletion, .exit, .close,
    .settle .exit, .append true, .proceed, .proceed, .proceed, .proceed]

def exitState : RunState Side.controller.executor :=
  ((machine localExecutor).run (startState localExecutor) exitLabels).get
    (by decide +kernel)

theorem kept_exitState : Kept Side.controller.executor exitState :=
  kept_of_settled .controller
    ⟨_, rfl, Machine.steps_of_run (settled localExecutor)
      (fun _ _ meets => meets) (by decide +kernel) (Option.some_get _).symm⟩

/-- A child that has exited before `waitForCompletion` is entered, and whose
output comes when the chain has been waited for. -/
def exitedEarlyLabels : List Label :=
  [.exit, .waitForCompletion, .settle .exit, .proceed, .proceed, .proceed,
    .data (.stdout, [0x68, 0x69]), .proceed]

def exitedEarlyState : RunState localExecutor :=
  ((machine localExecutor).run (startState localExecutor)
    exitedEarlyLabels).get (by decide +kernel)

/-- A child that writes while it is killed after the timeout. -/
def timeoutLabels : List Label :=
  [.waitForCompletion, .flow, .settle .timeout, .proceed, .proceed, .proceed,
    .data (.stdout, [0x68, 0x69]), .proceed]

def timeoutExecutor : Executor :=
  agentExecutor [Utf16.encode "secret".toList] 1000

def timeoutState : RunState timeoutExecutor :=
  ((machine timeoutExecutor).run (startState timeoutExecutor)
    timeoutLabels).get (by decide +kernel)

/-- Late output is not in the log when the completion is reported, on either
side. -/
theorem late_output_lost :
    ((machine localExecutor).Reachable (fun _ _ => True) exitedEarlyState ∧
      ¬ Kept localExecutor exitedEarlyState) ∧
    ((machine timeoutExecutor).Reachable (fun _ _ => True) timeoutState ∧
      ¬ Kept timeoutExecutor timeoutState) := by
  refine ⟨⟨⟨_, rfl,
    Machine.steps_of_run_eq_some (Option.some_get _).symm⟩, ?_⟩,
    ⟨_, rfl, Machine.steps_of_run_eq_some (Option.some_get _).symm⟩, ?_⟩
  · intro kept
    rcases kept.logged (exitedEarlyState.report.get (by decide +kernel))
      (Option.some_get _).symm with breached | files
    · exact absurd breached (by decide +kernel)
    · exact absurd (files .stdout) (by decide +kernel)
  · intro kept
    rcases kept.logged (timeoutState.report.get (by decide +kernel))
      (Option.some_get _).symm with breached | files
    · exact absurd breached (by decide +kernel)
    · exact absurd (files .stdout) (by decide +kernel)

end Rbo.Controller.CompletedOutput
