import Rbo.Cli.EventStream
import Rbo.Foundation.JsNumbers
import Rbo.Foundation.Run

/-!
# Following the log of a job

`followJobLogsRemote` opens one connection after another to the log stream of a
job.  It keeps the last sequence that it has seen, asks each connection for what
comes after it, and hands over only chunks with a larger sequence.  A
connection streams the attempt that the controller chooses for it; the sequence
is one for all connections.

What is followed of a call: the connections, what is read of each, and the
states of the job that are read in between.  With every handed chunk stands
the attempt that it was streamed of, which the callback is not told.
-/

namespace Rbo.Cli.FollowLogs

open Rbo.Foundation
open Rbo.Cli.EventStream

/-! ## One block -/

inductive LogStream where
  | stdout
  | stderr
  deriving DecidableEq

/-- What `onChunk` is given, with the attempt that was streamed. -/
structure Handed where
  attempt : JsString
  stream : LogStream
  text : JsString
  deriving DecidableEq

structure Progress where
  lastSequence : ℚ
  lastState : Option JsString
  handed : List Handed
  deriving DecidableEq

/-- What follows on a block. -/
inductive Verdict where
  | goOn
  /-- A `done` event, with its last sequence. -/
  | done (last : Option ℚ)
  | aborted
  /-- The stream has ended, or the loop is left; a reconnect follows. -/
  | dropped
  deriving DecidableEq

/-- The value, when its type is number. -/
def numberValue : JsValue → Option ℚ
  | .number number => number.value?
  | _ => none

def isNumber : JsValue → Bool
  | .number _ => true
  | _ => false

def streamOf (value : JsValue) : LogStream :=
  match value with
  | .string name => if name = jsText "stderr" then .stderr else .stdout
  | _ => .stdout

def textOf : JsValue → JsString
  | .string text => text
  | _ => []

section Handler

variable (coerce : JsValue → Option ℚ)

/-- `Number`, when it is finite; `coerce` is for what is not a number. -/
def finiteNumber : JsValue → Option ℚ
  | .number number => number.value?
  | value => coerce value

/-- The larger of the last sequence and a number of an event. -/
def raise (lastSequence : ℚ) (value : JsValue) : ℚ :=
  (numberValue value).elim lastSequence (max lastSequence)

/-- A chunk with a larger sequence is handed over, unless it is empty. -/
def takeChunk (attempt : JsString) (progress : Progress) (sequence : ℚ)
    (stream : LogStream) (text : JsString) : Progress :=
  if progress.lastSequence < sequence then
    { progress with
      lastSequence := sequence
      handed :=
        if text = [] then progress.handed
        else progress.handed ++ [⟨attempt, stream, text⟩] }
  else progress

/-- What the loop does with the value of a block. -/
def handleValue (attempt : JsString) (progress : Progress)
    (event : Option Text) (parsed : JsValue) : Progress × Verdict :=
  if event = some "done".toList then
    ({ progress with
        lastState :=
          match propertyOf "state" parsed with
          | .string state => some state
          | _ => progress.lastState
        lastSequence :=
          raise progress.lastSequence (propertyOf "last_sequence" parsed) },
      .done (numberValue (propertyOf "last_sequence" parsed)))
  else if event = some "error".toList then
    ({ progress with
        lastSequence :=
          raise progress.lastSequence (propertyOf "last_sequence" parsed) },
      .dropped)
  else if event = some "log".toList ||
      isNumber (propertyOf "sequence" parsed) then
    match finiteNumber coerce (propertyOf "sequence" parsed) with
    | none => (progress, .goOn)
    | some sequence =>
      (takeChunk attempt progress sequence
        (streamOf (propertyOf "stream" parsed))
        (textOf (propertyOf "text" parsed)), .goOn)
  else (progress, .goOn)

def handleBlock (attempt : JsString) (progress : Progress)
    (block : SseBlock) : Progress × Verdict :=
  if block.event = some "heartbeat".toList then (progress, .goOn)
  else
    match jsonParse block.data with
    | none => (progress, .goOn)
    -- A property of `null` throws, and the loop is left.
    | some .null => (progress, .dropped)
    | some parsed => handleValue coerce attempt progress block.event parsed

end Handler

/-- Items are handled one after another, until one ends it, or until the call
is aborted behind a number of them. -/
def readAll {Item : Type} (handle : Progress → Item → Progress × Verdict) :
    List Item → Option Nat → Progress → Progress × Verdict
  | [], abort, progress =>
    (progress, if abort = some 0 then .aborted else .dropped)
  | item :: items, abort, progress =>
    if abort = some 0 then (progress, .aborted)
    else
      match handle progress item with
      | (after, .goOn) => readAll handle items (abort.map (· - 1)) after
      | result => result

/-! ## The loop -/

/-- How a call ends. -/
inductive Ending where
  | done (attempt : JsString) (last : Option ℚ)
  | aborted
  | exhausted
  | failed (message : JsString)
  deriving DecidableEq

structure FollowState where
  progress : Progress
  terminalCatchUpAttempts : Nat
  ending : Option Ending
  deriving DecidableEq

/-- What a connection brings. -/
inductive Response where
  /-- `fetch` throws. -/
  | unreachable (aborted : Bool)
  | refused (status : Nat) (text : JsString)
  /-- The pieces that are read of a body that streams an attempt. -/
  | streamed (attempt : JsString) (reads : List (List UInt8))
      (abort : Option Nat)

/-- One turn of the loop: the connection, and the state of the job that is read
after it, when there is one. -/
structure Round where
  aborted : Bool
  response : Response
  state : Option JsString

def maxTerminalCatchUpAttempts : Nat := 5

def isTerminalState (state : Option JsString) : Bool :=
  state = some (jsText "completed")

/-- Whether another connection is tried. -/
def reconnect (state : FollowState) (progress : Progress) (progressed : Bool)
    (jobState : Option JsString) : FollowState :=
  let progress :=
    { progress with lastState := jobState <|> progress.lastState }
  if isTerminalState jobState then
    let attempts :=
      if progressed then 0 else state.terminalCatchUpAttempts + 1
    { progress := progress
      terminalCatchUpAttempts := attempts
      ending :=
        if maxTerminalCatchUpAttempts < attempts then some .exhausted
        else none }
  else
    { progress := progress, terminalCatchUpAttempts := 0, ending := none }

/-- The error of a refused connection. -/
def failure (status : Nat) (text : JsString) : JsString :=
  jsText "log stream failed: HTTP " ++
    Utf16.encode (Json.stringifyNat status) ++ jsText " " ++ text

def followRound (coerce : JsValue → Option ℚ) (state : FollowState)
    (round : Round) : FollowState :=
  if round.aborted then { state with ending := some .aborted }
  else
    match round.response with
    | .unreachable aborted =>
      if aborted then { state with ending := some .aborted }
      else reconnect state state.progress false round.state
    | .refused status text =>
      if (status = 400 || status = 404) && round.state.isSome then
        reconnect state state.progress false round.state
      else { state with ending := some (.failed (failure status text)) }
    | .streamed attempt reads abort =>
      let result :=
        readAll (handleBlock coerce attempt) (parseSseBlocks reads) abort
          state.progress
      match result.2 with
      | .done last =>
        { state with
          progress := result.1
          ending := some (.done attempt last) }
      | .aborted =>
        { state with progress := result.1, ending := some .aborted }
      | _ =>
        reconnect state result.1
          (state.progress.lastSequence < result.1.lastSequence)
          round.state

/-! ## The server -/

/-- A chunk of the log of an attempt. -/
structure LogChunk where
  sequence : Nat
  stream : LogStream
  text : JsString
  deriving DecidableEq

/-- The log of an attempt, in the order of its sequences. -/
structure AttemptLog where
  chunks : List LogChunk
  increasing : chunks.Pairwise (·.sequence < ·.sequence)
  positive : ∀ chunk ∈ chunks, 0 < chunk.sequence

/-- What the controller sends. -/
inductive ServerEvent where
  | heartbeat
  | log (chunk : LogChunk)
  | done (lastSequence : Nat) (state : JsString) (outcome : Option JsString)
  | overflow (lastSequence : Nat)
  deriving DecidableEq

def streamName : LogStream → JsString
  | .stdout => jsText "stdout"
  | .stderr => jsText "stderr"

namespace ServerEvent

variable (attempt job : JsString)

def name : ServerEvent → Text
  | .heartbeat => "heartbeat".toList
  | .log _ => "log".toList
  | .done .. => "done".toList
  | .overflow _ => "error".toList

/-- The members of the data of an event. -/
def members : ServerEvent → List (JsString × JsValue)
  | .heartbeat => [(jsText "attempt_id", .string attempt)]
  | .log chunk =>
    [(jsText "attempt_id", .string attempt),
      (jsText "sequence", .number (.ofNat chunk.sequence)),
      (jsText "stream", .string (streamName chunk.stream)),
      (jsText "text", .string chunk.text)]
  | .done lastSequence state outcome =>
    [(jsText "attempt_id", .string attempt),
      (jsText "job_id", .string job),
      (jsText "state", .string state),
      (jsText "outcome", outcome.elim .null .string),
      (jsText "last_sequence", .number (.ofNat lastSequence))]
  | .overflow lastSequence =>
    [(jsText "code", .string (jsText "buffer_overflow")),
      (jsText "attempt_id", .string attempt),
      (jsText "job_id", .string job),
      (jsText "last_sequence", .number (.ofNat lastSequence)),
      (jsText "message", .string
        (jsText "Live log buffer overflow; reconnect with Last-Event-ID"))]

/-- What `formatSseEvent` is given for an event. -/
def sse (event : ServerEvent) : SseEvent where
  id :=
    match event with
    | .log chunk => some chunk.sequence
    | _ => none
  event := some event.name
  data := .object (event.members attempt job)

/-- The chunk of a log event. -/
def chunk? : ServerEvent → Option LogChunk
  | .log chunk => some chunk
  | _ => none

/-- An event before the end of a stream. -/
def isInner : ServerEvent → Bool
  | .heartbeat => true
  | .log _ => true
  | _ => false

end ServerEvent

/-- The sequence of the last chunk that was sent, or the cursor. -/
def lastSent (cursor : Nat) (sent : List LogChunk) : Nat :=
  (sent.getLast?.map LogChunk.sequence).getD cursor

/-- The events of a connection: chunks after the cursor in their order, with
heartbeats between them, and at the end nothing, `done` or an overflow. -/
structure Serves (chunks : List LogChunk) (cursor : Nat)
    (events : List ServerEvent) : Prop where
  shape : ∃ body ending, events = body ++ ending ∧
    (∀ event ∈ body, event.isInner = true) ∧
    body.filterMap ServerEvent.chunk? <+:
      chunks.filter (cursor < ·.sequence) ∧
    (ending = [] ∨
      (∃ state outcome, ending = [.done
        (lastSent cursor (body.filterMap ServerEvent.chunk?)) state
          outcome]) ∨
      ending = [.overflow
        (lastSent cursor (body.filterMap ServerEvent.chunk?))])

/-! ## The calls -/

/-- A call, and the attempt that was streamed last. -/
structure RunState where
  follow : FollowState
  served : Option JsString

/-- The attempt that was streamed last, after a turn. -/
def servedAfter (served : Option JsString) (round : Round) :
    Option JsString :=
  if round.aborted then served
  else
    match round.response with
    | .streamed attempt _ _ => some attempt
    | _ => served

def machine (coerce : JsValue → Option ℚ) : Machine RunState Round where
  initial state :=
    state =
      { follow :=
          { progress := ⟨0, none, []⟩
            terminalCatchUpAttempts := 0
            ending := none }
        served := none }
  step state round :=
    if state.follow.ending.isSome then none
    else some
      { follow := followRound coerce state.follow round
        served := servedAfter state.served round }

section Asked

variable (log : JsString → AttemptLog)

/-- The bytes that are read are the first bytes of a stream that serves what
comes after the last sequence. -/
def Assumed (state : RunState) (round : Round) : Prop :=
  ∀ attempt reads abort, round.response = .streamed attempt reads abort →
    ∃ (job : JsString) (cursor : Nat) (events : List ServerEvent),
      state.follow.progress.lastSequence = (cursor : ℚ) ∧
      Serves (log attempt).chunks cursor events ∧
      reads.flatten <+: Utf8.encode
        (streamText (events.map (ServerEvent.sse attempt job)))

/-- A connection streams the attempt of the one before, or an attempt without
output up to the last sequence. -/
def Careful (state : RunState) (round : Round) : Prop :=
  ∀ attempt reads abort, round.response = .streamed attempt reads abort →
    state.served = some attempt ∨
      ∀ chunk ∈ (log attempt).chunks,
        (chunk.sequence : ℚ) ≤ state.follow.progress.lastSequence →
          chunk.text = []

/-- What is handed over for chunks. -/
def outputOf (chunks : List LogChunk) : List (LogStream × JsString) :=
  (chunks.filter fun chunk => chunk.text ≠ []).map fun chunk =>
    (chunk.stream, chunk.text)

/-- What was handed over while an attempt was streamed. -/
def handedOf (handed : List Handed) (attempt : JsString) :
    List (LogStream × JsString) :=
  (handed.filter fun entry => entry.attempt = attempt).map fun entry =>
    (entry.stream, entry.text)

/-- For each attempt the chunks that have text were handed over in order, once
each and from the first on; and after a `done` event all of them up to its last
sequence. -/
structure Kept (state : RunState) : Prop where
  inOrder : ∀ attempt, handedOf state.follow.progress.handed attempt <+:
    outputOf (log attempt).chunks
  complete : ∀ attempt last,
    state.follow.ending = some (.done attempt (some last)) →
    handedOf state.follow.progress.handed attempt =
      outputOf ((log attempt).chunks.filter fun chunk =>
        (chunk.sequence : ℚ) ≤ last)

end Asked

/-! ## An event that is read -/

/-- What an event of the server does. -/
def readEvent (attempt : JsString) (progress : Progress) :
    ServerEvent → Progress × Verdict
  | .heartbeat => (progress, .goOn)
  | .log chunk =>
    (takeChunk attempt progress chunk.sequence chunk.stream chunk.text,
      .goOn)
  | .done lastSequence state _ =>
    ({ progress with
        lastState := some state
        lastSequence := max progress.lastSequence lastSequence },
      .done (some lastSequence))
  | .overflow lastSequence =>
    ({ progress with
        lastSequence := max progress.lastSequence lastSequence },
      .dropped)

section Read

variable {attempt job : JsString} {coerce : JsValue → Option ℚ}

theorem isNamed_sse (event : ServerEvent) :
    IsNamed (event.sse attempt job) event.name
      (event.members attempt job) := by
  refine ⟨rfl, rfl, ?_, ?_, ?_⟩
  · cases event <;> exact List.cons_ne_nil _ _
  · cases event with
    | heartbeat => exact (by decide : Printed "heartbeat".toList)
    | log chunk => exact (by decide : Printed "log".toList)
    | done lastSequence state outcome =>
      exact (by decide : Printed "done".toList)
    | overflow lastSequence => exact (by decide : Printed "error".toList)
  · cases event <;> rfl

theorem isLine_sse (events : List ServerEvent) :
    ∀ event ∈ events.map (ServerEvent.sse attempt job),
      ∀ line ∈ event.lines, IsLine line := by
  intro event member
  obtain ⟨sent, -, rfl⟩ := List.mem_map.mp member
  exact (isNamed_sse sent).isLine

theorem streamOf_streamName (stream : LogStream) :
    streamOf (.string (streamName stream)) = stream := by
  cases stream <;> decide

theorem distinct_members (event : ServerEvent) :
    (JsValue.object (event.members attempt job)).Distinct := by
  refine (everywhere_object _).mpr ⟨?_, ?_⟩
  · cases event
    · change [jsText "attempt_id"].Nodup
      decide
    · change [jsText "attempt_id", jsText "sequence", jsText "stream",
        jsText "text"].Nodup
      decide
    · change [jsText "attempt_id", jsText "job_id", jsText "state",
        jsText "outcome", jsText "last_sequence"].Nodup
      decide
    · change [jsText "code", jsText "attempt_id", jsText "job_id",
        jsText "last_sequence", jsText "message"].Nodup
      decide
  · cases event with
    | done lastSequence state outcome =>
      cases outcome <;>
        simp [ServerEvent.members, JsValue.Everywhere, HasDistinctNames]
    | _ => simp [ServerEvent.members, JsValue.Everywhere, HasDistinctNames]

theorem stored_members (event : ServerEvent) :
    stored (.object (event.members attempt job)) =
      .object (event.members attempt job) := by
  cases event with
  | done lastSequence state outcome =>
    cases outcome <;>
      simp [ServerEvent.members, stored, storedMembers,
        JsValue.isUndefined, storedNumber_ofNat]
  | _ =>
    simp [ServerEvent.members, stored, storedMembers,
      JsValue.isUndefined, storedNumber_ofNat]

theorem handleValue_log {streamed : JsString} {progress : Progress}
    {parsed : JsValue} {sequence : ℚ}
    (number : finiteNumber coerce (propertyOf "sequence" parsed) =
      some sequence) :
    handleValue coerce streamed progress (some "log".toList) parsed =
      (takeChunk streamed progress sequence
        (streamOf (propertyOf "stream" parsed))
        (textOf (propertyOf "text" parsed)), .goOn) := by
  unfold handleValue
  rw [if_neg (by decide), if_neg (by decide), if_pos (by simp), number]

theorem handleBlock_of_event (event : ServerEvent) :
    ∃ block, blockOf (event.sse attempt job) = some block ∧
      ∀ streamed progress,
        handleBlock coerce streamed progress block =
          readEvent streamed progress event := by
  obtain ⟨id, parsed⟩ := (isNamed_sse event).parseBlock
  refine ⟨_, parsed, ?_⟩
  intro streamed progress
  have read : jsonParse (dataText (event.members attempt job)) =
      some (.object (event.members attempt job)) := by
    rw [← stored_members]
    exact jsonParse_stringify (distinct_members event) rfl
  have number (value : Nat) :
      (JsNumber.ofNat value).value? = some (value : ℚ) :=
    JsNumber.value?_ofNat value
  unfold handleBlock
  dsimp only
  rw [read]
  cases event with
  | heartbeat => rfl
  | log chunk =>
    have sequence : finiteNumber coerce (propertyOf "sequence"
        (.object ((ServerEvent.log chunk).members attempt job))) =
          some (chunk.sequence : ℚ) := number chunk.sequence
    refine (handleValue_log sequence).trans ?_
    exact congrArg (fun stream => (takeChunk streamed progress
      chunk.sequence stream chunk.text, Verdict.goOn))
      (streamOf_streamName chunk.stream)
  | done lastSequence state outcome =>
    exact congrArg (fun value => ({ progress with
      lastState := some state
      lastSequence := value.elim progress.lastSequence
        (max progress.lastSequence) }, Verdict.done value))
      (number lastSequence)
  | overflow lastSequence =>
    exact congrArg (fun value => ({ progress with
      lastSequence := value.elim progress.lastSequence
        (max progress.lastSequence) }, Verdict.dropped))
      (number lastSequence)

/-- The blocks of events are handled as the events. -/
theorem readAll_blocks (streamed : JsString) (events : List ServerEvent)
    (abort : Option Nat) (progress : Progress) :
    readAll (handleBlock coerce streamed)
        ((events.map (ServerEvent.sse attempt job)).filterMap blockOf)
        abort progress =
      readAll (readEvent streamed) events abort progress := by
  induction events generalizing abort progress with
  | nil => rfl
  | cons event events inductionHypothesis =>
    obtain ⟨block, read, handled⟩ :=
      @handleBlock_of_event attempt job coerce event
    rw [List.map_cons, List.filterMap_cons_some read, readAll, readAll,
      handled]
    rcases readEvent streamed progress event with ⟨after, - | - | - | -⟩
    · dsimp only
      rw [inductionHypothesis]
    · rfl
    · rfl
    · rfl

end Read

/-! ## What stands behind a cursor -/

namespace AttemptLog

variable (log : AttemptLog)

def upTo (cursor : Nat) : List LogChunk :=
  log.chunks.filter (·.sequence ≤ cursor)

def after (cursor : Nat) : List LogChunk :=
  log.chunks.filter (cursor < ·.sequence)

variable {log}

/-- A cursor between the two parts of a log. -/
theorem parts_of_append {front rest : List LogChunk} {cursor : Nat}
    (shape : log.chunks = front ++ rest)
    (before : ∀ chunk ∈ front, chunk.sequence ≤ cursor)
    (behind : ∀ chunk ∈ rest, cursor < chunk.sequence) :
    log.upTo cursor = front ∧ log.after cursor = rest := by
  unfold upTo after
  rw [shape, List.filter_append, List.filter_append]
  constructor
  · rw [List.filter_eq_self.mpr, List.filter_eq_nil_iff.mpr,
      List.append_nil]
    · simpa using behind
    · simpa using before
  · rw [List.filter_eq_nil_iff.mpr, List.filter_eq_self.mpr,
      List.nil_append]
    · simpa using behind
    · simpa using before

theorem upTo_append_after (cursor : Nat) :
    log.upTo cursor ++ log.after cursor = log.chunks := by
  have sorted := log.increasing
  unfold upTo after
  generalize log.chunks = chunks at sorted
  induction chunks with
  | nil => rfl
  | cons chunk chunks inductionHypothesis =>
    rw [List.pairwise_cons] at sorted
    by_cases early : chunk.sequence ≤ cursor
    · rw [List.filter_cons_of_pos (by simpa using early),
        List.filter_cons_of_neg (by simpa using early),
        List.cons_append, inductionHypothesis sorted.2]
    · have late : ∀ other ∈ chunk :: chunks,
          cursor < other.sequence := by
        refine List.forall_mem_cons.mpr ⟨Nat.lt_of_not_le early, ?_⟩
        intro other member
        exact (Nat.lt_of_not_le early).trans (sorted.1 other member)
      rw [List.filter_eq_nil_iff.mpr (by simpa using late),
        List.filter_eq_self.mpr (by simpa using late), List.nil_append]

/-- The next chunk behind a cursor moves the cursor. -/
theorem advance {cursor : Nat} {chunk : LogChunk} {rest : List LogChunk}
    (next : log.after cursor = chunk :: rest) :
    cursor < chunk.sequence ∧
      log.upTo chunk.sequence = log.upTo cursor ++ [chunk] ∧
      log.after chunk.sequence = rest := by
  have shape := @upTo_append_after log cursor
  rw [next] at shape
  have member : chunk ∈ log.after cursor := next ▸ List.mem_cons_self
  have later : cursor < chunk.sequence := by
    simpa using (List.mem_filter.mp member).2
  have sorted := shape ▸ log.increasing
  rw [List.pairwise_append, List.pairwise_cons] at sorted
  have parts := @parts_of_append log (log.upTo cursor ++ [chunk]) rest
    chunk.sequence (by rw [← shape]; simp) (by
      intro other inside
      rcases List.mem_append.mp inside with early | same
      · exact (sorted.2.2 other early chunk List.mem_cons_self).le
      · rw [List.mem_singleton.mp same]) sorted.2.1.1
  exact ⟨later, parts.1, parts.2⟩

end AttemptLog

theorem outputOf_append (first second : List LogChunk) :
    outputOf (first ++ second) = outputOf first ++ outputOf second := by
  unfold outputOf
  rw [List.filter_append, List.map_append]

theorem outputOf_eq_nil {chunks : List LogChunk}
    (empty : ∀ chunk ∈ chunks, chunk.text = []) : outputOf chunks = [] := by
  unfold outputOf
  rw [List.filter_eq_nil_iff.mpr (by simpa using empty), List.map_nil]

/-! ## Events in order -/

section Serving

variable {log : AttemptLog} {cursor : Nat} {events : List ServerEvent}

theorem lastSent_cons (chunk : LogChunk) (sent : List LogChunk) :
    lastSent cursor (chunk :: sent) = lastSent chunk.sequence sent := by
  unfold lastSent
  rw [List.getLast?_cons]
  cases sent.getLast? <;> rfl

theorem Serves.behind_heartbeat
    (serves : Serves log.chunks cursor (.heartbeat :: events)) :
    Serves log.chunks cursor events := by
  obtain ⟨body, ending, shape, inner, chunks, ends⟩ := serves.shape
  cases body with
  | nil =>
    rcases ends with rfl | ⟨state, outcome, rfl⟩ | rfl <;> cases shape
  | cons event body =>
    obtain ⟨rfl, rest⟩ := List.cons.inj shape
    exact ⟨body, ending, rest,
      fun event member => inner event (List.mem_cons_of_mem _ member),
      chunks, ends⟩

theorem Serves.behind_log {chunk : LogChunk}
    (serves : Serves log.chunks cursor (.log chunk :: events)) :
    (∃ rest, log.after cursor = chunk :: rest) ∧
      Serves log.chunks chunk.sequence events := by
  obtain ⟨body, ending, shape, inner, chunks, ends⟩ := serves.shape
  cases body with
  | nil =>
    rcases ends with rfl | ⟨state, outcome, rfl⟩ | rfl <;> cases shape
  | cons event body =>
    obtain ⟨rfl, rest⟩ := List.cons.inj shape
    change chunk :: body.filterMap ServerEvent.chunk? <+:
      log.after cursor at chunks
    change ending = [] ∨
      (∃ state outcome, ending = [.done (lastSent cursor
        (chunk :: body.filterMap ServerEvent.chunk?)) state outcome]) ∨
      ending = [.overflow (lastSent cursor
        (chunk :: body.filterMap ServerEvent.chunk?))] at ends
    obtain ⟨behind, whole⟩ := chunks
    have moved := AttemptLog.advance whole.symm
    rw [lastSent_cons] at ends
    exact ⟨⟨_, whole.symm⟩, body, ending, rest,
      fun event member => inner event (List.mem_cons_of_mem _ member),
      ⟨behind, moved.2.2.symm⟩, ends⟩

theorem Serves.last_event {event : ServerEvent} (last : event.isInner = false)
    (serves : Serves log.chunks cursor (event :: events)) :
    (∃ state outcome, event = .done cursor state outcome) ∨
      event = .overflow cursor := by
  obtain ⟨body, ending, shape, inner, chunks, ends⟩ := serves.shape
  cases body with
  | nil =>
    rcases ends with rfl | ⟨state, outcome, rfl⟩ | rfl
    · cases shape
    · exact .inl ⟨state, outcome, (List.cons.inj shape).1⟩
    · exact .inr (List.cons.inj shape).1
  | cons other body =>
    obtain ⟨rfl, -⟩ := List.cons.inj shape
    rw [inner _ List.mem_cons_self] at last
    cases last

end Serving

/-! ## Where a connection stands -/

section Standing

variable {log : JsString → AttemptLog}

/-- At a cursor: the attempt that is streamed was handed over up to the cursor,
and every other attempt up to some sequence before it. -/
structure Standing (log : JsString → AttemptLog) (attempt : JsString)
    (progress : Progress) (cursor : Nat) : Prop where
  last : progress.lastSequence = (cursor : ℚ)
  each : ∀ other, ∃ early ≤ cursor,
    handedOf progress.handed other = outputOf ((log other).upTo early)
  current : handedOf progress.handed attempt =
    outputOf ((log attempt).upTo cursor)

theorem handedOf_append (handed more : List Handed) (attempt : JsString) :
    handedOf (handed ++ more) attempt =
      handedOf handed attempt ++ handedOf more attempt := by
  unfold handedOf
  rw [List.filter_append, List.map_append]

variable {attempt : JsString} {progress : Progress} {cursor : Nat}

/-- What a chunk adds for an attempt. -/
theorem handedOf_takeChunk (chunk : LogChunk)
    (later : progress.lastSequence < chunk.sequence) (other : JsString) :
    handedOf (takeChunk attempt progress chunk.sequence chunk.stream
        chunk.text).handed other =
      handedOf progress.handed other ++
        if attempt = other then outputOf [chunk] else [] := by
  unfold takeChunk
  rw [if_pos later]
  dsimp only
  by_cases empty : chunk.text = []
  · rw [if_pos empty, outputOf_eq_nil (by simpa using empty), ite_self,
      List.append_nil]
  · rw [if_neg empty, handedOf_append]
    by_cases same : attempt = other
    · simp [handedOf, outputOf, same, empty]
    · simp [handedOf, same]

theorem Standing.takeChunk {chunk : LogChunk} {rest : List LogChunk}
    (standing : Standing log attempt progress cursor)
    (next : (log attempt).after cursor = chunk :: rest) :
    Standing log attempt
      (takeChunk attempt progress chunk.sequence chunk.stream chunk.text)
      chunk.sequence := by
  obtain ⟨later, parts, -⟩ := AttemptLog.advance next
  have newer : progress.lastSequence < chunk.sequence := by
    rw [standing.last]
    exact_mod_cast later
  have current : handedOf (FollowLogs.takeChunk attempt progress
      chunk.sequence chunk.stream chunk.text).handed attempt =
        outputOf ((log attempt).upTo chunk.sequence) := by
    rw [handedOf_takeChunk chunk newer, if_pos rfl, standing.current, parts,
      outputOf_append]
  refine ⟨?_, ?_, current⟩
  · unfold FollowLogs.takeChunk
    rw [if_pos newer]
  · intro other
    by_cases same : attempt = other
    · exact ⟨chunk.sequence, le_rfl, same ▸ current⟩
    · obtain ⟨early, before, handed⟩ := standing.each other
      refine ⟨early, before.trans later.le, ?_⟩
      rw [handedOf_takeChunk chunk newer, if_neg same, List.append_nil,
        handed]

/-- A larger cursor does not move back, and nothing is handed over. -/
theorem Standing.raise
    (standing : Standing log attempt progress cursor)
    (state : Option JsString) :
    Standing log attempt
      { progress with
        lastState := state
        lastSequence := max progress.lastSequence cursor } cursor := by
  refine ⟨?_, standing.each, standing.current⟩
  dsimp only
  rw [standing.last, max_self]

/-- Events that are served in order keep their attempt in order. -/
theorem Standing.readAll {events taken : List ServerEvent}
    (standing : Standing log attempt progress cursor)
    (serves : Serves (log attempt).chunks cursor events)
    (cut : taken <+: events) (abort : Option Nat) :
    ∃ later, Standing log attempt
        (readAll (readEvent attempt) taken abort progress).1 later ∧
      ∀ last, (readAll (readEvent attempt) taken abort progress).2 =
        .done last → last = some (later : ℚ) := by
  induction taken generalizing events progress cursor abort with
  | nil =>
    refine ⟨cursor, standing, ?_⟩
    intro last ended
    rw [FollowLogs.readAll] at ended
    split at ended <;> cases ended
  | cons event taken inductionHypothesis =>
    obtain ⟨left, rfl⟩ := cut
    rw [List.cons_append] at serves
    rw [FollowLogs.readAll]
    by_cases stopped : abort = some 0
    · rw [if_pos stopped]
      exact ⟨cursor, standing, nofun⟩
    · rw [if_neg stopped]
      cases event with
      | heartbeat =>
        exact inductionHypothesis standing serves.behind_heartbeat
          ⟨left, rfl⟩ _
      | log chunk =>
        obtain ⟨⟨rest, next⟩, later⟩ := serves.behind_log
        exact inductionHypothesis (standing.takeChunk next) later
          ⟨left, rfl⟩ _
      | done lastSequence state outcome =>
        rcases serves.last_event rfl with ⟨_, _, same⟩ | same
        · cases same
          refine ⟨cursor, standing.raise (some state), ?_⟩
          intro last ended
          cases ended
          rfl
        · cases same
      | overflow lastSequence =>
        rcases serves.last_event rfl with ⟨_, _, same⟩ | same
        · cases same
        · cases same
          exact ⟨cursor, standing.raise progress.lastState, nofun⟩

end Standing

/-! ## Every call -/

section Calls

variable {log : JsString → AttemptLog} {coerce : JsValue → Option ℚ}

/-- What holds between two connections, at a cursor. -/
structure SoundAt (log : JsString → AttemptLog) (state : RunState)
    (cursor : Nat) : Prop where
  last : state.follow.progress.lastSequence = (cursor : ℚ)
  each : ∀ other, ∃ early ≤ cursor,
    handedOf state.follow.progress.handed other =
      outputOf ((log other).upTo early)
  current : ∀ attempt, state.served = some attempt →
    handedOf state.follow.progress.handed attempt =
      outputOf ((log attempt).upTo cursor)
  ended : ∀ attempt last,
    state.follow.ending = some (.done attempt (some last)) →
      state.served = some attempt ∧ last = (cursor : ℚ)

/-- What a turn leaves as it was. -/
structure Unchanged (before after : Progress) : Prop where
  last : after.lastSequence = before.lastSequence
  handed : after.handed = before.handed

theorem reconnect_unchanged (state : FollowState) (progress : Progress)
    (progressed : Bool) (jobState : Option JsString) :
    Unchanged progress
      (reconnect state progress progressed jobState).progress := by
  unfold reconnect
  dsimp only
  split <;> exact ⟨rfl, rfl⟩

theorem reconnect_not_done (state : FollowState) (progress : Progress)
    (progressed : Bool) (jobState : Option JsString) (attempt : JsString)
    (last : Option ℚ) :
    (reconnect state progress progressed jobState).ending ≠
      some (.done attempt last) := by
  unfold reconnect
  intro ended
  by_cases terminal : isTerminalState jobState = true
  · rw [if_pos terminal] at ended
    cases (Option.ite_none_right_eq_some.mp ended).2
  · rw [if_neg terminal] at ended
    cases ended

/-- A turn streams nothing, or it reads the blocks of a body. -/
theorem followRound_cases (state : FollowState) (round : Round) :
    (Unchanged state.progress (followRound coerce state round).progress ∧
      (∀ attempt last, (followRound coerce state round).ending ≠
        some (.done attempt last)) ∧
      ∀ served, servedAfter served round = served) ∨
    ∃ attempt reads abort,
      round.response = .streamed attempt reads abort ∧
      (∀ served, servedAfter served round = some attempt) ∧
      Unchanged
        (readAll (handleBlock coerce attempt) (parseSseBlocks reads) abort
          state.progress).1
        (followRound coerce state round).progress ∧
      ∀ other last, (followRound coerce state round).ending =
          some (.done other last) →
        other = attempt ∧
          (readAll (handleBlock coerce attempt) (parseSseBlocks reads) abort
            state.progress).2 = .done last := by
  unfold followRound servedAfter
  by_cases aborted : round.aborted = true
  · refine .inl ?_
    rw [if_pos aborted]
    exact ⟨⟨rfl, rfl⟩, nofun, fun _ => if_pos aborted⟩
  · rw [if_neg aborted]
    cases response : round.response with
    | unreachable aborted =>
      refine .inl ⟨?_, ?_, fun _ => if_neg ‹_›⟩
      · dsimp only
        split
        · exact ⟨rfl, rfl⟩
        · exact reconnect_unchanged _ _ _ _
      · dsimp only
        split
        · exact nofun
        · exact reconnect_not_done _ _ _ _
    | refused status text =>
      refine .inl ⟨?_, ?_, fun _ => if_neg ‹_›⟩
      · dsimp only
        split
        · exact reconnect_unchanged _ _ _ _
        · exact ⟨rfl, rfl⟩
      · dsimp only
        split
        · exact reconnect_not_done _ _ _ _
        · exact nofun
    | streamed attempt reads abort =>
      refine .inr ⟨attempt, reads, abort, rfl, fun _ => if_neg aborted, ?_⟩
      dsimp only
      rcases readAll (handleBlock coerce attempt) (parseSseBlocks reads)
        abort state.progress with ⟨progress, - | last | - | -⟩
      · exact ⟨reconnect_unchanged _ _ _ _, fun _ _ ended =>
          absurd ended (reconnect_not_done _ _ _ _ _ _)⟩
      · refine ⟨⟨rfl, rfl⟩, ?_⟩
        rintro other found ⟨⟩
        exact ⟨rfl, rfl⟩
      · exact ⟨⟨rfl, rfl⟩, nofun⟩
      · exact ⟨reconnect_unchanged _ _ _ _, fun _ _ ended =>
          absurd ended (reconnect_not_done _ _ _ _ _ _)⟩

/-- A careful connection streams an attempt that was handed over up to the
cursor. -/
theorem SoundAt.standing {state : RunState} {cursor : Nat} {round : Round}
    {attempt : JsString} {reads : List (List UInt8)} {abort : Option Nat}
    (sound : SoundAt log state cursor) (careful : Careful log state round)
    (streamed : round.response = .streamed attempt reads abort) :
    Standing log attempt state.follow.progress cursor := by
  refine ⟨sound.last, sound.each, ?_⟩
  rcases careful attempt reads abort streamed with same | silent
  · exact sound.current attempt same
  · have empty : ∀ sequence ≤ cursor,
        outputOf ((log attempt).upTo sequence) = [] := by
      intro sequence before
      refine outputOf_eq_nil ?_
      intro chunk member
      rw [AttemptLog.upTo, List.mem_filter, decide_eq_true_eq] at member
      refine silent chunk member.1 ?_
      rw [sound.last]
      exact_mod_cast member.2.trans before
    obtain ⟨early, before, handed⟩ := sound.each attempt
    rw [handed, empty early before, empty cursor le_rfl]

theorem SoundAt.step {state next : RunState} {cursor : Nat} {round : Round}
    (sound : SoundAt log state cursor)
    (assumed : Assumed log state round) (careful : Careful log state round)
    (step : (machine coerce).step state round = some next) :
    ∃ later, SoundAt log next later := by
  obtain ⟨-, same⟩ := Option.ite_none_left_eq_some.mp step
  obtain rfl := Option.some.inj same
  rcases @followRound_cases coerce state.follow round with
    ⟨kept, notDone, served⟩ |
    ⟨attempt, reads, abort, response, served, kept, done⟩
  · refine ⟨cursor, ?_, ?_, ?_, ?_⟩
    · rw [kept.last, sound.last]
    · rw [kept.handed]
      exact sound.each
    · rw [kept.handed, served]
      exact sound.current
    · intro attempt last ended
      exact absurd ended (notDone attempt (some last))
  · have standing := sound.standing careful response
    obtain ⟨job, sent, events, cursorOf, serves, front⟩ :=
      assumed attempt reads abort response
    obtain rfl : sent = cursor := by
      exact_mod_cast cursorOf.symm.trans sound.last
    obtain ⟨front, before, blocks⟩ :=
      parseSseBlocks_of_front (isLine_sse events) front
    obtain ⟨taken, cut, rfl⟩ := List.prefix_map_iff.mp before
    rw [blocks, readAll_blocks] at kept done
    obtain ⟨later, reads, last⟩ := standing.readAll serves cut abort
    refine ⟨later, ?_, ?_, ?_, ?_⟩
    · rw [kept.last, reads.last]
    · rw [kept.handed]
      exact reads.each
    · intro other same
      obtain rfl := Option.some.inj ((served _).symm.trans same)
      rw [kept.handed]
      exact reads.current
    · intro other found ended
      obtain ⟨rfl, verdict⟩ := done other (some found) ended
      exact ⟨served _, Option.some.inj (last _ verdict)⟩

theorem sound_of_reachable {state : RunState}
    (reachable : (machine coerce).Reachable
      (fun state round => Assumed log state round ∧ Careful log state round)
      state) :
    ∃ cursor, SoundAt log state cursor := by
  refine @Machine.Reachable.invariant _ _ _ _
    (fun state => ∃ cursor, SoundAt log state cursor) ?_ ?_ state reachable
  · rintro _ rfl
    refine ⟨0, Nat.cast_zero.symm, fun other => ⟨0, le_rfl, ?_⟩, nofun,
      nofun⟩
    refine (outputOf_eq_nil ?_).symm
    intro chunk member
    rw [AttemptLog.upTo, List.mem_filter, decide_eq_true_eq] at member
    exact absurd ((log other).positive chunk member.1)
      (Nat.not_lt_of_le member.2)
  · rintro state round next ⟨cursor, sound⟩ ⟨assumed, careful⟩ step
    exact sound.step assumed careful step

/-- When no connection changes to an attempt that has output up to the last
sequence, the chunks of each attempt are handed over in order, without gaps and
once, and after `done` all of them. -/
theorem kept_of_careful {state : RunState}
    (reachable : (machine coerce).Reachable
      (fun state round => Assumed log state round ∧ Careful log state round)
      state) :
    Kept log state := by
  obtain ⟨cursor, sound⟩ := sound_of_reachable reachable
  constructor
  · intro attempt
    obtain ⟨early, -, handed⟩ := sound.each attempt
    rw [handed, ← AttemptLog.upTo_append_after early, outputOf_append]
    exact List.prefix_append _ _
  · intro attempt last ended
    obtain ⟨served, rfl⟩ := sound.ended attempt last ended
    rw [sound.current attempt served, AttemptLog.upTo]
    simp only [Nat.cast_le]

end Calls

/-! ## A job that is tried again -/

def chunkOf (sequence : Nat) (text : String) : LogChunk :=
  ⟨sequence, .stdout, jsText text⟩

/-- The first attempt wrote one chunk, the next one two. -/
def retriedLog (attempt : JsString) : AttemptLog :=
  if attempt = jsText "first" then
    { chunks := [chunkOf 1 "a"]
      increasing := by decide
      positive := by decide }
  else
    { chunks := [chunkOf 1 "b", chunkOf 2 "c"]
      increasing := by decide
      positive := by decide }

/-- A turn that reads all events of a connection. -/
def wholeRound (attempt : String) (events : List ServerEvent) : Round where
  aborted := false
  response :=
    .streamed (jsText attempt)
      [Utf8.encode (streamText
        (events.map (ServerEvent.sse (jsText attempt) (jsText "job"))))]
      none
  state := none

def startedState : RunState where
  follow :=
    { progress := ⟨0, none, []⟩
      terminalCatchUpAttempts := 0
      ending := none }
  served := none

def droppedState : RunState where
  follow :=
    { progress := ⟨1, none, [⟨jsText "first", .stdout, jsText "a"⟩]⟩
      terminalCatchUpAttempts := 0
      ending := none }
  served := some (jsText "first")

def doneState : RunState where
  follow :=
    { progress :=
        ⟨2, some (jsText "completed"),
          [⟨jsText "first", .stdout, jsText "a"⟩,
            ⟨jsText "second", .stdout, jsText "c"⟩]⟩
      terminalCatchUpAttempts := 0
      ending := some (.done (jsText "second") (some 2)) }
  served := some (jsText "second")

def firstRound : Round :=
  wholeRound "first" [.log (chunkOf 1 "a")]

def secondRound : Round :=
  wholeRound "second"
    [.log (chunkOf 2 "c"), .done 2 (jsText "completed") none]

section Retried

variable {coerce : JsValue → Option ℚ}

theorem readAll_whole (attempt : String) (events : List ServerEvent)
    (progress : Progress) :
    readAll (handleBlock coerce (jsText attempt))
        (parseSseBlocks [Utf8.encode (streamText (events.map
          (ServerEvent.sse (jsText attempt) (jsText "job"))))])
        none progress =
      readAll (readEvent (jsText attempt)) events none progress := by
  rw [parseSseBlocks_of_whole (isLine_sse events) (List.flatten_singleton),
    readAll_blocks]

theorem step_firstRound :
    (machine coerce).step startedState firstRound = some droppedState := by
  have read : readAll (readEvent (jsText "first"))
      [.log (chunkOf 1 "a")] none startedState.follow.progress =
        (droppedState.follow.progress, .dropped) := by
    decide +kernel
  refine congrArg some ?_
  unfold followRound firstRound wholeRound
  dsimp only
  rw [if_neg Bool.false_ne_true, readAll_whole, read]
  rfl

theorem step_secondRound :
    (machine coerce).step droppedState secondRound = some doneState := by
  have read : readAll (readEvent (jsText "second"))
      [.log (chunkOf 2 "c"), .done 2 (jsText "completed") none] none
        droppedState.follow.progress =
        (doneState.follow.progress, .done (some 2)) := by
    decide +kernel
  refine congrArg some ?_
  unfold followRound secondRound wholeRound
  dsimp only
  rw [if_neg Bool.false_ne_true, readAll_whole, read]
  rfl

theorem assumed_firstRound :
    Assumed retriedLog startedState firstRound := by
  rintro _ _ _ ⟨⟩
  refine ⟨jsText "job", 0, [.log (chunkOf 1 "a")], rfl, ⟨?_⟩, ?_⟩
  · exact ⟨[.log (chunkOf 1 "a")], [], rfl, by simp [ServerEvent.isInner],
      by decide +kernel, .inl rfl⟩
  · exact ⟨[], (List.append_nil _).trans List.flatten_singleton⟩

theorem assumed_secondRound :
    Assumed retriedLog droppedState secondRound := by
  rintro _ _ _ ⟨⟩
  refine ⟨jsText "job", 1,
    [.log (chunkOf 2 "c"), .done 2 (jsText "completed") none], ?_, ⟨?_⟩, ?_⟩
  · exact Nat.cast_one.symm
  · exact ⟨[.log (chunkOf 2 "c")], [.done 2 (jsText "completed") none], rfl,
      by simp [ServerEvent.isInner], by decide +kernel,
      .inr (.inl ⟨_, _, rfl⟩)⟩
  · exact ⟨[], (List.append_nil _).trans List.flatten_singleton⟩

end Retried

theorem careful_firstRound : Careful retriedLog startedState firstRound := by
  rintro attempt _ _ -
  refine .inr fun chunk member before => ?_
  have positive := (retriedLog attempt).positive chunk member
  exact absurd (Nat.cast_le.mp (before.trans Nat.cast_zero.ge))
    (Nat.not_le_of_lt positive)

theorem kept_droppedState : Kept retriedLog droppedState :=
  @kept_of_careful _ (fun _ => none) _
    ((Machine.Reachable.start rfl).next
      ⟨assumed_firstRound, careful_firstRound⟩ step_firstRound)

/-- The chunk of the second attempt that has the sequence of the chunk of the
first one is never handed over. -/
theorem retried_chunk_lost :
    ∃ state, (machine fun _ => none).Reachable (Assumed retriedLog) state ∧
      state.follow.ending = some (.done (jsText "second") (some 2)) ∧
      ¬ Kept retriedLog state := by
  refine ⟨doneState,
    ((Machine.Reachable.start rfl).next assumed_firstRound
      step_firstRound).next assumed_secondRound step_secondRound, rfl, ?_⟩
  intro kept
  have lost := kept.inOrder (jsText "second")
  revert lost
  decide +kernel

end Rbo.Cli.FollowLogs
