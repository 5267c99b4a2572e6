import Mathlib.Data.List.Range
import Rbo.Foundation.Run

/-!
# The live log stream

A client that follows a log is served from two sources: the durable log on
disk, and a hub that fans out every chunk after it was persisted.  The handler
subscribes to the hub, replays the log from the sequence that the client asked
for, and then forwards what the hub delivers; when the job has ended it drains
the hub and the disk until nothing new appears.  Only the sequence numbers
tell it what the client already has.

The steps are what runs between two awaits.  A scan of the disk that started
when the log had some number of chunks may deliver the next chunk once it is
durable, and may end when it has delivered all that were there at its start:
what it delivered is then the log at some moment of the scan.  Chunks are
appended and published in the order of their sequences, a publication any
time after its append.  A request is followed from its subscription on, with
whatever was appended and published before.
-/

namespace Rbo.Controller.LogStream

open Rbo.Foundation

/-! ## The hub -/

/-- A chunk of the log with its sequence; the first sequence is 1. -/
structure LiveLogEvent (Chunk : Type) where
  sequence : Nat
  chunk : Chunk
  deriving DecidableEq

inductive LiveLogHubItem (Chunk : Type) where
  | log (event : LiveLogEvent Chunk)
  | heartbeat
  deriving DecidableEq

/-- The hub's side of one subscription. -/
structure SubscriberState (Chunk : Type) where
  afterSequence : Nat
  maxBuffered : Nat
  queue : List (LiveLogHubItem Chunk)
  dropped : Bool
  closed : Bool
  deriving DecidableEq

variable {Chunk : Type}

namespace SubscriberState

variable (subscriber : SubscriberState Chunk)

def close : SubscriberState Chunk :=
  { subscriber with closed := true }

/-- A subscriber whose buffer is full is dropped. -/
def publish (event : LiveLogEvent Chunk) : SubscriberState Chunk :=
  if subscriber.closed ∨ subscriber.dropped then subscriber
  else if event.sequence ≤ subscriber.afterSequence then subscriber
  else if subscriber.maxBuffered ≤ subscriber.queue.length then
    { subscriber with
      afterSequence := event.sequence
      dropped := true
      closed := true }
  else
    { subscriber with
      afterSequence := event.sequence
      queue := subscriber.queue ++ [.log event] }

def heartbeat : SubscriberState Chunk :=
  if subscriber.closed ∨ subscriber.dropped then subscriber
  else if subscriber.maxBuffered ≤ subscriber.queue.length then subscriber
  else { subscriber with queue := subscriber.queue ++ [.heartbeat] }

/--
`next()` settles with an item, or with nothing when the subscription is
closed or the wait was aborted while the queue is empty; else it waits.
-/
def next (aborted : Bool) :
    Option (Option (LiveLogHubItem Chunk) × SubscriberState Chunk) :=
  if subscriber.closed then some (none, subscriber)
  else
    match subscriber.queue with
    | item :: rest => some (some item, { subscriber with queue := rest })
    | [] => if aborted then some (none, subscriber) else none

end SubscriberState

/-! ## The handler -/

/-- What a client reads. -/
inductive SseEvent (Chunk : Type) where
  | log (event : LiveLogEvent Chunk)
  | heartbeat
  | done (lastSequence : Nat)
  | bufferOverflow (lastSequence : Nat)
  deriving DecidableEq

/-- A payload of the chain of writes: the handler's, which it awaits, or one
of the heartbeat timer. -/
structure Payload (Chunk : Type) where
  own : Bool
  event : SseEvent Chunk
  deriving DecidableEq

/-- Where the handler is. -/
inductive Stage (Chunk : Type) where
  | replay (start : Nat)
  | live
  | waiting (terminal : Bool)
  | received (terminal : Bool) (item : Option (LiveLogHubItem Chunk))
      (aborted : Bool)
  | drain (drained : List (LiveLogHubItem Chunk)) (quietRounds : Nat)
  | forward (items : List (LiveLogHubItem Chunk)) (progressed : Bool)
      (quietRounds : Nat)
  | scan (start : Nat) (progressed : Bool) (quietRounds : Nat)
  | pause (quietRounds : Nat)
  | ended
  deriving DecidableEq

/-- The log, what the hub published of it, and one request. -/
structure StreamState (Chunk : Type) where
  durable : List Chunk
  published : Nat
  requested : Nat
  subscriber : SubscriberState Chunk
  lastSent : Nat
  stage : Stage Chunk
  awaited : Option (SseEvent Chunk)
  chain : List (Payload Chunk)
  written : List (SseEvent Chunk)
  connected : Bool
  deriving DecidableEq

/-- The chunk after the last one that was sent, when it is durable. -/
def StreamState.nextEntry (state : StreamState Chunk) :
    Option (LiveLogEvent Chunk) :=
  state.durable[state.lastSent]?.map fun chunk =>
    { sequence := state.lastSent + 1, chunk := chunk }

/-- What lets the handler go on. -/
inductive Turn where
  | entry
  | endOfScan
  | settled
  | poll (terminal : Bool)
  | next (aborted : Bool)
  | go
  deriving DecidableEq

inductive StreamEvent (Chunk : Type) where
  | append (chunk : Chunk)
  | publish
  | hubHeartbeat
  | timer
  | flush
  | disconnect
  | handler (turn : Turn)
  deriving DecidableEq

namespace StreamState

variable (state : StreamState Chunk)

/-- The handler enqueues a payload and awaits its write. -/
def send (event : SseEvent Chunk) (stage : Stage Chunk) :
    StreamState Chunk :=
  { state with
    stage := stage
    awaited := some event
    chain := state.chain ++ [{ own := true, event := event }] }

/-- The awaited write is done: a log event is the last one sent. -/
def settle (event : SseEvent Chunk) : StreamState Chunk :=
  { state with
    awaited := none
    lastSent :=
      match event with
      | .log event => event.sequence
      | _ => state.lastSent }

def moveTo (stage : Stage Chunk) : StreamState Chunk :=
  { state with stage := stage }

/-- The live loop has an item of the hub, or nothing. -/
def react (terminal : Bool) (item : Option (LiveLogHubItem Chunk))
    (aborted : Bool) : StreamState Chunk :=
  match item with
  | some .heartbeat => state.send .heartbeat .live
  | some (.log event) =>
    if state.lastSent < event.sequence then state.send (.log event) .live
    else state.moveTo .live
  | none =>
    if state.subscriber.dropped then
      state.send (.bufferOverflow state.lastSent) .ended
    else if ¬ (aborted ∧ ¬ state.subscriber.closed) then
      state.moveTo .ended
    else if terminal then state.moveTo (.drain [] 0)
    else state.moveTo .live

/-- `drainQueued`: takes what is queued, without waiting. -/
def drainQueued (drained : List (LiveLogHubItem Chunk))
    (quietRounds : Nat) : StreamState Chunk :=
  match state.subscriber.next true with
  | some (some item, subscriber) =>
    { state with
      subscriber := subscriber
      stage := .drain (drained ++ [item]) quietRounds }
  | _ => state.moveTo (.forward drained false quietRounds)

/-- The next item that was drained. -/
def forwardNext (items : List (LiveLogHubItem Chunk)) (progressed : Bool)
    (quietRounds : Nat) : StreamState Chunk :=
  match items with
  | [] =>
    state.moveTo (.scan state.durable.length progressed quietRounds)
  | .heartbeat :: items =>
    state.moveTo (.forward items progressed quietRounds)
  | .log event :: items =>
    if event.sequence ≤ state.lastSent then
      state.moveTo (.forward items progressed quietRounds)
    else
      state.send (.log event) (.forward items true quietRounds)

/-- The end of a round of the drain: two quiet ones end the stream. -/
def endRound (progressed : Bool) (quietRounds : Nat) : StreamState Chunk :=
  if progressed then state.moveTo (.drain [] 0)
  else if quietRounds + 1 < 2 then state.moveTo (.pause (quietRounds + 1))
  else state.send (.done state.lastSent) .ended

/-- The handler goes on, while the client is connected. -/
def proceed (turn : Turn) : Option (StreamState Chunk) :=
  match state.awaited with
  | some event =>
    if turn = .settled ∧ ∀ payload ∈ state.chain, payload.own = false then
      some (state.settle event)
    else
      none
  | none =>
    match state.stage, turn with
    | .replay start, .entry =>
      state.nextEntry.map fun entry =>
        state.send (.log entry) (.replay start)
    | .replay start, .endOfScan =>
      if start ≤ state.lastSent then some (state.moveTo .live) else none
    | .live, .poll terminal => some (state.moveTo (.waiting terminal))
    | .waiting terminal, .next aborted =>
      (state.subscriber.next aborted).map fun result =>
        { state with
          subscriber := result.2
          stage := .received terminal result.1 aborted }
    | .received terminal item aborted, .go =>
      some (state.react terminal item aborted)
    | .drain drained quietRounds, .go =>
      some (state.drainQueued drained quietRounds)
    | .forward items progressed quietRounds, .go =>
      some (state.forwardNext items progressed quietRounds)
    | .scan start _ quietRounds, .entry =>
      state.nextEntry.map fun entry =>
        state.send (.log entry) (.scan start true quietRounds)
    | .scan start progressed quietRounds, .endOfScan =>
      if start ≤ state.lastSent then
        some (state.endRound progressed quietRounds)
      else
        none
    | .pause quietRounds, .go =>
      some (state.moveTo (.drain [] quietRounds))
    | _, _ => none

/-- Is the heartbeat timer set?  It is from the end of the replay on. -/
def beats : Bool :=
  match state.stage, state.awaited with
  | .replay _, _ => false
  | .ended, none => false
  | _, _ => true

/-- The heartbeat timer has one payload in the chain at a time. -/
def timer : Option (StreamState Chunk) :=
  if state.connected ∧ state.beats ∧
      ∀ payload ∈ state.chain, payload.own = true then
    some
      { state with
        chain := state.chain ++ [{ own := false, event := .heartbeat }] }
  else
    none

/-- A client that goes away closes the subscription. -/
def disconnect : StreamState Chunk :=
  { state with
    connected := false
    subscriber := state.subscriber.close }

def step : StreamEvent Chunk → Option (StreamState Chunk)
  | .append chunk =>
    some { state with durable := state.durable ++ [chunk] }
  | .publish =>
    state.durable[state.published]?.map fun chunk =>
      { state with
        published := state.published + 1
        subscriber :=
          state.subscriber.publish
            { sequence := state.published + 1, chunk := chunk } }
  | .hubHeartbeat =>
    some { state with subscriber := state.subscriber.heartbeat }
  | .timer => state.timer
  | .flush =>
    match state.chain with
    | [] => none
    | payload :: chain =>
      some
        { state with
          chain := chain
          written :=
            if state.connected then state.written ++ [payload.event]
            else state.written }
  | .disconnect => some state.disconnect
  | .handler turn =>
    if state.connected then state.proceed turn
    else some (state.moveTo .ended)

end StreamState

/-- The state in which a request has just subscribed. -/
def subscribed (durable : List Chunk) (published requested
    maxBuffered : Nat) : StreamState Chunk where
  durable := durable
  published := published
  requested := requested
  subscriber :=
    { afterSequence := requested
      maxBuffered := maxBuffered
      queue := []
      dropped := false
      closed := false }
  lastSent := requested
  stage := .replay durable.length
  awaited := none
  chain := []
  written := []
  connected := true

def streaming (Chunk : Type) :
    Machine (StreamState Chunk) (StreamEvent Chunk) where
  initial state :=
    ∃ durable published requested maxBuffered,
      published ≤ durable.length ∧
        state = subscribed durable published requested maxBuffered
  step := StreamState.step

/-! ## What the hub holds for a client -/

/-- The log events among the items of the hub. -/
def itemLogs (items : List (LiveLogHubItem Chunk)) :
    List (LiveLogEvent Chunk) :=
  items.filterMap fun
    | .log event => some event
    | .heartbeat => none

/-- The log events among the events of the stream. -/
def logsOf (events : List (SseEvent Chunk)) : List (LiveLogEvent Chunk) :=
  events.filterMap fun
    | .log event => some event
    | _ => none

@[simp]
theorem itemLogs_append (first second : List (LiveLogHubItem Chunk)) :
    itemLogs (first ++ second) = itemLogs first ++ itemLogs second :=
  List.filterMap_append

@[simp]
theorem logsOf_append (first second : List (SseEvent Chunk)) :
    logsOf (first ++ second) = logsOf first ++ logsOf second :=
  List.filterMap_append

/-- An event that carries the chunk of its sequence. -/
def Stored (durable : List Chunk) (event : LiveLogEvent Chunk) : Prop :=
  0 < event.sequence ∧ durable[event.sequence - 1]? = some event.chunk

theorem Stored.append {durable : List Chunk} {event : LiveLogEvent Chunk}
    (stored : Stored durable event) (chunk : Chunk) :
    Stored (durable ++ [chunk]) event := by
  refine ⟨stored.1, ?_⟩
  rw [List.getElem?_append_left]
  · exact stored.2
  · exact (List.getElem?_eq_some_iff.mp stored.2).1

/--
The items of the hub are consecutive, the first one is at most the one after
`bound`, and an open subscription has everything up to the last publication.
-/
def Fed (requested published bound : Nat) (closed : Bool)
    (items : List (LiveLogHubItem Chunk)) : Prop :=
  ∃ first count, requested < first ∧ first ≤ bound + 1 ∧
    (itemLogs items).map LiveLogEvent.sequence = List.range' first count ∧
    (closed = false → count = published + 1 - first)

section Fed

variable {requested published bound : Nat} {closed : Bool}
  {items : List (LiveLogHubItem Chunk)} {event : LiveLogEvent Chunk}

theorem Fed.raise (fed : Fed requested published bound closed items)
    {higher : Nat} (above : bound ≤ higher) :
    Fed requested published higher closed items := by
  rcases fed with ⟨first, count, later, near, sequences, complete⟩
  exact ⟨first, count, later, by omega, sequences, complete⟩

theorem Fed.close (fed : Fed requested published bound closed items)
    (anywhere : Nat) : Fed requested anywhere bound true items := by
  rcases fed with ⟨first, count, later, near, sequences, _⟩
  exact ⟨first, count, later, near, sequences, nofun⟩

/-- The first log event of the items is the first of its sequences. -/
theorem Fed.tail
    (fed : Fed requested published bound closed (.log event :: items)) :
    event.sequence ≤ bound + 1 ∧
      Fed requested published event.sequence closed items := by
  rcases fed with ⟨first, count, later, near, sequences, complete⟩
  cases count with
  | zero => cases sequences
  | succ count =>
    rw [List.range'_succ] at sequences
    have head : event.sequence = first := List.head_eq_of_cons_eq sequences
    have tail :
        (itemLogs items).map LiveLogEvent.sequence =
          List.range' (first + 1) count := List.tail_eq_of_cons_eq sequences
    subst head
    refine ⟨near, event.sequence + 1, count, ?_, Nat.le_refl _, tail, ?_⟩
    · omega
    · intro isOpen
      have counted := complete isOpen
      omega

/-- An item that was already sent is skipped. -/
theorem Fed.skip
    (fed : Fed requested published bound closed (.log event :: items))
    (sent : event.sequence ≤ bound) :
    Fed requested published bound closed items :=
  fed.tail.2.raise sent

/-- A publication is queued after what is there. -/
theorem Fed.push (fed : Fed requested published bound false items)
    (chunk : Chunk) (later : requested ≤ published) :
    Fed requested (published + 1) bound false
      (items ++ [.log { sequence := published + 1, chunk := chunk }]) := by
  rcases fed with ⟨first, count, above, near, sequences, complete⟩
  have counted := complete rfl
  have logs :
      (itemLogs
          (items ++
            [.log { sequence := published + 1, chunk := chunk }])).map
          LiveLogEvent.sequence =
        List.range' first count ++ [published + 1] := by
    rw [itemLogs_append, List.map_append, sequences]
    rfl
  by_cases empty : first ≤ published + 1
  · refine ⟨first, count + 1, above, near, ?_, fun _ => by omega⟩
    rw [logs, List.range'_concat]
    congr 2
    omega
  · refine ⟨published + 1, 1, by omega, by omega, ?_, fun _ => by omega⟩
    have none : count = 0 := by omega
    rw [logs, none]
    rfl

/-- A publication that the client has is not queued. -/
theorem Fed.ignore (fed : Fed requested published bound false items)
    (known : published + 1 ≤ requested) :
    Fed requested (published + 1) bound false items := by
  rcases fed with ⟨first, count, above, near, sequences, complete⟩
  have counted := complete rfl
  exact ⟨first, count, above, near, sequences, fun _ => by omega⟩

end Fed

/-! ## The invariant -/

/-- The items that the handler has taken from the hub. -/
def Stage.inflight : Stage Chunk → List (LiveLogHubItem Chunk)
  | .received _ item _ => item.toList
  | .drain drained _ => drained
  | .forward items _ _ => items
  | _ => []

/-- What the replay will at least reach. -/
def Stage.target : Stage Chunk → Nat
  | .replay start => start
  | _ => 0

/-- The hub answered with nothing, and not because of the timeout. -/
def Stage.refused : Stage Chunk → Bool
  | .received _ none false => true
  | _ => false

namespace StreamState

variable (state : StreamState Chunk)

/-- What was written, and what is about to be. -/
def output : List (SseEvent Chunk) :=
  state.written ++ state.chain.map Payload.event

/-- The last sequence of the output. -/
def reached : Nat :=
  match state.awaited with
  | some (.log event) => event.sequence
  | _ => state.lastSent

/-- What the hub delivered or still holds. -/
def pipeline : List (LiveLogHubItem Chunk) :=
  state.stage.inflight ++ state.subscriber.queue

/-- The stream was closed with an event that names a sequence. -/
def closedWith (events : List (SseEvent Chunk)) (last : Nat) : Prop :=
  .done last ∈ events ∨ .bufferOverflow last ∈ events

end StreamState

/-- The stream of a connected client. -/
structure Streams (state : StreamState Chunk) : Prop where
  published : state.published ≤ state.durable.length
  floor : state.requested ≤ state.lastSent
  next : ∀ event, state.awaited = some (.log event) →
    event.sequence = state.lastSent + 1
  sent : (logsOf state.output).map LiveLogEvent.sequence =
    List.range' (state.requested + 1) (state.reached - state.requested)
  stored : ∀ event ∈ logsOf state.output, Stored state.durable event
  own : ∀ payload ∈ state.chain, payload.own = true →
    state.awaited = some payload.event
  beats : ∀ payload ∈ state.chain, payload.own = false →
    payload.event = .heartbeat
  pending : ∀ event, state.awaited = some event → event ∈ state.output
  closing : ∀ last, StreamState.closedWith state.output last →
    state.stage = .ended ∧ last = state.lastSent ∧
      ∀ event, state.awaited ≠ some (.log event)
  finished : state.stage = .ended →
    ∃ last, StreamState.closedWith state.output last
  dropped : state.subscriber.closed = state.subscriber.dropped
  refused : state.stage.refused = true → state.subscriber.closed = true
  heard : state.requested ≤ state.subscriber.afterSequence ∧
    state.subscriber.afterSequence ≤ max state.requested state.published
  fed : Fed state.requested state.published
    (max state.reached state.stage.target) state.subscriber.closed
    state.pipeline
  items : ∀ event ∈ itemLogs state.pipeline, Stored state.durable event

/-- What a client has read is what it asked for, up to the event that closed
the stream. -/
def Faithful (state : StreamState Chunk) : Prop :=
  ∃ count,
    (logsOf state.written).map LiveLogEvent.sequence =
        List.range' (state.requested + 1) count ∧
      (∀ event ∈ logsOf state.written, Stored state.durable event) ∧
      ∀ last, StreamState.closedWith state.written last →
        last = state.requested + count

section Streams

variable {state : StreamState Chunk}

theorem reached_of_idle (idle : state.awaited = none) :
    state.reached = state.lastSent := by
  unfold StreamState.reached
  rw [idle]

theorem closedWith_mono {events more : List (SseEvent Chunk)} {last : Nat}
    (closed : StreamState.closedWith events last) (kept : events ⊆ more) :
    StreamState.closedWith more last :=
  closed.imp (fun member => kept member) (fun member => kept member)

/-- The chain has no log event of its own but the awaited one. -/
theorem Streams.chain_logs (streams : Streams state)
    (noLog : ∀ event, state.awaited ≠ some (.log event)) :
    logsOf (state.chain.map Payload.event) = [] := by
  unfold logsOf
  rw [List.filterMap_eq_nil_iff]
  intro event member
  rcases List.mem_map.mp member with ⟨payload, there, rfl⟩
  cases mine : payload.own with
  | true =>
    have awaited := streams.own payload there mine
    cases kind : payload.event with
    | log event =>
      rw [kind] at awaited
      exact absurd awaited (noLog event)
    | heartbeat => rfl
    | done last => rfl
    | bufferOverflow last => rfl
  | false =>
    rw [streams.beats payload there mine]

/-- What a connected client has read is faithful. -/
theorem Streams.faithful (streams : Streams state) : Faithful state := by
  have split :
      (logsOf state.written).map LiveLogEvent.sequence ++
          (logsOf (state.chain.map Payload.event)).map
            LiveLogEvent.sequence =
        List.range' (state.requested + 1)
          (state.reached - state.requested) := by
    rw [← List.map_append, ← logsOf_append]
    exact streams.sent
  rcases List.range'_eq_append_iff.mp split.symm with ⟨count, _, logs, _⟩
  refine ⟨count, logs, ?_, ?_⟩
  · intro event member
    apply streams.stored event
    unfold StreamState.output
    rw [logsOf_append]
    exact List.mem_append_left _ member
  · intro last closed
    have whole : StreamState.closedWith state.output last :=
      closedWith_mono closed (List.subset_append_left _ _)
    rcases streams.closing last whole with ⟨_, rfl, noLog⟩
    rw [streams.chain_logs noLog, List.map_nil, List.append_nil, logs]
      at split
    have lengths := congrArg List.length split
    rw [List.length_range', List.length_range'] at lengths
    have reached : state.reached = state.lastSent := by
      unfold StreamState.reached
      split
      · rename_i event awaited
        exact absurd awaited (noLog event)
      · rfl
    have floor := streams.floor
    omega

/-! ## Steps of the log and the hub -/

theorem Streams.append (streams : Streams state) (chunk : Chunk) :
    Streams { state with durable := state.durable ++ [chunk] } where
  published := by
    show state.published ≤ (state.durable ++ [chunk]).length
    rw [List.length_append]
    exact Nat.le_add_right_of_le streams.published
  floor := streams.floor
  next := streams.next
  sent := streams.sent
  stored event member := (streams.stored event member).append chunk
  own := streams.own
  beats := streams.beats
  pending := streams.pending
  closing := streams.closing
  finished := streams.finished
  dropped := streams.dropped
  refused := streams.refused
  heard := streams.heard
  fed := streams.fed
  items event member := (streams.items event member).append chunk

variable {subscriber : SubscriberState Chunk}

/-- A change of the subscription, with what it means for the hub's items. -/
theorem Streams.subscribe (streams : Streams state) {published : Nat}
    (bounded : published ≤ state.durable.length)
    (dropped : subscriber.closed = subscriber.dropped)
    (stays : state.subscriber.closed = true → subscriber.closed = true)
    (heard : state.requested ≤ subscriber.afterSequence ∧
      subscriber.afterSequence ≤ max state.requested published)
    (fed : Fed state.requested published
      (max state.reached state.stage.target) subscriber.closed
      (state.stage.inflight ++ subscriber.queue))
    (items : ∀ event ∈ itemLogs (state.stage.inflight ++ subscriber.queue),
      Stored state.durable event) :
    Streams
      { state with published := published, subscriber := subscriber } where
  published := bounded
  floor := streams.floor
  next := streams.next
  sent := streams.sent
  stored := streams.stored
  own := streams.own
  beats := streams.beats
  pending := streams.pending
  closing := streams.closing
  finished := streams.finished
  dropped := dropped
  refused silent := stays (streams.refused silent)
  heard := heard
  fed := fed
  items := items

theorem Streams.publish (streams : Streams state) {chunk : Chunk}
    (found : state.durable[state.published]? = some chunk) :
    Streams
      { state with
        published := state.published + 1
        subscriber :=
          state.subscriber.publish
            { sequence := state.published + 1, chunk := chunk } } := by
  have bounded : state.published + 1 ≤ state.durable.length :=
    (List.getElem?_eq_some_iff.mp found).1
  have fed := streams.fed
  have heard := streams.heard
  unfold SubscriberState.publish
  split
  · rename_i gone
    rw [← streams.dropped, or_self] at gone
    apply streams.subscribe bounded streams.dropped id
    · exact ⟨heard.1, by omega⟩
    · rw [gone] at fed ⊢
      exact fed.close _
    · exact streams.items
  · rename_i isOpen
    rw [not_or, Bool.not_eq_true, Bool.not_eq_true] at isOpen
    rw [isOpen.1] at fed
    split
    · rename_i known
      have small : state.published + 1 ≤ state.requested := by
        have low : state.published + 1 ≤ state.subscriber.afterSequence :=
          known
        omega
      apply streams.subscribe bounded streams.dropped id
      · exact ⟨heard.1, by omega⟩
      · rw [isOpen.1]
        exact fed.ignore small
      · exact streams.items
    · rename_i fresh
      have later : state.requested ≤ state.published := by
        have high : ¬ state.published + 1 ≤
            state.subscriber.afterSequence := fresh
        omega
      split
      · apply streams.subscribe bounded
        · rfl
        · exact fun _ => rfl
        · show _ ≤ state.published + 1 ∧ state.published + 1 ≤ _
          omega
        · exact fed.close _
        · exact streams.items
      · apply streams.subscribe bounded
        · exact streams.dropped
        · exact id
        · show _ ≤ state.published + 1 ∧ state.published + 1 ≤ _
          omega
        · show Fed _ _ _ state.subscriber.closed _
          rw [isOpen.1, ← List.append_assoc]
          exact fed.push chunk later
        · intro event member
          rw [← List.append_assoc, itemLogs_append, List.mem_append] at member
          rcases member with before | new
          · exact streams.items event before
          · rw [List.mem_singleton.mp new]
            exact ⟨Nat.succ_pos _, found⟩

theorem Streams.hubHeartbeat (streams : Streams state) :
    Streams { state with subscriber := state.subscriber.heartbeat } := by
  unfold SubscriberState.heartbeat
  split
  · exact streams
  · split
    · exact streams
    · have logs :
          itemLogs
              (state.stage.inflight ++
                (state.subscriber.queue ++ [.heartbeat])) =
            itemLogs state.pipeline := by
        rw [← List.append_assoc, itemLogs_append]
        exact List.append_nil _
      refine streams.subscribe streams.published ?_ id streams.heard ?_ ?_
      · exact streams.dropped
      · have fed := streams.fed
        unfold Fed at fed ⊢
        rw [logs]
        exact fed
      · rw [logs]
        exact streams.items

/-! ## Steps of the writes -/

/-- A payload at the end of the chain. -/
theorem output_push (state : StreamState Chunk) (payload : Payload Chunk) :
    state.written ++ (state.chain ++ [payload]).map Payload.event =
      state.output ++ [payload.event] := by
  rw [List.map_append, ← List.append_assoc]
  rfl

theorem closedWith_push {events : List (SseEvent Chunk)}
    {event : SseEvent Chunk} {last : Nat} :
    StreamState.closedWith (events ++ [event]) last ↔
      StreamState.closedWith events last ∨ event = .done last ∨
        event = .bufferOverflow last := by
  unfold StreamState.closedWith
  rw [List.mem_append, List.mem_append, List.mem_singleton,
    List.mem_singleton, eq_comm (a := event), eq_comm (a := event)]
  tauto

theorem Streams.timer (streams : Streams state) {next : StreamState Chunk}
    (fired : state.timer = some next) : Streams next := by
  unfold StreamState.timer at fired
  split at fired
  · cases fired
    have output := output_push state
      { own := false, event := .heartbeat }
    have logs :
        logsOf (state.output ++ [.heartbeat]) = logsOf state.output := by
      rw [logsOf_append]
      exact List.append_nil _
    constructor
    · exact streams.published
    · exact streams.floor
    · exact streams.next
    · unfold StreamState.output
      rw [output, logs]
      exact streams.sent
    · unfold StreamState.output
      rw [output, logs]
      exact streams.stored
    · intro payload member mine
      rcases List.mem_append.mp member with before | new
      · exact streams.own payload before mine
      · rw [List.mem_singleton.mp new] at mine
        cases mine
    · intro payload member other
      rcases List.mem_append.mp member with before | new
      · exact streams.beats payload before other
      · rw [List.mem_singleton.mp new]
    · intro event awaited
      unfold StreamState.output
      rw [output]
      exact List.mem_append_left _ (streams.pending event awaited)
    · intro last closed
      unfold StreamState.output at closed
      rw [output, closedWith_push] at closed
      exact streams.closing last (closed.resolve_right (by simp))
    · intro ended
      rcases streams.finished ended with ⟨last, closed⟩
      refine ⟨last, ?_⟩
      unfold StreamState.output
      rw [output, closedWith_push]
      exact Or.inl closed
    · exact streams.dropped
    · exact streams.refused
    · exact streams.heard
    · exact streams.fed
    · exact streams.items
  · cases fired

/-- A write moves the first payload of the chain to the client. -/
theorem Streams.flush (streams : Streams state) {payload : Payload Chunk}
    {chain : List (Payload Chunk)} (found : state.chain = payload :: chain) :
    Streams
      { state with
        chain := chain
        written := state.written ++ [payload.event] } := by
  have output :
      state.written ++ [payload.event] ++ chain.map Payload.event =
        state.output := by
    unfold StreamState.output
    rw [found, List.map_cons, List.append_assoc, List.singleton_append]
  have later : ∀ other ∈ chain, other ∈ state.chain := by
    intro other member
    rw [found]
    exact List.mem_cons_of_mem _ member
  constructor
  · exact streams.published
  · exact streams.floor
  · exact streams.next
  · unfold StreamState.output
    rw [output]
    exact streams.sent
  · unfold StreamState.output
    rw [output]
    exact streams.stored
  · exact fun other member => streams.own other (later other member)
  · exact fun other member => streams.beats other (later other member)
  · unfold StreamState.output
    rw [output]
    exact streams.pending
  · unfold StreamState.output
    rw [output]
    exact streams.closing
  · unfold StreamState.output
    rw [output]
    exact streams.finished
  · exact streams.dropped
  · exact streams.refused
  · exact streams.heard
  · exact streams.fed
  · exact streams.items

/-! ## Steps of the handler -/

variable {stage : Stage Chunk}

section

variable (streams : Streams state) (idle : state.awaited = none)
  (running : state.stage ≠ .ended)

include streams idle running

/-- The handler goes on without a write. -/
theorem Streams.move (going : stage ≠ .ended)
    (flags : subscriber.closed = state.subscriber.closed ∧
      subscriber.dropped = state.subscriber.dropped ∧
      subscriber.afterSequence = state.subscriber.afterSequence)
    (refused : stage.refused = true → state.subscriber.closed = true)
    (fed : Fed state.requested state.published
      (max state.lastSent stage.target) state.subscriber.closed
      (stage.inflight ++ subscriber.queue))
    (items : ∀ event ∈ itemLogs (stage.inflight ++ subscriber.queue),
      Stored state.durable event) :
    Streams { state with subscriber := subscriber, stage := stage } where
  published := streams.published
  floor := streams.floor
  next := streams.next
  sent := streams.sent
  stored := streams.stored
  own := streams.own
  beats := streams.beats
  pending := streams.pending
  closing last closed := absurd (streams.closing last closed).1 running
  finished ended := absurd ended going
  dropped := by
    show subscriber.closed = subscriber.dropped
    rw [flags.1, flags.2.1]
    exact streams.dropped
  refused silent := flags.1.trans (refused silent)
  heard := by
    show state.requested ≤ subscriber.afterSequence ∧ _
    rw [flags.2.2]
    exact streams.heard
  fed := by
    show Fed _ _ (max state.reached stage.target) subscriber.closed _
    rw [reached_of_idle idle, flags.1]
    exact fed
  items := items

/-- The handler sends the next log event. -/
theorem Streams.sendLog {event : LiveLogEvent Chunk} (going : stage ≠ .ended)
    (asked : stage.refused = false)
    (next : event.sequence = state.lastSent + 1)
    (stored : Stored state.durable event)
    (fed : Fed state.requested state.published
      (max event.sequence stage.target) state.subscriber.closed
      (stage.inflight ++ state.subscriber.queue))
    (items : ∀ event ∈ itemLogs (stage.inflight ++ state.subscriber.queue),
      Stored state.durable event) :
    Streams (state.send (.log event) stage) := by
  have output : (state.send (.log event) stage).output =
      state.output ++ [.log event] := output_push state _
  have logs : logsOf (state.output ++ [.log event]) =
      logsOf state.output ++ [event] := logsOf_append _ _
  have floor := streams.floor
  constructor
  · exact streams.published
  · exact streams.floor
  · rintro other ⟨⟩
    exact next
  · rw [output, logs, List.map_append, streams.sent, reached_of_idle idle]
    show _ ++ [event.sequence] =
      List.range' (state.requested + 1) (event.sequence - state.requested)
    have grown : event.sequence - state.requested =
        state.lastSent - state.requested + 1 := by omega
    rw [grown, List.range'_concat]
    congr 2
    omega
  · rw [output, logs]
    intro other member
    rcases List.mem_append.mp member with before | new
    · exact streams.stored other before
    · rw [List.mem_singleton.mp new]
      exact stored
  · intro payload member mine
    rcases List.mem_append.mp member with before | new
    · have awaited := streams.own payload before mine
      rw [idle] at awaited
      cases awaited
    · rw [List.mem_singleton.mp new]
      rfl
  · intro payload member other
    rcases List.mem_append.mp member with before | new
    · exact streams.beats payload before other
    · rw [List.mem_singleton.mp new] at other
      cases other
  · rintro other ⟨⟩
    rw [output]
    exact List.mem_append_right _ List.mem_cons_self
  · intro last closed
    rw [output, closedWith_push] at closed
    exact absurd
      (streams.closing last (closed.resolve_right (by simp))).1 running
  · exact fun ended => absurd ended going
  · exact streams.dropped
  · exact fun silent => absurd (silent.symm.trans asked) nofun
  · exact streams.heard
  · exact fed
  · exact items

/-- The handler sends an event that carries no chunk. -/
theorem Streams.sendOther {event : SseEvent Chunk}
    (noLog : ∀ other, event ≠ .log other) (asked : stage.refused = false)
    (closes : ∀ last, event = .done last ∨ event = .bufferOverflow last →
      stage = .ended ∧ last = state.lastSent) (ends : stage = .ended →
      event = .done state.lastSent ∨ event = .bufferOverflow state.lastSent)
    (fed : Fed state.requested state.published
      (max state.lastSent stage.target) state.subscriber.closed
      (stage.inflight ++ state.subscriber.queue))
    (items : ∀ event ∈ itemLogs (stage.inflight ++ state.subscriber.queue),
      Stored state.durable event) :
    Streams (state.send event stage) := by
  have output : (state.send event stage).output =
      state.output ++ [event] := output_push state _
  have logs : logsOf (state.output ++ [event]) = logsOf state.output := by
    rw [logsOf_append]
    cases event with
    | log other => exact absurd rfl (noLog other)
    | _ => exact List.append_nil _
  have reached : (state.send event stage).reached = state.lastSent := by
    unfold StreamState.reached StreamState.send
    cases event with
    | log other => exact absurd rfl (noLog other)
    | _ => rfl
  constructor
  · exact streams.published
  · exact streams.floor
  · rintro other ⟨⟩
    exact absurd rfl (noLog other)
  · rw [output, logs, reached]
    have sent := streams.sent
    rw [reached_of_idle idle] at sent
    exact sent
  · rw [output, logs]
    exact streams.stored
  · intro payload member mine
    rcases List.mem_append.mp member with before | new
    · have awaited := streams.own payload before mine
      rw [idle] at awaited
      cases awaited
    · rw [List.mem_singleton.mp new]
      rfl
  · intro payload member other
    rcases List.mem_append.mp member with before | new
    · exact streams.beats payload before other
    · rw [List.mem_singleton.mp new] at other
      cases other
  · rintro other ⟨⟩
    rw [output]
    exact List.mem_append_right _ List.mem_cons_self
  · intro last closed
    rw [output, closedWith_push] at closed
    rcases closed with before | new
    · exact absurd (streams.closing last before).1 running
    · refine ⟨(closes last new).1, (closes last new).2, ?_⟩
      rintro other ⟨⟩
      exact noLog other rfl
  · intro ended
    refine ⟨state.lastSent, ?_⟩
    rw [output, closedWith_push]
    exact Or.inr (ends ended)
  · exact streams.dropped
  · exact fun silent => absurd (silent.symm.trans asked) nofun
  · exact streams.heard
  · rw [reached]
    exact fed
  · exact items

end

/-- The awaited write is done. -/
theorem Streams.settle (streams : Streams state) {event : SseEvent Chunk}
    (awaited : state.awaited = some event)
    (flushed : ∀ payload ∈ state.chain, payload.own = false) :
    Streams (state.settle event) := by
  have reached : (state.settle event).lastSent = state.reached := by
    unfold StreamState.settle StreamState.reached
    rw [awaited]
    cases event <;> rfl
  have after : (state.settle event).reached = state.reached :=
    (reached_of_idle rfl).trans reached
  have later : state.lastSent ≤ state.reached := by
    unfold StreamState.reached
    split
    · rename_i sent pending
      have next := streams.next sent pending
      omega
    · exact Nat.le_refl _
  constructor
  · exact streams.published
  · rw [reached]
    exact Nat.le_trans streams.floor later
  · nofun
  · rw [after]
    exact streams.sent
  · exact streams.stored
  · intro payload member mine
    rw [flushed payload member] at mine
    cases mine
  · exact streams.beats
  · nofun
  · intro last closed
    rcases streams.closing last closed with ⟨ended, same, noLog⟩
    refine ⟨ended, ?_, nofun⟩
    rw [reached, same]
    unfold StreamState.reached
    split
    · rename_i sent pending
      exact absurd pending (noLog sent)
    · rfl
  · exact streams.finished
  · exact streams.dropped
  · exact streams.refused
  · exact streams.heard
  · rw [after]
    exact streams.fed
  · exact streams.items

/-- A scan sends the entry after the last one that was sent. -/
theorem Streams.scanEntry (streams : Streams state)
    (idle : state.awaited = none) {entry : LiveLogEvent Chunk}
    (found : state.nextEntry = some entry) (running : state.stage ≠ .ended)
    (going : stage ≠ .ended) (asked : stage.refused = false)
    (emptyNow : state.stage.inflight = []) (empty : stage.inflight = [])
    (target : stage.target = state.stage.target) :
    Streams (state.send (.log entry) stage) := by
  unfold StreamState.nextEntry at found
  rcases Option.map_eq_some_iff.mp found with ⟨chunk, durable, rfl⟩
  have fed := streams.fed
  have items := streams.items
  unfold StreamState.pipeline at fed items
  rw [emptyNow, reached_of_idle idle] at fed
  rw [emptyNow] at items
  apply streams.sendLog idle running going asked rfl
  · exact ⟨Nat.succ_pos _, durable⟩
  · rw [empty, target]
    exact fed.raise (by show _ ≤ max (state.lastSent + 1) _; omega)
  · rw [empty]
    exact items

/-- The handler goes on with the same items and the same subscription. -/
theorem Streams.moveTo (streams : Streams state) (idle : state.awaited = none)
    (running : state.stage ≠ .ended) (going : stage ≠ .ended)
    (asked : stage.refused = false)
    (logs : itemLogs stage.inflight = itemLogs state.stage.inflight)
    (target : max state.lastSent state.stage.target ≤
      max state.lastSent stage.target) :
    Streams (state.moveTo stage) := by
  have same :
      itemLogs (stage.inflight ++ state.subscriber.queue) =
        itemLogs state.pipeline := by
    unfold StreamState.pipeline
    rw [itemLogs_append, itemLogs_append, logs]
  have fed := streams.fed
  rw [reached_of_idle idle] at fed
  apply streams.move idle running going ⟨rfl, rfl, rfl⟩
  · exact fun silent => absurd (silent.symm.trans asked) nofun
  · have raised := fed.raise target
    unfold Fed at raised ⊢
    rw [same]
    exact raised
  · rw [same]
    exact streams.items

variable {item : Option (LiveLogHubItem Chunk)}

/-- `next()` moves the first queued item to the handler. -/
theorem next_cases {after : SubscriberState Chunk} {aborted : Bool}
    (settled : subscriber.next aborted = some (item, after)) :
    (after.closed = subscriber.closed ∧
        after.dropped = subscriber.dropped ∧
        after.afterSequence = subscriber.afterSequence) ∧
      item.toList ++ after.queue = subscriber.queue ∧
      (item = none → aborted = false → subscriber.closed = true) := by
  unfold SubscriberState.next at settled
  split at settled
  · rename_i closed
    cases settled
    exact ⟨⟨rfl, rfl, rfl⟩, rfl, fun _ _ => closed⟩
  · split at settled
    · rename_i first rest queued
      cases settled
      exact ⟨⟨rfl, rfl, rfl⟩, queued.symm, nofun⟩
    · split at settled
      · rename_i timeout
        cases settled
        refine ⟨⟨rfl, rfl, rfl⟩, rfl, fun _ waited => ?_⟩
        rw [timeout] at waited
        cases waited
      · cases settled

section

variable (streams : Streams state) (idle : state.awaited = none)

include streams idle

theorem Streams.received {terminal aborted : Bool}
    (waiting : state.stage = .waiting terminal)
    (settled : state.subscriber.next aborted = some (item, subscriber)) :
    Streams
      { state with
        subscriber := subscriber
        stage := .received terminal item aborted } := by
  have fed := streams.fed
  have items := streams.items
  rcases next_cases settled with ⟨flags, queue, silent⟩
  have running : state.stage ≠ .ended := by
    rw [waiting]
    nofun
  unfold StreamState.pipeline at fed items
  rw [waiting, ← queue] at fed items
  rw [reached_of_idle idle] at fed
  refine streams.move idle running (by nofun) flags ?_ fed items
  intro refused
  cases item with
  | some item => cases refused
  | none =>
    cases aborted with
    | true => cases refused
    | false => exact silent rfl rfl

theorem Streams.react {terminal aborted : Bool}
    (stage : state.stage = .received terminal item aborted) :
    Streams (state.react terminal item aborted) := by
  have running : state.stage ≠ .ended := by
    rw [stage]
    nofun
  have fed := streams.fed
  have items := streams.items
  unfold StreamState.pipeline at fed items
  rw [stage, reached_of_idle idle] at fed
  rw [stage] at items
  unfold StreamState.react
  split
  · refine streams.sendOther idle running (by nofun) rfl ?_ (by nofun) fed
      items
    rintro last (closed | closed) <;> cases closed
  · rename_i event
    split
    · rename_i later
      have near : event.sequence ≤ max state.lastSent 0 + 1 := fed.tail.1
      refine streams.sendLog idle running (by nofun) rfl ?_ ?_ ?_ ?_
      · omega
      · exact items event List.mem_cons_self
      · exact fed.tail.2.raise (Nat.le_max_left _ _)
      · exact fun other member => items other (List.mem_cons_of_mem _ member)
    · rename_i sent
      refine streams.move idle running (by nofun) ⟨rfl, rfl, rfl⟩ (by nofun)
        ?_ ?_
      · apply fed.skip
        show event.sequence ≤ max state.lastSent 0
        omega
      · exact fun other member => items other (List.mem_cons_of_mem _ member)
  · split
    · refine streams.sendOther idle running (by nofun) rfl ?_
        (fun _ => Or.inr rfl) fed items
      rintro last (closed | closed) <;> cases closed
      exact ⟨rfl, rfl⟩
    · rename_i kept
      have isOpen : state.subscriber.closed = false := by
        rw [streams.dropped]
        exact (Bool.not_eq_true _).mp kept
      have timeout : aborted = true := by
        apply Decidable.byContradiction
        intro waited
        have silent : state.stage.refused = true := by
          rw [stage, (Bool.not_eq_true _).mp waited]
          rfl
        rw [streams.refused silent] at isOpen
        cases isOpen
      rw [timeout, isOpen]
      split
      · rename_i broken
        simp at broken
      · split
        all_goals
          exact streams.move idle running (by nofun) ⟨rfl, rfl, rfl⟩
            (by nofun) fed items

theorem Streams.drainQueued {drained : List (LiveLogHubItem Chunk)}
    {quietRounds : Nat} (stage : state.stage = .drain drained quietRounds) :
    Streams (state.drainQueued drained quietRounds) := by
  have running : state.stage ≠ .ended := by
    rw [stage]
    nofun
  unfold StreamState.drainQueued
  split
  · rename_i item subscriber settled
    rcases next_cases settled with ⟨flags, queue, _⟩
    have fed := streams.fed
    have items := streams.items
    have moved :
        drained ++ state.subscriber.queue =
          drained ++ [item] ++ subscriber.queue := by
      rw [List.append_assoc, ← queue]
      rfl
    unfold StreamState.pipeline at fed items
    rw [stage, reached_of_idle idle] at fed
    rw [stage] at items
    refine streams.move idle running (by nofun) flags (by nofun) ?_ ?_
    · exact moved ▸ fed
    · exact moved ▸ items
  · refine streams.moveTo idle running (by nofun) rfl ?_ ?_
    · rw [stage]
      rfl
    · rw [stage]
      exact Nat.le_refl _

theorem Streams.forwardNext {items : List (LiveLogHubItem Chunk)}
    {progressed : Bool} {quietRounds : Nat}
    (stage : state.stage = .forward items progressed quietRounds) :
    Streams (state.forwardNext items progressed quietRounds) := by
  have running : state.stage ≠ .ended := by
    rw [stage]
    nofun
  have fed := streams.fed
  have stored := streams.items
  unfold StreamState.pipeline at fed stored
  rw [stage, reached_of_idle idle] at fed
  rw [stage] at stored
  unfold StreamState.forwardNext
  split
  · exact streams.move idle running (by nofun) ⟨rfl, rfl, rfl⟩ (by nofun) fed
      stored
  · exact streams.move idle running (by nofun) ⟨rfl, rfl, rfl⟩ (by nofun) fed
      stored
  · rename_i event rest
    split
    · rename_i sent
      refine streams.move idle running (by nofun) ⟨rfl, rfl, rfl⟩ (by nofun)
        ?_ ?_
      · apply fed.skip
        show event.sequence ≤ max state.lastSent 0
        omega
      · exact fun other member => stored other (List.mem_cons_of_mem _ member)
    · rename_i later
      have near : event.sequence ≤ max state.lastSent 0 + 1 := fed.tail.1
      refine streams.sendLog idle running (by nofun) rfl ?_ ?_ ?_ ?_
      · omega
      · exact stored event List.mem_cons_self
      · exact fed.tail.2.raise (Nat.le_max_left _ _)
      · exact fun other member => stored other (List.mem_cons_of_mem _ member)

theorem Streams.endRound {start : Nat} {progressed : Bool} {quietRounds : Nat}
    (stage : state.stage = .scan start progressed quietRounds) :
    Streams (state.endRound progressed quietRounds) := by
  have running : state.stage ≠ .ended := by
    rw [stage]
    nofun
  have fed := streams.fed
  have items := streams.items
  unfold StreamState.pipeline at fed items
  rw [stage, reached_of_idle idle] at fed
  rw [stage] at items
  unfold StreamState.endRound
  split
  · exact streams.move idle running (by nofun) ⟨rfl, rfl, rfl⟩ (by nofun) fed
      items
  · split
    · exact streams.move idle running (by nofun) ⟨rfl, rfl, rfl⟩ (by nofun)
        fed items
    · refine streams.sendOther idle running (by nofun) rfl ?_
        (fun _ => Or.inl rfl) fed items
      rintro last (closed | closed) <;> cases closed
      exact ⟨rfl, rfl⟩

end

/-- Every turn of the handler keeps the stream. -/
theorem Streams.proceed (streams : Streams state) {turn : Turn}
    {next : StreamState Chunk} (went : state.proceed turn = some next) :
    Streams next := by
  unfold StreamState.proceed at went
  split at went
  · rename_i event awaited
    split at went
    · rename_i settled
      cases went
      exact streams.settle awaited settled.2
    · cases went
  · rename_i idle
    split at went
    · rename_i start stage
      rcases Option.map_eq_some_iff.mp went with ⟨entry, found, rfl⟩
      have running : state.stage ≠ .ended := stage ▸ nofun
      exact streams.scanEntry idle found running (by nofun) rfl
        (congrArg Stage.inflight stage) rfl
        (congrArg Stage.target stage).symm
    · rename_i start stage
      split at went
      · rename_i reached
        cases went
        have running : state.stage ≠ .ended := stage ▸ nofun
        refine streams.moveTo idle running (by nofun) rfl ?_ ?_
        · exact (congrArg (itemLogs ∘ Stage.inflight) stage).symm
        · rw [stage]
          show max state.lastSent start ≤ max state.lastSent 0
          omega
      · cases went
    · rename_i terminal stage
      cases went
      have running : state.stage ≠ .ended := stage ▸ nofun
      refine streams.moveTo idle running (by nofun) rfl ?_ ?_
      · exact (congrArg (itemLogs ∘ Stage.inflight) stage).symm
      · rw [stage]
        exact Nat.le_refl _
    · rename_i terminal aborted stage
      rcases Option.map_eq_some_iff.mp went with
        ⟨⟨item, subscriber⟩, settled, rfl⟩
      exact streams.received idle stage settled
    · rename_i terminal item aborted stage
      cases went
      exact streams.react idle stage
    · rename_i drained quietRounds stage
      cases went
      exact streams.drainQueued idle stage
    · rename_i items progressed quietRounds stage
      cases went
      exact streams.forwardNext idle stage
    · rename_i start progressed quietRounds stage
      rcases Option.map_eq_some_iff.mp went with ⟨entry, found, rfl⟩
      have running : state.stage ≠ .ended := stage ▸ nofun
      exact streams.scanEntry idle found running (by nofun) rfl
        (congrArg Stage.inflight stage) rfl
        (congrArg Stage.target stage).symm
    · rename_i start progressed quietRounds stage
      split at went
      · cases went
        exact streams.endRound idle stage
      · cases went
    · rename_i quietRounds stage
      cases went
      have running : state.stage ≠ .ended := stage ▸ nofun
      refine streams.moveTo idle running (by nofun) rfl ?_ ?_
      · exact (congrArg (itemLogs ∘ Stage.inflight) stage).symm
      · rw [stage]
        exact Nat.le_refl _
    · cases went

end Streams

/-! ## Runs -/

/-- What holds of a request at every moment. -/
def Following (state : StreamState Chunk) : Prop :=
  Faithful state ∧ (state.connected = true → Streams state)

variable {state : StreamState Chunk}

theorem following_of_streams (streams : Streams state) : Following state :=
  ⟨streams.faithful, fun _ => streams⟩

/-- A client that is gone reads nothing more. -/
theorem Faithful.of_written {next : StreamState Chunk}
    (faithful : Faithful state) (written : next.written = state.written)
    (requested : next.requested = state.requested)
    (stored : ∀ event, Stored state.durable event → Stored next.durable event) :
    Faithful next := by
  rcases faithful with ⟨count, sequences, chunks, closed⟩
  unfold Faithful
  rw [written, requested]
  exact ⟨count, sequences, fun event member =>
    stored event (chunks event member), closed⟩

/-- Every step keeps what holds of a request. -/
theorem following_step {next : StreamState Chunk} {event : StreamEvent Chunk}
    (following : Following state) (step : state.step event = some next) :
    Following next := by
  cases connected : state.connected with
  | true =>
    have streams := following.2 connected
    cases event with
    | append chunk =>
      cases step
      exact following_of_streams (streams.append chunk)
    | publish =>
      rcases Option.map_eq_some_iff.mp step with ⟨chunk, found, rfl⟩
      exact following_of_streams (streams.publish found)
    | hubHeartbeat =>
      cases step
      exact following_of_streams streams.hubHeartbeat
    | timer => exact following_of_streams (streams.timer step)
    | flush =>
      unfold StreamState.step at step
      dsimp only at step
      split at step
      · cases step
      · rename_i payload chain found
        rw [if_pos connected] at step
        cases step
        exact following_of_streams (streams.flush found)
    | disconnect =>
      cases step
      exact ⟨streams.faithful, nofun⟩
    | handler turn =>
      unfold StreamState.step at step
      dsimp only at step
      rw [if_pos connected] at step
      exact following_of_streams (streams.proceed step)
  | false =>
    have gone : next.connected = false ∧
        next.written = state.written ∧ next.requested = state.requested ∧
        ∀ event, Stored state.durable event →
          Stored next.durable event := by
      cases event with
      | append chunk =>
        cases step
        exact ⟨connected, rfl, rfl, fun _ stored => stored.append chunk⟩
      | publish =>
        rcases Option.map_eq_some_iff.mp step with ⟨chunk, _, rfl⟩
        exact ⟨connected, rfl, rfl, fun _ => id⟩
      | hubHeartbeat =>
        cases step
        exact ⟨connected, rfl, rfl, fun _ => id⟩
      | timer =>
        unfold StreamState.step StreamState.timer at step
        dsimp only at step
        split at step
        · cases step
          exact ⟨connected, rfl, rfl, fun _ => id⟩
        · cases step
      | flush =>
        unfold StreamState.step at step
        dsimp only at step
        split at step
        · cases step
        · cases step
          refine ⟨connected, if_neg ?_, rfl, fun _ => id⟩
          exact (Bool.not_eq_true _).mpr connected
      | disconnect =>
        cases step
        exact ⟨rfl, rfl, rfl, fun _ => id⟩
      | handler turn =>
        unfold StreamState.step at step
        dsimp only at step
        rw [if_neg ((Bool.not_eq_true _).mpr connected)] at step
        cases step
        exact ⟨connected, rfl, rfl, fun _ => id⟩
    refine ⟨following.1.of_written gone.2.1 gone.2.2.1 gone.2.2.2, ?_⟩
    rw [gone.1]
    nofun

theorem subscribed_streams {durable : List Chunk}
    {published requested maxBuffered : Nat}
    (bounded : published ≤ durable.length) :
    Streams (subscribed durable published requested maxBuffered) := by
  constructor
  · exact bounded
  · exact Nat.le_refl _
  · nofun
  · show [] = List.range' (requested + 1) (requested - requested)
    rw [Nat.sub_self]
    rfl
  · nofun
  · nofun
  · nofun
  · nofun
  · rintro last (closed | closed) <;> cases closed
  · nofun
  · rfl
  · nofun
  · exact ⟨Nat.le_refl _, Nat.le_max_left _ _⟩
  · show Fed requested published (max requested durable.length) false []
    refine ⟨max requested durable.length + 1, 0, ?_, Nat.le_refl _, rfl, ?_⟩
    · omega
    · intro _
      omega
  · nofun

theorem reachable_following
    (reachable : (streaming Chunk).Reachable (fun _ _ => True) state) :
    Following state := by
  have initially : ∀ start, (streaming Chunk).initial start →
      Following start := by
    rintro start ⟨durable, published, requested, maxBuffered, bounded, rfl⟩
    exact following_of_streams (subscribed_streams bounded)
  have preserved : ∀ state event next, Following state → True →
      (streaming Chunk).step state event = some next → Following next :=
    fun _ _ _ following _ step => following_step following step
  exact reachable.invariant initially preserved

/--
Whatever happens, the log events that a client has read are consecutive from
the sequence after the one it asked for; the event that closes the stream,
`done` or `buffer_overflow`, names the last of them; and the stream of a
client that stays connected ends only with one of the two.
-/
theorem stream_without_gap_or_repeat {state : StreamState Chunk}
    (reachable : (streaming Chunk).Reachable (fun _ _ => True) state) :
    (∃ count,
        (logsOf state.written).map LiveLogEvent.sequence =
          List.range' (state.requested + 1) count) ∧
      (∀ event ∈ logsOf state.written, Stored state.durable event) ∧
      (∀ last, .done last ∈ state.written ∨
          .bufferOverflow last ∈ state.written →
        (logsOf state.written).map LiveLogEvent.sequence =
            List.range' (state.requested + 1) (last - state.requested) ∧
          state.requested ≤ last) ∧
      (state.connected = true → state.stage = .ended →
        state.awaited = none →
        ∃ last, .done last ∈ state.written ∨
          .bufferOverflow last ∈ state.written) := by
  rcases reachable_following reachable with
    ⟨⟨count, sequences, chunks, closed⟩, connected⟩
  refine ⟨⟨count, sequences⟩, chunks, ?_, ?_⟩
  · intro last closing
    rw [closed last closing, sequences, Nat.add_sub_cancel_left]
    exact ⟨rfl, Nat.le_add_right _ _⟩
  · intro online ended idle
    have streams := connected online
    rcases streams.finished ended with ⟨last, closing⟩
    have written : ∀ event, event ≠ .heartbeat → event ∈ state.output →
        event ∈ state.written := by
      intro event notBeat member
      rcases List.mem_append.mp member with there | chained
      · exact there
      · rcases List.mem_map.mp chained with ⟨payload, inChain, rfl⟩
        cases mine : payload.own with
        | true =>
          have awaited := streams.own payload inChain mine
          rw [idle] at awaited
          cases awaited
        | false => exact absurd (streams.beats payload inChain mine) notBeat
    refine ⟨last, closing.imp ?_ ?_⟩
    · exact written _ nofun
    · exact written _ nofun

/-- The turns of one quiet round of the drain. -/
def quietRound : List (StreamEvent String) :=
  [.handler .go, .handler .go, .handler .endOfScan]

/-- A chunk is published while the first one is replayed, and arrives live. -/
def overlappingStream : List (StreamEvent String) :=
  [.handler .entry, .append "second", .publish, .flush, .handler .settled,
    .handler .endOfScan, .handler (.poll false), .handler (.next false),
    .handler .go, .flush, .handler .settled, .handler (.poll true),
    .handler (.next true), .handler .go] ++
    quietRound ++ [.handler .go] ++ quietRound ++
    [.flush, .handler .settled]

theorem stream_without_gap_or_repeat_overlapping :
    ∃ state,
      (streaming String).Reachable (fun _ _ => True) state ∧
        state.written =
          [.log { sequence := 1, chunk := "first" },
            .log { sequence := 2, chunk := "second" }, .done 2] ∧
        (logsOf state.written).map LiveLogEvent.sequence =
          List.range' (state.requested + 1) (2 - state.requested) := by
  have run :
      ((streaming String).run (subscribed ["first"] 1 0 256)
          overlappingStream).map StreamState.written =
        some
          [.log { sequence := 1, chunk := "first" },
            .log { sequence := 2, chunk := "second" }, .done 2] := by
    decide +kernel
  rcases Option.map_eq_some_iff.mp run with ⟨state, ran, written⟩
  have reachable :
      (streaming String).Reachable (fun _ _ => True) state :=
    Machine.reachable_of_run ⟨["first"], 1, 0, 256, Nat.le_refl _, rfl⟩ ran
  refine ⟨state, reachable, written, ?_⟩
  have whole := stream_without_gap_or_repeat reachable
  refine (whole.2.2.1 2 (Or.inl ?_)).1
  rw [written]
  simp

end Rbo.Controller.LogStream
