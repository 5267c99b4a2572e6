import Mathlib.Data.List.Sort
import Rbo.Executor.Logs
import Rbo.Foundation.Run

/-!
# The sender of spooled log chunks

A bounded queue in memory over the durable spool of an attempt.  A chunk that
does not fit stays on disk and is recovered by a replay, which reads the
spool while the job goes on writing to it.

A send that fails leaves its chunk at the head of the queue.  The queue is
pumped only when a chunk is pushed or an acknowledgement arrives: a chunk
that is already queued, or that finds the queue full, pumps nothing.
-/

namespace Rbo.Agent.SpoolSender

open Rbo.Foundation
open Rbo.Executor.Logs (Stream)

structure SpoolChunk where
  sequence : Nat
  stream : Stream
  bytes : String
  deriving DecidableEq

/-- A run of `startReplay`: it has passed `cursor` chunks of the spool, which
held `upTo` chunks when the run began. -/
inductive Replay where
  | scanning (cursor upTo : Nat)
  | completed
  deriving DecidableEq

/-- The sender with the spool it reads and the replays it has started; and,
since the channel became available, the chunks `enqueue` was given and those
each pump has handed to `send`. -/
structure Sender where
  queue : List SpoolChunk
  lastAcked : Nat
  needsReplay : Bool
  spool : List SpoolChunk
  replays : List Replay
  offered : List SpoolChunk
  pumps : List (List SpoolChunk)
  deriving DecidableEq

/-- The loop of `pump`: what stays queued, and what is handed to `send`.
`successes` is the number of sends that succeed before one fails; `none` if
none fails. -/
def pumpQueue (lastAcked : Nat) :
    List SpoolChunk → Option Nat → List SpoolChunk × List SpoolChunk
  | [], _ => ([], [])
  | chunk :: queue, successes =>
    if chunk.sequence ≤ lastAcked then pumpQueue lastAcked queue successes
    else
      match successes with
      | some 0 => (chunk :: queue, [chunk])
      | some (more + 1) =>
        let rest := pumpQueue lastAcked queue (some more)
        (rest.1, chunk :: rest.2)
      | none =>
        let rest := pumpQueue lastAcked queue none
        (rest.1, chunk :: rest.2)

/-- The order in which the queue is kept. -/
def Precedes (chunk other : SpoolChunk) : Prop :=
  chunk.sequence ≤ other.sequence

instance : DecidableRel Precedes :=
  fun chunk other => Nat.decLe chunk.sequence other.sequence

instance : IsTrans SpoolChunk Precedes :=
  ⟨fun _ _ _ first second => Nat.le_trans first second⟩

instance : Std.Total Precedes :=
  ⟨fun chunk other => Nat.le_total chunk.sequence other.sequence⟩

namespace Sender

def pump (sender : Sender) (successes : Option Nat) : Sender :=
  let result := pumpQueue sender.lastAcked sender.queue successes
  { sender with queue := result.1, pumps := sender.pumps ++ [result.2] }

/-- The queue with one more chunk, in the order of the sequences. -/
def sorted (queue : List SpoolChunk) : List SpoolChunk :=
  queue.insertionSort Precedes

variable (maxQueue : Nat)

def enqueue (sender : Sender) (chunk : SpoolChunk)
    (successes : Option Nat) : Sender :=
  if chunk.sequence ≤ sender.lastAcked then sender
  else if sender.queue.any fun queued =>
      queued.sequence = chunk.sequence then sender
  else if maxQueue ≤ sender.queue.length then
    { sender with needsReplay := true }
  else
    { sender with queue := sorted (sender.queue ++ [chunk]) }.pump successes

/-- `enqueue`, and the record that it was called. -/
def offer (sender : Sender) (chunk : SpoolChunk)
    (successes : Option Nat) : Sender :=
  { sender with offered := sender.offered ++ [chunk] }.enqueue maxQueue
    chunk successes

/-- Begin to read the spool after the acknowledged sequence. -/
def startReplay (sender : Sender) : Sender :=
  { sender with
    replays := sender.replays ++
      [.scanning sender.lastAcked sender.spool.length] }

/-- The first part of `onAck`: drop what is acknowledged and pump. -/
def acknowledge (sender : Sender) (sequence : Nat)
    (successes : Option Nat) : Sender :=
  { sender with
    lastAcked := max sender.lastAcked sequence
    queue := sender.queue.dropWhile fun chunk =>
      chunk.sequence ≤ max sender.lastAcked sequence }.pump successes

def onAck (sender : Sender) (sequence : Nat) (successes : Option Nat) :
    Sender :=
  let pumped := sender.acknowledge sequence successes
  if pumped.needsReplay ∧ pumped.queue.length < maxQueue then
    { pumped with needsReplay := false }.startReplay
  else pumped

def setAcked (sender : Sender) (sequence : Int) : Sender :=
  { sender with lastAcked := sequence.toNat }

/-- The job writes one more chunk to the spool. -/
def append (sender : Sender) (stream : Stream) (bytes : String) : Sender :=
  { sender with
    spool := sender.spool ++
      [⟨sender.spool.length + 1, stream, bytes⟩] }

end Sender

/-- What can happen; only chunks of the spool are enqueued. -/
inductive SenderEvent where
  | append (stream : Stream) (bytes : String)
  | enqueue (position : Nat) (successes : Option Nat)
  | onAck (sequence : Nat) (successes : Option Nat)
  | setAcked (sequence : Int)
  | startReplay
  | replayNext (replay : Nat) (successes : Option Nat)
  | replayDone (replay : Nat)
  | channelAvailable
  deriving DecidableEq

/-- One call, one turn of a replay, or the channel becoming available. -/
def Sender.next (maxQueue : Nat) (sender : Sender) :
    SenderEvent → Option Sender
  | .append stream bytes => some (sender.append stream bytes)
  | .enqueue position successes => do
    let chunk ← sender.spool[position]?
    some (sender.offer maxQueue chunk successes)
  | .onAck sequence successes =>
    some (sender.onAck maxQueue sequence successes)
  | .setAcked sequence => some (sender.setAcked sequence)
  | .startReplay => some sender.startReplay
  | .replayNext replay successes =>
    match sender.replays[replay]? with
    | some (.scanning cursor upTo) => do
      let chunk ← sender.spool[cursor]?
      let resumed := { sender with
        replays := sender.replays.set replay
          (.scanning (cursor + 1) upTo) }
      some (resumed.offer maxQueue chunk successes)
    | _ => none
  | .replayDone replay =>
    match sender.replays[replay]? with
    | some (.scanning cursor upTo) =>
      -- The scan has seen all that was written when it began.
      if upTo ≤ cursor then
        some { sender with
          replays := sender.replays.set replay .completed }
      else none
    | _ => none
  | .channelAvailable => some { sender with offered := [], pumps := [] }

/-- The sender of an attempt whose spool is empty. -/
def Sender.new : Sender := ⟨[], 0, false, [], [], [], []⟩

def sending (maxQueue : Nat) : Machine Sender SenderEvent where
  initial sender := sender = .new
  step sender event := sender.next maxQueue event

/-- Every send of the event succeeds. -/
def SenderEvent.delivers : SenderEvent → Bool
  | .enqueue _ successes => successes.isNone
  | .onAck _ successes => successes.isNone
  | .replayNext _ successes => successes.isNone
  | .channelAvailable => false
  | _ => true

/-- Every send succeeds, and the cursor is not set by hand. -/
def SenderEvent.recovers : SenderEvent → Bool
  | .setAcked _ => false
  | event => event.delivers

/-- The chunks handed to `send` since the channel became available. -/
def Sender.sent (sender : Sender) : List SpoolChunk :=
  sender.pumps.flatten

/-- The chunks of the spool that are not acknowledged. -/
def Sender.unacked (sender : Sender) : List SpoolChunk :=
  sender.spool.filter fun chunk => sender.lastAcked < chunk.sequence

/-- A replay that starts here will push a chunk, and so pump the queue, or
the queue is empty. -/
def Sender.Recoverable (maxQueue : Nat) (sender : Sender) : Prop :=
  sender.queue.length < maxQueue ∧
    (sender.queue = [] ∨ ∃ chunk ∈ sender.unacked, chunk ∉ sender.queue)

instance (maxQueue : Nat) (sender : Sender) :
    Decidable (sender.Recoverable maxQueue) :=
  inferInstanceAs (Decidable (_ ∧ _))

/-! ## The pump -/

/-- In the order of the sequences, each once. -/
def Increasing (chunks : List SpoolChunk) : Prop :=
  chunks.Pairwise fun chunk other => chunk.sequence < other.sequence

theorem pumpQueue_none (lastAcked : Nat) (queue : List SpoolChunk) :
    pumpQueue lastAcked queue none =
      ([], queue.filter fun chunk => lastAcked < chunk.sequence) := by
  induction queue with
  | nil => rfl
  | cons chunk queue induction =>
    unfold pumpQueue
    by_cases acked : chunk.sequence ≤ lastAcked
    · simp [acked, induction, Nat.not_lt.mpr acked]
    · simp [acked, induction, Nat.not_le.mp acked]

theorem pumpQueue_sublist (lastAcked : Nat) (queue : List SpoolChunk)
    (successes : Option Nat) :
    (pumpQueue lastAcked queue successes).1.Sublist queue ∧
      (pumpQueue lastAcked queue successes).2.Sublist queue := by
  induction queue generalizing successes with
  | nil => exact ⟨.slnil, .slnil⟩
  | cons chunk queue induction =>
    unfold pumpQueue
    split
    · have rest := induction successes
      exact ⟨rest.1.cons chunk, rest.2.cons chunk⟩
    · split
      · exact ⟨.refl _, List.singleton_sublist.mpr List.mem_cons_self⟩
      next more =>
        have rest := induction (some more)
        exact ⟨rest.1.cons chunk, rest.2.cons_cons chunk⟩
      · have rest := induction none
        exact ⟨rest.1.cons chunk, rest.2.cons_cons chunk⟩

/-! ## Queues of spooled chunks -/

/-- The spool numbers its chunks from 1, and the queue holds chunks of the
spool in order. -/
structure Sender.Ordered (sender : Sender) : Prop where
  numbered : ∀ (position : Nat) (chunk : SpoolChunk),
    sender.spool[position]? = some chunk → chunk.sequence = position + 1
  spooled : ∀ chunk ∈ sender.queue, chunk ∈ sender.spool
  increasing : Increasing sender.queue
  pumped : ∀ handed ∈ sender.pumps, Increasing handed

variable {sender : Sender} {chunk : SpoolChunk}

theorem Sender.Ordered.unique (ordered : sender.Ordered) {other : SpoolChunk}
    (member : chunk ∈ sender.spool) (listed : other ∈ sender.spool)
    (same : chunk.sequence = other.sequence) : chunk = other := by
  rcases List.mem_iff_getElem?.mp member with ⟨position, found⟩
  rcases List.mem_iff_getElem?.mp listed with ⟨place, seen⟩
  have first := ordered.numbered position chunk found
  have second := ordered.numbered place other seen
  have equal : position = place := by omega
  rw [equal, seen, Option.some.injEq] at found
  exact found.symm

theorem mem_sorted {queue : List SpoolChunk} :
    chunk ∈ Sender.sorted queue ↔ chunk ∈ queue :=
  List.mem_insertionSort _

theorem increasing_sorted {queue : List SpoolChunk}
    (increasing : Increasing queue)
    (new : ∀ queued ∈ queue, queued.sequence ≠ chunk.sequence) :
    Increasing (Sender.sorted (queue ++ [chunk])) := by
  have ordered : (Sender.sorted (queue ++ [chunk])).Pairwise Precedes :=
    List.pairwise_insertionSort Precedes _
  have apart : (queue ++ [chunk]).Pairwise fun first second =>
      first.sequence ≠ second.sequence := by
    rw [List.pairwise_append]
    refine ⟨increasing.imp Nat.ne_of_lt, List.pairwise_singleton _ _, ?_⟩
    intro queued member other last
    rw [List.mem_singleton.mp last]
    exact new queued member
  have kept : (Sender.sorted (queue ++ [chunk])).Pairwise
      fun first second => first.sequence ≠ second.sequence :=
    ((List.perm_insertionSort _ _).pairwise_iff
      fun different => different.symm).mpr apart
  exact (ordered.and kept).imp fun both => Nat.lt_of_le_of_ne both.1 both.2

theorem pump_ordered (ordered : sender.Ordered) (successes : Option Nat) :
    (sender.pump successes).Ordered := by
  have parts := pumpQueue_sublist sender.lastAcked sender.queue successes
  refine ⟨ordered.numbered, ?_, ordered.increasing.sublist parts.1, ?_⟩
  · intro chunk member
    exact ordered.spooled chunk (parts.1.subset member)
  · intro handed member
    rcases List.mem_append.mp member with old | new
    · exact ordered.pumped handed old
    · rw [List.mem_singleton.mp new]
      exact ordered.increasing.sublist parts.2

variable {maxQueue : Nat}

section

variable (ordered : sender.Ordered)

include ordered

theorem offer_ordered (spooled : chunk ∈ sender.spool)
    (successes : Option Nat) :
    (sender.offer maxQueue chunk successes).Ordered := by
  have same : Sender.Ordered
      { sender with offered := sender.offered ++ [chunk] } :=
    ⟨ordered.numbered, ordered.spooled, ordered.increasing, ordered.pumped⟩
  unfold Sender.offer Sender.enqueue
  split
  · exact same
  · split
    · exact same
    next absent =>
      split
      · exact ⟨same.numbered, same.spooled, same.increasing, same.pumped⟩
      · apply pump_ordered
        refine ⟨ordered.numbered, ?_, ?_, ordered.pumped⟩
        · intro other member
          rcases List.mem_append.mp (mem_sorted.mp member) with old | new
          · exact ordered.spooled other old
          · rw [List.mem_singleton.mp new]
            exact spooled
        · apply increasing_sorted ordered.increasing
          intro queued member equal
          exact absent (List.any_eq_true.mpr
            ⟨queued, member, decide_eq_true equal⟩)

theorem acknowledge_ordered (sequence : Nat) (successes : Option Nat) :
    (sender.acknowledge sequence successes).Ordered := by
  have dropped := List.dropWhile_sublist (l := sender.queue)
    (fun chunk => decide (chunk.sequence ≤ max sender.lastAcked sequence))
  apply pump_ordered
  refine ⟨ordered.numbered, ?_, ordered.increasing.sublist dropped,
    ordered.pumped⟩
  intro chunk member
  exact ordered.spooled chunk (dropped.subset member)

theorem startReplay_ordered :
    sender.startReplay.Ordered :=
  ⟨ordered.numbered, ordered.spooled, ordered.increasing, ordered.pumped⟩

theorem onAck_ordered (sequence : Nat) (successes : Option Nat) :
    (sender.onAck maxQueue sequence successes).Ordered := by
  have pumped := acknowledge_ordered ordered sequence successes
  unfold Sender.onAck
  simp only
  split
  · exact startReplay_ordered ⟨pumped.numbered, pumped.spooled,
      pumped.increasing, pumped.pumped⟩
  · exact pumped

theorem append_ordered (stream : Stream) (bytes : String) :
    (sender.append stream bytes).Ordered := by
  refine ⟨?_, ?_, ordered.increasing, ordered.pumped⟩
  · intro position chunk found
    rcases Nat.lt_trichotomy position sender.spool.length with
      before | last | beyond
    · exact ordered.numbered position chunk
        (by rwa [Sender.append, List.getElem?_append_left before] at found)
    · simp only [Sender.append, last, List.getElem?_concat_length,
        Option.some.injEq] at found
      rw [← found, last]
    · rw [List.getElem?_eq_none (by simp [Sender.append]; omega)] at found
      cases found
  · intro chunk member
    exact List.mem_append_left _ (ordered.spooled chunk member)

theorem step_ordered {next : Sender} {event : SenderEvent}
    (stepped : sender.next maxQueue event = some next) : next.Ordered := by
  cases event with
  | append stream bytes =>
    cases stepped
    exact append_ordered ordered stream bytes
  | enqueue position successes =>
    simp only [Sender.next, Option.bind_eq_bind,
      Option.bind_eq_some_iff] at stepped
    rcases stepped with ⟨chunk, found, same⟩
    cases same
    exact offer_ordered ordered (List.mem_of_getElem? found) successes
  | onAck sequence successes =>
    cases stepped
    exact onAck_ordered ordered sequence successes
  | setAcked sequence =>
    cases stepped
    exact ⟨ordered.numbered, ordered.spooled, ordered.increasing,
      ordered.pumped⟩
  | startReplay =>
    cases stepped
    exact startReplay_ordered ordered
  | replayNext replay successes =>
    simp only [Sender.next] at stepped
    split at stepped
    next cursor upTo _ =>
      simp only [Option.bind_eq_bind,
        Option.bind_eq_some_iff] at stepped
      rcases stepped with ⟨chunk, found, same⟩
      cases same
      apply offer_ordered
      · exact ⟨ordered.numbered, ordered.spooled, ordered.increasing,
          ordered.pumped⟩
      · exact List.mem_of_getElem? found
    next => cases stepped
  | replayDone replay =>
    simp only [Sender.next] at stepped
    split at stepped
    · split at stepped
      · cases stepped
        exact ⟨ordered.numbered, ordered.spooled, ordered.increasing,
          ordered.pumped⟩
      · cases stepped
    · cases stepped
  | channelAvailable =>
    cases stepped
    exact ⟨ordered.numbered, ordered.spooled, ordered.increasing,
      fun _ absurd => by cases absurd⟩

end

theorem new_ordered : Sender.new.Ordered := by
  refine ⟨?_, ?_, List.Pairwise.nil, ?_⟩
  · intro position chunk found
    cases found
  · intro chunk member
    cases member
  · intro handed member
    cases member

theorem steps_ordered {allowed : Sender → SenderEvent → Prop} {later : Sender}
    (steps : (sending maxQueue).Steps allowed sender later)
    (ordered : sender.Ordered) : later.Ordered := by
  have preserved : ∀ state event next, Sender.Ordered state →
      allowed state event →
      (sending maxQueue).step state event = some next → next.Ordered :=
    fun _ _ _ held _ stepped => step_ordered held stepped
  exact steps.preserves preserved ordered

/-! ## A replay that pumps -/

/-- The chunks that the replay has passed. -/
def Passed (origin : Sender) (replay : Replay) (chunk : SpoolChunk) :
    Prop :=
  chunk ∈ origin.unacked ∧
    match replay with
    | .scanning cursor _ => chunk.sequence ≤ cursor
    | .completed => True

/-- Due to be sent: passed by the replay, or written since it began and
enqueued. -/
def Due (origin sender : Sender) (replay : Replay) (chunk : SpoolChunk) :
    Prop :=
  Passed origin replay chunk ∨
    chunk ∈ sender.offered ∧ chunk ∉ origin.spool

/-- Either the queue has been pumped since the replay began, and all that is
due was sent; or nothing has changed, and all that is due is still queued. -/
def Progress (origin sender : Sender) (due : SpoolChunk → Prop) : Prop :=
  (sender.queue = [] ∧
    ∀ chunk, due chunk → sender.lastAcked < chunk.sequence →
      chunk ∈ sender.sent) ∨
  (sender.queue = origin.queue ∧ sender.lastAcked = origin.lastAcked ∧
    ∀ chunk, due chunk → sender.lastAcked < chunk.sequence →
      chunk ∈ sender.queue)

/-- What holds while the replay that began at `origin` goes on. -/
structure Recovering (maxQueue : Nat) (origin sender : Sender) : Prop where
  room : origin.queue.length < maxQueue
  first : origin.Ordered
  ordered : sender.Ordered
  acked : origin.lastAcked ≤ sender.lastAcked
  spool : origin.spool <+: sender.spool
  replay : ∃ replay,
    sender.replays[origin.replays.length]? = some replay ∧
    (∀ cursor upTo, replay = .scanning cursor upTo →
      upTo = origin.spool.length) ∧
    Progress origin sender (Due origin sender replay)

theorem sent_pump_none (sender : Sender) :
    (sender.pump none).sent = sender.sent ++
      sender.queue.filter fun chunk =>
        sender.lastAcked < chunk.sequence := by
  simp [Sender.pump, Sender.sent, pumpQueue_none]

variable {origin : Sender}

/-- A pump whose sends all succeed empties the queue. -/
theorem pump_progress {due : SpoolChunk → Prop}
    (queued : ∀ chunk, due chunk → sender.lastAcked < chunk.sequence →
      chunk ∈ sender.queue ∨ chunk ∈ sender.sent) :
    Progress origin (sender.pump none) due := by
  left
  refine ⟨by simp [Sender.pump, pumpQueue_none], ?_⟩
  intro chunk needed beyond
  have beyond : sender.lastAcked < chunk.sequence := beyond
  rw [sent_pump_none, List.mem_append]
  rcases queued chunk needed beyond with waiting | done
  · exact .inr (List.mem_filter.mpr ⟨waiting, decide_eq_true beyond⟩)
  · exact .inl done

/-- Enqueuing a chunk sends it with everything queued, or finds it queued. -/
theorem enqueue_progress (due : SpoolChunk → Prop) {more : SpoolChunk → Prop}
    (room : origin.queue.length < maxQueue) (ordered : sender.Ordered)
    (spooled : chunk ∈ sender.spool) (progress : Progress origin sender due)
    (grows : ∀ other, more other → due other ∨ other = chunk) :
    Progress origin (sender.enqueue maxQueue chunk none) more := by
  -- What was due is queued or sent, so a push covers everything.
  have known : ∀ other, due other → sender.lastAcked < other.sequence →
      other ∈ sender.queue ∨ other ∈ sender.sent := by
    intro other needed beyond
    rcases progress with ⟨_, sent⟩ | ⟨_, _, queued⟩
    · exact .inr (sent other needed beyond)
    · exact .inl (queued other needed beyond)
  unfold Sender.enqueue
  split
  next acked =>
    rcases progress with ⟨empty, sent⟩ | ⟨same, level, queued⟩
    · left
      refine ⟨empty, ?_⟩
      intro other needed beyond
      rcases grows other needed with old | rfl
      · exact sent other old beyond
      · omega
    · right
      refine ⟨same, level, ?_⟩
      intro other needed beyond
      rcases grows other needed with old | rfl
      · exact queued other old beyond
      · omega
  next =>
    split
    next duplicate =>
      rcases List.any_eq_true.mp duplicate with ⟨twin, member, equal⟩
      have same : twin = chunk := ordered.unique
        (ordered.spooled twin member) spooled (of_decide_eq_true equal)
      rw [same] at member
      rcases progress with ⟨empty, _⟩ | ⟨same, level, queued⟩
      · rw [empty] at member
        cases member
      · right
        refine ⟨same, level, ?_⟩
        intro other needed beyond
        rcases grows other needed with old | rfl
        · exact queued other old beyond
        · exact member
    next =>
      split
      next full =>
        exfalso
        rcases progress with ⟨empty, _⟩ | ⟨same, _, _⟩
        · rw [empty, List.length_nil] at full
          omega
        · rw [same] at full
          omega
      next =>
        apply pump_progress
        intro other needed beyond
        show other ∈ Sender.sorted (sender.queue ++ [chunk]) ∨
          other ∈ sender.sent
        rw [mem_sorted, List.mem_append, List.mem_singleton]
        rcases grows other needed with old | rfl
        · rcases known other old beyond with waiting | sent
          · exact .inl (.inl waiting)
          · exact .inr sent
        · exact .inl (.inr rfl)

/-- What an offer leaves alone. -/
theorem offer_fields (maxQueue : Nat) (sender : Sender) (chunk : SpoolChunk)
    (successes : Option Nat) :
    let offered := sender.offer maxQueue chunk successes
    offered.spool = sender.spool ∧ offered.replays = sender.replays ∧
      offered.lastAcked = sender.lastAcked ∧
      offered.offered = sender.offered ++ [chunk] := by
  unfold Sender.offer Sender.enqueue
  split
  · exact ⟨rfl, rfl, rfl, rfl⟩
  · split
    · exact ⟨rfl, rfl, rfl, rfl⟩
    · split
      · exact ⟨rfl, rfl, rfl, rfl⟩
      · exact ⟨rfl, rfl, rfl, rfl⟩

/-- The replay advances to a state that is due at most one chunk more, and
that chunk is offered. -/
theorem Recovering.offer (recovering : Recovering maxQueue origin sender)
    (spooled : chunk ∈ sender.spool) {replays : List Replay}
    {before after : Replay}
    (was : sender.replays[origin.replays.length]? = some before)
    (now : replays[origin.replays.length]? = some after)
    (bound : ∀ cursor upTo, after = .scanning cursor upTo →
      upTo = origin.spool.length) (passes : ∀ other, Passed origin after other →
      Passed origin before other ∨ other = chunk) :
    Recovering maxQueue origin
      ({ sender with replays := replays }.offer maxQueue chunk none) := by
  have fields := offer_fields maxQueue { sender with replays := replays }
    chunk none
  simp only at fields
  rcases fields with ⟨spool, kept, acked, offered⟩
  rcases recovering.replay with ⟨replay, found, _, progress⟩
  rw [found, Option.some.injEq] at was
  have resumed : Sender.Ordered { sender with replays := replays } :=
    ⟨recovering.ordered.numbered, recovering.ordered.spooled,
      recovering.ordered.increasing, recovering.ordered.pumped⟩
  refine ⟨recovering.room, recovering.first,
    offer_ordered resumed spooled none, by rw [acked]; exact recovering.acked,
    by rw [spool]; exact recovering.spool, after, by rw [kept]; exact now,
    bound, ?_⟩
  refine enqueue_progress (Due origin sender replay)
    recovering.room ?_ spooled progress ?_
  · exact ⟨resumed.numbered, resumed.spooled, resumed.increasing,
      resumed.pumped⟩
  · intro other due
    rcases due with passed | ⟨listed, absent⟩
    · rw [was]
      rcases passes other passed with old | same
      · exact .inl (.inl old)
      · exact .inr same
    · rw [offered, List.mem_append, List.mem_singleton] at listed
      rcases listed with old | same
      · exact .inl (.inr ⟨old, absent⟩)
      · exact .inr same

/-- A change of the spool's end or of other replays. -/
theorem Recovering.extend {next : Sender}
    (recovering : Recovering maxQueue origin sender) (ordered : next.Ordered)
    (same : next.queue = sender.queue ∧ next.lastAcked = sender.lastAcked ∧
      next.pumps = sender.pumps ∧ next.offered = sender.offered)
    (spool : sender.spool <+: next.spool)
    (replays : next.replays[origin.replays.length]? =
      sender.replays[origin.replays.length]?) :
    Recovering maxQueue origin next := by
  rcases same with ⟨queue, acked, pumps, offered⟩
  rcases recovering.replay with ⟨replay, found, bound, progress⟩
  refine ⟨recovering.room, recovering.first, ordered,
    by rw [acked]; exact recovering.acked, recovering.spool.trans spool,
    replay, by rw [replays, found], bound, ?_⟩
  unfold Progress Due Sender.sent at *
  rw [queue, acked, pumps, offered]
  exact progress

/-- An entry of a list stays when the list grows. -/
theorem getElem?_append_of_some {Item : Type} {items more : List Item}
    {index : Nat} {item : Item} (found : items[index]? = some item) :
    (items ++ more)[index]? = some item := by
  rw [List.getElem?_append_left (List.getElem?_eq_some_iff.mp found).choose]
  exact found

theorem Recovering.startReplay
    (recovering : Recovering maxQueue origin sender) :
    Recovering maxQueue origin sender.startReplay := by
  rcases recovering.replay with ⟨replay, found, _⟩
  apply recovering.extend (startReplay_ordered recovering.ordered)
  · exact ⟨rfl, rfl, rfl, rfl⟩
  · exact List.prefix_rfl
  · rw [found]
    exact getElem?_append_of_some found

/-- Elements above the cursor survive the drop of the acknowledged head. -/
theorem mem_dropWhile_of_lt {queue : List SpoolChunk} {acked : Nat}
    (member : chunk ∈ queue) (beyond : acked < chunk.sequence) :
    chunk ∈ queue.dropWhile fun other => other.sequence ≤ acked := by
  induction queue with
  | nil => cases member
  | cons first queue induction =>
    rw [List.dropWhile_cons]
    split
    next dropped =>
      rcases List.mem_cons.mp member with rfl | rest
      · have dropped := of_decide_eq_true dropped
        omega
      · exact induction rest
    next => exact member

theorem Recovering.acknowledge
    (recovering : Recovering maxQueue origin sender) (sequence : Nat) :
    Recovering maxQueue origin (sender.acknowledge sequence none) := by
  rcases recovering.replay with ⟨replay, found, bound, progress⟩
  refine ⟨recovering.room, recovering.first,
    acknowledge_ordered recovering.ordered sequence none,
    recovering.acked.trans (Nat.le_max_left _ _), recovering.spool,
    replay, found, bound, ?_⟩
  apply pump_progress
  intro chunk needed beyond
  have beyond : max sender.lastAcked sequence < chunk.sequence := beyond
  have further : sender.lastAcked < chunk.sequence :=
    Nat.lt_of_le_of_lt (Nat.le_max_left _ _) beyond
  rcases progress with ⟨_, sent⟩ | ⟨_, _, queued⟩
  · exact .inr (sent chunk needed further)
  · exact .inl (mem_dropWhile_of_lt (queued chunk needed further) beyond)

theorem Recovering.onAck (recovering : Recovering maxQueue origin sender)
    (sequence : Nat) :
    Recovering maxQueue origin (sender.onAck maxQueue sequence none) := by
  have pumped := recovering.acknowledge sequence
  unfold Sender.onAck
  simp only
  split
  · apply Recovering.startReplay
    apply pumped.extend
    · exact ⟨pumped.ordered.numbered, pumped.ordered.spooled,
        pumped.ordered.increasing, pumped.ordered.pumped⟩
    · exact ⟨rfl, rfl, rfl, rfl⟩
    · exact List.prefix_rfl
    · rfl
  · exact pumped

theorem Recovering.replayNext (recovering : Recovering maxQueue origin sender)
    {index : Nat} {cursor upTo : Nat}
    (scanning : sender.replays[index]? = some (.scanning cursor upTo))
    (found : sender.spool[cursor]? = some chunk) :
    Recovering maxQueue origin ({ sender with
      replays := sender.replays.set index
        (.scanning (cursor + 1) upTo) }.offer maxQueue chunk none) := by
  rcases recovering.replay with ⟨replay, seen, bound, _⟩
  by_cases tracked : index = origin.replays.length
  · subst tracked
    rw [seen, Option.some.injEq] at scanning
    refine recovering.offer (List.mem_of_getElem? found) seen
      (List.getElem?_set_self
        (List.getElem?_eq_some_iff.mp seen).choose) ?_ ?_
    · intro place limit same
      cases same
      exact bound cursor upTo scanning
    · rintro other ⟨unacked, reached⟩
      have reached : other.sequence ≤ cursor + 1 := reached
      rcases Nat.lt_or_ge cursor other.sequence with new | old
      · right
        have member : other ∈ sender.spool :=
          recovering.spool.subset (List.mem_of_mem_filter unacked)
        apply recovering.ordered.unique member (List.mem_of_getElem? found)
        rw [recovering.ordered.numbered cursor chunk found]
        omega
      · left
        rw [scanning]
        exact ⟨unacked, old⟩
  · refine recovering.offer (List.mem_of_getElem? found) seen ?_ bound ?_
    · rw [List.getElem?_set_ne tracked]
      exact seen
    · exact fun _ passed => .inl passed

theorem sequence_le_length (ordered : sender.Ordered)
    (member : chunk ∈ sender.spool) :
    chunk.sequence ≤ sender.spool.length := by
  rcases List.mem_iff_getElem?.mp member with ⟨position, found⟩
  have within := (List.getElem?_eq_some_iff.mp found).choose
  rw [ordered.numbered position chunk found]
  omega

theorem Recovering.replayDone (recovering : Recovering maxQueue origin sender)
    {index : Nat} {cursor upTo : Nat}
    (scanning : sender.replays[index]? = some (.scanning cursor upTo))
    (covered : upTo ≤ cursor) :
    Recovering maxQueue origin { sender with
      replays := sender.replays.set index .completed } := by
  rcases recovering.replay with ⟨replay, seen, bound, progress⟩
  by_cases tracked : index = origin.replays.length
  · subst tracked
    rw [seen, Option.some.injEq] at scanning
    refine ⟨recovering.room, recovering.first,
      ⟨recovering.ordered.numbered, recovering.ordered.spooled,
        recovering.ordered.increasing, recovering.ordered.pumped⟩,
      recovering.acked, recovering.spool, .completed,
      List.getElem?_set_self (List.getElem?_eq_some_iff.mp seen).choose,
      nofun, ?_⟩
    -- The cursor is past the spool of the beginning: nothing new is due.
    have old : ∀ chunk, Due origin sender .completed chunk →
        Due origin sender replay chunk := by
      rintro chunk (⟨unacked, _⟩ | offered)
      · left
        rw [scanning]
        refine ⟨unacked, ?_⟩
        have known := sequence_le_length recovering.first
          (List.mem_of_mem_filter unacked)
        rw [← bound cursor upTo scanning] at known
        exact known.trans covered
      · exact .inr offered
    rcases progress with ⟨empty, sent⟩ | ⟨same, level, queued⟩
    · exact .inl ⟨empty, fun chunk due => sent chunk (old chunk due)⟩
    · exact .inr ⟨same, level, fun chunk due => queued chunk (old chunk due)⟩
  · apply recovering.extend
    · exact ⟨recovering.ordered.numbered, recovering.ordered.spooled,
        recovering.ordered.increasing, recovering.ordered.pumped⟩
    · exact ⟨rfl, rfl, rfl, rfl⟩
    · exact List.prefix_rfl
    · exact List.getElem?_set_ne tracked

theorem step_recovering {next : Sender} {event : SenderEvent}
    (recovering : Recovering maxQueue origin sender)
    (recovers : event.recovers = true)
    (stepped : sender.next maxQueue event = some next) :
    Recovering maxQueue origin next := by
  cases event with
  | append stream bytes =>
    cases stepped
    apply recovering.extend (append_ordered recovering.ordered _ _)
    · exact ⟨rfl, rfl, rfl, rfl⟩
    · exact List.prefix_append _ _
    · rfl
  | enqueue position successes =>
    rw [Option.isNone_iff_eq_none.mp recovers] at stepped
    simp only [Sender.next, Option.bind_eq_bind,
      Option.bind_eq_some_iff] at stepped
    rcases stepped with ⟨chunk, found, same⟩
    cases same
    rcases recovering.replay with ⟨replay, seen, bound, _⟩
    exact recovering.offer (List.mem_of_getElem? found) seen seen bound
      fun _ passed => .inl passed
  | onAck sequence successes =>
    rw [Option.isNone_iff_eq_none.mp recovers] at stepped
    cases stepped
    exact recovering.onAck sequence
  | setAcked sequence => cases recovers
  | startReplay =>
    cases stepped
    exact recovering.startReplay
  | replayNext replay successes =>
    rw [Option.isNone_iff_eq_none.mp recovers] at stepped
    simp only [Sender.next] at stepped
    split at stepped
    next cursor upTo scanning =>
      simp only [Option.bind_eq_bind,
        Option.bind_eq_some_iff] at stepped
      rcases stepped with ⟨chunk, found, same⟩
      cases same
      exact recovering.replayNext scanning found
    next => cases stepped
  | replayDone replay =>
    simp only [Sender.next] at stepped
    split at stepped
    next cursor upTo scanning =>
      split at stepped
      next covered =>
        cases stepped
        exact recovering.replayDone scanning covered
      next => cases stepped
    next => cases stepped
  | channelAvailable => cases recovers

/-- The beginning of the replay. -/
theorem startReplay_recovering (ordered : origin.Ordered)
    (room : origin.queue.length < maxQueue)
    (offered : ∀ chunk ∈ origin.offered, chunk ∈ origin.spool) :
    Recovering maxQueue origin origin.startReplay := by
  refine ⟨room, ordered, startReplay_ordered ordered, Nat.le_refl _,
    List.prefix_rfl, _, List.getElem?_concat_length, ?_, ?_⟩
  · intro cursor upTo same
    cases same
    rfl
  · right
    refine ⟨rfl, rfl, ?_⟩
    rintro chunk (⟨unacked, reached⟩ | ⟨listed, absent⟩) beyond
    · have reached : chunk.sequence ≤ origin.lastAcked := reached
      have beyond : origin.lastAcked < chunk.sequence := beyond
      omega
    · exact absurd (offered chunk listed) absent

/-- Only chunks of the spool have been enqueued. -/
theorem step_offered {next : Sender} {event : SenderEvent}
    (known : ∀ chunk ∈ sender.offered, chunk ∈ sender.spool)
    (stepped : sender.next maxQueue event = some next) :
    ∀ chunk ∈ next.offered, chunk ∈ next.spool := by
  have offering : ∀ (state : Sender) (chunk : SpoolChunk) successes,
      state.offered = sender.offered → state.spool = sender.spool →
      chunk ∈ sender.spool →
      ∀ other ∈ (state.offer maxQueue chunk successes).offered,
        other ∈ (state.offer maxQueue chunk successes).spool := by
    intro state chunk successes offered spool member other listed
    have fields := offer_fields maxQueue state chunk successes
    rw [fields.2.2.2, offered, List.mem_append,
      List.mem_singleton] at listed
    rw [fields.1, spool]
    rcases listed with old | rfl
    · exact known other old
    · exact member
  cases event with
  | append stream bytes =>
    cases stepped
    exact fun chunk listed => List.mem_append_left _ (known chunk listed)
  | enqueue position successes =>
    simp only [Sender.next, Option.bind_eq_bind,
      Option.bind_eq_some_iff] at stepped
    rcases stepped with ⟨chunk, found, same⟩
    cases same
    exact offering sender chunk successes rfl rfl
      (List.mem_of_getElem? found)
  | onAck sequence successes =>
    cases stepped
    unfold Sender.onAck
    simp only
    split
    · exact known
    · exact known
  | setAcked sequence => cases stepped; exact known
  | startReplay => cases stepped; exact known
  | replayNext replay successes =>
    simp only [Sender.next] at stepped
    split at stepped
    next cursor upTo _ =>
      simp only [Option.bind_eq_bind,
        Option.bind_eq_some_iff] at stepped
      rcases stepped with ⟨chunk, found, same⟩
      cases same
      exact offering _ chunk successes rfl rfl
        (List.mem_of_getElem? found)
    next => cases stepped
  | replayDone replay =>
    simp only [Sender.next] at stepped
    split at stepped
    · split at stepped
      · cases stepped
        exact known
      · cases stepped
    · cases stepped
  | channelAvailable =>
    cases stepped
    intro chunk absurd
    cases absurd

theorem steps_offered {allowed : Sender → SenderEvent → Prop} {later : Sender}
    (steps : (sending maxQueue).Steps allowed sender later)
    (known : ∀ chunk ∈ sender.offered, chunk ∈ sender.spool) :
    ∀ chunk ∈ later.offered, chunk ∈ later.spool := by
  induction steps with
  | refl => exact known
  | tail _ last induction =>
    rcases last with ⟨event, _, stepped⟩
    exact step_offered induction stepped

/-! ## Recovery -/

/-- At the end of a replay: what was in the spool when it began, and what was
enqueued since, has been sent since the channel became available or is
acknowledged; no acknowledged chunk is retained, and every pump went in
order. -/
structure Recovered (origin final : Sender) : Prop where
  sent : ∀ chunk ∈ final.spool, final.lastAcked < chunk.sequence →
    chunk ∈ origin.spool ∨ chunk ∈ final.offered → chunk ∈ final.sent
  retained : ∀ chunk ∈ final.queue, final.lastAcked < chunk.sequence
  increasing : ∀ handed ∈ final.pumps, Increasing handed

/-- After any history the channel becomes available.  A replay that starts
while the queue has room, and is empty or lacks an unacknowledged chunk of
the spool, recovers everything by the time it completes, whatever else is
enqueued, acknowledged and replayed meanwhile. -/
theorem replay_recovers {maxQueue : Nat} {available origin final : Sender}
    (reachable : (sending maxQueue).Reachable (fun _ _ => True) available)
    (before : (sending maxQueue).Steps
      (fun _ event => event.delivers = true)
      { available with offered := [], pumps := [] } origin)
    (recoverable : origin.Recoverable maxQueue)
    (during : (sending maxQueue).Steps
      (fun _ event => event.recovers = true) origin.startReplay final)
    (completed : final.replays[origin.replays.length]? =
      some .completed) :
    Recovered origin final ∧
      ∀ handed ∈ available.pumps, Increasing handed := by
  rcases reachable with ⟨start, rfl, history⟩
  have old := steps_ordered history new_ordered
  refine ⟨?_, old.pumped⟩
  have ordered : origin.Ordered := by
    apply steps_ordered before
    exact ⟨old.numbered, old.spooled, old.increasing,
      fun _ absurd => by cases absurd⟩
  have offered : ∀ chunk ∈ origin.offered, chunk ∈ origin.spool :=
    steps_offered before fun _ absurd => by cases absurd
  have preserved : ∀ state event next, Recovering maxQueue origin state →
      SenderEvent.recovers event = true →
      (sending maxQueue).step state event = some next →
      Recovering maxQueue origin next :=
    fun _ _ _ held recovers stepped => step_recovering held recovers stepped
  have recovering : Recovering maxQueue origin final :=
    during.preserves preserved
      (startReplay_recovering ordered recoverable.1 offered)
  rcases recovering.replay with ⟨replay, found, _, progress⟩
  rw [completed, Option.some.injEq] at found
  -- Had nothing been pumped, the queue would still lack the chunk.
  have pumped : final.queue = [] ∧ ∀ chunk,
      Due origin final replay chunk → final.lastAcked < chunk.sequence →
      chunk ∈ final.sent := by
    rcases progress with done | ⟨same, level, queued⟩
    · exact done
    · rcases recoverable.2 with empty | ⟨chunk, unacked, absent⟩
      · refine ⟨same.trans empty, ?_⟩
        intro chunk due beyond
        have member := queued chunk due beyond
        rw [same, empty] at member
        cases member
      · refine absurd ?_ absent
        rw [← same]
        apply queued chunk
        · left
          rw [← found]
          exact ⟨unacked, trivial⟩
        · rw [level]
          exact of_decide_eq_true (List.mem_filter.mp unacked).2
  refine ⟨?_, ?_, recovering.ordered.pumped⟩
  · intro chunk _ beyond known
    apply pumped.2 chunk _ beyond
    by_cases old : chunk ∈ origin.spool
    · left
      rw [← found]
      refine ⟨List.mem_filter.mpr ⟨old, decide_eq_true ?_⟩, trivial⟩
      exact Nat.lt_of_le_of_lt recovering.acked beyond
    · right
      exact ⟨known.resolve_left old, old⟩
  · intro chunk member
    rw [pumped.1] at member
    cases member

/-- Two chunks in the spool and the first in the queue: the replay finds the
first queued, pushes the second and sends both. -/
theorem replay_recovers_two :
    ∃ final, Sender.sent final = [⟨1, .stdout, "a"⟩, ⟨2, .stdout, "b"⟩] ∧
      ∃ origin, Recovered origin final := by
  let history : List SenderEvent :=
    [.append .stdout "a", .append .stdout "b", .enqueue 0 (some 0)]
  have first : (sending 2).run .new history = some
      ⟨[⟨1, .stdout, "a"⟩], 0, false,
        [⟨1, .stdout, "a"⟩, ⟨2, .stdout, "b"⟩], [],
        [⟨1, .stdout, "a"⟩], [[⟨1, .stdout, "a"⟩]]⟩ := by
    decide +kernel
  have second : (sending 2).run
      (Sender.startReplay ⟨[⟨1, .stdout, "a"⟩], 0, false,
        [⟨1, .stdout, "a"⟩, ⟨2, .stdout, "b"⟩], [], [], []⟩)
      [.replayNext 0 none, .replayNext 0 none, .replayDone 0] = some
      ⟨[], 0, false, [⟨1, .stdout, "a"⟩, ⟨2, .stdout, "b"⟩], [.completed],
        [⟨1, .stdout, "a"⟩, ⟨2, .stdout, "b"⟩],
        [[⟨1, .stdout, "a"⟩, ⟨2, .stdout, "b"⟩]]⟩ := by
    decide +kernel
  have reached : (sending 2).Steps (fun _ _ => True) .new _ :=
    Machine.steps_of_run_eq_some first
  have replayed : (sending 2).Steps
      (fun _ event => event.recovers = true) _ _ :=
    Machine.steps_of_run (fun _ event => event.recovers)
      (fun _ _ met => met) (by decide +kernel) second
  have recovered := replay_recovers ⟨_, rfl, reached⟩ .refl (by decide)
    replayed rfl
  exact ⟨_, rfl, _, recovered.1⟩

/-- With the only chunk of the spool already queued, the replay finds it,
pumps nothing and completes. -/
theorem queued_chunk_never_sent :
    ∃ available final,
      (sending 1).Reachable (fun _ _ => True) available ∧
      (sending 1).Steps (fun _ event => event.recovers = true)
        (Sender.startReplay
          { available with offered := [], pumps := [] }) final ∧
      final.replays[available.replays.length]? = some .completed ∧
      ¬ Recovered { available with offered := [], pumps := [] } final := by
  have first : (sending 1).run .new
      [.append .stdout "a", .enqueue 0 (some 0)] = some
      ⟨[⟨1, .stdout, "a"⟩], 0, false, [⟨1, .stdout, "a"⟩], [],
        [⟨1, .stdout, "a"⟩], [[⟨1, .stdout, "a"⟩]]⟩ := by
    decide +kernel
  have second : (sending 1).run
      (Sender.startReplay ⟨[⟨1, .stdout, "a"⟩], 0, false,
        [⟨1, .stdout, "a"⟩], [], [], []⟩)
      [.replayNext 0 none, .replayDone 0] = some
      ⟨[⟨1, .stdout, "a"⟩], 0, false, [⟨1, .stdout, "a"⟩], [.completed],
        [⟨1, .stdout, "a"⟩], []⟩ := by
    decide +kernel
  have reached : (sending 1).Steps (fun _ _ => True) .new _ :=
    Machine.steps_of_run_eq_some first
  have replayed : (sending 1).Steps
      (fun _ event => event.recovers = true) _ _ :=
    Machine.steps_of_run (fun _ event => event.recovers)
      (fun _ _ met => met) (by decide +kernel) second
  refine ⟨_, _, ⟨_, rfl, reached⟩, replayed, rfl, ?_⟩
  intro recovered
  have sent := recovered.sent ⟨1, .stdout, "a"⟩ (by decide) (by decide)
    (.inl (by decide))
  cases sent

end Rbo.Agent.SpoolSender
