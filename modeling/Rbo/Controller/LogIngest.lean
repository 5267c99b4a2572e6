import Rbo.Executor.LogsDurable

/-!
# Log ingest

The Controller appends the chunks of an attempt to its log directory and keeps
the last acknowledged sequence in a column of the attempt's row.  Frames of
one attempt are handled one after the other, each in this order: the append,
the column, the acknowledgement.  A crash may come between any two of these
steps or inside the append.
-/

namespace Rbo.Controller.LogIngest

open Rbo.Foundation
open Rbo.Foundation.Lines
open Rbo.Executor.Logs

/-! ## The handler -/

/-- The fields of a `log_chunk` frame that its handler uses. -/
structure LogChunkPayload where
  stream : Stream
  sequence : Nat
  bytes : List UInt8
  deriving DecidableEq

/-- What is left of an attempt's log after a crash, and what was sent. -/
structure Ingest where
  logs : AttemptLogs
  logAckedSequence : Nat
  acks : List Nat
  deriving DecidableEq

/-- Where a crash cuts the handling of a frame. -/
inductive Crash where
  | append (point : WritePoint)
  | beforeUpdate
  | beforeAck
  deriving DecidableEq

/--
One delivery of a frame: whether the fence accepts it, whether the agent is
connected when it would be acknowledged, and the crash that cuts it, if any.
-/
structure Delivery where
  payload : LogChunkPayload
  accepted : Bool
  connected : Bool
  crash : Option Crash
  deriving DecidableEq

/-- `sendAck` of a frame, which needs a connection and no earlier crash. -/
def Ingest.sendAck (ingest : Ingest) (delivery : Delivery) : Ingest :=
  if delivery.connected ∧ delivery.crash = none then
    { ingest with acks := ingest.acks ++ [delivery.payload.sequence] }
  else
    ingest

/-- `updateAttempt(…, { log_acked_sequence })`. -/
def Ingest.updateAttempt (ingest : Ingest) (sequence : Nat) : Ingest :=
  { ingest with logAckedSequence := sequence }

/-- `handleRemoteLogChunk`. -/
def Ingest.handleRemoteLogChunk (ingest : Ingest) (delivery : Delivery) :
    Ingest :=
  let payload := delivery.payload
  if delivery.accepted = false then
    ingest
  else if payload.sequence ≤ ingest.logAckedSequence then
    -- Already acknowledged: acknowledge again without appending.
    ingest.sendAck delivery
  else if payload.sequence ≠ ingest.logAckedSequence + 1 then
    ingest
  else
    match appendIndexedLogChunk ingest.logs payload.stream payload.bytes
        payload.sequence none with
    | none => ingest
    | some (logs, entry) =>
      match delivery.crash with
      | some (.append point) =>
        { ingest with
          logs :=
            writeChunkUntil ingest.logs payload.bytes entry point }
      | some .beforeUpdate => { ingest with logs := logs }
      | _ =>
        (Ingest.updateAttempt { ingest with logs := logs }
          payload.sequence).sendAck delivery

/-- Deliveries for one attempt, in any order. -/
def ingestMachine : Machine Ingest Delivery where
  initial ingest :=
    ingest =
      { logs := ensureAttemptLogs, logAckedSequence := 0, acks := [] }
  step ingest delivery := some (ingest.handleRemoteLogChunk delivery)

/-! ## What ingest promises -/

/-- The chunk's numbers are exact as JavaScript numbers. -/
def Ingest.SafeNumbers (ingest : Ingest) (payload : LogChunkPayload) :
    Prop :=
  payload.sequence ≤ Json.maxSafeInteger ∧
    ingest.logs.size payload.stream + payload.bytes.length ≤
      Json.maxSafeInteger

/-- The index holds the sequences 1 to n, and the acknowledged one is there. -/
def Ingest.ExactlyOnce (ingest : Ingest) : Prop :=
  ∃ count,
    (iterChunkIndexEntries ingest.logs).map ChunkIndexEntry.sequence =
      List.range' 1 count ∧
    ingest.logAckedSequence ≤ count

/-- Redelivery of the next chunk is handled to its acknowledgement. -/
def Ingest.Advances (ingest : Ingest) : Prop :=
  ∀ payload : LogChunkPayload,
    payload.sequence = ingest.logAckedSequence + 1 →
    ingest.SafeNumbers payload →
    let next :=
      ingest.handleRemoteLogChunk
        { payload := payload
          accepted := true
          connected := true
          crash := none }
    payload.sequence ∈
        (iterChunkIndexEntries next.logs).map ChunkIndexEntry.sequence ∧
      next.logAckedSequence = payload.sequence ∧
      next.acks = ingest.acks ++ [payload.sequence]

/--
No crash falls between the first byte of an index line and the update of the
acknowledged sequence.
-/
def Crash.Outside : Crash → Prop
  | .append (.stream _) => True
  | .append (.index written) => written = 0
  | .append (.checkpoint _) => False
  | .beforeUpdate => False
  | .beforeAck => True

/-- The condition on a delivery. -/
def Ingest.Meets (ingest : Ingest) (delivery : Delivery) : Prop :=
  (∀ crash ∈ delivery.crash, crash.Outside) ∧
    (delivery.payload.sequence = ingest.logAckedSequence + 1 →
      ingest.SafeNumbers delivery.payload)

/-! ## The invariant -/

/-- The directory holds exactly the acknowledged chunks. -/
def Ingest.Synchronised (ingest : Ingest) : Prop :=
  ∃ ledger torn,
    Durable ingest.logs ledger torn [] ∧
    (ledger.map Chunk.entry).map ChunkIndexEntry.sequence =
      List.range' 1 ingest.logAckedSequence

theorem lastSequence_eq_foldl (entries : List ChunkIndexEntry) :
    lastSequence entries =
      (entries.map ChunkIndexEntry.sequence).foldl
        (fun _ sequence => sequence) 0 := by
  rw [lastSequence, List.foldl_map]

theorem foldl_last_range' (count : Nat) :
    (List.range' 1 count).foldl (fun _ sequence => sequence) 0 = count := by
  cases count with
  | zero => rfl
  | succ smaller =>
    rw [List.range'_1_concat, List.foldl_append]
    exact Nat.add_comm 1 smaller

namespace Ingest

variable {ingest : Ingest}

section

variable (synchronised : ingest.Synchronised)

include synchronised

theorem Synchronised.exactlyOnce :
    ingest.ExactlyOnce := by
  rcases synchronised with ⟨ledger, torn, durable, sequences⟩
  refine ⟨ingest.logAckedSequence, ?_, le_rfl⟩
  rw [durable.iterChunkIndexEntries_eq, sequences]

/-- The guard of the append sees the acknowledged sequence. -/
theorem Synchronised.readLastChunkSequence_eq :
    readLastChunkSequence ingest.logs = ingest.logAckedSequence := by
  rcases synchronised with ⟨ledger, torn, durable, sequences⟩
  rw [durable.index.readLastChunkSequence_whole, lastSequence_eq_foldl,
    sequences, foldl_last_range']

/-- The next chunk is appended. -/
theorem Synchronised.append {payload : LogChunkPayload}
    (sequence : payload.sequence = ingest.logAckedSequence + 1) :
    appendIndexedLogChunk ingest.logs payload.stream payload.bytes
        payload.sequence none =
      some
        (writeChunk ingest.logs payload.bytes
            (newEntry ingest.logs payload.stream payload.bytes
              payload.sequence none),
          newEntry ingest.logs payload.stream payload.bytes
            payload.sequence none) := by
  rw [appendIndexedLogChunk, synchronised.readLastChunkSequence_eq,
    if_neg (by omega)]

/-- The entry of the next chunk goes to the end of its stream file. -/
theorem Synchronised.appendsAt {ledger : List Chunk} {torn : ChunkIndexEntry}
    (durable : Durable ingest.logs ledger torn []) {payload : LogChunkPayload}
    (sequence : payload.sequence = ingest.logAckedSequence + 1)
    (safe : ingest.SafeNumbers payload) :
    AppendsAt ingest.logs (ledger.map Chunk.entry) payload.bytes
      (newEntry ingest.logs payload.stream payload.bytes payload.sequence
        none) := by
  refine durable.index.appendsAt_newEntry ?_ (by simp) safe.1 safe.2
  rw [synchronised.readLastChunkSequence_eq]
  omega

/-- With the column updated, the appended chunk is acknowledged. -/
theorem Synchronised.written {payload : LogChunkPayload}
    (sequence : payload.sequence = ingest.logAckedSequence + 1)
    (safe : ingest.SafeNumbers payload) (acks : List Nat) :
    Synchronised
      { logs :=
          writeChunk ingest.logs payload.bytes
            (newEntry ingest.logs payload.stream payload.bytes
              payload.sequence none)
        logAckedSequence := payload.sequence
        acks := acks } := by
  have whole := synchronised
  rcases synchronised with ⟨ledger, torn, durable, sequences⟩
  refine ⟨_, torn,
    durable.writeChunk (whole.appendsAt durable sequence safe), ?_⟩
  rw [List.map_append, List.map_append, sequences, sequence,
    List.range'_1_concat, Nat.add_comm 1]
  rw [← sequence]
  rfl

/-- A crash in the stream write leaves nothing but bytes nobody reads. -/
theorem Synchronised.streamCut {later : AttemptLogs}
    (chunks : later.chunks = ingest.logs.chunks)
    (continues : later.Continues ingest.logs) :
    Synchronised { ingest with logs := later } := by
  rcases synchronised with ⟨ledger, torn, durable, sequences⟩
  exact ⟨ledger, torn, durable.frame chunks continues, sequences⟩

end

theorem sendAck_logs (delivery : Delivery) :
    (ingest.sendAck delivery).logs = ingest.logs := by
  rw [Ingest.sendAck]
  split <;> rfl

theorem sendAck_logAckedSequence (delivery : Delivery) :
    (ingest.sendAck delivery).logAckedSequence =
      ingest.logAckedSequence := by
  rw [Ingest.sendAck]
  split <;> rfl

theorem Synchronised.sendAck (synchronised : ingest.Synchronised)
    (delivery : Delivery) : (ingest.sendAck delivery).Synchronised := by
  rw [Ingest.Synchronised, sendAck_logs, sendAck_logAckedSequence]
  exact synchronised

/-- One delivery keeps the column and the directory together. -/
theorem Synchronised.handleRemoteLogChunk
    (synchronised : ingest.Synchronised) {delivery : Delivery}
    (meets : ingest.Meets delivery) :
    (ingest.handleRemoteLogChunk delivery).Synchronised := by
  rcases meets with ⟨outside, safe⟩
  rw [Ingest.handleRemoteLogChunk]
  split
  · exact synchronised
  · split
    · exact synchronised.sendAck delivery
    · split
      · exact synchronised
      · rename_i next
        rw [not_not] at next
        rw [synchronised.append next]
        dsimp only
        split
        · rename_i point crash
          have allowed := outside _ crash
          cases point with
          | stream written =>
            exact synchronised.streamCut (chunks_appendLogChunk _ _ _)
              (continues_appendLogChunk _ _ _)
          | index written =>
            rw [show written = 0 from allowed]
            exact synchronised.streamCut
              (by simp [writeChunkUntil])
              (continues_appendChunksText _ _ _ _)
          | checkpoint written => exact allowed.elim
        · rename_i crash
          exact (outside _ crash).elim
        · exact (synchronised.written next (safe next) _).sendAck delivery

/-- Redelivery of the next chunk always reaches its acknowledgement. -/
theorem Synchronised.advances (synchronised : ingest.Synchronised) :
    ingest.Advances := by
  intro payload sequence safe
  have written := synchronised.written sequence safe
    (ingest.acks ++ [payload.sequence])
  have handled :
      ingest.handleRemoteLogChunk
          { payload := payload
            accepted := true
            connected := true
            crash := none } =
        { logs :=
            writeChunk ingest.logs payload.bytes
              (newEntry ingest.logs payload.stream payload.bytes
                payload.sequence none)
          logAckedSequence := payload.sequence
          acks := ingest.acks ++ [payload.sequence] } := by
    rw [Ingest.handleRemoteLogChunk]
    dsimp only
    rw [if_neg (by decide), if_neg (by omega), if_neg (not_not.mpr sequence),
      synchronised.append sequence]
    rfl
  rw [handled]
  refine ⟨?_, rfl, rfl⟩
  rcases written with ⟨ledger, torn, durable, sequences⟩
  rw [durable.iterChunkIndexEntries_eq, sequences, List.mem_range'_1]
  dsimp only
  omega

end Ingest

/--
In every run of deliveries whose crashes stay outside the window between an
index line and its acknowledgement column, the index holds every sequence
exactly once up to some number, the acknowledged sequence is among them, and
redelivery of the next chunk advances it.
-/
theorem ingest_exactly_once {ingest : Ingest}
    (reachable : ingestMachine.Reachable Ingest.Meets ingest) :
    ingest.ExactlyOnce ∧ ingest.Advances := by
  have synchronised : ingest.Synchronised := by
    refine reachable.invariant ?_ ?_
    · rintro state rfl
      exact ⟨[], ⟨0, .stdout, 0, 0⟩, durable_ensureAttemptLogs _, rfl⟩
    · intro state delivery next synchronised meets step
      rw [ingestMachine, Option.some.injEq] at step
      subst step
      exact synchronised.handleRemoteLogChunk meets
  exact ⟨synchronised.exactlyOnce, synchronised.advances⟩

instance (crash : Crash) : Decidable crash.Outside :=
  match crash with
  | .append (.stream _) => isTrue trivial
  | .append (.index written) => inferInstanceAs (Decidable (written = 0))
  | .append (.checkpoint _) => isFalse id
  | .beforeUpdate => isFalse id
  | .beforeAck => isTrue trivial

instance (ingest : Ingest) (payload : LogChunkPayload) :
    Decidable (ingest.SafeNumbers payload) :=
  inferInstanceAs (Decidable (_ ∧ _))

instance (ingest : Ingest) (delivery : Delivery) :
    Decidable (ingest.Meets delivery) :=
  inferInstanceAs (Decidable (_ ∧ _))

/-- An attempt before its first log chunk. -/
def freshIngest : Ingest where
  logs := ensureAttemptLogs
  logAckedSequence := 0
  acks := []

/-- One delivery of the chunk with a sequence. -/
def deliver (sequence : Nat) (byte : UInt8) (crash : Option Crash) :
    Delivery where
  payload := { stream := .stdout, sequence := sequence, bytes := [byte] }
  accepted := true
  connected := true
  crash := crash

/-- Duplicates, a gap, and crashes outside the window. -/
def replayedRun : List Delivery :=
  [deliver 1 97 (some (.append (.stream 1))), deliver 1 97 (some .beforeAck),
    deliver 3 99 none, deliver 1 97 none, deliver 2 98 none]

theorem ingest_exactly_once_replayedRun :
    ∃ ingest,
      ingestMachine.Reachable Ingest.Meets ingest ∧
      ingest.acks = [1, 2] ∧ ingest.ExactlyOnce ∧ ingest.Advances := by
  have ran :
      (ingestMachine.run freshIngest replayedRun).map
          (fun ingest => ingest.acks) =
        some [1, 2] := by
    decide +kernel
  rcases Option.map_eq_some_iff.mp ran with ⟨ingest, final, acks⟩
  have reachable : ingestMachine.Reachable Ingest.Meets ingest :=
    ⟨_, rfl, Machine.steps_of_run
      (fun state delivery => decide (state.Meets delivery))
      (fun _ _ => of_decide_eq_true) (by decide +kernel) final⟩
  exact ⟨ingest, reachable, acks, ingest_exactly_once reachable⟩

/--
A crash between the append and the update of the column: the chunk is durable
but not acknowledged, and its redelivery is refused.
-/
theorem redelivery_wedged_after_crash :
    ∃ ingest,
      ingestMachine.Reachable (fun _ _ => True) ingest ∧
      ¬ (ingest.ExactlyOnce ∧ ingest.Advances) := by
  have ran :
      (ingestMachine.run freshIngest
          [deliver 1 97 (some .beforeUpdate)]).map
        (fun ingest =>
          decide (ingest.logAckedSequence = 0 ∧
            ingest.SafeNumbers (deliver 1 97 none).payload ∧
            (ingest.handleRemoteLogChunk
              (deliver 1 97 none)).logAckedSequence = 0)) =
        some true := by
    decide +kernel
  rcases Option.map_eq_some_iff.mp ran with ⟨ingest, final, facts⟩
  rcases of_decide_eq_true facts with ⟨acked, safe, stuck⟩
  refine ⟨ingest, ⟨_, rfl, Machine.steps_of_run
    (fun _ _ => true) (fun _ _ _ => trivial) (by decide +kernel)
    final⟩, ?_⟩
  rintro ⟨_, advances⟩
  have advanced :=
    advances (deliver 1 97 none).payload (by rw [acked]; rfl) safe
  exact absurd (stuck.symm.trans advanced.2.1) (by decide)

end Rbo.Controller.LogIngest
