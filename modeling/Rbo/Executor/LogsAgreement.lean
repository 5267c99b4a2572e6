import Rbo.Executor.Spool

/-!
# The accelerator on reachable directories

The directories that the Controller's appends and the agent's spool leave
behind, with a torn tail on the index and any text at all in the accelerator.
The accelerated reads agree with the full scan on all of them but those whose
accelerator names a torn record that lacks only its newline.
-/

namespace Rbo.Executor.Logs

open Rbo.Foundation
open Rbo.Foundation.Lines
open Rbo.Executor.Spool

/-- A directory that a run of appends leaves behind. -/
inductive Written : AttemptLogs → Prop where
  | controller {run : AppendRun}
      (reachable : appendMachine.Reachable AppendRun.StartsWhole run) :
      Written run.logs
  | agent {run : SpoolRun}
      (reachable : spoolMachine.Reachable SpoolRun.InStep run) :
      Written run.logs

/-- Such a directory has complete records and a torn tail. -/
theorem Written.tornIndex {logs : AttemptLogs} (written : Written logs) :
    ∃ entries torn tail, TornIndex logs entries torn tail := by
  cases written with
  | controller reachable =>
    rcases recorded_of_startsWhole reachable with
      ⟨ledger, torn, tail, durable, _⟩
    exact ⟨_, torn, tail, durable.index⟩
  | agent reachable =>
    rcases recorded_of_reachable reachable with
      ⟨ledger, torn, tail, durable, _⟩
    exact ⟨_, torn, tail, durable.index⟩

/--
The index has a complete line, the text after its last newline is a whole
record, and the newest usable checkpoint is the one just before that record.
-/
def AttemptLogs.NamesTornRecord (logs : AttemptLogs) : Prop :=
  '\n' ∈ logs.chunks ∧
    ∃ torn : ChunkIndexEntry,
      pendingText logs.chunks = torn.stringify ∧
      newestCandidate Json.maxSafeInteger logs.chunks.length
          (createReadStream logs.checkpoints) =
        some
          { sequence := torn.sequence - 1
            byteOffset :=
              logs.chunks.length - (pendingText logs.chunks).length }

/-- The record of a line determines its sequence. -/
theorem sequence_of_stringify {left right : ChunkIndexEntry}
    (equal : left.stringify = right.stringify) :
    left.sequence = right.sequence := by
  have values := left.parse_stringify
  rw [equal, right.parse_stringify, Option.some.injEq] at values
  simp only [ChunkIndexEntry.value, Json.Value.object.injEq,
    List.cons.injEq, Prod.mk.injEq, Json.Value.number.injEq,
    Json.Number.mk.injEq] at values
  exact values.1.2.2.1.symm

section

variable {logs : AttemptLogs} {entries : List ChunkIndexEntry}
  {torn : ChunkIndexEntry} {tail : List Char}

theorem TornIndex.newline_mem_iff (index : TornIndex logs entries torn tail) :
    '\n' ∈ logs.chunks ↔ entries ≠ [] := by
  rw [index.chunks, List.mem_append]
  constructor
  · rintro member rfl
    rcases member with member | member
    · cases member
    · exact index.newline_notMem_tail member
  · intro nonempty
    cases entries with
    | nil => exact absurd rfl nonempty
    | cons entry rest =>
      rw [recordsText_cons]
      exact Or.inl (List.mem_append_right _ List.mem_cons_self)

/-- Both ways to say that the accelerator names the torn record. -/
theorem TornIndex.namesTornRecord_iff
    (index : TornIndex logs entries torn tail) :
    logs.NamesTornRecord ↔ PointsAtTornRecord logs entries torn tail := by
  have offset :
      logs.chunks.length - tail.length = (recordsText entries).length := by
    rw [index.chunks, List.length_append, Nat.add_sub_cancel]
  rw [AttemptLogs.NamesTornRecord, PointsAtTornRecord,
    index.newline_mem_iff, index.pendingText_eq, offset]
  constructor
  · rintro ⟨nonempty, other, whole, newest⟩
    have parsed := other.parse_stringify
    rw [← whole] at parsed
    have complete := object_record_complete index.tornPrefix parsed
    rw [sequence_of_stringify (whole.symm.trans complete)] at newest
    exact ⟨nonempty, complete, newest⟩
  · rintro ⟨nonempty, complete, newest⟩
    exact ⟨nonempty, torn, complete, newest⟩

end

/-- Do the accelerated reads agree with the full scan? -/
def AttemptLogs.AcceleratorAgrees (logs : AttemptLogs) : Prop :=
  (∀ afterSequence,
    iterChunkIndexEntriesAfter logs afterSequence =
      (iterChunkIndexEntries logs).filter fun entry =>
        afterSequence < entry.sequence) ∧
  readLastChunkSequence logs = lastSequence (iterChunkIndexEntries logs)

/--
On every directory that appends leave behind, with any text in the
accelerator, the accelerated reads agree with the full scan if and only if the
accelerator does not name the torn record.
-/
theorem acceleratorAgrees_iff {logs : AttemptLogs} (written : Written logs)
    (checkpoints : List Char) :
    ({ logs with checkpoints := checkpoints } :
        AttemptLogs).AcceleratorAgrees ↔
      ¬ ({ logs with checkpoints := checkpoints } :
        AttemptLogs).NamesTornRecord := by
  rcases written.tornIndex with ⟨entries, torn, tail, index⟩
  have damaged :
      TornIndex { logs with checkpoints := checkpoints } entries torn
        tail :=
    index.frame rfl fun stream => by
      cases stream <;> exact List.prefix_rfl
  rw [damaged.namesTornRecord_iff, AttemptLogs.AcceleratorAgrees]
  exact damaged.accelerated_iff

/-- A run whose second append is cut after some text of its index line. -/
def cutIndexRun (written : Nat) : List AppendCall :=
  [⟨.stdout, [97], 1, none, none⟩,
    ⟨.stdout, [98], 2, none, some (.index written)⟩]

/-- The directory of that run. -/
def cutIndexLogs (written : Nat) : AttemptLogs :=
  match appendMachine.run { logs := ensureAttemptLogs, returned := [] }
      (cutIndexRun written) with
  | some run => run.logs
  | none => ensureAttemptLogs

theorem written_cutIndexLogs {written : Nat}
    (meets :
      appendMachine.runMeets
        (fun state call => decide (state.StartsWhole call))
        { logs := ensureAttemptLogs, returned := [] }
        (cutIndexRun written) = true) :
    Written (cutIndexLogs written) := by
  have start : Written ensureAttemptLogs :=
    @Written.controller { logs := ensureAttemptLogs, returned := [] }
      (.start rfl)
  rw [cutIndexLogs]
  split
  · rename_i run ran
    exact Written.controller
      ⟨_, rfl, Machine.steps_of_run _ (fun _ _ => of_decide_eq_true) meets
        ran⟩
  · exact start

theorem acceleratorAgrees_cutIndexLogs :
    Written (cutIndexLogs 9) ∧
      ({ cutIndexLogs 9 with
          checkpoints := ChunkIndexCheckpoint.line ⟨0, 0⟩ } :
        AttemptLogs).AcceleratorAgrees := by
  have written : Written (cutIndexLogs 9) :=
    written_cutIndexLogs (by decide +kernel)
  refine ⟨written, (acceleratorAgrees_iff written _).mpr ?_⟩
  rintro ⟨_, torn, _, newest⟩
  have start :
      newestCandidate Json.maxSafeInteger (cutIndexLogs 9).chunks.length
          (createReadStream (ChunkIndexCheckpoint.line ⟨0, 0⟩)) =
        some ⟨0, 0⟩ := by
    decide +kernel
  have offset :
      (cutIndexLogs 9).chunks.length -
          (pendingText (cutIndexLogs 9).chunks).length ≠ 0 := by
    decide +kernel
  rw [start, Option.some.injEq, ChunkIndexCheckpoint.mk.injEq] at newest
  exact offset newest.2.symm

/-- The length of the index line of the first append of the run. -/
def firstLineLength : Nat :=
  (ChunkIndexEntry.line ⟨1, .stdout, 0, 1⟩).length

/--
With a torn record that lacks only its newline and a checkpoint before it, the
search for the last sequence finds none, although the full scan finds one.
-/
theorem last_sequence_lost_at_torn_record :
    ∃ logs checkpoints,
      Written logs ∧
      ¬ ({ logs with checkpoints := checkpoints } :
        AttemptLogs).AcceleratorAgrees := by
  refine ⟨cutIndexLogs (firstLineLength - 1),
    ChunkIndexCheckpoint.line ⟨1, firstLineLength⟩,
    written_cutIndexLogs (by decide +kernel), ?_⟩
  rintro ⟨_, last⟩
  revert last
  decide +kernel

end Rbo.Executor.Logs
