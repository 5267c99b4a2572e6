import Rbo.Executor.LogsScan
import Rbo.Foundation.Run

/-!
# What a log directory holds durably

An append makes three writes to three files, and it can be cut after any
number of bytes of any of them.  A ledger lists the chunks whose index line is
complete; the directory holds a ledger when its index is made of these lines
and a torn tail, and every chunk of the ledger reads back as it was written.
-/

namespace Rbo.Executor.Logs

open Rbo.Foundation
open Rbo.Foundation.Lines

/-! ## Chunks in a directory -/

/-- An index entry with the bytes it was written for. -/
structure Chunk where
  entry : ChunkIndexEntry
  bytes : List UInt8
  deriving DecidableEq

/-- The stream files of `later` continue those of `logs`. -/
def AttemptLogs.Continues (later logs : AttemptLogs) : Prop :=
  ∀ stream, logs.file stream <+: later.file stream

variable {logs : AttemptLogs}

theorem AttemptLogs.Continues.size_le {later : AttemptLogs}
    (continues : later.Continues logs) (stream : Stream) :
    logs.size stream ≤ later.size stream :=
  (continues stream).length_le

theorem file_appendLogChunk (logs : AttemptLogs) (stream other : Stream)
    (bytes : List UInt8) :
    (appendLogChunk logs stream bytes).file other =
      if other = stream then logs.file other ++ bytes
      else logs.file other := by
  cases stream <;> cases other <;> rfl

@[simp]
theorem chunks_appendLogChunk (logs : AttemptLogs) (stream : Stream)
    (bytes : List UInt8) :
    (appendLogChunk logs stream bytes).chunks = logs.chunks := by
  cases stream <;> rfl

@[simp]
theorem chunks_appendChunksText (logs : AttemptLogs) (text : List Char) :
    (appendChunksText logs text).chunks = logs.chunks ++ text :=
  rfl

@[simp]
theorem file_appendChunksText (logs : AttemptLogs) (text : List Char)
    (stream : Stream) :
    (appendChunksText logs text).file stream = logs.file stream := by
  cases stream <;> rfl

@[simp]
theorem chunks_appendCheckpointText (logs : AttemptLogs)
    (text : List Char) :
    (appendCheckpointText logs text).chunks = logs.chunks :=
  rfl

@[simp]
theorem file_appendCheckpointText (logs : AttemptLogs)
    (text : List Char) (stream : Stream) :
    (appendCheckpointText logs text).file stream = logs.file stream := by
  cases stream <;> rfl

theorem continues_appendLogChunk (logs : AttemptLogs) (stream : Stream)
    (bytes : List UInt8) :
    (appendLogChunk logs stream bytes).Continues logs := by
  intro other
  rw [file_appendLogChunk]
  split
  · exact List.prefix_append _ _
  · exact List.prefix_rfl

/-- The bytes of a chunk are what its entry reads back. -/
def Chunk.Stored (chunk : Chunk) (logs : AttemptLogs) : Prop :=
  readIndexedBytes (logs.file chunk.entry.stream) chunk.entry =
    some chunk.bytes

theorem Chunk.Stored.length_eq {chunk : Chunk} (stored : chunk.Stored logs) :
    chunk.bytes.length = chunk.entry.byteLength := by
  rw [Chunk.Stored, readIndexedBytes] at stored
  split at stored
  · rename_i empty
    rw [Option.some.injEq] at stored
    rw [← stored, empty]
    rfl
  · split at stored
    · cases stored
    · rename_i within
      rw [Option.some.injEq] at stored
      rw [← stored, List.length_take, List.length_drop]
      rw [ChunkIndexEntry.byteEnd] at within
      omega

/-- A range that is there reads the same in a continued file. -/
theorem readIndexedBytes_continued
    {file later : List UInt8} (continued : file <+: later)
    {entry : ChunkIndexEntry} {bytes : List UInt8}
    (read : readIndexedBytes file entry = some bytes) :
    readIndexedBytes later entry = some bytes := by
  rcases continued with ⟨more, rfl⟩
  rw [readIndexedBytes] at read ⊢
  split at read
  · rename_i empty
    rw [if_pos empty]
    exact read
  · rename_i nonempty
    split at read
    · cases read
    · rename_i present
      have inside : ¬ (file ++ more).length < entry.byteEnd := by
        rw [List.length_append]
        omega
      rw [if_neg nonempty, if_neg inside, ← read, Option.some.injEq]
      have bounded : entry.byteOffset + entry.byteLength ≤ file.length :=
        Nat.le_of_not_lt present
      rw [List.drop_append_of_le_length (by omega),
        List.take_append_of_le_length (by rw [List.length_drop]; omega)]

theorem Chunk.Stored.continues {chunk : Chunk} {later : AttemptLogs}
    (stored : chunk.Stored logs) (continues : later.Continues logs) :
    chunk.Stored later :=
  readIndexedBytes_continued (continues _) stored

/-- A chunk written at the end of its stream file reads back. -/
theorem stored_appendLogChunk (logs : AttemptLogs) (sequence : Nat)
    (stream : Stream) (bytes : List UInt8) :
    Chunk.Stored
      { entry :=
          { sequence := sequence
            stream := stream
            byteOffset := logs.size stream
            byteLength := bytes.length }
        bytes := bytes }
      (appendLogChunk logs stream bytes) := by
  have file :
      (appendLogChunk logs stream bytes).file stream =
        logs.file stream ++ bytes := by
    rw [file_appendLogChunk, if_pos rfl]
  rw [Chunk.Stored, readIndexedBytes]
  dsimp only
  split
  · rename_i empty
    rw [List.length_eq_zero_iff.mp empty]
  · rw [file, if_neg, AttemptLogs.size, List.drop_left, List.take_length]
    rw [ChunkIndexEntry.byteEnd, List.length_append]
    exact Nat.lt_irrefl _

/-! ## Writes to a whole index -/

theorem tornIndex_ensureAttemptLogs (torn : ChunkIndexEntry) :
    TornIndex ensureAttemptLogs [] torn [] where
  chunks := rfl
  safe := by simp
  inRange := by simp
  increasing := List.pairwise_singleton _ _
  tornPrefix := List.nil_prefix
  tornSafe := fun nonempty => absurd rfl nonempty
  tornLater := fun nonempty => absurd rfl nonempty

namespace TornIndex

variable {logs later : AttemptLogs} {entries : List ChunkIndexEntry}
  {torn : ChunkIndexEntry} {tail : List Char}

/-- The text after the last newline is the torn tail. -/
theorem pendingText_eq (index : TornIndex logs entries torn tail) :
    pendingText logs.chunks = tail := by
  have split :=
    splitLines_joinRecords
      (noNewline_records entries) index.newline_notMem_tail
  rw [index.chunks, pendingText]
  exact congrArg Prod.snd split

/-- Writes that leave the index alone keep its records. -/
theorem frame (index : TornIndex logs entries torn tail)
    (chunks : later.chunks = logs.chunks)
    (continues : later.Continues logs) :
    TornIndex later entries torn tail :=
  { index with
    chunks := chunks.trans index.chunks
    inRange := fun entry member =>
      (index.inRange entry member).trans (continues.size_le entry.stream) }

/-- Part of an index line after a whole index is a torn tail. -/
theorem tear (index : TornIndex logs entries torn [])
    {entry : ChunkIndexEntry} (safe : entry.Safe)
    (newer : ∀ other ∈ entries, other.sequence < entry.sequence)
    {part : List Char} (isPart : part <+: entry.stringify)
    (chunks : later.chunks = logs.chunks ++ part)
    (continues : later.Continues logs) :
    TornIndex later entries entry part where
  chunks := by
    rw [chunks, index.chunks, List.append_nil]
  safe := index.safe
  inRange := fun other member =>
    (index.inRange other member).trans (continues.size_le other.stream)
  increasing := index.increasing
  tornPrefix := isPart
  tornSafe := fun _ => safe
  tornLater := fun _ => newer

/-- A complete index line after a whole index adds its record. -/
theorem extend (index : TornIndex logs entries torn [])
    {entry : ChunkIndexEntry} (safe : entry.Safe)
    (newer : ∀ other ∈ entries, other.sequence < entry.sequence)
    (chunks : later.chunks = logs.chunks ++ entry.line)
    (continues : later.Continues logs)
    (inRange : entry.byteEnd ≤ later.size entry.stream) :
    TornIndex later (entries ++ [entry]) torn [] where
  chunks := by
    rw [chunks, index.chunks, List.append_nil, List.append_nil,
      recordsText_append]
    rfl
  safe := by
    intro other member
    rcases List.mem_append.mp member with member | member
    · exact index.safe other member
    · rw [List.mem_singleton.mp member]
      exact safe
  inRange := by
    intro other member
    rcases List.mem_append.mp member with member | member
    · exact (index.inRange other member).trans
        (continues.size_le other.stream)
    · rw [List.mem_singleton.mp member]
      exact inRange
  increasing := by
    rw [IncreasingFrom, List.map_append, ← List.cons_append,
      List.pairwise_append]
    refine ⟨index.increasing, List.pairwise_singleton _ _, ?_⟩
    intro earlier member last isLast
    rw [List.map_singleton, List.mem_singleton] at isLast
    subst isLast
    rcases List.mem_cons.mp member with rfl | member
    · exact safe.positive
    · rcases List.mem_map.mp member with ⟨other, inEntries, rfl⟩
      exact newer other inEntries
  tornPrefix := List.nil_prefix
  tornSafe := fun nonempty => absurd rfl nonempty
  tornLater := fun nonempty => absurd rfl nonempty

/-- Every sequence of the index is at most its last one. -/
theorem sequence_le_last (index : TornIndex logs entries torn tail)
    {entry : ChunkIndexEntry} (member : entry ∈ entries) :
    entry.sequence ≤ lastSequence entries := by
  have increasing := index.increasing
  rcases List.eq_nil_or_concat' entries with rfl | ⟨before, last, rfl⟩
  · cases member
  · rw [lastSequence_append_cons]
    rcases List.mem_append.mp member with member | member
    · rw [IncreasingFrom, List.map_append, ← List.cons_append,
        List.pairwise_append] at increasing
      have earlier :=
        increasing.2.2 entry.sequence
          (List.mem_cons_of_mem _ (List.mem_map_of_mem member))
          last.sequence (by simp)
      exact Nat.le_of_lt earlier
    · rw [List.mem_singleton.mp member]
      exact le_rfl

/-- The guard of an append lets only a new last sequence pass. -/
theorem newer_of_guard (index : TornIndex logs entries torn [])
    {sequence : Nat} (passes : ¬ sequence ≤ readLastChunkSequence logs) :
    ∀ entry ∈ entries, entry.sequence < sequence := by
  intro entry member
  have last := index.sequence_le_last member
  rw [index.readLastChunkSequence_whole] at passes
  omega

end TornIndex

/-! ## Ledgers -/

/--
The directory holds the chunks of a ledger, and after their index lines a
torn tail.
-/
structure Durable (logs : AttemptLogs) (ledger : List Chunk)
    (torn : ChunkIndexEntry) (tail : List Char) : Prop where
  index : TornIndex logs (ledger.map Chunk.entry) torn tail
  stored : ∀ chunk ∈ ledger, chunk.Stored logs

theorem durable_ensureAttemptLogs (torn : ChunkIndexEntry) :
    Durable ensureAttemptLogs [] torn [] where
  index := tornIndex_ensureAttemptLogs torn
  stored := by simp

namespace Durable

variable {logs later : AttemptLogs} {ledger : List Chunk}
  {torn : ChunkIndexEntry} {tail : List Char}

theorem iterChunkIndexEntries_eq (durable : Durable logs ledger torn tail) :
    iterChunkIndexEntries logs = ledger.map Chunk.entry :=
  durable.index.iterChunkIndexEntries_eq

theorem frame (durable : Durable logs ledger torn tail)
    (chunks : later.chunks = logs.chunks)
    (continues : later.Continues logs) :
    Durable later ledger torn tail where
  index := durable.index.frame chunks continues
  stored := fun chunk member =>
    (durable.stored chunk member).continues continues

theorem tear (durable : Durable logs ledger torn [])
    {entry : ChunkIndexEntry} (safe : entry.Safe)
    (newer : ∀ other ∈ ledger.map Chunk.entry,
      other.sequence < entry.sequence)
    {part : List Char} (isPart : part <+: entry.stringify)
    (chunks : later.chunks = logs.chunks ++ part)
    (continues : later.Continues logs) :
    Durable later ledger entry part where
  index := durable.index.tear safe newer isPart chunks continues
  stored := fun chunk member =>
    (durable.stored chunk member).continues continues

theorem extend (durable : Durable logs ledger torn [])
    {chunk : Chunk} (safe : chunk.entry.Safe)
    (newer : ∀ other ∈ ledger.map Chunk.entry,
      other.sequence < chunk.entry.sequence)
    (chunks : later.chunks = logs.chunks ++ chunk.entry.line)
    (continues : later.Continues logs)
    (inRange : chunk.entry.byteEnd ≤ later.size chunk.entry.stream)
    (stored : chunk.Stored later) :
    Durable later (ledger ++ [chunk]) torn [] where
  index := by
    rw [List.map_append]
    exact durable.index.extend safe newer chunks continues inRange
  stored := by
    intro other member
    rcases List.mem_append.mp member with member | member
    · exact (durable.stored other member).continues continues
    · rw [List.mem_singleton.mp member]
      exact stored

/-- No two chunks of a ledger share a sequence. -/
theorem filter_sequence (durable : Durable logs ledger torn tail)
    {chunk : Chunk} (member : chunk ∈ ledger) :
    (iterChunkIndexEntries logs).filter
        (fun entry => entry.sequence = chunk.entry.sequence) =
      [chunk.entry] := by
  rw [durable.iterChunkIndexEntries_eq]
  rcases List.append_of_mem member with ⟨before, after, rfl⟩
  have increasing := durable.index.increasing
  rw [IncreasingFrom, List.pairwise_cons, List.map_append,
    List.map_append, List.pairwise_append] at increasing
  rcases increasing.2 with ⟨_, fromChunk, across⟩
  rw [List.map_cons, List.map_cons, List.pairwise_cons] at fromChunk
  have none :
      ∀ others : List Chunk,
        (∀ other ∈ others, other.entry.sequence ≠ chunk.entry.sequence) →
        (others.map Chunk.entry).filter
          (fun entry => entry.sequence = chunk.entry.sequence) = [] := by
    intro others different
    rw [List.filter_eq_nil_iff]
    intro entry inMap
    rcases List.mem_map.mp inMap with ⟨other, inOthers, rfl⟩
    simpa using different other inOthers
  rw [List.map_append, List.map_cons, List.filter_append,
    List.filter_cons_of_pos (by simp), none before, none after]
  · rfl
  · intro other inAfter
    have later :=
      fromChunk.1 other.entry.sequence
        (List.mem_map_of_mem (List.mem_map_of_mem inAfter))
    omega
  · intro other inBefore
    have earlier :=
      across other.entry.sequence
        (List.mem_map_of_mem (List.mem_map_of_mem inBefore))
        chunk.entry.sequence (by simp)
    omega

end Durable

/-! ## Appends that are cut -/

/--
How far the three writes of an append get: the write that is begun last, and
how much of it reaches its file.
-/
inductive WritePoint where
  | stream (written : Nat)
  | index (written : Nat)
  | checkpoint (written : Nat)
  deriving DecidableEq

/-- The directory after the writes of an append up to a point. -/
def writeChunkUntil (logs : AttemptLogs) (chunk : List UInt8)
    (entry : ChunkIndexEntry) : WritePoint → AttemptLogs
  | .stream written =>
    appendLogChunk logs entry.stream (chunk.take written)
  | .index written =>
    appendChunksText (appendLogChunk logs entry.stream chunk)
      (entry.line.take written)
  | .checkpoint written =>
    appendCheckpointText
      (appendChunksText (appendLogChunk logs entry.stream chunk)
        entry.line)
      ((checkpointText entry.sequence logs.chunks.length).take written)

/-- Part of an index line is the line or a part of its record. -/
theorem ChunkIndexEntry.take_line (entry : ChunkIndexEntry)
    (written : Nat) :
    entry.line.take written = entry.line ∨
      entry.line.take written <+: entry.stringify := by
  by_cases short : written ≤ entry.stringify.length
  · refine Or.inr ?_
    rw [ChunkIndexEntry.line, List.take_append_of_le_length short]
    exact List.take_prefix _ _
  · refine Or.inl (List.take_of_length_le ?_)
    rw [ChunkIndexEntry.line, List.length_append, List.length_singleton]
    omega

theorem continues_appendChunksText (logs : AttemptLogs)
    (stream : Stream) (bytes : List UInt8) (text : List Char) :
    (appendChunksText (appendLogChunk logs stream bytes) text).Continues
      logs := by
  intro other
  rw [file_appendChunksText]
  exact continues_appendLogChunk logs stream bytes other

/-- An append at the end of its stream file, under a new last sequence. -/
structure AppendsAt (logs : AttemptLogs) (entries : List ChunkIndexEntry)
    (chunk : List UInt8) (entry : ChunkIndexEntry) : Prop where
  safe : entry.Safe
  newer : ∀ other ∈ entries, other.sequence < entry.sequence
  byteOffset : entry.byteOffset = logs.size entry.stream
  byteLength : entry.byteLength = chunk.length

namespace Durable

variable {logs later : AttemptLogs} {ledger : List Chunk}
  {torn : ChunkIndexEntry} {entry : ChunkIndexEntry}
  {chunk : List UInt8}

/-- With its index line complete, the chunk is in the ledger. -/
theorem complete (durable : Durable logs ledger torn [])
    (appends : AppendsAt logs (ledger.map Chunk.entry) chunk entry)
    (chunks : later.chunks = logs.chunks ++ entry.line)
    (files : ∀ stream, later.file stream =
      (appendLogChunk logs entry.stream chunk).file stream) :
    Durable later (ledger ++ [⟨entry, chunk⟩]) torn [] := by
  have continues : later.Continues logs := by
    intro stream
    rw [files]
    exact continues_appendLogChunk logs _ _ stream
  have size :
      later.size entry.stream = logs.size entry.stream + chunk.length := by
    rw [AttemptLogs.size, files, file_appendLogChunk, if_pos rfl,
      List.length_append]
    rfl
  refine durable.extend appends.safe appends.newer chunks continues ?_ ?_
  · rw [size, ChunkIndexEntry.byteEnd, appends.byteOffset,
      appends.byteLength]
  · have stored :=
      stored_appendLogChunk logs entry.sequence entry.stream chunk
    rw [← appends.byteOffset, ← appends.byteLength] at stored
    rw [Chunk.Stored] at stored ⊢
    rw [files]
    exact stored

/-- A returned append is in the ledger. -/
theorem writeChunk (durable : Durable logs ledger torn [])
    (appends : AppendsAt logs (ledger.map Chunk.entry) chunk entry) :
    Durable (Logs.writeChunk logs chunk entry)
      (ledger ++ [⟨entry, chunk⟩]) torn [] := by
  refine durable.complete appends ?_ ?_
  · rw [Logs.writeChunk, chunks_appendCheckpointText,
      chunks_appendChunksText, chunks_appendLogChunk]
  · intro stream
    rw [Logs.writeChunk, file_appendCheckpointText, file_appendChunksText]

/--
A cut append leaves the ledger alone, with part of its index line as the torn
tail, or it is in the ledger although it did not return.
-/
theorem writeChunkUntil (durable : Durable logs ledger torn [])
    (appends : AppendsAt logs (ledger.map Chunk.entry) chunk entry)
    (point : WritePoint) :
    (∃ tail,
      Durable (Logs.writeChunkUntil logs chunk entry point) ledger entry
        tail) ∨
    Durable (Logs.writeChunkUntil logs chunk entry point)
      (ledger ++ [⟨entry, chunk⟩]) torn [] := by
  cases point with
  | stream written =>
    refine Or.inl ⟨[], durable.tear appends.safe appends.newer
      List.nil_prefix ?_ (continues_appendLogChunk logs _ _)⟩
    rw [Logs.writeChunkUntil, chunks_appendLogChunk, List.append_nil]
  | index written =>
    rcases entry.take_line written with whole | part
    · refine Or.inr (durable.complete appends ?_ ?_)
      · rw [Logs.writeChunkUntil, whole, chunks_appendChunksText,
          chunks_appendLogChunk]
      · intro stream
        rw [Logs.writeChunkUntil, file_appendChunksText]
    · refine Or.inl ⟨_, durable.tear appends.safe appends.newer part ?_
        (continues_appendChunksText logs _ _ _)⟩
      rw [Logs.writeChunkUntil, chunks_appendChunksText,
        chunks_appendLogChunk]
  | checkpoint written =>
    refine Or.inr (durable.complete appends ?_ ?_)
    · rw [Logs.writeChunkUntil, chunks_appendCheckpointText,
        chunks_appendChunksText, chunks_appendLogChunk]
    · intro stream
      rw [Logs.writeChunkUntil, file_appendCheckpointText,
        file_appendChunksText]

end Durable

/-! ## Runs of appends on a Controller directory -/

/-- One call of `appendIndexedLogChunk`, which a crash may cut. -/
structure AppendCall where
  stream : Stream
  chunk : List UInt8
  sequence : Nat
  streamOffset : Option Nat
  cut : Option WritePoint
  deriving DecidableEq

/-- A directory with the appends that returned. -/
structure AppendRun where
  logs : AttemptLogs
  returned : List Chunk
  deriving DecidableEq

/-- One call: it is refused, it is cut by a crash, or it returns. -/
def AppendRun.call (run : AppendRun) (call : AppendCall) : AppendRun :=
  match appendIndexedLogChunk run.logs call.stream call.chunk
      call.sequence call.streamOffset with
  | none => run
  | some (logs, entry) =>
    match call.cut with
    | some point =>
      { run with
        logs := writeChunkUntil run.logs call.chunk entry point }
    | none =>
      { logs := logs
        returned := run.returned ++ [⟨entry, call.chunk⟩] }

/-- Appends on one directory, one call after the other. -/
def appendMachine : Machine AppendRun AppendCall where
  initial run := run = { logs := ensureAttemptLogs, returned := [] }
  step run call := some (run.call call)

/-- A returned append is yielded exactly once, with its bytes. -/
def AppendRun.Readable (run : AppendRun) (chunk : Chunk) : Prop :=
  (iterChunkIndexEntries run.logs).filter
      (fun entry => entry.sequence = chunk.entry.sequence) =
    [chunk.entry] ∧
  readIndexedBytes (run.logs.file chunk.entry.stream) chunk.entry =
    some chunk.bytes

/--
The call starts on an index that ends with a newline or is empty, an offset
that is passed is the end of the stream file, and the numbers of the call stay
exact as JavaScript numbers.
-/
def AppendRun.StartsWhole (run : AppendRun) (call : AppendCall) : Prop :=
  pendingText run.logs.chunks = [] ∧
    (∀ offset ∈ call.streamOffset, offset = run.logs.size call.stream) ∧
    call.sequence ≤ Json.maxSafeInteger ∧
    run.logs.size call.stream + call.chunk.length ≤ Json.maxSafeInteger

/-- The directory holds a ledger that contains every returned append. -/
def AppendRun.Recorded (run : AppendRun) : Prop :=
  ∃ ledger torn tail, Durable run.logs ledger torn tail ∧
    ∀ chunk ∈ run.returned, chunk ∈ ledger

theorem AppendRun.Recorded.readable
    {run : AppendRun} (recorded : run.Recorded)
    {chunk : Chunk} (returned : chunk ∈ run.returned) :
    run.Readable chunk := by
  rcases recorded with ⟨ledger, torn, tail, durable, contained⟩
  have member := contained chunk returned
  exact ⟨durable.filter_sequence member, durable.stored chunk member⟩

/-- The entry of an accepted append goes to the end of its stream file. -/
theorem appendIndexedLogChunk_some {next : AttemptLogs} {stream : Stream}
    {chunk : List UInt8} {sequence : Nat} {streamOffset : Option Nat}
    {entry : ChunkIndexEntry} (appended :
      appendIndexedLogChunk logs stream chunk sequence streamOffset =
        some (next, entry)) :
    ¬ sequence ≤ readLastChunkSequence logs ∧
      entry = newEntry logs stream chunk sequence streamOffset ∧
      next = writeChunk logs chunk entry := by
  rw [appendIndexedLogChunk] at appended
  split at appended
  · cases appended
  · rename_i passes
    rw [Option.some.injEq, Prod.mk.injEq] at appended
    rcases appended with ⟨rfl, rfl⟩
    exact ⟨passes, rfl, rfl⟩

theorem TornIndex.appendsAt_newEntry {entries : List ChunkIndexEntry}
    {torn : ChunkIndexEntry} (index : TornIndex logs entries torn [])
    {stream : Stream} {chunk : List UInt8} {sequence : Nat}
    {streamOffset : Option Nat}
    (passes : ¬ sequence ≤ readLastChunkSequence logs)
    (atEnd : ∀ offset ∈ streamOffset, offset = logs.size stream)
    (safeSequence : sequence ≤ Json.maxSafeInteger)
    (safeEnd : logs.size stream + chunk.length ≤ Json.maxSafeInteger) :
    AppendsAt logs entries chunk
      (newEntry logs stream chunk sequence streamOffset) := by
  have offset :
      (newEntry logs stream chunk sequence streamOffset).byteOffset =
        logs.size stream := by
    cases streamOffset with
    | none => rfl
    | some given => exact atEnd given rfl
  refine
    { safe := ⟨?_, safeSequence, ?_⟩
      newer := index.newer_of_guard passes
      byteOffset := offset
      byteLength := rfl }
  · change 1 ≤ sequence
    omega
  · rw [ChunkIndexEntry.byteEnd, offset]
    exact safeEnd

/-- One call that starts on a whole index keeps every returned append. -/
theorem AppendRun.Recorded.call
    {run : AppendRun} (recorded : run.Recorded) {call : AppendCall}
    (startsWhole : run.StartsWhole call) : (run.call call).Recorded := by
  rcases recorded with ⟨ledger, torn, tail, durable, contained⟩
  rcases startsWhole with ⟨whole, atEnd, safeSequence, safeEnd⟩
  rw [durable.index.pendingText_eq] at whole
  subst whole
  rw [AppendRun.call]
  split
  · exact ⟨ledger, torn, [], durable, contained⟩
  · rename_i logs entry appended
    rcases appendIndexedLogChunk_some appended with ⟨passes, rfl, rfl⟩
    have appends :=
      durable.index.appendsAt_newEntry passes atEnd safeSequence safeEnd
    split
    · rename_i point _
      rcases durable.writeChunkUntil appends point with
        ⟨part, left⟩ | entered
      · exact ⟨ledger, _, part, left, contained⟩
      · exact ⟨_, torn, [], entered, fun chunk member =>
          List.mem_append_left _ (contained chunk member)⟩
    · refine ⟨_, torn, [], durable.writeChunk appends, ?_⟩
      intro chunk member
      rcases List.mem_append.mp member with member | member
      · exact List.mem_append_left _ (contained chunk member)
      · exact List.mem_append_right _ member

/-- Every run whose calls start on a whole index keeps a ledger. -/
theorem recorded_of_startsWhole
    {run : AppendRun}
    (reachable : appendMachine.Reachable AppendRun.StartsWhole run) :
    run.Recorded := by
  refine reachable.invariant ?_ ?_
  · rintro state rfl
    exact ⟨[], ⟨0, .stdout, 0, 0⟩, [], durable_ensureAttemptLogs _,
      by simp⟩
  · intro state call next recorded startsWhole step
    rw [appendMachine, Option.some.injEq] at step
    subst step
    exact recorded.call startsWhole

/--
In every run whose calls all start on a whole index, every append that
returned is yielded exactly once and reads back as it was appended, whatever
calls were cut in between.
-/
theorem returned_append_readable
    {run : AppendRun}
    (reachable : appendMachine.Reachable AppendRun.StartsWhole run) :
    ∀ chunk ∈ run.returned, run.Readable chunk := by
  intro chunk returned
  exact (recorded_of_startsWhole reachable).readable returned

instance (run : AppendRun) (call : AppendCall) :
    Decidable (run.StartsWhole call) :=
  inferInstanceAs (Decidable (_ ∧ _ ∧ _ ∧ _))

/-- A run with a call that a crash cuts in its stream write. -/
def cutRun : List AppendCall :=
  [⟨.stdout, [97], 1, none, none⟩,
    ⟨.stderr, [98, 99], 2, none, some (.stream 1)⟩,
    ⟨.stderr, [98, 99], 2, none, none⟩]

theorem returned_append_readable_cutRun :
    ∃ run,
      appendMachine.Reachable AppendRun.StartsWhole run ∧
      run.returned.length = 2 ∧
      ∀ chunk ∈ run.returned, run.Readable chunk := by
  have ran :
      (appendMachine.run { logs := ensureAttemptLogs, returned := [] }
          cutRun).map (fun run => run.returned.length) = some 2 := by
    decide +kernel
  rcases Option.map_eq_some_iff.mp ran with ⟨run, final, length⟩
  have reachable : appendMachine.Reachable AppendRun.StartsWhole run :=
    ⟨_, rfl, Machine.steps_of_run
      (fun state call => decide (state.StartsWhole call))
      (fun _ _ => of_decide_eq_true) (by decide +kernel) final⟩
  exact ⟨run, reachable, length, returned_append_readable reachable⟩

/-- A run whose second call is cut in its index line and then made again. -/
def tornRun : List AppendCall :=
  [⟨.stdout, [97], 1, none, none⟩,
    ⟨.stdout, [98], 2, none, some (.index 5)⟩,
    ⟨.stdout, [98], 2, none, none⟩]

/-- The torn index line hides the append that returned after it. -/
theorem torn_line_hides_append :
    ∃ run,
      appendMachine.Reachable (fun _ _ => True) run ∧
      ∃ chunk ∈ run.returned, ¬ run.Readable chunk := by
  have ran :
      (appendMachine.run { logs := ensureAttemptLogs, returned := [] }
          tornRun).map
        (fun run =>
          (run.returned.map fun chunk => chunk.entry.sequence,
            (iterChunkIndexEntries run.logs).map fun entry =>
              entry.sequence)) =
        some ([1, 2], [1]) := by
    decide +kernel
  rcases Option.map_eq_some_iff.mp ran with ⟨run, final, equal⟩
  rw [Prod.mk.injEq] at equal
  rcases equal with ⟨returned, yielded⟩
  refine ⟨run, Machine.reachable_of_run rfl final, ?_⟩
  have second : 2 ∈ run.returned.map fun chunk => chunk.entry.sequence := by
    rw [returned]
    decide
  rcases List.mem_map.mp second with ⟨chunk, member, sequence⟩
  refine ⟨chunk, member, ?_⟩
  rintro ⟨once, _⟩
  have present : chunk.entry ∈ iterChunkIndexEntries run.logs := by
    have inFilter : chunk.entry ∈ [chunk.entry] := List.mem_singleton_self _
    rw [← once] at inFilter
    exact (List.mem_filter.mp inFilter).1
  have sequences := List.mem_map_of_mem (f := ChunkIndexEntry.sequence) present
  rw [yielded, sequence] at sequences
  revert sequences
  decide

end Rbo.Executor.Logs
