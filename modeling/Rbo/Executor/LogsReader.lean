import Rbo.Executor.LogsDurable

/-!
# A reader beside an appender

One appender writes chunks while one reader runs the scan after a sequence.
The appender's three writes are separate steps, and so are the reader's
measurements of the two stream files and of the index, the pieces it reads of
the accelerator, the probe of a candidate and the pieces it reads of the
index.

The reader skips an entry that ends beyond its measurement of the stream file.
Since it measures the two files one after the other, an entry of one stream
can be beyond its measurement while a later one of the other stream is not.
-/

namespace Rbo.Executor.Logs

open Rbo.Foundation
open Rbo.Foundation.Lines

/-! ## The two parties -/

/-- The measured sizes of the two stream files. -/
structure StreamSizes where
  stdout : Nat
  stderr : Nat
  deriving DecidableEq

def StreamSizes.get (sizes : StreamSizes) : Stream → Nat
  | .stdout => sizes.stdout
  | .stderr => sizes.stderr

/-- What the appender has still to write of its current chunk. -/
inductive Appending where
  | idle
  | index (entry : ChunkIndexEntry)
  | checkpoint (text : List Char)
  deriving DecidableEq

/-- Where `iterChunkIndexEntriesAfter` is. -/
inductive Reader where
  | start
  | stdoutMeasured (stdout : Nat)
  | measured (sizes : StreamSizes)
  | findCheckpoint (sizes : StreamSizes) (indexSize position : Nat)
      (reader : CheckpointReader)
  | probe (sizes : StreamSizes) (candidate : ChunkIndexCheckpoint)
  | scan (sizes : StreamSizes) (position : Nat) (reader : IndexReader)
  | finished (sizes : StreamSizes) (yielded : List ChunkIndexEntry)

/-- The directory, the appender with its next sequence, and the reader. -/
structure Reading where
  logs : AttemptLogs
  nextSequence : Nat
  appending : Appending
  reader : Reader

/-- The piece a read at a position returns, short only at the end. -/
def readPiece (text : List Char) (position count : Nat) : List Char :=
  (text.drop position).take (min (count + 1) highWaterMark)

/-- Start the scan of the index at its beginning. -/
def Reader.scanAll (sizes : StreamSizes) : Reader :=
  .scan sizes 0 (IndexReader.start 0)

/-- Start the scan of the index at a checkpoint. -/
def Reader.scanFrom (sizes : StreamSizes)
    (checkpoint : ChunkIndexCheckpoint) : Reader :=
  .scan sizes checkpoint.byteOffset (IndexReader.start checkpoint.sequence)

/-- One step of the reader; a read returns up to the given count and one. -/
def Reader.advance (afterSequence : Nat) (logs : AttemptLogs)
    (count : Nat) : Reader → Option Reader
  | .start => some (.stdoutMeasured (logs.size .stdout))
  | .stdoutMeasured stdout =>
    some (.measured { stdout := stdout, stderr := logs.size .stderr })
  | .measured sizes =>
    if 0 < afterSequence then
      some
        (.findCheckpoint sizes logs.chunks.length 0
          { pending := [], candidate := none })
    else
      some (.scanAll sizes)
  | .findCheckpoint sizes indexSize position reader =>
    match readPiece logs.checkpoints position count with
    | [] =>
      match reader.candidate with
      | none => some (.scanAll sizes)
      | some candidate => some (.probe sizes candidate)
    | piece =>
      some
        (.findCheckpoint sizes indexSize (position + piece.length)
          (reader.read afterSequence indexSize piece))
  | .probe sizes candidate =>
    if probeCheckpoint logs.chunks candidate then
      some (.scanFrom sizes candidate)
    else
      some (.scanAll sizes)
  | .scan sizes position reader =>
    match readPiece logs.chunks position count with
    | [] => some (.finished sizes reader.scan.yielded)
    | piece =>
      some
        (.scan sizes (position + piece.length)
          (reader.read sizes.get afterSequence piece))
  | .finished _ _ => none

/-- What the two parties do. -/
inductive ReadingStep where
  | appendStream (stream : Stream) (bytes : List UInt8)
  | appendIndex
  | appendCheckpoint
  | read (count : Nat)

/-- The entry of the appender's next chunk. -/
def Reading.newEntry (reading : Reading) (stream : Stream)
    (bytes : List UInt8) : ChunkIndexEntry where
  sequence := reading.nextSequence
  stream := stream
  byteOffset := reading.logs.size stream
  byteLength := bytes.length

/-- One step of either party. -/
def Reading.step (afterSequence : Nat) (reading : Reading) :
    ReadingStep → Option Reading
  | .appendStream stream bytes =>
    match reading.appending with
    | .idle =>
      some
        { reading with
          logs := appendLogChunk reading.logs stream bytes
          nextSequence := reading.nextSequence + 1
          appending := .index (reading.newEntry stream bytes) }
    | _ => none
  | .appendIndex =>
    match reading.appending with
    | .index entry =>
      some
        { reading with
          logs := appendChunksText reading.logs entry.line
          appending :=
            .checkpoint
              (checkpointText entry.sequence
                reading.logs.chunks.length) }
    | _ => none
  | .appendCheckpoint =>
    match reading.appending with
    | .checkpoint text =>
      some
        { reading with
          logs := appendCheckpointText reading.logs text
          appending := .idle }
    | _ => none
  | .read count =>
    (reading.reader.advance afterSequence reading.logs count).map
      fun reader => { reading with reader := reader }

/-- The interleavings of one appender and one reader after a sequence. -/
def readingMachine (afterSequence : Nat) : Machine Reading ReadingStep where
  initial reading :=
    reading =
      { logs := ensureAttemptLogs
        nextSequence := 1
        appending := .idle
        reader := .start }
  step := Reading.step afterSequence

/-- The entries the reader has yielded so far. -/
def Reader.yielded : Reader → List ChunkIndexEntry
  | .scan _ _ reader => reader.scan.yielded
  | .finished _ yielded => yielded
  | _ => []

/-- The measurements the reader has taken so far. -/
def Reader.measure : Reader → Stream → Option Nat
  | .start, _ => none
  | .stdoutMeasured stdout, .stdout => some stdout
  | .stdoutMeasured _, .stderr => none
  | .measured sizes, stream => some (sizes.get stream)
  | .findCheckpoint sizes _ _ _, stream => some (sizes.get stream)
  | .probe sizes _, stream => some (sizes.get stream)
  | .scan sizes _ _, stream => some (sizes.get stream)
  | .finished sizes _, stream => some (sizes.get stream)

/--
The yielded entries carry consecutive sequences from the one after the given
sequence, they are a prefix of the index after it, and their bytes are in
their stream files.
-/
def Reading.GapFree (afterSequence : Nat) (reading : Reading) : Prop :=
  (reading.reader.yielded.map ChunkIndexEntry.sequence =
    List.range' (afterSequence + 1) reading.reader.yielded.length) ∧
  (reading.reader.yielded <+:
    (iterChunkIndexEntries reading.logs).filter fun entry =>
      afterSequence < entry.sequence) ∧
  ∀ entry ∈ reading.reader.yielded,
    entry.byteEnd ≤ reading.logs.size entry.stream

/-- A stream file has grown since the reader measured it. -/
def Reading.Outgrown (reading : Reading) (stream : Stream) : Prop :=
  ∃ size ∈ reading.reader.measure stream, size < reading.logs.size stream

/--
When a chunk is appended after the other stream file has outgrown its
measurement, the chunk ends beyond a measurement of its own stream file; and
its numbers are exact as JavaScript numbers.
-/
def Reading.Orderly (reading : Reading) : ReadingStep → Prop
  | .appendStream stream bytes =>
    (∀ other, other ≠ stream → reading.Outgrown other →
      ∃ size ∈ reading.reader.measure stream,
        size < reading.logs.size stream + bytes.length) ∧
    reading.nextSequence ≤ Json.maxSafeInteger ∧
    reading.logs.size stream + bytes.length ≤ Json.maxSafeInteger
  | _ => True

/-! ## Lists of consecutive entries -/

/-- Keeping what an initial segment keeps is taking that segment. -/
theorem filter_eq_takeWhile_of_pairwise {α : Type} {keeps : α → Bool}
    {list : List α}
    (closed : list.Pairwise fun earlier later =>
      keeps later = true → keeps earlier = true) :
    list.filter keeps = list.takeWhile keeps := by
  induction list with
  | nil => rfl
  | cons head tail induction =>
    rw [List.pairwise_cons] at closed
    by_cases kept : keeps head = true
    · rw [List.filter_cons_of_pos kept, List.takeWhile_cons_of_pos kept,
        induction closed.2]
    · rw [List.filter_cons_of_neg kept, List.takeWhile_cons_of_neg kept,
        List.filter_eq_nil_iff]
      intro later member keptLater
      exact kept (closed.1 later member keptLater)

variable {entries : List ChunkIndexEntry}

/-- Among consecutive sequences, those after one are a final segment. -/
theorem filter_sequence_eq_drop {first : Nat} (consecutive :
      entries.map ChunkIndexEntry.sequence =
        List.range' first entries.length) (afterSequence : Nat) :
    entries.filter (fun entry => afterSequence < entry.sequence) =
      entries.drop (afterSequence + 1 - first) := by
  induction entries generalizing first with
  | nil => simp
  | cons entry entries induction =>
    rw [List.map_cons, List.length_cons, List.range'_succ,
      List.cons.injEq] at consecutive
    rcases consecutive with ⟨sequence, rest⟩
    have tail := induction rest
    by_cases later : afterSequence < entry.sequence
    · have all : afterSequence + 1 - first = 0 := by omega
      have allRest : afterSequence + 1 - (first + 1) = 0 := by omega
      rw [allRest, List.drop_zero] at tail
      rw [all, List.drop_zero, List.filter_cons_of_pos (by simpa using later),
        tail]
    · have more :
          afterSequence + 1 - first =
            (afterSequence + 1 - (first + 1)) + 1 := by
        omega
      rw [more, List.drop_succ_cons, ← tail, List.filter_cons_of_neg]
      simpa using later

/-! ## The appender's side -/

/-- The entry whose index line is still to be written. -/
def Appending.pending : Appending → List ChunkIndexEntry
  | .index entry => [entry]
  | _ => []

/-- The entries whose bytes are in the stream files. -/
def Reading.written (reading : Reading) (entries : List ChunkIndexEntry) :
    List ChunkIndexEntry :=
  entries ++ reading.appending.pending

/-- An entry lies inside the measurements, as far as they are taken. -/
def Reader.Counts (reader : Reader) (entry : ChunkIndexEntry) : Prop :=
  ∀ size ∈ reader.measure entry.stream, entry.byteEnd ≤ size

/-- A torn entry for an index without a torn tail. -/
def noEntry : ChunkIndexEntry := ⟨0, .stdout, 0, 0⟩

/--
The index is made of entries with consecutive sequences, and the entries that
lie inside the measurements come before those that do not.
-/
structure Follows (reading : Reading) (entries : List ChunkIndexEntry) :
    Prop where
  index : TornIndex reading.logs entries noEntry []
  positive : 1 ≤ reading.nextSequence
  sequences :
    (reading.written entries).map ChunkIndexEntry.sequence =
      List.range' 1 (reading.nextSequence - 1)
  pendingSafe : ∀ entry ∈ reading.appending.pending, entry.Safe
  inRange : ∀ entry ∈ reading.written entries,
    entry.byteEnd ≤ reading.logs.size entry.stream
  counted : (reading.written entries).Pairwise fun earlier later =>
    reading.reader.Counts later → reading.reader.Counts earlier

namespace Follows

variable {reading : Reading} {entries : List ChunkIndexEntry}

section

variable (follows : Follows reading entries)

include follows

theorem length_written :
    (reading.written entries).length = reading.nextSequence - 1 := by
  have lengths := congrArg List.length follows.sequences
  rwa [List.length_map, List.length_range'] at lengths

/-- The indexed entries carry the sequences from 1 on. -/
theorem consecutive :
    entries.map ChunkIndexEntry.sequence =
      List.range' 1 entries.length := by
  have sequences := follows.sequences
  rw [← follows.length_written, Reading.written, List.map_append,
    List.length_append, ← List.range'_append_1] at sequences
  exact (List.append_inj sequences (by simp)).1

/-- An appended chunk is counted only after counted chunks. -/
theorem counts_new {stream : Stream} {bytes : List UInt8}
    (orderly : reading.Orderly (.appendStream stream bytes))
    {earlier : ChunkIndexEntry} (member : earlier ∈ reading.written entries)
    (counts : reading.reader.Counts (reading.newEntry stream bytes)) :
    reading.reader.Counts earlier := by
  intro size measured
  by_contra beyond
  have present := follows.inRange earlier member
  by_cases same : earlier.stream = stream
  · -- The file has already outgrown the measurement of its own stream.
    rw [same] at measured present
    have inside := counts size measured
    rw [ChunkIndexEntry.byteEnd, Reading.newEntry] at inside
    dsimp only at inside
    omega
  · have outgrown : reading.Outgrown earlier.stream :=
      ⟨size, measured, by omega⟩
    rcases orderly.1 earlier.stream same outgrown with
      ⟨own, ownMeasured, ends⟩
    have inside := counts own ownMeasured
    rw [ChunkIndexEntry.byteEnd, Reading.newEntry] at inside
    dsimp only at inside
    omega

theorem appendStream (idle : reading.appending = .idle) {stream : Stream}
    {bytes : List UInt8}
    (orderly : reading.Orderly (.appendStream stream bytes)) :
    Follows
      { reading with
        logs := appendLogChunk reading.logs stream bytes
        nextSequence := reading.nextSequence + 1
        appending := .index (reading.newEntry stream bytes) }
      entries := by
  have written : reading.written entries = entries := by
    rw [Reading.written, idle]
    exact List.append_nil _
  have continues := continues_appendLogChunk reading.logs stream bytes
  have positive := follows.positive
  have size :
      (appendLogChunk reading.logs stream bytes).size stream =
        reading.logs.size stream + bytes.length := by
    rw [AttemptLogs.size, file_appendLogChunk, if_pos rfl,
      List.length_append]
    rfl
  have counted := follows.counted
  have inRange := follows.inRange
  have sequences := follows.sequences
  rw [written] at counted inRange sequences
  exact
    { index := follows.index.frame (chunks_appendLogChunk _ _ _) continues
      positive := Nat.le_add_left 1 _
      sequences := by
        change (entries ++ [reading.newEntry stream bytes]).map _ =
          List.range' 1 reading.nextSequence
        have next :
            reading.nextSequence = (reading.nextSequence - 1) + 1 := by
          omega
        rw [next, List.range'_1_concat, List.map_append, sequences]
        simp only [List.map_singleton, Reading.newEntry]
        congr 2
        omega
      pendingSafe := by
        intro entry member
        rw [Appending.pending, List.mem_singleton] at member
        rw [member]
        exact
          { positive := positive
            sequence := orderly.2.1
            byteEnd := orderly.2.2 }
      inRange := by
        intro entry member
        rcases List.mem_append.mp member with member | member
        · exact (inRange entry member).trans
            (continues.size_le entry.stream)
        · rw [Appending.pending, List.mem_singleton] at member
          rw [member]
          exact size.symm.le
      counted := by
        rw [Reading.written, List.pairwise_append]
        refine ⟨counted, List.pairwise_singleton _ _, ?_⟩
        intro earlier member later isNew counts
        rw [Appending.pending, List.mem_singleton] at isNew
        rw [isNew] at counts
        exact follows.counts_new orderly (by rw [written]; exact member)
          counts }

theorem appendIndex {entry : ChunkIndexEntry}
    (pending : reading.appending = .index entry) (text : List Char) :
    Follows
      { reading with
        logs := appendChunksText reading.logs entry.line
        appending := .checkpoint text }
      (entries ++ [entry]) := by
  have written : reading.written entries = entries ++ [entry] := by
    rw [Reading.written, pending]
    rfl
  have size : ∀ stream,
      (appendChunksText reading.logs entry.line).size stream =
        reading.logs.size stream := by
    intro stream
    rw [AttemptLogs.size, file_appendChunksText]
    rfl
  have continues :
      (appendChunksText reading.logs entry.line).Continues
        reading.logs := by
    intro stream
    rw [file_appendChunksText]
  have newWritten :
      Reading.written
          { reading with
            logs := appendChunksText reading.logs entry.line
            appending := .checkpoint text }
          (entries ++ [entry]) =
        reading.written entries := by
    rw [written]
    exact List.append_nil _
  exact
    { index :=
        follows.index.extend
          (follows.pendingSafe entry (by rw [pending]; simp [Appending.pending]))
          (by
            intro other member
            have consecutive := follows.sequences
            rw [written, List.map_append] at consecutive
            have increasing :
                ((entries.map ChunkIndexEntry.sequence) ++
                  [entry].map ChunkIndexEntry.sequence).Pairwise
                    (· < ·) := by
              rw [consecutive]
              exact List.pairwise_lt_range'
            rw [List.pairwise_append] at increasing
            exact increasing.2.2 _ (List.mem_map_of_mem member) _
              (by simp))
          rfl continues
          (by
            rw [size]
            exact follows.inRange entry (by rw [written]; simp))
      positive := follows.positive
      sequences := by
        rw [newWritten]
        exact follows.sequences
      pendingSafe := by simp [Appending.pending]
      inRange := by
        rw [newWritten]
        intro other member
        rw [size]
        exact follows.inRange other member
      counted := by
        rw [newWritten]
        exact follows.counted }

theorem appendCheckpoint {text : List Char}
    (pending : reading.appending = .checkpoint text) :
    Follows
      { reading with
        logs := appendCheckpointText reading.logs text
        appending := .idle }
      entries := by
  have continues :
      (appendCheckpointText reading.logs text).Continues
        reading.logs := by
    intro stream
    rw [file_appendCheckpointText]
  have newWritten :
      Reading.written
          { reading with
            logs := appendCheckpointText reading.logs text
            appending := .idle }
          entries =
        reading.written entries := by
    rw [Reading.written, Reading.written, pending]
    rfl
  exact
    { index := follows.index.frame rfl continues
      positive := follows.positive
      sequences := by
        rw [newWritten]
        exact follows.sequences
      pendingSafe := by simp [Appending.pending]
      inRange := by
        rw [newWritten]
        intro other member
        exact (follows.inRange other member).trans
          (continues.size_le other.stream)
      counted := by
        rw [newWritten]
        exact follows.counted }

/-- A step of the reader that keeps its measurements. -/
theorem reader_step {reader : Reader}
    (measure : reader.measure = reading.reader.measure) :
    Follows { reading with reader := reader } entries :=
  { follows with
    counted := by
      have same : ∀ entry, reader.Counts entry ↔
          reading.reader.Counts entry := by
        intro entry
        rw [Reader.Counts, measure]
        rfl
      refine follows.counted.imp ?_
      intro earlier later counts
      rw [same, same]
      exact counts }

/--
A measurement of a stream that was not measured yet counts every entry whose
bytes are in its file.
-/
theorem measure_stream {reader : Reader} (stream : Stream)
    (others : ∀ other, other ≠ stream →
      reader.measure other = reading.reader.measure other)
    (before : reading.reader.measure stream = none)
    (after : reader.measure stream = some (reading.logs.size stream)) :
    Follows { reading with reader := reader } entries :=
  { follows with
    counted := by
      have same : ∀ entry ∈ reading.written entries,
          (reader.Counts entry ↔ reading.reader.Counts entry) := by
        intro entry member
        have present := follows.inRange entry member
        rw [Reader.Counts, Reader.Counts]
        by_cases equal : entry.stream = stream
        · rw [equal] at present ⊢
          rw [before, after]
          simp only [Option.mem_some_iff, forall_eq', Option.not_mem_none,
            false_imp_iff, implies_true, iff_true]
          exact present
        · rw [others _ equal]
      refine follows.counted.imp_of_mem ?_
      intro earlier later earlierMember laterMember counts
      rw [same earlier earlierMember, same later laterMember]
      exact counts }

end

end Follows

/-! ## The reader's side -/

/-- What a reader with given measurements keeps of some entries. -/
def keptEntries (afterSequence : Nat) (sizes : StreamSizes)
    (entries : List ChunkIndexEntry) : List ChunkIndexEntry :=
  entries.filter fun entry =>
    entry.byteEnd ≤ sizes.get entry.stream ∧ afterSequence < entry.sequence

/-- The yielded entries are those kept of a part of the index. -/
def YieldsPart (afterSequence : Nat) (sizes : StreamSizes)
    (entries yielded : List ChunkIndexEntry) : Prop :=
  ∃ seen, seen <+: entries ∧
    yielded = keptEntries afterSequence sizes seen

/--
A scan has read a front part of the records after a start, and the records
before the start are too old to be yielded.
-/
structure ScanTracks (afterSequence : Nat) (sizes : StreamSizes)
    (entries : List ChunkIndexEntry) (position : Nat) (reader : IndexReader)
    (before rest : List ChunkIndexEntry) (previous : Nat)
    (front : List Char) : Prop where
  entries_eq : entries = before ++ rest
  old : ∀ entry ∈ before, entry.sequence ≤ afterSequence
  increasing : IncreasingFrom previous rest
  previousOld : previous = 0 ∨ ∃ entry ∈ entries, previous ≤ entry.sequence
  isFront : front <+: recordsText rest
  position_eq : position = (recordsText before).length + front.length
  reader_eq :
    reader =
      { pending := pendingText front
        discarding := false
        scan := (completeLines front).foldl
          (visitLine sizes.get afterSequence)
          { previousSequence := previous, yielded := [] } }

/-- What the reader knows of the index, wherever it is. -/
def Reader.Tracks (afterSequence : Nat) (logs : AttemptLogs)
    (entries : List ChunkIndexEntry) : Reader → Prop
  | .findCheckpoint _ indexSize _ reader =>
    indexSize ≤ logs.chunks.length ∧
      ∀ kept ∈ reader.candidate, kept.Usable afterSequence indexSize
  | .probe _ candidate =>
    candidate.Usable afterSequence logs.chunks.length
  | .scan sizes position reader =>
    ∃ before rest previous front,
      ScanTracks afterSequence sizes entries position reader before rest
        previous front
  | .finished sizes yielded =>
    YieldsPart afterSequence sizes entries yielded
  | _ => True

namespace ScanTracks

variable {afterSequence position previous : Nat} {sizes : StreamSizes}
  {entries before rest : List ChunkIndexEntry} {reader : IndexReader}
  {front : List Char}

section

variable
  (tracks : ScanTracks afterSequence sizes entries position reader before
    rest previous front)

include tracks

/-- The complete lines of the part that was read are records. -/
theorem completeLines_eq :
    ∃ count,
      completeLines front =
        (rest.take count).map ChunkIndexEntry.stringify := by
  rcases tracks.isFront with ⟨more, whole⟩
  have lines :
      completeLines (recordsText rest) =
        rest.map ChunkIndexEntry.stringify := by
    have split :=
      splitLines_joinRecords (noNewline_records rest)
        (List.not_mem_nil : '\n' ∉ [])
    rw [List.append_nil] at split
    exact congrArg Prod.fst split
  have part :
      completeLines front <+: rest.map ChunkIndexEntry.stringify := by
    rw [← lines, ← whole, completeLines_append]
    exact List.prefix_append _ _
  refine ⟨(completeLines front).length, ?_⟩
  rw [List.map_take]
  exact List.prefix_iff_eq_take.mp part

/-- What a scan has yielded so far. -/
theorem yieldsPart (safe : ∀ entry ∈ entries, entry.Safe) :
    YieldsPart afterSequence sizes entries reader.scan.yielded := by
  rcases tracks.completeLines_eq with ⟨count, lines⟩
  have increasing : IncreasingFrom previous (rest.take count) := by
    have whole := tracks.increasing
    rw [IncreasingFrom] at whole ⊢
    exact whole.sublist
      (List.Sublist.cons_cons _ ((List.take_sublist _ _).map _))
  have yielded :=
    foldl_visitLine_records sizes.get afterSequence
      { previousSequence := previous, yielded := [] }
      (fun entry member => safe entry (by
        rw [tracks.entries_eq]
        exact List.mem_append_right _ (List.mem_of_mem_take member)))
      increasing
  have oldSkipped :
      keptEntries afterSequence sizes before = [] := by
    rw [keptEntries, List.filter_eq_nil_iff]
    intro entry member
    have old := tracks.old entry member
    simp only [decide_eq_true_eq, not_and]
    omega
  refine ⟨before ++ rest.take count, ?_, ?_⟩
  · rw [tracks.entries_eq]
    exact List.prefix_append_right_inj before |>.mpr
      (List.take_prefix _ _)
  · rw [tracks.reader_eq, lines, yielded, keptEntries, List.filter_append]
    rw [keptEntries] at oldSkipped
    rw [oldSkipped]

/-- The index may grow behind the scan. -/
theorem extend {entry : ChunkIndexEntry} (positive : 1 ≤ entry.sequence)
    (newer : ∀ other ∈ entries, other.sequence < entry.sequence) :
    ScanTracks afterSequence sizes (entries ++ [entry]) position reader
      before (rest ++ [entry]) previous front where
  entries_eq := by
    rw [tracks.entries_eq, List.append_assoc]
  old := tracks.old
  increasing := by
    rw [IncreasingFrom, List.map_append, ← List.cons_append,
      List.pairwise_append]
    refine ⟨tracks.increasing, List.pairwise_singleton _ _, ?_⟩
    intro earlier member last isLast
    rw [List.map_singleton, List.mem_singleton] at isLast
    subst isLast
    rcases List.mem_cons.mp member with rfl | member
    · rcases tracks.previousOld with zero | ⟨other, inEntries, bounded⟩
      · omega
      · have later := newer other inEntries
        omega
    · rcases List.mem_map.mp member with ⟨other, inRest, rfl⟩
      refine newer other ?_
      rw [tracks.entries_eq]
      exact List.mem_append_right _ inRest
  previousOld := by
    rcases tracks.previousOld with zero | ⟨other, inEntries, bounded⟩
    · exact Or.inl zero
    · exact Or.inr ⟨other, List.mem_append_left _ inEntries, bounded⟩
  isFront := by
    rw [recordsText_append]
    exact tracks.isFront.trans (List.prefix_append _ _)
  position_eq := tracks.position_eq
  reader_eq := tracks.reader_eq

/-- The text at the position of a scan. -/
theorem drop_position :
    (recordsText entries).drop position =
      (recordsText rest).drop front.length := by
  rw [tracks.entries_eq, recordsText_append, tracks.position_eq,
    ← List.drop_drop, List.drop_left]

/-- Reading the next piece extends the part that was read. -/
theorem read (safe : ∀ entry ∈ entries, entry.Safe) {piece : List Char}
    (isPiece : piece <+: (recordsText entries).drop position) :
    ScanTracks afterSequence sizes entries (position + piece.length)
      (reader.read sizes.get afterSequence piece) before rest previous
      (front ++ piece) := by
  rcases tracks.isFront with ⟨more, whole⟩
  have isFront : front ++ piece <+: recordsText rest := by
    rw [tracks.drop_position, ← whole, List.drop_left] at isPiece
    rw [← whole]
    exact (List.prefix_append_right_inj front).mpr isPiece
  have read :=
    foldl_read_eq sizes.get afterSequence
      { previousSequence := previous, yielded := [] } [piece] front
      (by
        intro text isText
        rw [List.flatten_singleton] at isText
        have restSafe : ∀ entry ∈ rest, entry.Safe := by
          intro entry member
          refine safe entry ?_
          rw [tracks.entries_eq]
          exact List.mem_append_right _ member
        refine jsLength_pendingText_le restSafe List.not_mem_nil
          (Nat.zero_le _) ?_
        rw [List.append_nil]
        exact isText.trans isFront)
  rw [List.flatten_singleton, List.foldl_cons, List.foldl_nil] at read
  exact
    { tracks with
      isFront := isFront
      position_eq := by
        rw [tracks.position_eq, List.length_append, Nat.add_assoc]
      reader_eq := by
        rw [tracks.reader_eq]
        exact read }

end

end ScanTracks

/-- A scan of the whole index. -/
theorem scanTracks_all (afterSequence : Nat) (sizes : StreamSizes)
    (increasing : IncreasingFrom 0 entries) :
    ScanTracks afterSequence sizes entries 0 (IndexReader.start 0) []
      entries 0 [] where
  entries_eq := rfl
  old := by simp
  increasing := increasing
  previousOld := Or.inl rfl
  isFront := List.nil_prefix
  position_eq := rfl
  reader_eq := rfl

variable {afterSequence : Nat}

/-- A scan from a checkpoint that was probed. -/
theorem scanTracks_checkpoint (sizes : StreamSizes) {logs : AttemptLogs}
    (index : TornIndex logs entries noEntry [])
    {candidate : ChunkIndexCheckpoint}
    (usable : candidate.Usable afterSequence logs.chunks.length)
    (accepted : probeCheckpoint logs.chunks candidate = true) :
    ∃ before rest,
      ScanTracks afterSequence sizes entries candidate.byteOffset
        (IndexReader.start candidate.sequence) before rest
        candidate.sequence [] := by
  rcases index.probe_sound usable.2 accepted with
    ⟨before, entry, after, equal, sequence, text⟩ | ⟨impossible, _⟩
  · have increasing := index.increasing
    rw [equal, IncreasingFrom, List.map_append, ← List.cons_append,
      List.pairwise_append] at increasing
    rcases increasing with ⟨_, fromEntry, across⟩
    have bounded := usable.1
    refine ⟨before, entry :: after,
      { entries_eq := equal
        old := ?_
        increasing := ?_
        previousOld := ?_
        isFront := List.nil_prefix
        position_eq := ?_
        reader_eq := rfl }⟩
    · intro other member
      have earlier : other.sequence < entry.sequence :=
        across _ (List.mem_cons_of_mem _ (List.mem_map_of_mem member)) _
          (by simp)
      omega
    · rw [IncreasingFrom, List.pairwise_cons]
      refine ⟨?_, fromEntry⟩
      rw [List.map_cons, List.pairwise_cons] at fromEntry
      intro other member
      rcases List.mem_cons.mp member with rfl | member
      · omega
      · have later := fromEntry.1 other member
        omega
    · refine Or.inr ⟨entry, ?_, by omega⟩
      rw [equal]
      exact List.mem_append_right _ List.mem_cons_self
    · have chunks := index.chunks
      rw [List.append_nil] at chunks text
      have lengths := congrArg List.length text
      have inside := usable.2
      rw [List.length_drop, chunks, equal, recordsText_append,
        List.length_append] at lengths
      rw [chunks, equal, recordsText_append, List.length_append] at inside
      rw [List.length_nil]
      omega
  · rw [noEntry, ChunkIndexEntry.stringify_eq] at impossible
    cases impossible

theorem readPiece_initial (text : List Char) (position count : Nat) :
    readPiece text position count <+: text.drop position :=
  List.take_prefix _ _

/-- One step of the reader keeps track of the index. -/
theorem Reader.Tracks.advance {logs : AttemptLogs}
    (index : TornIndex logs entries noEntry []) {reader next : Reader}
    (tracks : reader.Tracks afterSequence logs entries) {count : Nat}
    (step : reader.advance afterSequence logs count = some next) :
    next.Tracks afterSequence logs entries := by
  have chunks := index.chunks
  rw [List.append_nil] at chunks
  have all : ∀ sizes, (Reader.scanAll sizes).Tracks afterSequence logs
      entries := fun sizes =>
    ⟨[], entries, 0, [], scanTracks_all afterSequence sizes
      index.increasing⟩
  cases reader with
  | start =>
    rw [Reader.advance, Option.some.injEq] at step
    subst step
    trivial
  | stdoutMeasured stdout =>
    rw [Reader.advance, Option.some.injEq] at step
    subst step
    trivial
  | measured sizes =>
    rw [Reader.advance] at step
    split at step
    · rw [Option.some.injEq] at step
      subst step
      exact ⟨le_rfl, by simp⟩
    · rw [Option.some.injEq] at step
      subst step
      exact all sizes
  | findCheckpoint sizes indexSize position found =>
    rcases tracks with ⟨bounded, usable⟩
    rw [Reader.advance] at step
    split at step
    · split at step
      · rw [Option.some.injEq] at step
        subst step
        exact all sizes
      · rename_i candidate newest
        rw [Option.some.injEq] at step
        subst step
        rcases usable candidate newest with ⟨sequence, offset⟩
        exact ⟨sequence, offset.trans bounded⟩
    · rw [Option.some.injEq] at step
      subst step
      exact ⟨bounded, CheckpointReader.read_usable usable _⟩
  | probe sizes candidate =>
    rw [Reader.advance] at step
    split at step
    · rename_i accepted
      rw [Option.some.injEq] at step
      subst step
      rcases scanTracks_checkpoint sizes index tracks accepted with
        ⟨before, rest, scan⟩
      exact ⟨before, rest, _, [], scan⟩
    · rw [Option.some.injEq] at step
      subst step
      exact all sizes
  | scan sizes position scanner =>
    rcases tracks with ⟨before, rest, previous, front, scan⟩
    rw [Reader.advance] at step
    split at step
    · rw [Option.some.injEq] at step
      subst step
      exact scan.yieldsPart index.safe
    · rw [Option.some.injEq] at step
      subst step
      refine ⟨before, rest, previous, _, scan.read index.safe ?_⟩
      rw [← chunks]
      exact readPiece_initial _ _ _
  | finished sizes yielded =>
    rw [Reader.advance] at step
    cases step

/-- The index grows behind a reader without disturbing it. -/
theorem Reader.Tracks.extend {logs later : AttemptLogs} {reader : Reader}
    (tracks : reader.Tracks afterSequence logs entries)
    {entry : ChunkIndexEntry} (positive : 1 ≤ entry.sequence)
    (newer : ∀ other ∈ entries, other.sequence < entry.sequence)
    (grows : logs.chunks.length ≤ later.chunks.length) :
    reader.Tracks afterSequence later (entries ++ [entry]) := by
  cases reader with
  | start => trivial
  | stdoutMeasured stdout => trivial
  | measured sizes => trivial
  | findCheckpoint sizes indexSize position found =>
    exact ⟨tracks.1.trans grows, tracks.2⟩
  | probe sizes candidate => exact ⟨tracks.1, tracks.2.trans grows⟩
  | scan sizes position scanner =>
    rcases tracks with ⟨before, rest, previous, front, scan⟩
    exact ⟨before, _, previous, front, scan.extend positive newer⟩
  | finished sizes yielded =>
    rcases tracks with ⟨seen, part, equal⟩
    exact ⟨seen, part.trans (List.prefix_append _ _), equal⟩

/-- Writes that leave the index alone do not disturb a reader. -/
theorem Reader.Tracks.frame {logs later : AttemptLogs} {reader : Reader}
    (tracks : reader.Tracks afterSequence logs entries)
    (chunks : later.chunks = logs.chunks) :
    reader.Tracks afterSequence later entries := by
  cases reader with
  | findCheckpoint sizes indexSize position found =>
    rw [Reader.Tracks, chunks]
    exact tracks
  | probe sizes candidate =>
    rw [Reader.Tracks, chunks]
    exact tracks
  | start => trivial
  | stdoutMeasured stdout => trivial
  | measured sizes => trivial
  | scan sizes position scanner => exact tracks
  | finished sizes yielded => exact tracks

/-! ## Orderly runs -/

/-- The appender and the reader agree on the entries of the index. -/
def Reading.Together (afterSequence : Nat) (reading : Reading) : Prop :=
  ∃ entries,
    Follows reading entries ∧
      reading.reader.Tracks afterSequence reading.logs entries

/-- A step of the reader keeps the counted entries in front. -/
theorem Follows.advance {reading : Reading}
    (follows : Follows reading entries) {next : Reader} {count : Nat}
    (step : reading.reader.advance afterSequence reading.logs count =
      some next) :
    Follows { reading with reader := next } entries := by
  cases current : reading.reader with
  | start =>
    rw [current, Reader.advance, Option.some.injEq] at step
    subst step
    refine follows.measure_stream .stdout ?_ ?_ rfl
    · intro other different
      rw [current]
      cases other with
      | stdout => exact absurd rfl different
      | stderr => rfl
    · rw [current]
      rfl
  | stdoutMeasured stdout =>
    rw [current, Reader.advance, Option.some.injEq] at step
    subst step
    refine follows.measure_stream .stderr ?_ ?_ rfl
    · intro other different
      rw [current]
      cases other with
      | stdout => rfl
      | stderr => exact absurd rfl different
    · rw [current]
      rfl
  | measured sizes =>
    refine follows.reader_step ?_
    rw [current, Reader.advance] at step
    split at step <;>
      · rw [Option.some.injEq] at step
        rw [← step, current]
        rfl
  | findCheckpoint sizes indexSize position found =>
    refine follows.reader_step ?_
    rw [current, Reader.advance] at step
    split at step
    · split at step <;>
        · rw [Option.some.injEq] at step
          rw [← step, current]
          rfl
    · rw [Option.some.injEq] at step
      rw [← step, current]
      rfl
  | probe sizes candidate =>
    refine follows.reader_step ?_
    rw [current, Reader.advance] at step
    split at step <;>
      · rw [Option.some.injEq] at step
        rw [← step, current]
        rfl
  | scan sizes position scanner =>
    refine follows.reader_step ?_
    rw [current, Reader.advance] at step
    split at step <;>
      · rw [Option.some.injEq] at step
        rw [← step, current]
        rfl
  | finished sizes yielded =>
    rw [current, Reader.advance] at step
    cases step

/-- One orderly step keeps the two parties together. -/
theorem Reading.Together.step {reading next : Reading}
    (together : reading.Together afterSequence) {label : ReadingStep}
    (orderly : reading.Orderly label)
    (step : reading.step afterSequence label = some next) :
    next.Together afterSequence := by
  rcases together with ⟨entries, follows, tracks⟩
  cases label with
  | appendStream stream bytes =>
    rw [Reading.step] at step
    split at step
    · rename_i idle
      rw [Option.some.injEq] at step
      subst step
      exact ⟨entries, follows.appendStream idle orderly,
        tracks.frame (chunks_appendLogChunk _ _ _)⟩
    · cases step
  | appendIndex =>
    rw [Reading.step] at step
    split at step
    · rename_i entry pending
      rw [Option.some.injEq] at step
      subst step
      have extended := follows.appendIndex pending
        (checkpointText entry.sequence reading.logs.chunks.length)
      refine ⟨entries ++ [entry], extended, tracks.extend ?_ ?_ ?_⟩
      · exact (extended.index.safe entry (by simp)).positive
      · intro other member
        have increasing := extended.index.increasing
        rw [IncreasingFrom, List.map_append, ← List.cons_append,
          List.pairwise_append] at increasing
        exact increasing.2.2 _
          (List.mem_cons_of_mem _ (List.mem_map_of_mem member)) _
          (by simp)
      · rw [chunks_appendChunksText, List.length_append]
        exact Nat.le_add_right _ _
    · cases step
  | appendCheckpoint =>
    rw [Reading.step] at step
    split at step
    · rename_i text pending
      rw [Option.some.injEq] at step
      subst step
      exact ⟨entries, follows.appendCheckpoint pending,
        tracks.frame rfl⟩
    · cases step
  | read count =>
    rw [Reading.step, Option.map_eq_some_iff] at step
    rcases step with ⟨reader, advanced, rfl⟩
    exact ⟨entries, follows.advance advanced,
      tracks.advance follows.index advanced⟩

/-- Kept entries are a prefix when the counted ones come first. -/
theorem keptEntries_initial {sizes : StreamSizes}
    (counted : entries.Pairwise fun earlier later =>
      later.byteEnd ≤ sizes.get later.stream →
        earlier.byteEnd ≤ sizes.get earlier.stream) :
    keptEntries afterSequence sizes entries <+:
      entries.filter fun entry => afterSequence < entry.sequence := by
  have kept :
      keptEntries afterSequence sizes entries =
        (entries.filter fun entry =>
          afterSequence < entry.sequence).filter fun entry =>
            entry.byteEnd ≤ sizes.get entry.stream := by
    rw [keptEntries, List.filter_filter]
    refine List.filter_congr ?_
    intro entry _
    rw [Bool.decide_and]
  rw [kept, filter_eq_takeWhile_of_pairwise]
  · exact List.takeWhile_prefix _
  · refine (counted.filter _).imp ?_
    intro earlier later closed inside
    exact decide_eq_true (closed (of_decide_eq_true inside))

/-- A prefix of the index after a sequence is consecutive. -/
theorem consecutive_initial {yielded : List ChunkIndexEntry} (consecutive :
      entries.map ChunkIndexEntry.sequence = List.range' 1 entries.length)
    (part : yielded <+:
      entries.filter fun entry => afterSequence < entry.sequence) :
    yielded.map ChunkIndexEntry.sequence =
      List.range' (afterSequence + 1) yielded.length := by
  rw [filter_sequence_eq_drop consecutive, Nat.add_sub_cancel] at part
  have mapped := part.map ChunkIndexEntry.sequence
  rw [List.map_drop, consecutive, List.drop_range'] at mapped
  have taken := List.prefix_iff_eq_take.mp mapped
  have short := mapped.length_le
  rw [List.length_map, List.length_range'] at short
  rw [List.length_map, List.take_range'_of_length_ge short, Nat.mul_one,
    Nat.add_comm 1] at taken
  exact taken

/-- What the reader yields of an index it tracks. -/
theorem Reading.Together.gapFree {reading : Reading}
    (together : reading.Together afterSequence) :
    reading.GapFree afterSequence := by
  rcases together with ⟨entries, follows, tracks⟩
  have empty : reading.reader.yielded = [] → reading.GapFree
      afterSequence := by
    intro nothing
    refine ⟨?_, ?_, ?_⟩
    · rw [nothing]
      rfl
    · rw [nothing]
      exact List.nil_prefix
    · rw [nothing]
      simp
  have part : ∀ sizes : StreamSizes,
      (∀ stream, reading.reader.measure stream = some (sizes.get stream)) →
      YieldsPart afterSequence sizes entries reading.reader.yielded →
      reading.GapFree afterSequence := by
    intro sizes measure yields
    rcases yields with ⟨seen, seenPart, equal⟩
    have counted : seen.Pairwise fun earlier later =>
        later.byteEnd ≤ sizes.get later.stream →
          earlier.byteEnd ≤ sizes.get earlier.stream := by
      have whole := follows.counted
      rw [Reading.written, List.pairwise_append] at whole
      refine (whole.1.sublist seenPart.sublist).imp ?_
      intro earlier later closed inside
      simp only [Reader.Counts, measure, Option.mem_some_iff,
        forall_eq'] at closed
      exact closed inside
    have yieldedPart : reading.reader.yielded <+:
        entries.filter fun entry => afterSequence < entry.sequence := by
      rw [equal]
      exact (keptEntries_initial counted).trans
        (seenPart.filter _)
    refine ⟨consecutive_initial follows.consecutive yieldedPart, ?_, ?_⟩
    · rw [follows.index.iterChunkIndexEntries_eq]
      exact yieldedPart
    · intro entry member
      exact follows.index.inRange entry
        (List.mem_filter.mp (yieldedPart.mem member)).1
  cases current : reading.reader with
  | start => exact empty (by rw [current]; rfl)
  | stdoutMeasured stdout => exact empty (by rw [current]; rfl)
  | measured sizes => exact empty (by rw [current]; rfl)
  | findCheckpoint sizes indexSize position found =>
    exact empty (by rw [current]; rfl)
  | probe sizes candidate => exact empty (by rw [current]; rfl)
  | scan sizes position scanner =>
    rw [current] at tracks
    rcases tracks with ⟨before, rest, previous, front, scan⟩
    refine part sizes (by rw [current]; intro; rfl) ?_
    rw [current]
    exact scan.yieldsPart follows.index.safe
  | finished sizes yielded =>
    rw [current] at tracks
    refine part sizes (by rw [current]; intro; rfl) ?_
    rw [current]
    exact tracks

/--
In every orderly interleaving of an appender with a reader after a sequence,
what the reader has yielded at any moment is a gap-free prefix of the index
after that sequence, and its bytes are present.
-/
theorem reader_gapFree {afterSequence : Nat} {reading : Reading}
    (reachable :
      (readingMachine afterSequence).Reachable Reading.Orderly reading) :
    reading.GapFree afterSequence := by
  have together : reading.Together afterSequence := by
    refine reachable.invariant ?_ ?_
    · rintro state rfl
      exact ⟨[],
        { index := tornIndex_ensureAttemptLogs _
          positive := le_rfl
          sequences := rfl
          pendingSafe := by simp [Appending.pending]
          inRange := by simp [Reading.written, Appending.pending]
          counted := List.Pairwise.nil }, trivial⟩
    · intro state label next together orderly step
      exact together.step orderly step
  exact together.gapFree

instance {holds : Stream → Prop} [DecidablePred holds] :
    Decidable (∀ stream, holds stream) :=
  decidable_of_iff (holds .stdout ∧ holds .stderr)
    ⟨fun both stream => by cases stream; exacts [both.1, both.2],
      fun all => ⟨all .stdout, all .stderr⟩⟩

instance (reading : Reading) (stream : Stream) :
    Decidable (reading.Outgrown stream) :=
  inferInstanceAs
    (Decidable
      (∃ size ∈ reading.reader.measure stream,
        size < reading.logs.size stream))

instance (reading : Reading) (label : ReadingStep) :
    Decidable (reading.Orderly label) :=
  match label with
  | .appendStream stream bytes =>
    inferInstanceAs
      (Decidable
        ((∀ other, other ≠ stream → reading.Outgrown other →
          ∃ size ∈ reading.reader.measure stream,
            size < reading.logs.size stream + bytes.length) ∧
        _ ∧ _))
  | .appendIndex => isTrue trivial
  | .appendCheckpoint => isTrue trivial
  | .read _ => isTrue trivial

/-- An appender and a reader that have not begun. -/
def freshReading : Reading where
  logs := ensureAttemptLogs
  nextSequence := 1
  appending := .idle
  reader := .start

/-- All writes of one append. -/
def wholeAppend (stream : Stream) (bytes : List UInt8) : List ReadingStep :=
  [.appendStream stream bytes, .appendIndex, .appendCheckpoint]

/-- A chunk is appended while the reader scans. -/
def orderlyReading : List ReadingStep :=
  wholeAppend .stdout [97] ++ wholeAppend .stderr [98] ++
    [.read 0, .read 0] ++ wholeAppend .stdout [99] ++
    [.read 0, .read 300, .read 300]

theorem reader_gapFree_orderlyReading :
    ∃ reading,
      (readingMachine 0).Reachable Reading.Orderly reading ∧
      reading.reader.yielded.length = 2 ∧ reading.GapFree 0 := by
  have ran :
      ((readingMachine 0).run freshReading orderlyReading).map
          (fun reading => reading.reader.yielded.length) =
        some 2 := by
    decide +kernel
  rcases Option.map_eq_some_iff.mp ran with ⟨reading, final, length⟩
  have reachable :
      (readingMachine 0).Reachable Reading.Orderly reading :=
    ⟨_, rfl, Machine.steps_of_run
      (fun state label => decide (state.Orderly label))
      (fun _ _ => of_decide_eq_true) (by decide +kernel) final⟩
  exact ⟨reading, reachable, length, reader_gapFree reachable⟩

/-- Two chunks are appended between the two measurements. -/
def gapReading : List ReadingStep :=
  [.read 0] ++ wholeAppend .stdout [97] ++ wholeAppend .stderr [98] ++
    [.read 0, .read 0, .read 300]

/-- The reader yields the second chunk without the first one. -/
theorem reader_skips_first_chunk :
    ∃ reading,
      (readingMachine 0).Reachable (fun _ _ => True) reading ∧
      ¬ reading.GapFree 0 := by
  have ran :
      ((readingMachine 0).run freshReading gapReading).map
          (fun reading =>
            reading.reader.yielded.map ChunkIndexEntry.sequence) =
        some [2] := by
    decide +kernel
  rcases Option.map_eq_some_iff.mp ran with ⟨reading, final, sequences⟩
  refine ⟨reading, ⟨_, rfl, Machine.steps_of_run
    (fun _ _ => true) (fun _ _ _ => trivial) (by decide +kernel)
    final⟩, ?_⟩
  rintro ⟨consecutive, _⟩
  have length := congrArg List.length sequences
  rw [List.length_map] at length
  rw [sequences, length] at consecutive
  revert consecutive
  decide

end Rbo.Executor.Logs
