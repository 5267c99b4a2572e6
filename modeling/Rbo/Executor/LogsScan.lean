import Rbo.Executor.LogsIndex
import Mathlib.Data.List.Infix

/-!
# The accelerated scan against the plain one

A scan after a sequence starts at the newest usable checkpoint, whatever the
accelerator file holds.  The probe of a candidate only accepts the start of a
record that carries the next sequence, so a scan that starts there skips
nothing but records that are too old to be yielded.

The one record the probe cannot tell from a complete one is a torn last
record that lacks nothing but its newline.
-/

namespace Rbo.Executor.Logs

open Rbo.Foundation
open Rbo.Foundation.Lines

/-! ## An index with a torn tail -/

/-- The text of the records of some entries. -/
def recordsText (entries : List ChunkIndexEntry) : List Char :=
  joinRecords (entries.map ChunkIndexEntry.stringify)

theorem recordsText_append (left right : List ChunkIndexEntry) :
    recordsText (left ++ right) = recordsText left ++ recordsText right := by
  rw [recordsText, List.map_append, joinRecords_append]
  rfl

theorem recordsText_cons (entry : ChunkIndexEntry)
    (entries : List ChunkIndexEntry) :
    recordsText (entry :: entries) =
      entry.stringify ++ '\n' :: recordsText entries :=
  rfl

/--
The index of a directory holds the records of `entries` and after them a
torn tail: a part of the record of `torn`, which was still being written.
The tail may be empty, and then nothing is asked of `torn`.
-/
structure TornIndex (logs : AttemptLogs) (entries : List ChunkIndexEntry)
    (torn : ChunkIndexEntry) (tail : List Char) : Prop where
  chunks : logs.chunks = recordsText entries ++ tail
  safe : ∀ entry ∈ entries, entry.Safe
  inRange : ∀ entry ∈ entries, entry.byteEnd ≤ logs.size entry.stream
  increasing : IncreasingFrom 0 entries
  tornPrefix : tail <+: torn.stringify
  tornSafe : tail ≠ [] → torn.Safe
  tornLater :
    tail ≠ [] → ∀ entry ∈ entries, entry.sequence < torn.sequence

namespace TornIndex

variable {logs : AttemptLogs} {entries : List ChunkIndexEntry}
  {torn : ChunkIndexEntry} {tail : List Char}

theorem newline_notMem_tail (index : TornIndex logs entries torn tail) :
    '\n' ∉ tail := fun member =>
  torn.newline_notMem_stringify (index.tornPrefix.mem member)

theorem length_tail (index : TornIndex logs entries torn tail) :
    tail.length ≤ 128 := by
  by_cases empty : tail = []
  · rw [empty]
    exact Nat.zero_le _
  · exact Nat.le_trans index.tornPrefix.length_le
      (index.tornSafe empty).length_stringify

/-- The full scan yields the records and ignores the torn tail. -/
theorem iterChunkIndexEntries_eq
    (index : TornIndex logs entries torn tail) :
    iterChunkIndexEntries logs = entries := by
  have scanned :
      scanPieces logs.size 0 0 (createReadStream logs.chunks) =
        entries.filter fun entry => 0 < entry.sequence :=
    scanPieces_records _ _ _ index.safe index.inRange index.increasing
      index.newline_notMem_tail index.length_tail
      (by rw [flatten_createReadStream, index.chunks]; rfl)
  have plain : scanCheckpoint logs 0 0 = none := rfl
  rw [iterChunkIndexEntries, iterChunkIndexEntriesFrom, plain]
  simp only [scanned, List.filter_eq_self, decide_eq_true_eq]
  intro entry member
  exact (index.safe entry member).positive

end TornIndex

/-! ## Positions in the index -/

/--
A position in the index lies in a record, the newline included, or in the
torn tail.
-/
theorem drop_recordsText (entries : List ChunkIndexEntry)
    (tail : List Char) {position : Nat}
    (bounded : position ≤ (recordsText entries ++ tail).length) :
    (∃ before entry after skipped,
      entries = before ++ entry :: after ∧
      position = (recordsText before).length + skipped ∧
      skipped ≤ entry.stringify.length ∧
      (recordsText entries ++ tail).drop position =
        entry.stringify.drop skipped ++
          '\n' :: (recordsText after ++ tail)) ∨
    (∃ skipped,
      position = (recordsText entries).length + skipped ∧
      (recordsText entries ++ tail).drop position =
        tail.drop skipped) := by
  induction entries generalizing position with
  | nil =>
    refine Or.inr ⟨position, ?_, ?_⟩
    · simp [recordsText]
    · simp [recordsText]
  | cons entry entries induction =>
    have layout :
        recordsText (entry :: entries) ++ tail =
          entry.stringify ++ '\n' :: (recordsText entries ++ tail) := by
      simp [recordsText_cons]
    by_cases inside : position ≤ entry.stringify.length
    · refine Or.inl ⟨[], entry, entries, position, rfl, ?_, inside, ?_⟩
      · simp [recordsText]
      · rw [layout, List.drop_append_of_le_length inside]
    · -- The position is beyond the newline of the first record.
      have beyond :
          position =
            (entry.stringify ++ ['\n']).length +
              (position - entry.stringify.length - 1) := by
        simp only [List.length_append, List.length_cons, List.length_nil]
        omega
      have dropped :
          (recordsText (entry :: entries) ++ tail).drop position =
            (recordsText entries ++ tail).drop
              (position - entry.stringify.length - 1) := by
        have split :
            recordsText (entry :: entries) ++ tail =
              (entry.stringify ++ ['\n']) ++
                (recordsText entries ++ tail) := by
          simp [layout]
        rw [split]
        conv_lhs => rw [beyond]
        rw [List.drop_append, List.drop_of_length_le (Nat.le_add_right _ _),
          List.nil_append, Nat.add_sub_cancel_left]
      have restBounded :
          position - entry.stringify.length - 1 ≤
            (recordsText entries ++ tail).length := by
        rw [layout] at bounded
        simp only [List.length_append, List.length_cons] at bounded ⊢
        omega
      have consLength :
          ∀ others : List ChunkIndexEntry,
            (recordsText (entry :: others)).length =
              entry.stringify.length + 1 + (recordsText others).length := by
        intro others
        rw [recordsText_cons]
        simp only [List.length_append, List.length_cons]
        omega
      rcases induction restBounded with
        ⟨before, found, after, skipped, rfl, offset, skippedLe, rest⟩ |
          ⟨skipped, offset, rest⟩
      · refine Or.inl
          ⟨entry :: before, found, after, skipped, rfl, ?_, skippedLe, ?_⟩
        · rw [consLength]
          omega
        · rw [dropped, rest]
      · refine Or.inr ⟨skipped, ?_, ?_⟩
        · rw [consLength]
          omega
        · rw [dropped, rest]

/-! ## What the probe accepts -/

variable {entry : ChunkIndexEntry} {members : List (List Nat × Json.Value)}

/-- A record is read from its first character only. -/
theorem no_object_inside_record {skipped : Nat} {text : List Char}
    (part : text <+: entry.stringify.drop skipped)
    (parsed : Json.parse text = some (.object members)) :
    skipped = 0 := by
  rcases Json.parse_object parsed with ⟨inner, start, _⟩
  have braceMember : '{' ∈ entry.stringify.drop skipped := by
    refine part.mem ((Json.skipWhitespace_suffix text).mem ?_)
    rw [start]
    simp
  cases skipped with
  | zero => rfl
  | succ more =>
    have inTail : '{' ∈ entry.stringify.tail := by
      rw [← List.drop_one]
      refine (List.drop_suffix more _).mem ?_
      rw [List.drop_drop, Nat.add_comm]
      exact braceMember
    exact absurd inTail entry.openBrace_notMem_tail

/-- A torn record is read only when it lacks nothing but its newline. -/
theorem object_record_complete {text : List Char}
    (part : text <+: entry.stringify)
    (parsed : Json.parse text = some (.object members)) :
    text = entry.stringify := by
  rcases Json.parse_object parsed with ⟨inner, start, closed⟩
  have braceMember : '}' ∈ text := by
    refine (Json.skipWhitespace_suffix text).mem ?_
    rw [start]
    exact List.mem_cons_of_mem _ closed
  rcases part with ⟨missing, whole⟩
  rcases List.eq_nil_or_concat' missing with rfl | ⟨front, last, rfl⟩
  · simpa using whole
  · have dropLast : entry.stringify.dropLast = text ++ front := by
      rw [← whole, ← List.append_assoc, List.dropLast_concat]
    exact absurd
      (by rw [dropLast]; exact List.mem_append_left _ braceMember)
      entry.closeBrace_notMem_dropLast

variable {candidate : ChunkIndexCheckpoint}

/-- The probe reads an object and compares its sequence. -/
theorem probeCheckpoint_object {chunks : List Char}
    (accepted : probeCheckpoint chunks candidate = true) :
    ∃ members value,
      Json.parse (probeLine chunks candidate.byteOffset) =
        some (.object members) ∧
      (Json.Value.object members).property sequenceKey =
        some (some value) ∧
      value.integer? = some ((candidate.sequence : Int) + 1) := by
  rw [probeCheckpoint] at accepted
  split at accepted
  · cases accepted
  · rename_i parsed read
    split at accepted
    · rename_i value property
      rcases Json.object_of_property property with ⟨members, rfl⟩
      exact ⟨members, value, read, property, by simpa using accepted⟩
    · cases accepted

/-- The probe line of a record that is followed by a newline or by nothing. -/
theorem probeLine_record (safe : entry.Safe) {skipped : Nat}
    {text : List Char} (part : text <+: entry.stringify.drop skipped)
    (rest : List Char) (ends : rest = [] ∨ ∃ more, rest = '\n' :: more) :
    ((text ++ rest).take probeBytes).takeWhile (· ≠ '\n') = text := by
  have short : text.length ≤ 128 := by
    have bounded := part.length_le
    rw [List.length_drop] at bounded
    have whole := safe.length_stringify
    omega
  have noNewline : ∀ char ∈ text, decide (char ≠ '\n') = true := by
    intro char member
    rw [decide_eq_true_eq]
    intro equal
    subst equal
    exact entry.newline_notMem_stringify
      ((List.drop_suffix _ _).mem (part.mem member))
  have taken :
      (text ++ rest).take probeBytes =
        text ++ rest.take (probeBytes - text.length) := by
    rw [List.take_append, List.take_of_length_le]
    exact Nat.le_trans short (by decide)
  rw [taken, List.takeWhile_append_of_pos noNewline]
  rcases ends with rfl | ⟨more, rfl⟩
  · simp
  · have positive : probeBytes - text.length ≠ 0 := by
      have : probeBytes = 4096 := rfl
      omega
    cases count : probeBytes - text.length with
    | zero => exact absurd count positive
    | succ smaller => simp

/-- The sequence a written record is probed for. -/
theorem sequence_of_probe (safe : entry.Safe) {value : Json.Value}
    (parsed : Json.parse entry.stringify = some (.object members)) (property :
      (Json.Value.object members).property sequenceKey = some (some value))
    (integer : value.integer? = some ((candidate.sequence : Int) + 1)) :
    entry.sequence = candidate.sequence + 1 := by
  rw [entry.parse_stringify, Option.some.injEq] at parsed
  rw [← parsed, entry.value_property_sequence, Option.some.injEq,
    Option.some.injEq] at property
  subst property
  have bounded : entry.sequence ≤ 2 ^ 53 :=
    Nat.le_trans safe.sequence (Nat.sub_le _ _)
  rw [Json.integer?_natural bounded, Option.some.injEq] at integer
  omega

/--
The probe accepts a candidate only at the start of a record that carries the
next sequence.  That record is complete, or it is the torn one and lacks
nothing but its newline.
-/
theorem TornIndex.probe_sound {logs : AttemptLogs}
    {entries : List ChunkIndexEntry} {torn : ChunkIndexEntry}
    {tail : List Char} (index : TornIndex logs entries torn tail)
    (bounded : candidate.byteOffset ≤ logs.chunks.length)
    (accepted : probeCheckpoint logs.chunks candidate = true) :
    (∃ before entry after,
      entries = before ++ entry :: after ∧
      entry.sequence = candidate.sequence + 1 ∧
      logs.chunks.drop candidate.byteOffset =
        recordsText (entry :: after) ++ tail) ∨
    (tail = torn.stringify ∧
      torn.sequence = candidate.sequence + 1 ∧
      candidate.byteOffset = (recordsText entries).length) := by
  rcases probeCheckpoint_object accepted with
    ⟨members, value, parsed, property, integer⟩
  rw [index.chunks] at bounded
  rcases drop_recordsText entries tail bounded with
    ⟨before, entry, after, skipped, rfl, _, _, dropped⟩ |
      ⟨skipped, offset, dropped⟩
  · have safe : entry.Safe := index.safe entry (by simp)
    have line : probeLine logs.chunks candidate.byteOffset =
        entry.stringify.drop skipped := by
      rw [probeLine, index.chunks, dropped]
      exact probeLine_record safe List.prefix_rfl _ (Or.inr ⟨_, rfl⟩)
    rw [line] at parsed
    have zero := no_object_inside_record List.prefix_rfl parsed
    subst zero
    rw [List.drop_zero] at parsed dropped
    refine Or.inl ⟨before, entry, after, rfl,
      sequence_of_probe safe parsed property integer, ?_⟩
    rw [index.chunks, dropped, recordsText_cons]
    simp
  · have part : tail.drop skipped <+: torn.stringify.drop skipped :=
      index.tornPrefix.drop skipped
    have line : probeLine logs.chunks candidate.byteOffset =
        tail.drop skipped := by
      rw [probeLine, index.chunks, dropped]
      by_cases empty : tail = []
      · simp [empty]
      · have read :=
          probeLine_record (index.tornSafe empty) part [] (Or.inl rfl)
        simpa using read
    rw [line] at parsed
    have zero := no_object_inside_record part parsed
    subst zero
    rw [List.drop_zero] at parsed
    have complete := object_record_complete index.tornPrefix parsed
    have nonempty : tail ≠ [] := by
      rw [complete, torn.stringify_eq]
      exact List.cons_ne_nil _ _
    rw [complete] at parsed
    exact Or.inr ⟨complete,
      sequence_of_probe (index.tornSafe nonempty) parsed property integer,
      offset⟩

/-! ## Candidates from the accelerator -/

/-- A candidate that passed the checks of `findChunkCheckpoint`. -/
def ChunkIndexCheckpoint.Usable (afterSequence indexSize : Nat)
    (checkpoint : ChunkIndexCheckpoint) : Prop :=
  checkpoint.sequence ≤ afterSequence ∧ checkpoint.byteOffset ≤ indexSize

variable {afterSequence indexSize : Nat}

theorem considerCheckpoint_usable {candidate : Option ChunkIndexCheckpoint}
    (usable : ∀ kept ∈ candidate, kept.Usable afterSequence indexSize)
    (line : List Char) :
    ∀ kept ∈ considerCheckpoint afterSequence indexSize candidate line,
      kept.Usable afterSequence indexSize := by
  intro kept member
  rw [considerCheckpoint] at member
  split at member
  · exact usable kept member
  · split at member
    · rename_i sequence byteOffset _ _
      split at member
      · exact usable kept member
      · rename_i accepted
        rw [Option.mem_some_iff] at member
        subst member
        simp only [not_or] at accepted
        rcases accepted with ⟨nonneg, bounded, offsetNonneg, inside, _⟩
        constructor
        · dsimp only
          omega
        · dsimp only
          omega
    · exact usable kept member

theorem foldl_considerCheckpoint_usable (lines : List (List Char))
    {candidate : Option ChunkIndexCheckpoint}
    (usable : ∀ kept ∈ candidate, kept.Usable afterSequence indexSize) :
    ∀ kept ∈ lines.foldl (considerCheckpoint afterSequence indexSize)
        candidate,
      kept.Usable afterSequence indexSize := by
  induction lines generalizing candidate with
  | nil => exact usable
  | cons line lines induction =>
    exact induction (considerCheckpoint_usable usable line)

theorem CheckpointReader.read_usable {reader : CheckpointReader}
    (usable : ∀ kept ∈ reader.candidate, kept.Usable afterSequence indexSize)
    (piece : List Char) :
    ∀ kept ∈ (reader.read afterSequence indexSize piece).candidate,
      kept.Usable afterSequence indexSize := by
  rw [CheckpointReader.read]
  split
  · split
    · exact usable
    · exact foldl_considerCheckpoint_usable _ usable
  · exact foldl_considerCheckpoint_usable _ usable

theorem foldl_read_usable (pieces : List (List Char))
    {reader : CheckpointReader}
    (usable : ∀ kept ∈ reader.candidate, kept.Usable afterSequence indexSize) :
    ∀ kept ∈ (pieces.foldl
        (CheckpointReader.read afterSequence indexSize) reader).candidate,
      kept.Usable afterSequence indexSize := by
  induction pieces generalizing reader with
  | nil => exact usable
  | cons piece pieces induction =>
    exact induction (CheckpointReader.read_usable usable piece)

/-- Whatever the accelerator holds, its newest candidate is usable. -/
theorem newestCandidate_usable {pieces : List (List Char)}
    (newest : newestCandidate afterSequence indexSize pieces = some candidate) :
    candidate.Usable afterSequence indexSize :=
  foldl_read_usable pieces (by simp) candidate newest

/-- A checkpoint a scan starts from is the newest candidate, and probed. -/
theorem findChunkCheckpoint_some {pieces : List (List Char)}
    {chunks : List Char} {checkpoint : ChunkIndexCheckpoint} (found :
      findChunkCheckpoint pieces chunks afterSequence indexSize =
        some checkpoint) :
    newestCandidate afterSequence indexSize pieces = some checkpoint ∧
      probeCheckpoint chunks checkpoint = true := by
  rw [findChunkCheckpoint] at found
  split at found
  · cases found
  · rename_i candidate newest
    split at found
    · rename_i accepted
      rw [Option.some.injEq] at found
      subst found
      exact ⟨newest, accepted⟩
    · cases found

/-! ## The accelerated scan -/

/-- The last sequence of some entries, and 0 when there is none. -/
def lastSequence (entries : List ChunkIndexEntry) : Nat :=
  entries.foldl (fun _ entry => entry.sequence) 0

theorem lastSequence_append_cons (before after : List ChunkIndexEntry)
    (entry : ChunkIndexEntry) :
    lastSequence (before ++ entry :: after) =
      lastSequence (entry :: after) := by
  simp [lastSequence, List.foldl_append]

theorem readLastChunkSequence_checkpoint
    {logs : AttemptLogs} {checkpoint : ChunkIndexCheckpoint}
    (found :
      findChunkCheckpoint (createReadStream logs.checkpoints) logs.chunks
        Json.maxSafeInteger logs.chunks.length = some checkpoint) :
    readLastChunkSequence logs =
      lastSequence
        (scanPieces logs.size 0 checkpoint.sequence
          (createReadStream (logs.chunks.drop checkpoint.byteOffset))) := by
  have start :
      scanCheckpoint logs 0 Json.maxSafeInteger = some checkpoint := found
  rw [readLastChunkSequence, iterChunkIndexEntriesFrom, start]
  rfl

namespace TornIndex

variable {logs : AttemptLogs} {entries : List ChunkIndexEntry}
  {torn : ChunkIndexEntry} {tail : List Char}

section

variable (index : TornIndex logs entries torn tail)

include index

/-- A scan that starts at the torn tail finds nothing. -/
theorem scan_tail {afterSequence byteOffset : Nat}
    (offset : byteOffset = (recordsText entries).length)
    (previousSequence : Nat) :
    scanPieces logs.size afterSequence previousSequence
        (createReadStream (logs.chunks.drop byteOffset)) = [] := by
  have nothing : ∀ other ∈ ([] : List ChunkIndexEntry), False := by
    simp
  have text : logs.chunks.drop byteOffset = tail := by
    rw [index.chunks, offset, List.drop_left]
  have scanned :=
    scanPieces_records logs.size afterSequence previousSequence
      (fun other member => (nothing other member).elim)
      (fun other member => (nothing other member).elim)
      (List.pairwise_singleton _ _)
      index.newline_notMem_tail index.length_tail
      ((flatten_createReadStream (logs.chunks.drop byteOffset)).trans text)
  simpa using scanned

theorem scan_checkpoint (afterSequence : Nat) {bound : Nat}
    {checkpoint : ChunkIndexCheckpoint}
    (usable : checkpoint.Usable bound logs.chunks.length)
    (accepted : probeCheckpoint logs.chunks checkpoint = true) :
    (∃ before entry after,
      entries = before ++ entry :: after ∧
      entry.sequence = checkpoint.sequence + 1 ∧
      scanPieces logs.size afterSequence checkpoint.sequence
          (createReadStream (logs.chunks.drop checkpoint.byteOffset)) =
        (entry :: after).filter fun other =>
          afterSequence < other.sequence) ∨
    (tail = torn.stringify ∧
      torn.sequence = checkpoint.sequence + 1 ∧
      checkpoint.byteOffset = (recordsText entries).length ∧
      scanPieces logs.size afterSequence checkpoint.sequence
          (createReadStream (logs.chunks.drop checkpoint.byteOffset)) =
        []) := by
  rcases index.probe_sound usable.2 accepted with
    ⟨before, entry, after, rfl, sequence, text⟩ |
      ⟨complete, sequence, offset⟩
  · refine Or.inl ⟨before, entry, after, rfl, sequence, ?_⟩
    have increasing :
        IncreasingFrom checkpoint.sequence (entry :: after) := by
      have whole := index.increasing
      rw [IncreasingFrom, List.map_append, ← List.cons_append,
        List.pairwise_append] at whole
      rw [IncreasingFrom, List.pairwise_cons]
      refine ⟨?_, whole.2.1⟩
      have rest := (List.pairwise_cons.mp whole.2.1).1
      intro other member
      rcases List.mem_cons.mp member with rfl | member
      · omega
      · have later := rest other member
        omega
    refine scanPieces_records _ _ _
      (fun other member => index.safe other (by simp [member]))
      (fun other member => index.inRange other (by simp [member]))
      increasing index.newline_notMem_tail index.length_tail ?_
    rw [flatten_createReadStream, text]
    rfl
  · exact Or.inr ⟨complete, sequence, offset,
      index.scan_tail offset checkpoint.sequence⟩

/--
The scan after a sequence agrees with the full scan, for every content of the
accelerator.
-/
theorem iterChunkIndexEntriesAfter_eq (afterSequence : Nat) :
    iterChunkIndexEntriesAfter logs afterSequence =
      (iterChunkIndexEntries logs).filter fun entry =>
        afterSequence < entry.sequence := by
  rw [index.iterChunkIndexEntries_eq, iterChunkIndexEntriesAfter,
    iterChunkIndexEntriesFrom]
  cases found : scanCheckpoint logs afterSequence afterSequence with
  | none =>
    exact scanPieces_records _ _ _ index.safe index.inRange
      index.increasing index.newline_notMem_tail
      index.length_tail
      (by rw [flatten_createReadStream, index.chunks]; rfl)
  | some checkpoint =>
    have bound :
        (if 0 < afterSequence then afterSequence else afterSequence) =
          afterSequence := by
      simp
    simp only [scanCheckpoint, bound] at found
    dsimp only
    split at found
    · rcases findChunkCheckpoint_some found with ⟨newest, accepted⟩
      have usable := newestCandidate_usable newest
      rcases index.scan_checkpoint afterSequence usable accepted
        with
        ⟨before, entry, after, rfl, sequence, scanned⟩ |
          ⟨complete, sequence, _, scanned⟩
      · -- The records before the checkpoint are too old to be yielded.
        have old :
            before.filter (fun other => afterSequence < other.sequence) =
              [] := by
          rw [List.filter_eq_nil_iff]
          intro other member
          have increasing := index.increasing
          rw [IncreasingFrom, List.map_append, ← List.cons_append,
            List.pairwise_append] at increasing
          have earlier : other.sequence < entry.sequence :=
            increasing.2.2 _
              (List.mem_cons_of_mem _ (List.mem_map_of_mem member)) _
              (by simp)
          have bounded := usable.1
          simp only [decide_eq_true_eq]
          omega
        rw [scanned, List.filter_append, old, List.nil_append]
      · rw [scanned, eq_comm, List.filter_eq_nil_iff]
        intro other member
        have nonempty : tail ≠ [] := by
          rw [complete, torn.stringify_eq]
          exact List.cons_ne_nil _ _
        have earlier := index.tornLater nonempty other member
        have bounded := usable.1
        simp only [decide_eq_true_eq]
        omega
    · cases found

/-! ## The last sequence -/

theorem filter_positive {some : List ChunkIndexEntry}
    (inside : ∀ entry ∈ some, entry ∈ entries) :
    some.filter (fun entry => 0 < entry.sequence) = some := by
  rw [List.filter_eq_self]
  intro entry member
  exact decide_eq_true (index.safe entry (inside entry member)).positive

/-- The scan `readLastChunkSequence` runs when no checkpoint is found. -/
theorem readLastChunkSequence_plain (plain :
      findChunkCheckpoint (createReadStream logs.checkpoints) logs.chunks
        Json.maxSafeInteger logs.chunks.length = none) :
    readLastChunkSequence logs = lastSequence entries := by
  have missing : scanCheckpoint logs 0 Json.maxSafeInteger = none := plain
  have full := index.iterChunkIndexEntries_eq
  rw [iterChunkIndexEntries, iterChunkIndexEntriesFrom] at full
  rw [readLastChunkSequence, iterChunkIndexEntriesFrom, missing]
  exact congrArg lastSequence full

end

end TornIndex

/--
The newest usable checkpoint names the torn record, which lacks nothing but
its newline and follows at least one complete record.
-/
def PointsAtTornRecord (logs : AttemptLogs)
    (entries : List ChunkIndexEntry) (torn : ChunkIndexEntry)
    (tail : List Char) : Prop :=
  entries ≠ [] ∧ tail = torn.stringify ∧
    newestCandidate Json.maxSafeInteger logs.chunks.length
        (createReadStream logs.checkpoints) =
      some
        { sequence := torn.sequence - 1
          byteOffset := (recordsText entries).length }

namespace TornIndex

variable {logs : AttemptLogs} {entries : List ChunkIndexEntry}
  {torn : ChunkIndexEntry} {tail : List Char}

section

variable (index : TornIndex logs entries torn tail)

include index

theorem lastSequence_pos (nonempty : entries ≠ []) :
    0 < lastSequence entries := by
  rcases List.eq_nil_or_concat' entries with empty | ⟨before, entry, equal⟩
  · exact absurd empty nonempty
  · have positive := (index.safe entry (by simp [equal])).positive
    rw [equal, lastSequence_append_cons]
    exact positive

/-- The last sequence is right unless the accelerator names the torn record. -/
theorem readLastChunkSequence_eq
    (apart : ¬ PointsAtTornRecord logs entries torn tail) :
    readLastChunkSequence logs = lastSequence entries := by
  cases found :
      findChunkCheckpoint (createReadStream logs.checkpoints) logs.chunks
        Json.maxSafeInteger logs.chunks.length with
  | none => exact index.readLastChunkSequence_plain found
  | some checkpoint =>
    rw [readLastChunkSequence_checkpoint found]
    rcases findChunkCheckpoint_some found with ⟨newest, accepted⟩
    rcases index.scan_checkpoint 0
        (newestCandidate_usable newest) accepted with
      ⟨before, entry, after, rfl, _, scanned⟩ |
        ⟨complete, sequence, offset, scanned⟩
    · rw [scanned, index.filter_positive, lastSequence_append_cons]
      intro other member
      exact List.mem_append_right _ member
    · rw [scanned]
      by_cases empty : entries = []
      · rw [empty]
      · refine absurd ⟨empty, complete, ?_⟩ apart
        rw [newest, ← offset, sequence, Nat.add_sub_cancel]

/-- A checkpoint that names the torn record passes the probe. -/
theorem probeCheckpoint_torn (complete : tail = torn.stringify) :
    probeCheckpoint logs.chunks
      { sequence := torn.sequence - 1
        byteOffset := (recordsText entries).length } = true := by
  have nonempty : tail ≠ [] := by
    rw [complete, torn.stringify_eq]
    exact List.cons_ne_nil _ _
  have safe := index.tornSafe nonempty
  have positive := safe.positive
  have line :
      probeLine logs.chunks (recordsText entries).length =
        torn.stringify := by
    have part : torn.stringify <+: torn.stringify.drop 0 :=
      List.prefix_rfl
    have read := probeLine_record safe part [] (Or.inl rfl)
    rw [probeLine, index.chunks, List.drop_left, complete]
    simpa using read
  have bounded : torn.sequence ≤ 2 ^ 53 :=
    Nat.le_trans safe.sequence (Nat.sub_le _ _)
  rw [probeCheckpoint, line, torn.parse_stringify]
  dsimp only
  rw [torn.value_property_sequence]
  dsimp only
  rw [Json.integer?_natural bounded, decide_eq_true_eq, Option.some.injEq]
  omega

/-- In that case the search for the last sequence finds nothing. -/
theorem readLastChunkSequence_zero
    (points : PointsAtTornRecord logs entries torn tail) :
    readLastChunkSequence logs = 0 := by
  rcases points with ⟨_, complete, newest⟩
  have found :
      findChunkCheckpoint (createReadStream logs.checkpoints) logs.chunks
          Json.maxSafeInteger logs.chunks.length =
        some
          { sequence := torn.sequence - 1
            byteOffset := (recordsText entries).length } := by
    rw [findChunkCheckpoint, newest]
    dsimp only
    rw [index.probeCheckpoint_torn complete]
    rfl
  rw [readLastChunkSequence_checkpoint found, index.scan_tail rfl]
  rfl

/--
The accelerated reads agree with the full scan exactly when the accelerator
does not name the torn record.
-/
theorem accelerated_iff :
    ((∀ afterSequence,
        iterChunkIndexEntriesAfter logs afterSequence =
          (iterChunkIndexEntries logs).filter fun entry =>
            afterSequence < entry.sequence) ∧
      readLastChunkSequence logs =
        lastSequence (iterChunkIndexEntries logs)) ↔
      ¬ PointsAtTornRecord logs entries torn tail := by
  rw [index.iterChunkIndexEntries_eq]
  constructor
  · rintro ⟨_, last⟩ points
    have positive := index.lastSequence_pos points.1
    rw [index.readLastChunkSequence_zero points] at last
    omega
  · intro apart
    refine ⟨?_, index.readLastChunkSequence_eq apart⟩
    intro afterSequence
    rw [index.iterChunkIndexEntriesAfter_eq, index.iterChunkIndexEntries_eq]

end

/-- A whole index has no torn record to be named. -/
theorem readLastChunkSequence_whole
    (index : TornIndex logs entries torn []) :
    readLastChunkSequence logs = lastSequence entries := by
  refine index.readLastChunkSequence_eq ?_
  rintro ⟨_, complete, _⟩
  rw [torn.stringify_eq] at complete
  cases complete

end TornIndex

end Rbo.Executor.Logs
