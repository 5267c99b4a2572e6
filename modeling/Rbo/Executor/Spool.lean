import Rbo.Executor.LogsDurable

/-!
# The agent's spool

The agent numbers its chunks itself: an open spool keeps the next sequence and
the end of each stream file in memory, and an append advances them only after
its last write.  Opening a spool truncates a torn index line and computes the
memory from the files.

Any file operation may fail and leave the process running, and the process may
crash and open the spool again.
-/

namespace Rbo.Executor.Spool

open Rbo.Foundation
open Rbo.Foundation.Lines
open Rbo.Executor.Logs

/-! ## The torn tail -/

/-- The position of the last newline of a piece. -/
def lastIndexOf : List Char → Option Nat
  | [] => none
  | head :: tail =>
    match lastIndexOf tail with
    | some index => some (index + 1)
    | none => if head = '\n' then some 0 else none

/-- What the repair of the index has seen of it. -/
structure TailScan where
  bytesRead : Nat
  lastNewline : Option Nat
  lastByte : Option Char

/-- Read one piece of the index. -/
def TailScan.read (scan : TailScan) (piece : List Char) : TailScan where
  bytesRead := scan.bytesRead + piece.length
  lastNewline :=
    match lastIndexOf piece with
    | some newline => some (scan.bytesRead + newline)
    | none => scan.lastNewline
  lastByte := piece.getLast?.or scan.lastByte

/-- The index without its torn tail. -/
def truncateTail (chunks : List Char) : List Char :=
  let scan :=
    (createReadStream chunks).foldl TailScan.read
      { bytesRead := 0, lastNewline := none, lastByte := none }
  if 0 < scan.bytesRead ∧ scan.lastByte ≠ some '\n' then
    match scan.lastNewline with
    | none => chunks.take 0
    | some newline => chunks.take (newline + 1)
  else
    chunks

/-! ## The spool in memory -/

/-- The end of each stream file, as the spool remembers it. -/
structure StreamOffsets where
  stdout : Nat
  stderr : Nat
  deriving DecidableEq

def StreamOffsets.get (offsets : StreamOffsets) : Stream → Nat
  | .stdout => offsets.stdout
  | .stderr => offsets.stderr

def StreamOffsets.set (offsets : StreamOffsets) (stream : Stream)
    (offset : Nat) : StreamOffsets :=
  match stream with
  | .stdout => { offsets with stdout := offset }
  | .stderr => { offsets with stderr := offset }

/-- The numbers an open spool keeps in memory. -/
structure AttemptSpool where
  nextSequence : Nat
  streamOffsets : StreamOffsets
  deriving DecidableEq

/-- Take an entry of the index into account. -/
def AttemptSpool.note (spool : AttemptSpool) (entry : ChunkIndexEntry) :
    AttemptSpool where
  nextSequence :=
    if spool.nextSequence ≤ entry.sequence then entry.sequence + 1
    else spool.nextSequence
  streamOffsets :=
    if spool.streamOffsets.get entry.stream < entry.byteEnd then
      spool.streamOffsets.set entry.stream entry.byteEnd
    else
      spool.streamOffsets

/-- Prefer the live size of a stream file to the indexed offset. -/
def AttemptSpool.preferLiveSize (spool : AttemptSpool) (logs : AttemptLogs)
    (stream : Stream) : AttemptSpool :=
  if spool.streamOffsets.get stream < logs.size stream then
    { spool with
      streamOffsets :=
        spool.streamOffsets.set stream (logs.size stream) }
  else
    spool

/--
The file operations that fail while a spool is opened: the repair of the
index, its scan after some entries (none, when a `stat` fails), and the `stat`
of the live size of each stream file.
-/
structure OpenFaults where
  repair : Bool
  scan : Option Nat
  stat : Stream → Bool

/-- Nothing fails. -/
def OpenFaults.none : OpenFaults where
  repair := false
  scan := Option.none
  stat := fun _ => false

/-- The index after the repair, which tolerates its own failure. -/
def repairIndex (logs : AttemptLogs) (faults : OpenFaults) : AttemptLogs :=
  if faults.repair then logs
  else { logs with chunks := truncateTail logs.chunks }

/-- The entries the opening scan yields. -/
def scannedEntries (logs : AttemptLogs) (faults : OpenFaults) :
    List ChunkIndexEntry :=
  match faults.scan with
  | Option.none => iterChunkIndexEntries logs
  | some count => (iterChunkIndexEntries logs).take count

/-- The memory of a spool, from the files. -/
def restoreSpool (logs : AttemptLogs) (faults : OpenFaults) :
    AttemptSpool :=
  let indexed :=
    (scannedEntries logs faults).foldl AttemptSpool.note
      { nextSequence := 1
        streamOffsets := { stdout := 0, stderr := 0 } }
  let prefer := fun (spool : AttemptSpool) (stream : Stream) =>
    if faults.stat stream then spool
    else spool.preferLiveSize logs stream
  prefer (prefer indexed .stdout) .stderr

def openAttemptSpool (logs : AttemptLogs) (faults : OpenFaults) :
    AttemptLogs × AttemptSpool :=
  let repaired := repairIndex logs faults
  (repaired, restoreSpool repaired faults)

/-- The entry the next append writes. -/
def AttemptSpool.newEntry (spool : AttemptSpool) (stream : Stream)
    (bytes : List UInt8) : ChunkIndexEntry where
  sequence := spool.nextSequence
  stream := stream
  byteOffset := spool.streamOffsets.get stream
  byteLength := bytes.length

/-- The memory after an append. -/
def AttemptSpool.advance (spool : AttemptSpool) (stream : Stream)
    (bytes : List UInt8) : AttemptSpool where
  nextSequence := spool.nextSequence + 1
  streamOffsets :=
    spool.streamOffsets.set stream
      (spool.streamOffsets.get stream + bytes.length)

/-- Append a chunk: three writes, and then the memory. -/
def appendChunk (logs : AttemptLogs) (spool : AttemptSpool)
    (stream : Stream) (bytes : List UInt8) : AttemptLogs × AttemptSpool :=
  (writeChunk logs bytes (spool.newEntry stream bytes),
    spool.advance stream bytes)

/-! ## Runs -/

/-- A call of `appendChunk` with the sequence it was assigned. -/
structure AppendChunkCall where
  sequence : Nat
  stream : Stream
  bytes : List UInt8
  returned : Bool
  deriving DecidableEq

/-- A spool directory, the open spool and the calls made so far. -/
structure SpoolRun where
  logs : AttemptLogs
  spool : Option AttemptSpool
  calls : List AppendChunkCall
  deriving DecidableEq

/--
What happens to a spool.  A failing append is cut where one of its operations
fails; a failing `stat` of the index cuts it before its index line.
-/
inductive SpoolEvent where
  | openSpool (faults : OpenFaults)
  | append (stream : Stream) (bytes : List UInt8) (cut : Option WritePoint)
  | crash

/-- One event; an append needs an open spool. -/
def SpoolRun.event (run : SpoolRun) : SpoolEvent → Option SpoolRun
  | .openSpool faults =>
    let opened := openAttemptSpool run.logs faults
    some { run with logs := opened.1, spool := some opened.2 }
  | .append stream bytes cut =>
    match run.spool with
    | none => none
    | some spool =>
      let entry := spool.newEntry stream bytes
      let call :=
        { sequence := entry.sequence
          stream := stream
          bytes := bytes
          returned := cut.isNone : AppendChunkCall }
      match cut with
      | some point =>
        some
          { logs := writeChunkUntil run.logs bytes entry point
            spool := some spool
            calls := run.calls ++ [call] }
      | none =>
        let appended := appendChunk run.logs spool stream bytes
        some
          { logs := appended.1
            spool := some appended.2
            calls := run.calls ++ [call] }
  | .crash => some { run with spool := none }

/-- Events on one spool directory. -/
def spoolMachine : Machine SpoolRun SpoolEvent where
  initial run :=
    run = { logs := ensureAttemptLogs, spool := none, calls := [] }
  step := SpoolRun.event

/-- The call a sequence was assigned to, the last one if there are several. -/
def assignedCall (calls : List AppendChunkCall) (sequence : Nat) :
    Option AppendChunkCall :=
  calls.foldl
    (fun found call => if call.sequence = sequence then some call else found)
    none

def returnedSequences (calls : List AppendChunkCall) : List Nat :=
  (calls.filter AppendChunkCall.returned).map AppendChunkCall.sequence

/--
Every chunk reads back as it was passed to the call its sequence was assigned
to, and the calls that returned have increasing sequences.
-/
def SpoolRun.Consistent (run : SpoolRun) : Prop :=
  (∀ chunk ∈ iterIndexedChunkBytesAfter run.logs 0,
    ∃ call,
      assignedCall run.calls chunk.sequence = some call ∧
      call.stream = chunk.stream ∧ call.bytes = chunk.bytes) ∧
  (returnedSequences run.calls).Pairwise (· < ·)

/--
The memory of the spool agrees with its files for an append to a stream: the
index is whole and all its sequences are below the next one, the remembered
offset is the end of the stream file, and the numbers of the new entry are
exact as JavaScript numbers.
-/
def AttemptSpool.Agrees (spool : AttemptSpool) (logs : AttemptLogs)
    (stream : Stream) (bytes : List UInt8) : Prop :=
  pendingText logs.chunks = [] ∧
    (∀ entry ∈ iterChunkIndexEntries logs,
      entry.sequence < spool.nextSequence) ∧
    spool.streamOffsets.get stream = logs.size stream ∧
    spool.nextSequence ≤ Json.maxSafeInteger ∧
    logs.size stream + bytes.length ≤ Json.maxSafeInteger

/-- Every append starts with a memory that agrees with the files. -/
def SpoolRun.InStep (run : SpoolRun) : SpoolEvent → Prop
  | .append stream bytes _ =>
    ∀ spool ∈ run.spool, spool.Agrees run.logs stream bytes
  | _ => True

/-! ## The repair of the index -/

theorem lastIndexOf_append (left right : List Char) :
    lastIndexOf (left ++ right) =
      match lastIndexOf right with
      | some newline => some (left.length + newline)
      | none => lastIndexOf left := by
  induction left with
  | nil =>
    rw [List.nil_append]
    cases lastIndexOf right with
    | none => rfl
    | some newline => simp
  | cons head tail induction =>
    rw [List.cons_append, lastIndexOf, induction]
    cases lastIndexOf right with
    | none => rfl
    | some newline =>
      simp only [List.length_cons, Option.some.injEq]
      omega

theorem lastIndexOf_of_noNewline {text : List Char}
    (noNewline : '\n' ∉ text) : lastIndexOf text = none := by
  induction text with
  | nil => rfl
  | cons head tail induction =>
    rw [List.mem_cons, not_or] at noNewline
    rw [lastIndexOf, induction noNewline.2]
    exact if_neg fun equal => noNewline.1 equal.symm

/-- What a scan of a whole text sees. -/
def TailScan.of (text : List Char) : TailScan where
  bytesRead := text.length
  lastNewline := lastIndexOf text
  lastByte := text.getLast?

theorem TailScan.read_of (front piece : List Char) :
    (TailScan.of front).read piece = TailScan.of (front ++ piece) := by
  rw [TailScan.read, TailScan.of, TailScan.of, TailScan.mk.injEq]
  refine ⟨?_, ?_, ?_⟩
  · rw [List.length_append]
  · rw [lastIndexOf_append]
  · rw [List.getLast?_append]

/-- Reading in pieces sees what reading at once sees. -/
theorem TailScan.foldl_read (pieces : List (List Char))
    (front : List Char) :
    pieces.foldl TailScan.read (TailScan.of front) =
      TailScan.of (front ++ pieces.flatten) := by
  induction pieces generalizing front with
  | nil => simp
  | cons piece pieces induction =>
    rw [List.foldl_cons, TailScan.read_of, induction]
    simp

/-- The repair keeps the complete records of an index and nothing else. -/
theorem truncateTail_records (records : List (List Char))
    {tail : List Char} (noNewline : '\n' ∉ tail) :
    truncateTail (joinRecords records ++ tail) = joinRecords records := by
  have scanned :
      (createReadStream (joinRecords records ++ tail)).foldl TailScan.read
          { bytesRead := 0, lastNewline := none, lastByte := none } =
        TailScan.of (joinRecords records ++ tail) := by
    have read :=
      TailScan.foldl_read
        (createReadStream (joinRecords records ++ tail)) []
    rw [flatten_createReadStream, List.nil_append] at read
    exact read
  rw [truncateTail, scanned]
  rcases List.eq_nil_or_concat' records with rfl | ⟨before, last, rfl⟩
  · -- Without a complete record everything is torn.
    rw [joinRecords_nil, List.nil_append]
    cases tail with
    | nil => rfl
    | cons head rest =>
      have torn :
          0 < (TailScan.of (head :: rest)).bytesRead ∧
            (TailScan.of (head :: rest)).lastByte ≠ some '\n' := by
        refine ⟨Nat.succ_pos _, ?_⟩
        intro last
        exact noNewline (List.mem_of_getLast? last)
      rw [if_pos torn, TailScan.of]
      dsimp only
      rw [lastIndexOf_of_noNewline noNewline]
      rfl
  · have ends :
        joinRecords (before ++ [last]) =
          (joinRecords before ++ last) ++ ['\n'] := by
      rw [joinRecords_append]
      simp
    rw [ends]
    cases tail with
    | nil =>
      have whole :
          ¬ (0 < (TailScan.of
              ((joinRecords before ++ last) ++ ['\n'] ++ [])).bytesRead ∧
            (TailScan.of
              ((joinRecords before ++ last) ++ ['\n'] ++ [])).lastByte ≠
              some '\n') := by
        rintro ⟨_, different⟩
        refine different ?_
        rw [List.append_nil, TailScan.of, List.getLast?_concat]
      rw [if_neg whole, List.append_nil]
    | cons head rest =>
      have torn :
          0 < (TailScan.of ((joinRecords before ++ last) ++ ['\n'] ++
              head :: rest)).bytesRead ∧
            (TailScan.of ((joinRecords before ++ last) ++ ['\n'] ++
              head :: rest)).lastByte ≠ some '\n' := by
        constructor
        · simp [TailScan.of]
        · intro last
          rw [TailScan.of, List.getLast?_append_of_ne_nil _
            (List.cons_ne_nil _ _)] at last
          exact noNewline (List.mem_of_getLast? last)
      have newline :
          (TailScan.of ((joinRecords before ++ last) ++ ['\n'] ++
              head :: rest)).lastNewline =
            some (joinRecords before ++ last).length := by
        rw [TailScan.of]
        dsimp only
        rw [lastIndexOf_append, lastIndexOf_of_noNewline noNewline,
          lastIndexOf_append]
        rfl
      rw [if_pos torn, newline]
      dsimp only
      exact List.take_left' List.length_append

/-! ## Opening a spool -/

section Opening

variable {logs : AttemptLogs} {ledger : List Chunk}
  {torn : ChunkIndexEntry} {tail : List Char}

/-- The repair drops the torn tail and keeps the ledger. -/
theorem durable_truncateTail (durable : Durable logs ledger torn tail) :
    Durable { logs with chunks := truncateTail logs.chunks } ledger torn
      [] := by
  have repaired :
      truncateTail logs.chunks =
        recordsText (ledger.map Chunk.entry) := by
    rw [durable.index.chunks, recordsText,
      truncateTail_records _ durable.index.newline_notMem_tail]
  exact
    { index :=
        { chunks := by
            rw [List.append_nil]
            exact repaired
          safe := durable.index.safe
          inRange := durable.index.inRange
          increasing := durable.index.increasing
          tornPrefix := List.nil_prefix
          tornSafe := fun nonempty => absurd rfl nonempty
          tornLater := fun nonempty => absurd rfl nonempty }
      stored := durable.stored }

/-- Opening keeps the ledger, whatever fails. -/
theorem durable_repairIndex (durable : Durable logs ledger torn tail)
    (faults : OpenFaults) :
    ∃ tail, Durable (repairIndex logs faults) ledger torn tail := by
  rw [repairIndex]
  split
  · exact ⟨tail, durable⟩
  · exact ⟨[], durable_truncateTail durable⟩

theorem foldl_note_nextSequence (entries : List ChunkIndexEntry)
    (spool : AttemptSpool) :
    spool.nextSequence ≤
        (entries.foldl AttemptSpool.note spool).nextSequence ∧
      ∀ entry ∈ entries,
        entry.sequence <
          (entries.foldl AttemptSpool.note spool).nextSequence := by
  induction entries generalizing spool with
  | nil => simp
  | cons head rest induction =>
    rcases induction (spool.note head) with ⟨grows, above⟩
    have noted :
        spool.nextSequence ≤ (spool.note head).nextSequence ∧
          head.sequence < (spool.note head).nextSequence := by
      rw [AttemptSpool.note]
      dsimp only
      split <;> omega
    rw [List.foldl_cons]
    refine ⟨noted.1.trans grows, ?_⟩
    intro entry member
    rcases List.mem_cons.mp member with rfl | member
    · exact noted.2.trans_le grows
    · exact above entry member

theorem preferLiveSize_nextSequence (spool : AttemptSpool)
    (logs : AttemptLogs) (stream : Stream) :
    (spool.preferLiveSize logs stream).nextSequence =
      spool.nextSequence := by
  rw [AttemptSpool.preferLiveSize]
  split <;> rfl

theorem restoreSpool_nextSequence (logs : AttemptLogs)
    (faults : OpenFaults) :
    (restoreSpool logs faults).nextSequence =
      ((scannedEntries logs faults).foldl AttemptSpool.note
        { nextSequence := 1
          streamOffsets := { stdout := 0, stderr := 0 } }).nextSequence := by
  rw [restoreSpool]
  dsimp only
  split <;> split <;> simp only [preferLiveSize_nextSequence]

theorem one_le_restoreSpool (logs : AttemptLogs) (faults : OpenFaults) :
    1 ≤ (restoreSpool logs faults).nextSequence := by
  rw [restoreSpool_nextSequence]
  exact (foldl_note_nextSequence (scannedEntries logs faults)
    { nextSequence := 1
      streamOffsets := { stdout := 0, stderr := 0 } }).1

/-- An append that agrees with the files goes to the end of its file. -/
theorem AttemptSpool.Agrees.appendsAt
    (durable : Durable logs ledger torn tail)
    {spool : AttemptSpool} (positive : 1 ≤ spool.nextSequence)
    {stream : Stream} {bytes : List UInt8}
    (agrees : spool.Agrees logs stream bytes) :
    AppendsAt logs (ledger.map Chunk.entry) bytes
      (spool.newEntry stream bytes) := by
  rcases agrees with ⟨_, above, offset, sequence, byteEnd⟩
  rw [durable.iterChunkIndexEntries_eq] at above
  exact
    { safe :=
        { positive := positive
          sequence := sequence
          byteEnd := by
            rw [ChunkIndexEntry.byteEnd, AttemptSpool.newEntry, offset]
            exact byteEnd }
      newer := above
      byteOffset := offset
      byteLength := rfl }

end Opening

/-! ## Runs whose appends are in step -/

theorem assignedCall_concat (calls : List AppendChunkCall)
    (call : AppendChunkCall) (sequence : Nat) :
    assignedCall (calls ++ [call]) sequence =
      if call.sequence = sequence then some call
      else assignedCall calls sequence := by
  rw [assignedCall, List.foldl_append]
  rfl

theorem returnedSequences_concat (calls : List AppendChunkCall)
    (call : AppendChunkCall) :
    returnedSequences (calls ++ [call]) =
      returnedSequences calls ++
        if call.returned then [call.sequence] else [] := by
  rw [returnedSequences, List.filter_append, List.map_append,
    returnedSequences]
  cases returned : call.returned <;> simp [List.filter, returned]

/-- The call a chunk of the ledger belongs to. -/
def Assigned (calls : List AppendChunkCall) (chunk : Chunk) : Prop :=
  ∃ call,
    assignedCall calls chunk.entry.sequence = some call ∧
    call.stream = chunk.entry.stream ∧ call.bytes = chunk.bytes

/-- The ledger of a spool directory accounts for the calls made so far. -/
structure Accounts (run : SpoolRun) (ledger : List Chunk) : Prop where
  assigned : ∀ chunk ∈ ledger, Assigned run.calls chunk
  returned : ∀ sequence ∈ returnedSequences run.calls,
    ∃ chunk ∈ ledger, chunk.entry.sequence = sequence
  increasing : (returnedSequences run.calls).Pairwise (· < ·)
  positive : ∀ spool ∈ run.spool, 1 ≤ spool.nextSequence

/-- The directory holds a ledger that accounts for the calls. -/
def SpoolRun.Recorded (run : SpoolRun) : Prop :=
  ∃ ledger torn tail,
    Durable run.logs ledger torn tail ∧ Accounts run ledger

/-- The chunks read back from a directory are those of its ledger. -/
theorem iterIndexedChunkBytesAfter_zero
    {logs : AttemptLogs} {ledger : List Chunk} {torn : ChunkIndexEntry}
    {tail : List Char} (durable : Durable logs ledger torn tail) :
    iterIndexedChunkBytesAfter logs 0 =
      ledger.map fun chunk =>
        { sequence := chunk.entry.sequence
          stream := chunk.entry.stream
          bytes := chunk.bytes } := by
  have positive :
      (ledger.map Chunk.entry).filter
          (fun entry => 0 < entry.sequence) =
        ledger.map Chunk.entry :=
    durable.index.filter_positive fun _ member => member
  rw [iterIndexedChunkBytesAfter,
    durable.index.iterChunkIndexEntriesAfter_eq,
    durable.iterChunkIndexEntries_eq, positive, List.filterMap_map,
    ← List.filterMap_eq_map]
  refine List.filterMap_congr ?_
  intro chunk member
  have stored := durable.stored chunk member
  rw [Chunk.Stored] at stored
  simp [stored]

theorem SpoolRun.Recorded.consistent {run : SpoolRun}
    (recorded : run.Recorded) : run.Consistent := by
  rcases recorded with ⟨ledger, torn, tail, durable, accounts⟩
  refine ⟨?_, accounts.increasing⟩
  rw [iterIndexedChunkBytesAfter_zero durable]
  intro indexed member
  rcases List.mem_map.mp member with ⟨chunk, inLedger, rfl⟩
  exact accounts.assigned chunk inLedger

section Append

variable {run : SpoolRun} {ledger : List Chunk} {spool : AttemptSpool}
  {stream : Stream} {bytes : List UInt8}

/-- A call under a new sequence leaves the older chunks to their calls. -/
theorem Accounts.call_other
    (accounts : Accounts run ledger) {call : AppendChunkCall}
    (newer : ∀ entry ∈ ledger.map Chunk.entry,
      entry.sequence < call.sequence) :
    ∀ chunk ∈ ledger, Assigned (run.calls ++ [call]) chunk := by
  intro chunk member
  rcases accounts.assigned chunk member with ⟨older, found, matched⟩
  have earlier := newer chunk.entry (List.mem_map_of_mem member)
  refine ⟨older, ?_, matched⟩
  rw [assignedCall_concat, if_neg (by omega)]
  exact found

/-- An append that does not enter the ledger was cut. -/
theorem Accounts.cut
    (accounts : Accounts run ledger) {call : AppendChunkCall}
    (newer : ∀ entry ∈ ledger.map Chunk.entry,
      entry.sequence < call.sequence)
    (failed : call.returned = false)
    (logs : AttemptLogs) (kept : Option AttemptSpool)
    (positive : ∀ spool ∈ kept, 1 ≤ spool.nextSequence) :
    Accounts
      { logs := logs, spool := kept, calls := run.calls ++ [call] }
      ledger where
  assigned := accounts.call_other newer
  returned := by
    rw [returnedSequences_concat, failed]
    simpa using accounts.returned
  increasing := by
    rw [returnedSequences_concat, failed]
    simpa using accounts.increasing
  positive := positive

/-- An append that enters the ledger accounts for its own chunk. -/
theorem Accounts.enter
    (accounts : Accounts run ledger) {call : AppendChunkCall}
    {entry : ChunkIndexEntry}
    (newer : ∀ other ∈ ledger.map Chunk.entry,
      other.sequence < entry.sequence)
    (sequence : call.sequence = entry.sequence)
    (sameStream : call.stream = entry.stream)
    (logs : AttemptLogs) (kept : Option AttemptSpool)
    (positive : ∀ spool ∈ kept, 1 ≤ spool.nextSequence) :
    Accounts
      { logs := logs, spool := kept, calls := run.calls ++ [call] }
      (ledger ++ [⟨entry, call.bytes⟩]) where
  assigned := by
    intro chunk member
    rcases List.mem_append.mp member with member | member
    · refine accounts.call_other ?_ chunk member
      rw [sequence]
      exact newer
    · rw [List.mem_singleton.mp member]
      refine ⟨call, ?_, sameStream, rfl⟩
      rw [assignedCall_concat, if_pos sequence]
  returned := by
    intro other member
    rw [returnedSequences_concat, List.mem_append] at member
    rcases member with member | member
    · rcases accounts.returned other member with ⟨chunk, inLedger, equal⟩
      exact ⟨chunk, List.mem_append_left _ inLedger, equal⟩
    · refine ⟨_, List.mem_append_right _ (List.mem_singleton_self _), ?_⟩
      split at member
      · rw [List.mem_singleton.mp member, sequence]
      · cases member
  increasing := by
    rw [returnedSequences_concat, List.pairwise_append]
    refine ⟨accounts.increasing, ?_, ?_⟩
    · split <;> simp
    · intro earlier member last isLast
      rcases accounts.returned earlier member with ⟨chunk, inLedger, rfl⟩
      split at isLast
      · rw [List.mem_singleton.mp isLast, sequence]
        exact newer chunk.entry (List.mem_map_of_mem inLedger)
      · cases isLast
  positive := positive

end Append

/-- One event that is in step keeps the account. -/
theorem SpoolRun.Recorded.event
    {run next : SpoolRun} (recorded : run.Recorded) {event : SpoolEvent}
    (inStep : run.InStep event) (step : run.event event = some next) :
    next.Recorded := by
  rcases recorded with ⟨ledger, torn, tail, durable, accounts⟩
  cases event with
  | openSpool faults =>
    rw [SpoolRun.event, Option.some.injEq] at step
    subst step
    rcases durable_repairIndex durable faults with ⟨rest, repaired⟩
    refine ⟨ledger, torn, rest, repaired,
      { accounts with positive := ?_ }⟩
    intro spool opened
    rw [Option.mem_some_iff] at opened
    rw [← opened]
    exact one_le_restoreSpool _ _
  | crash =>
    rw [SpoolRun.event, Option.some.injEq] at step
    subst step
    exact ⟨ledger, torn, tail, durable,
      { accounts with positive := by simp }⟩
  | append stream bytes cut =>
    rw [SpoolRun.event] at step
    split at step
    · cases step
    · rename_i spool opened
      have agrees := inStep spool opened
      have positive := accounts.positive spool opened
      have appends := agrees.appendsAt durable positive
      have whole := agrees.1
      rw [durable.index.pendingText_eq] at whole
      subst whole
      have kept : ∀ other ∈ some spool, 1 ≤ other.nextSequence := by
        intro other equal
        rw [Option.mem_some_iff] at equal
        rw [← equal]
        exact positive
      dsimp only at step
      split at step
      · rename_i point
        rw [Option.some.injEq] at step
        subst step
        rcases durable.writeChunkUntil appends point with
          ⟨part, left⟩ | entered
        · exact ⟨ledger, _, part, left,
            accounts.cut appends.newer rfl _ _ kept⟩
        · exact ⟨_, torn, [], entered,
            accounts.enter appends.newer rfl rfl _ _ kept⟩
      · rw [Option.some.injEq] at step
        subst step
        refine ⟨_, torn, [], durable.writeChunk appends,
          accounts.enter appends.newer rfl rfl _ _ ?_⟩
        intro other equal
        rw [Option.mem_some_iff] at equal
        rw [← equal]
        exact Nat.le_add_left 1 _

/-- Every run whose appends are in step keeps the account. -/
theorem recorded_of_reachable {run : SpoolRun}
    (reachable : spoolMachine.Reachable SpoolRun.InStep run) :
    run.Recorded := by
  refine reachable.invariant ?_ ?_
  · rintro state rfl
    exact ⟨[], ⟨0, .stdout, 0, 0⟩, [], durable_ensureAttemptLogs _,
      { assigned := by simp
        returned := by simp [returnedSequences]
        increasing := List.Pairwise.nil
        positive := by simp }⟩
  · intro state event next recorded inStep step
    exact recorded.event inStep step

instance (spool : AttemptSpool) (logs : AttemptLogs) (stream : Stream)
    (bytes : List UInt8) : Decidable (spool.Agrees logs stream bytes) :=
  inferInstanceAs (Decidable (_ ∧ _ ∧ _ ∧ _ ∧ _))

instance (run : SpoolRun) (event : SpoolEvent) :
    Decidable (run.InStep event) :=
  match event with
  | .append stream bytes _ =>
    inferInstanceAs
      (Decidable
        (∀ spool ∈ run.spool, spool.Agrees run.logs stream bytes))
  | .openSpool _ => isTrue trivial
  | .crash => isTrue trivial

/-- A spool directory before its first open. -/
def freshSpool : SpoolRun where
  logs := ensureAttemptLogs
  spool := none
  calls := []

/-- A run that opens the spool again after a failed append. -/
def reopenedRun : List SpoolEvent :=
  [.openSpool OpenFaults.none, .append .stdout [97] none,
    .append .stdout [98, 99] (some (.index 7)), .crash,
    .openSpool OpenFaults.none, .append .stdout [100] none]

/-- A run that keeps using the spool after its index append failed. -/
def staleRun : List SpoolEvent :=
  [.openSpool OpenFaults.none, .append .stdout [97, 98] (some (.index 0)),
    .append .stdout [99, 100] none]

end Rbo.Executor.Spool
