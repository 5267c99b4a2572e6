import Rbo.Foundation.Json
import Rbo.Snapshot.Archive

/-!
# Writing an archive while its files are read

`writeZstdTarArchiveCandidate` yields the blocks of the archive one entry
after another, and reads a file that is not in memory when its turn comes: it
lists the path, opens it without following a link, takes the stat of the
handle, reads that many bytes, and takes the stat again.

The files may change at any time.  A history gives the disk at every moment,
and a schedule says when each step of each turn happens and how many bytes
each read brings.
-/

namespace Rbo.Snapshot.ArchiveStream

open Rbo.Foundation
open Rbo.Snapshot.Archive

/-! ## The disk -/

/-- The stat of an open file, as far as it is compared. -/
structure Stat where
  size : Nat
  mtimeNs : Nat
  ctimeNs : Nat
  dev : Nat
  ino : Nat
deriving DecidableEq

/-- A regular file. -/
structure Inode where
  stat : Stat
  content : List UInt8
  sized : stat.size = content.length

/-- What a path names; links are not followed. -/
inductive Named where
  | file (inode : Nat)
  | symlink
  | other
deriving DecidableEq

/-- The disk at one moment. -/
structure Disk where
  named : List Char → Option Named
  inode : Nat → Inode

/-- The disk over time.  A change of a file moves its stat on, so that two
equal stats have the same file between them. -/
structure History where
  disk : Nat → Disk
  stamped : ∀ inode first time last, first ≤ time → time ≤ last →
    ((disk first).inode inode).stat = ((disk last).inode inode).stat →
    (disk time).inode inode = (disk first).inode inode

/-- When the steps of one turn happen: `lstat`, `open`, the two stats of the
handle, and between them the reads, each with the number of bytes it brings
beyond the first. -/
structure Turn where
  listed : Nat
  opened : Nat
  before : Nat
  after : Nat
  pace : Nat → Nat × Nat
  ordered : listed ≤ opened ∧ opened ≤ before
  reading : ∀ read, before ≤ (pace read).1 ∧ (pace read).1 ≤ after

/-- The turns of a call, one after another. -/
structure Schedule where
  start : Nat
  finish : Nat
  turns : Nat → Turn
  within : ∀ index,
    start ≤ (turns index).listed ∧ (turns index).after ≤ finish
  consecutive : ∀ index, (turns index).after ≤ (turns (index + 1)).listed

/-! ## The writer -/

/-- Code of the platform: the collation, the hash, and the compressor. -/
structure Platform where
  localeCompare : List Char → List Char → Ordering
  sha256 : List UInt8 → List Char
  zstd : List (List UInt8) → List UInt8

/-- `WrittenArchiveEntryResult`. -/
structure WrittenArchiveEntryResult where
  path : List Char
  size : Nat
  sha256 : List Char
deriving DecidableEq

/-- What makes the writer fail. -/
inductive WriteError where
  | tar (error : TarError)
  | notRegular (path : List Char)
  | tooLarge (path : List Char)
  | changed (path : List Char)
  | sink
deriving DecidableEq

/-- What `tarChunks` yields, and what it adds to `entryResults`. -/
structure TarStream where
  chunks : List (List UInt8)
  results : List WrittenArchiveEntryResult

/-- The chunk of zeros that fills the last block, if it is not full. -/
def paddingChunks (size : Nat) : List (List UInt8) :=
  if size % 512 = 0 then [] else [List.replicate (512 - size % 512) 0]

/-- Whether the content of an entry is read from its `contentPath`. -/
def ReadsSource (entry : TarEntryInput) : Prop :=
  entry.type = .file ∧ entry.content = none ∧
    entry.contentPath.getD [] ≠ []

instance (entry : TarEntryInput) : Decidable (ReadsSource entry) := by
  unfold ReadsSource
  infer_instance

/-- `writeTarHeader`, with its errors among those of the writer. -/
def headerChunk (entry : TarEntryInput) (fileSize : Nat) :
    Except WriteError (List UInt8) :=
  (writeTarHeader entry fileSize).mapError .tar

section Generator

variable (platform : Platform) (history : History)

def entryResult (entry : TarEntryInput) (content : List UInt8) :
    WrittenArchiveEntryResult :=
  { path := entry.path, size := content.length
    sha256 := platform.sha256 content }

/-- The chunks of the read stream from an offset: each read brings at least
one byte, and the stream ends at its end or where the file does. -/
def readChunks (turn : Turn) (inode : Nat) :
    Nat → Nat → Nat → Nat → List (List UInt8)
  | 0, _, _, _ => []
  | fuel + 1, read, offset, remaining =>
    let content :=
      ((history.disk (turn.pace read).1).inode inode).content
    let bytes := (content.drop offset).take
      (min ((turn.pace read).2 + 1) remaining)
    if bytes = [] then
      []
    else
      bytes :: readChunks turn inode fuel (read + 1)
        (offset + bytes.length) (remaining - bytes.length)

/-- `createReadStream(path, { fd, start: 0, end: size - 1 })`. -/
def createReadStream (turn : Turn) (inode size : Nat) : List (List UInt8) :=
  readChunks history turn inode size 0 0 size

/-- The turn of an entry whose content is read from its path. -/
def sourceChunks (turn : Turn) (entry : TarEntryInput) :
    Except WriteError TarStream :=
  let contentPath := entry.contentPath.getD []
  match (history.disk turn.listed).named contentPath with
  | some (.file _) =>
    match (history.disk turn.opened).named contentPath with
    | some (.file inode) => do
      let before := ((history.disk turn.before).inode inode).stat
      if Json.maxSafeInteger < before.size then
        .error (.tooLarge entry.path)
      else
        let header ← headerChunk entry before.size
        let chunks := createReadStream history turn inode before.size
        let after := ((history.disk turn.after).inode inode).stat
        if chunks.flatten.length ≠ before.size ∨ after ≠ before then
          .error (.changed entry.path)
        else
          .ok
            { chunks := header :: chunks ++ paddingChunks before.size
              results := [entryResult platform entry chunks.flatten] }
    -- The path is gone or a link, or the handle is of no regular file.
    | _ => .error (.notRegular entry.path)
  | _ => .error (.notRegular entry.path)

/-- The turn of any other entry. -/
def memoryChunks (entry : TarEntryInput) : Except WriteError TarStream := do
  let content := fileContent entry
  let header ← headerChunk entry content.length
  if entry.type ≠ .file then
    .ok { chunks := [header], results := [] }
  else if content.length = 0 then
    .ok { chunks := [header], results := [entryResult platform entry []] }
  else
    .ok
      { chunks := header :: content :: paddingChunks content.length
        results := [entryResult platform entry content] }

/-- One round of `tarChunks`. -/
def entryChunks (turn : Turn) (entry : TarEntryInput) :
    Except WriteError TarStream :=
  if ReadsSource entry then
    sourceChunks platform history turn entry
  else
    memoryChunks platform entry

/-- The loop of `tarChunks`. -/
def tarChunksFrom (turns : Nat → Turn) :
    Nat → List TarEntryInput → Except WriteError TarStream
  | _, [] => .ok { chunks := [], results := [] }
  | index, entry :: rest => do
    let first ← entryChunks platform history (turns index) entry
    let more ← tarChunksFrom turns (index + 1) rest
    .ok
      { chunks := first.chunks ++ more.chunks
        results := first.results ++ more.results }

/-- `tarChunks`. -/
def tarChunks (schedule : Schedule) (entries : List TarEntryInput) :
    Except WriteError TarStream := do
  let body ← tarChunksFrom platform history schedule.turns 0
    (sortEntries platform.localeCompare entries)
  .ok
    { chunks := body.chunks ++ [List.replicate 1024 0]
      results := body.results }

/-- `WrittenArchiveCandidateResult`. -/
structure WrittenArchiveCandidateResult where
  candidatePath : List Char
  entries : List WrittenArchiveEntryResult
  sha256 : List Char
  size : Nat

/-- The candidate file: whether it could be written, and what `rm` leaves of
it. -/
structure Sink where
  written : Bool
  left : Option (List UInt8)

/-- What a call returns or throws, and the candidate file behind it. -/
structure CandidateOutcome where
  returned : Except WriteError WrittenArchiveCandidateResult
  candidate : Option (List UInt8)

/-- `writeZstdTarArchiveCandidate`. -/
def writeZstdTarArchiveCandidate (schedule : Schedule) (sink : Sink)
    (archivePath randomUUID : List Char) (entries : List TarEntryInput) :
    CandidateOutcome :=
  match tarChunks platform history schedule entries with
  | .error error => { returned := .error error, candidate := sink.left }
  | .ok stream =>
    if sink.written then
      let data := platform.zstd stream.chunks
      { returned := .ok
          { candidatePath :=
              archivePath ++ ".candidate-".toList ++ randomUUID
            entries := stream.results
            sha256 := platform.sha256 data
            size := data.length }
        candidate := some data }
    else
      { returned := .error .sink, candidate := sink.left }

end Generator

/-! ## Files that stay as they are -/

/-- The path names one regular file during the whole call, and the file does
not change; a buffer can hold its content. -/
structure StaysStill (history : History) (schedule : Schedule)
    (path : List Char) (content : List UInt8) : Prop where
  bufferable : content.length ≤ Json.maxSafeInteger
  still : ∃ inode node, node.content = content ∧
    ∀ time, schedule.start ≤ time → time ≤ schedule.finish →
      (history.disk time).named path = some (.file inode) ∧
        (history.disk time).inode inode = node

/-- The entry with the content of its file in memory. -/
def inlined (contents : List Char → List UInt8) (entry : TarEntryInput) :
    TarEntryInput :=
  if ReadsSource entry then
    { entry with content := some (contents (entry.contentPath.getD [])) }
  else
    entry

/-- The results of the file entries among some entries. -/
def fileResults (platform : Platform) (entries : List TarEntryInput) :
    List WrittenArchiveEntryResult :=
  (entries.filter fun entry => entry.type = .file).map fun entry =>
    entryResult platform entry (fileContent entry)

/-- A stream that has the bytes and the results, or fails as the writer in
memory does. -/
def Agrees (streamed : Except WriteError TarStream)
    (inMemory : Except TarError (List UInt8))
    (results : List WrittenArchiveEntryResult) : Prop :=
  match inMemory with
  | .ok bytes => ∃ stream, streamed = .ok stream ∧
      stream.chunks.flatten = bytes ∧ stream.results = results
  | .error error => streamed = .error (.tar error)

/-- In its turn the path is a regular file, and the file that was opened
does not change between the two stats. -/
def SteadyInTurn (history : History) (turn : Turn) (path : List Char) :
    Prop :=
  ∃ listed inode,
    (history.disk turn.listed).named path = some (.file listed) ∧
    (history.disk turn.opened).named path = some (.file inode) ∧
    ∀ time, turn.before ≤ time → time ≤ turn.after →
      (history.disk time).inode inode =
        (history.disk turn.before).inode inode

/-! ## Reading a file that stays as it is -/

variable {platform : Platform} {history : History}

/-- A file that does not change is read from the offset on, however the
reads cut it. -/
theorem flatten_readChunks {turn : Turn} {inode : Nat} {content : List UInt8}
    (still : ∀ read,
      ((history.disk (turn.pace read).1).inode inode).content = content)
    {fuel read offset remaining : Nat} (enough : remaining ≤ fuel) :
    (readChunks history turn inode fuel read offset remaining).flatten =
      (content.drop offset).take remaining := by
  induction fuel generalizing read offset remaining with
  | zero =>
    rw [Nat.le_zero.mp enough, List.take_zero]
    rfl
  | succ fuel induction =>
    rw [readChunks]
    rw [still]
    generalize asked : min ((turn.pace read).2 + 1) remaining = count
    have bound : count ≤ remaining := asked ▸ Nat.min_le_right _ _
    split
    · rename_i ended
      rw [List.take_eq_nil_iff] at ended
      rcases ended with none | ended
      · have nothing : remaining = 0 := by omega
        rw [nothing, List.take_zero]
        rfl
      · rw [ended, List.take_nil]
        rfl
    · rename_i some
      have positive : 0 < ((content.drop offset).take count).length :=
        List.length_pos_iff.mpr some
      have size := List.length_take (i := count) (l := content.drop offset)
      rw [List.flatten_cons, induction (by omega), ← List.drop_drop]
      by_cases inside : count ≤ (content.drop offset).length
      · rw [size, Nat.min_eq_left inside, ← List.take_add,
          Nat.add_sub_cancel' bound]
      · rw [List.take_of_length_le (by omega), List.drop_length,
          List.take_nil, List.append_nil,
          List.take_of_length_le (by omega)]

theorem flatten_createReadStream {turn : Turn} {inode : Nat}
    {content : List UInt8}
    (still : ∀ read,
      ((history.disk (turn.pace read).1).inode inode).content = content) :
    (createReadStream history turn inode content.length).flatten =
      content := by
  unfold createReadStream
  rw [flatten_readChunks still (Nat.le_refl _), List.drop_zero,
    List.take_length]

theorem flatten_paddingChunks (size : Nat) :
    (paddingChunks size).flatten = blockPadding size := by
  unfold paddingChunks blockPadding
  split
  · rfl
  · exact List.flatten_singleton

/-! ## The writer agrees with the one in memory -/

variable {contents : List Char → List UInt8} {entry : TarEntryInput}

theorem inlined_source (reads : ReadsSource entry) :
    inlined contents entry =
      { entry with content := some (contents (entry.contentPath.getD [])) } :=
  if_pos reads

theorem writeTarHeader_content (entry : TarEntryInput)
    (content : Option (List UInt8)) (size : Nat) :
    writeTarHeader { entry with content } size = writeTarHeader entry size :=
  rfl

theorem fileResults_singleton (isFile : entry.type = .file) :
    fileResults platform [entry] =
      [entryResult platform entry (fileContent entry)] := by
  unfold fileResults
  rw [List.filter_cons_of_pos (by simp [isFile])]
  rfl

theorem fileResults_other (other : entry.type ≠ .file) :
    fileResults platform [entry] = [] := by
  unfold fileResults
  rw [List.filter_cons_of_neg (by simp [other])]
  rfl

theorem fileContent_of_file (isFile : entry.type = .file) :
    fileContent entry = entry.content.getD [] :=
  if_pos isFile

/-- The entry is written the same way when it is in memory. -/
theorem memoryChunks_agrees (inMemory : ¬ ReadsSource entry) :
    Agrees (memoryChunks platform entry) (writeEntry entry)
      (fileResults platform [entry]) := by
  unfold memoryChunks writeEntry headerChunk
  dsimp only
  by_cases isFile : entry.type = .file
  · rw [if_pos isFile, fileContent_of_file isFile,
      fileResults_singleton isFile, fileContent_of_file isFile]
    cases held : entry.content with
    | none =>
      have pathless : ¬ entry.contentPath.getD [] ≠ [] :=
        fun some => inMemory ⟨isFile, held, some⟩
      simp only [Option.getD_none, List.length_nil]
      rw [if_neg pathless]
      cases writeTarHeader entry 0 with
      | error error => rfl
      | ok header =>
        refine ⟨{ chunks := [header]
                  results := [entryResult platform entry []] },
          ?_, List.flatten_singleton, rfl⟩
        exact (if_neg (not_not_intro isFile)).trans (if_pos trivial)
    | some content =>
      rw [Option.getD_some]
      dsimp only
      cases writeTarHeader entry content.length with
      | error error => rfl
      | ok header =>
        by_cases empty : content.length = 0
        · have nothing := List.length_eq_zero_iff.mp empty
          subst nothing
          refine ⟨{ chunks := [header]
                    results := [entryResult platform entry []] },
            ?_, (List.append_nil _).symm, rfl⟩
          exact (if_neg (not_not_intro isFile)).trans (if_pos rfl)
        · refine ⟨{ chunks :=
                      header :: content :: paddingChunks content.length
                    results := [entryResult platform entry content] },
            ?_, ?_, rfl⟩
          · exact (if_neg (not_not_intro isFile)).trans (if_neg empty)
          · rw [List.flatten_cons, List.flatten_cons,
              flatten_paddingChunks, List.append_assoc]
  · rw [if_neg isFile, fileResults_other isFile]
    have nothing : fileContent entry = [] := if_neg isFile
    rw [nothing]
    cases writeTarHeader entry 0 with
    | error error => rfl
    | ok header =>
      exact ⟨{ chunks := [header], results := [] }, if_pos isFile,
        List.flatten_singleton, rfl⟩

variable {schedule : Schedule}

/-- The turn of an entry whose file stays as it is. -/
theorem sourceChunks_agrees {turn : Turn}
    (inCall : schedule.start ≤ turn.listed ∧ turn.after ≤ schedule.finish)
    (reads : ReadsSource entry)
    (still : StaysStill history schedule (entry.contentPath.getD [])
      (contents (entry.contentPath.getD []))) :
    Agrees (sourceChunks platform history turn entry)
      (writeEntry (inlined contents entry))
      (fileResults platform [inlined contents entry]) := by
  rcases still with ⟨bufferable, inode, node, holds, still⟩
  have ordered := turn.ordered
  have reading := turn.reading
  have first := reading 0
  have listed := still turn.listed (by omega) (by omega)
  have opened := still turn.opened (by omega) (by omega)
  have before := still turn.before (by omega) (by omega)
  have after := still turn.after (by omega) (by omega)
  have size : node.stat.size =
      (contents (entry.contentPath.getD [])).length := by
    rw [node.sized, holds]
  have read : (createReadStream history turn inode node.stat.size).flatten =
      contents (entry.contentPath.getD []) := by
    rw [size]
    refine flatten_createReadStream fun read => ?_
    have bounds := reading read
    rw [(still (turn.pace read).1 (by omega) (by omega)).2, holds]
  have isFile : (inlined contents entry).type = .file := by
    rw [inlined_source reads]
    exact reads.1
  rw [fileResults_singleton isFile, fileContent_of_file isFile]
  rw [inlined_source reads]
  unfold sourceChunks writeEntry headerChunk
  dsimp only
  rw [if_pos reads.1, writeTarHeader_content, listed.1, opened.1]
  dsimp only
  rw [before.2, after.2, if_neg (by omega), read, size]
  cases writeTarHeader entry
      (contents (entry.contentPath.getD [])).length with
  | error error => rfl
  | ok header =>
    refine ⟨_, if_neg (by simp), ?_, rfl⟩
    rw [List.flatten_append, List.flatten_cons, ← size, read, size,
      flatten_paddingChunks]

theorem entryChunks_agrees (platform : Platform) {turn : Turn}
    (inCall : schedule.start ≤ turn.listed ∧ turn.after ≤ schedule.finish)
    (still : ReadsSource entry →
      StaysStill history schedule (entry.contentPath.getD [])
        (contents (entry.contentPath.getD []))) :
    Agrees (entryChunks platform history turn entry)
      (writeEntry (inlined contents entry))
      (fileResults platform [inlined contents entry]) := by
  unfold entryChunks
  split
  · rename_i reads
    exact sourceChunks_agrees inCall reads (still reads)
  · rename_i inMemory
    have same : inlined contents entry = entry := if_neg inMemory
    rw [same]
    exact memoryChunks_agrees inMemory

variable {entries : List TarEntryInput}

/-- The whole list of entries, in order. -/
theorem tarChunksFrom_agrees (platform : Platform) (index : Nat)
    (still : ∀ entry ∈ entries, ReadsSource entry →
      StaysStill history schedule (entry.contentPath.getD [])
        (contents (entry.contentPath.getD []))) :
    Agrees (tarChunksFrom platform history schedule.turns index entries)
      (((entries.map (inlined contents)).mapM writeEntry).map List.flatten)
      (fileResults platform (entries.map (inlined contents))) := by
  induction entries generalizing index with
  | nil => exact ⟨_, rfl, rfl, rfl⟩
  | cons entry entries induction =>
    rw [List.forall_mem_cons] at still
    have first := entryChunks_agrees platform (schedule.within index) still.1
    have more := induction (index + 1) still.2
    rw [tarChunksFrom, List.map_cons, List.mapM_cons]
    cases written : writeEntry (inlined contents entry) with
    | error error =>
      rw [written] at first
      have failed : entryChunks platform history (schedule.turns index)
        entry = .error (.tar error) := first
      rw [failed]
      rfl
    | ok bytes =>
      rw [written] at first
      rcases first with ⟨stream, streamed, flat, results⟩
      rw [streamed]
      cases rest : (entries.map (inlined contents)).mapM writeEntry with
      | error error =>
        rw [rest] at more
        have failed : tarChunksFrom platform history schedule.turns
          (index + 1) entries = .error (.tar error) := more
        show Agrees (do
          let more ← tarChunksFrom platform history schedule.turns
            (index + 1) entries
          _) _ _
        rw [failed]
        rfl
      | ok others =>
        rw [rest] at more
        rcases more with ⟨later, streamedMore, flatMore, resultsMore⟩
        refine ⟨{ chunks := stream.chunks ++ later.chunks
                  results := stream.results ++ later.results },
          ?_, ?_, ?_⟩
        · show (do
            let more ← tarChunksFrom platform history schedule.turns
              (index + 1) entries
            _) = _
          rw [streamedMore]
          rfl
        · rw [List.flatten_append, flat, flatMore]
          rfl
        · rw [results, resultsMore]
          unfold fileResults
          rw [← List.map_append, ← List.filter_append]
          rfl

theorem path_inlined (contents : List Char → List UInt8)
    (entry : TarEntryInput) : (inlined contents entry).path = entry.path := by
  unfold inlined
  split <;> rfl

theorem sortEntries_inlined
    (localeCompare : List Char → List Char → Ordering)
    (contents : List Char → List UInt8) (entries : List TarEntryInput) :
    sortEntries localeCompare (entries.map (inlined contents)) =
      (sortEntries localeCompare entries).map (inlined contents) := by
  unfold sortEntries
  refine (List.map_mergeSort ?_).symm
  intro first _ second _
  rw [path_inlined, path_inlined]

/-- The stream agrees with the archive written in memory. -/
theorem tarChunks_agrees (still : ∀ entry ∈ entries, ReadsSource entry →
      StaysStill history schedule (entry.contentPath.getD [])
        (contents (entry.contentPath.getD []))) :
    Agrees (tarChunks platform history schedule entries)
      (createTarArchive platform.localeCompare
        (entries.map (inlined contents)))
      (fileResults platform (sortEntries platform.localeCompare
        (entries.map (inlined contents)))) := by
  have sorted : ∀ entry ∈ sortEntries platform.localeCompare entries,
      ReadsSource entry →
      StaysStill history schedule (entry.contentPath.getD [])
        (contents (entry.contentPath.getD [])) :=
    fun entry member => still entry (List.mem_mergeSort.mp member)
  have body := tarChunksFrom_agrees platform 0 sorted
  unfold tarChunks createTarArchive
  rw [sortEntries_inlined]
  cases chunked : ((sortEntries platform.localeCompare entries).map
      (inlined contents)).mapM writeEntry with
  | error error =>
    rw [chunked] at body
    have failed : tarChunksFrom platform history schedule.turns 0
      (sortEntries platform.localeCompare entries) =
        .error (.tar error) := body
    rw [failed]
    rfl
  | ok chunks =>
    rw [chunked] at body
    rcases body with ⟨stream, streamed, flat, results⟩
    rw [streamed]
    refine ⟨{ chunks := stream.chunks ++ [List.replicate 1024 0]
              results := stream.results }, rfl, ?_, results⟩
    rw [List.flatten_append, flat, List.flatten_singleton]

/-! ## What a call that returns has seen -/

theorem steady_of_sourceChunks {turn : Turn} {stream : TarStream}
    (ok : sourceChunks platform history turn entry = .ok stream) :
    SteadyInTurn history turn (entry.contentPath.getD []) := by
  unfold sourceChunks at ok
  dsimp only at ok
  split at ok
  · rename_i listed isListed
    split at ok
    · rename_i inode isOpened
      refine ⟨listed, inode, isListed, isOpened, ?_⟩
      split at ok
      · cases ok
      · cases written : headerChunk entry
          ((history.disk turn.before).inode inode).stat.size with
        | error error =>
          rw [written] at ok
          cases ok
        | ok header =>
          rw [written] at ok
          change (if _ ∨ _ then _ else _) = _ at ok
          split at ok
          · cases ok
          · rename_i same
            rw [not_or, not_not, not_not] at same
            intro time after before
            exact history.stamped inode _ time _ after before same.2.symm
    · cases ok
  · cases ok

/-- Every entry of a stream that was written had its turn. -/
theorem entryChunks_of_tarChunksFrom {turns : Nat → Turn} {start : Nat}
    {stream : TarStream}
    (ok : tarChunksFrom platform history turns start entries = .ok stream)
    {index : Nat} (here : entries[index]? = some entry) :
    ∃ part, entryChunks platform history (turns (start + index)) entry =
      .ok part := by
  induction entries generalizing start index stream with
  | nil => exact nomatch here
  | cons first rest induction =>
    rw [tarChunksFrom] at ok
    cases streamed : entryChunks platform history (turns start) first with
    | error error =>
      rw [streamed] at ok
      cases ok
    | ok part =>
      rw [streamed] at ok
      cases more : tarChunksFrom platform history turns (start + 1)
          rest with
      | error error =>
        change (do
          let more ← tarChunksFrom platform history turns (start + 1)
            rest
          _) = _ at ok
        rw [more] at ok
        cases ok
      | ok later =>
        cases index with
        | zero =>
          rw [List.getElem?_cons_zero, Option.some_inj] at here
          exact ⟨part, here ▸ streamed⟩
        | succ index =>
          rw [List.getElem?_cons_succ] at here
          have found := induction more here
          rwa [Nat.add_assoc, Nat.add_comm 1 index] at found

/-- A call that returns has seen every file steady in its turn. -/
theorem steady_of_returned {sink : Sink} {archivePath randomUUID : List Char}
    {result : WrittenArchiveCandidateResult}
    (ok : (writeZstdTarArchiveCandidate platform history schedule sink
      archivePath randomUUID entries).returned = .ok result) {index : Nat}
    (here : (sortEntries platform.localeCompare entries)[index]? = some entry)
    (reads : ReadsSource entry) :
    SteadyInTurn history (schedule.turns index)
      (entry.contentPath.getD []) := by
  unfold writeZstdTarArchiveCandidate tarChunks at ok
  cases body : tarChunksFrom platform history schedule.turns 0
      (sortEntries platform.localeCompare entries) with
  | error error =>
    rw [body] at ok
    cases ok
  | ok stream =>
    rcases entryChunks_of_tarChunksFrom body here with ⟨part, streamed⟩
    rw [Nat.zero_add] at streamed
    unfold entryChunks at streamed
    rw [if_pos reads] at streamed
    exact steady_of_sourceChunks streamed

/-- A call that fails leaves what `rm` leaves. -/
theorem candidate_of_failed {sink : Sink} {archivePath randomUUID : List Char}
    {error : WriteError}
    (failed : (writeZstdTarArchiveCandidate platform history schedule sink
      archivePath randomUUID entries).returned = .error error) :
    (writeZstdTarArchiveCandidate platform history schedule sink
      archivePath randomUUID entries).candidate = sink.left := by
  unfold writeZstdTarArchiveCandidate at failed ⊢
  cases streamed : tarChunks platform history schedule entries with
  | error error => rfl
  | ok stream =>
    rw [streamed] at failed
    dsimp only at failed ⊢
    split at failed
    · cases failed
    · rename_i unwritten
      rw [if_neg unwritten]

/-- A file of one byte. -/
def oneByte (inode stamp : Nat) (byte : UInt8) : Inode :=
  { stat := ⟨1, stamp, stamp, 0, inode⟩, content := [byte], sized := rfl }

/-- Two files, the first of which changes at the moment 10. -/
def rewritten : History where
  disk time :=
    { named := fun path => some (.file (if path = ['p'] then 0 else 1))
      inode := fun inode =>
        if inode = 0 ∧ 10 ≤ time then oneByte 0 1 2 else oneByte inode 0 1 }
  stamped := by
    intro inode first time last after before same
    dsimp only at same ⊢
    by_cases changes : inode = 0
    · subst changes
      by_cases early : 10 ≤ first
      · rw [if_pos ⟨rfl, by omega⟩, if_pos ⟨rfl, early⟩]
      · by_cases late : 10 ≤ last
        · simp [early, late, oneByte] at same
        · rw [if_neg (by omega), if_neg (by omega)]
    · rw [if_neg (fun both => changes both.1),
        if_neg (fun both => changes both.1)]

/-- A turn that happens at one moment. -/
def instant (moment : Nat) : Turn where
  listed := moment
  opened := moment
  before := moment
  after := moment
  pace _ := (moment, 0)
  ordered := ⟨Nat.le_refl _, Nat.le_refl _⟩
  reading _ := ⟨Nat.le_refl _, Nat.le_refl _⟩

/-- The first file is read before it changes, the second one after. -/
def twoTurns : Schedule where
  start := 0
  finish := 20
  turns index := instant (if index = 0 then 0 else 20)
  within index := by
    unfold instant
    split <;> simp
  consecutive index := by
    unfold instant
    split <;> simp

/-- An entry read from a path. -/
def sourceEntry (path contentPath : Char) : TarEntryInput :=
  { path := [path], mode := 0o644, type := .file, content := none
    contentPath := some [contentPath], target := none }

/-- A platform to run the writer on. -/
def plainPlatform : Platform :=
  { localeCompare := compare, sha256 := fun _ => [], zstd := List.flatten }

end Rbo.Snapshot.ArchiveStream
