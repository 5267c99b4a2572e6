import Rbo.Foundation.Json
import Rbo.Foundation.Lines

/-!
# The durable log directory of an attempt

An attempt writes its output to two stream files, and beside them an index
`chunks.jsonl` with one JSON record per chunk and a sparse accelerator
`chunks.checkpoints.jsonl`.  This module embeds the writer and the readers of
that directory.

Both JSON files are written as ASCII, so a byte offset into them is an offset
into their text; the stream files are byte strings.  A file is read through a
stream in pieces, and a reader carries the text after the last newline of one
piece over to the next.
-/

namespace Rbo.Executor.Logs

open Rbo.Foundation
open Rbo.Foundation.Lines

/-! ## The directory -/

/-- The two captured streams of an attempt. -/
inductive Stream where
  | stdout
  | stderr
  deriving DecidableEq

def Stream.name : Stream → List Char
  | .stdout => ['s', 't', 'd', 'o', 'u', 't']
  | .stderr => ['s', 't', 'd', 'e', 'r', 'r']

/-- One record of the chunk index. -/
structure ChunkIndexEntry where
  sequence : Nat
  stream : Stream
  byteOffset : Nat
  byteLength : Nat
  deriving DecidableEq

/-- The offset after the last byte of an entry. -/
def ChunkIndexEntry.byteEnd (entry : ChunkIndexEntry) : Nat :=
  entry.byteOffset + entry.byteLength

/-- One record of the sparse accelerator. -/
structure ChunkIndexCheckpoint where
  sequence : Nat
  byteOffset : Nat
  deriving DecidableEq

/-- The contents of the files of a log directory. -/
structure AttemptLogs where
  stdout : List UInt8
  stderr : List UInt8
  chunks : List Char
  checkpoints : List Char
  deriving DecidableEq

/-- The directory as `ensureAttemptLogs` creates it. -/
def ensureAttemptLogs : AttemptLogs where
  stdout := []
  stderr := []
  chunks := []
  checkpoints := []

def AttemptLogs.file (logs : AttemptLogs) : Stream → List UInt8
  | .stdout => logs.stdout
  | .stderr => logs.stderr

/-- `stat(path).size` of the file of a stream. -/
def AttemptLogs.size (logs : AttemptLogs) (stream : Stream) : Nat :=
  (logs.file stream).length

/-- Append bytes to the file of a stream. -/
def appendLogChunk (logs : AttemptLogs) (stream : Stream)
    (bytes : List UInt8) : AttemptLogs :=
  match stream with
  | .stdout => { logs with stdout := logs.stdout ++ bytes }
  | .stderr => { logs with stderr := logs.stderr ++ bytes }

/-- Append text to `chunks.jsonl`. -/
def appendChunksText (logs : AttemptLogs) (text : List Char) :
    AttemptLogs :=
  { logs with chunks := logs.chunks ++ text }

/-- Append text to `chunks.checkpoints.jsonl`. -/
def appendCheckpointText (logs : AttemptLogs) (text : List Char) :
    AttemptLogs :=
  { logs with checkpoints := logs.checkpoints ++ text }

/-! ## Records as JSON text -/

/-- The member names of an index record. -/
def sequenceKey : List Char := ['s', 'e', 'q', 'u', 'e', 'n', 'c', 'e']
def streamKey : List Char := ['s', 't', 'r', 'e', 'a', 'm']
def byteOffsetKey : List Char :=
  ['b', 'y', 't', 'e', '_', 'o', 'f', 'f', 's', 'e', 't']
def byteLengthKey : List Char :=
  ['b', 'y', 't', 'e', '_', 'l', 'e', 'n', 'g', 't', 'h']

/-- A member name with its quotes and colon. -/
def memberText (key : List Char) : List Char :=
  '"' :: key ++ ['"', ':']

/-- `JSON.stringify(entry)`. -/
def ChunkIndexEntry.stringify (entry : ChunkIndexEntry) : List Char :=
  '{' :: memberText sequenceKey ++ Json.stringifyNat entry.sequence ++
    ',' :: memberText streamKey ++ '"' :: entry.stream.name ++
    '"' :: ',' :: memberText byteOffsetKey ++
      Json.stringifyNat entry.byteOffset ++
    ',' :: memberText byteLengthKey ++
      Json.stringifyNat entry.byteLength ++ ['}']

/-- `JSON.stringify(checkpoint)`. -/
def ChunkIndexCheckpoint.stringify (checkpoint : ChunkIndexCheckpoint) :
    List Char :=
  '{' :: memberText sequenceKey ++ Json.stringifyNat checkpoint.sequence ++
    ',' :: memberText byteOffsetKey ++
      Json.stringifyNat checkpoint.byteOffset ++ ['}']

def ChunkIndexEntry.line (entry : ChunkIndexEntry) : List Char :=
  entry.stringify ++ ['\n']

def ChunkIndexCheckpoint.line (checkpoint : ChunkIndexCheckpoint) :
    List Char :=
  checkpoint.stringify ++ ['\n']

/-- A property that is present and a safe integer. -/
def safeProperty (name : List Char) (value : Json.Value) : Option Int := do
  let found ← value.property name
  let member ← found
  member.safeInteger?

/-- The `stream` property, when it names one of the two streams. -/
def streamProperty (value : Json.Value) : Option Stream :=
  match value.property streamKey with
  | some (some (.string units)) =>
    if units = Json.textUnits Stream.stdout.name then some .stdout
    else if units = Json.textUnits Stream.stderr.name then some .stderr
    else none
  | _ => none

/--
The record of an index line, when every check on the shape of the record
passes.  A line that is not JSON is skipped just like a record that fails a
check.
-/
def parseIndexRecord (line : List Char) : Option ChunkIndexEntry := do
  let parsed ← Json.parse line
  let stream ← streamProperty parsed
  let sequence ← safeProperty sequenceKey parsed
  let byteOffset ← safeProperty byteOffsetKey parsed
  let byteLength ← safeProperty byteLengthKey parsed
  if sequence < 1 ∨ byteOffset < 0 ∨ byteLength < 0 ∨
      (Json.maxSafeInteger : Int) - byteLength < byteOffset then
    none
  else
    some
      { sequence := sequence.toNat
        stream := stream
        byteOffset := byteOffset.toNat
        byteLength := byteLength.toNat }

/-- The characters `String.prototype.trim` removes. -/
def isTrimmed (char : Char) : Bool :=
  let code := char.toNat
  (0x09 ≤ code && code ≤ 0x0D) || code = 0x20 || code = 0xA0 ||
    code = 0x1680 || (0x2000 ≤ code && code ≤ 0x200A) ||
    code = 0x2028 || code = 0x2029 || code = 0x202F || code = 0x205F ||
    code = 0x3000 || code = 0xFEFF

/-- The length of a JavaScript string, in UTF-16 code units. -/
def jsLength (text : List Char) : Nat :=
  (Json.textUnits text).length

/-- The text after the first newline, if there is one. -/
def afterNewline : List Char → Option (List Char)
  | [] => none
  | head :: tail => if head = '\n' then some tail else afterNewline tail

/-- The pieces in which a file is read, given that many characters each. -/
def readPieces (size : Nat) : Nat → List Char → List (List Char)
  | 0, _ => []
  | _ + 1, [] => []
  | fuel + 1, text =>
    text.take size :: readPieces size fuel (text.drop size)

/-- The default `highWaterMark` of `createReadStream`. -/
def highWaterMark : Nat := 64 * 1024

/-- The pieces a read stream delivers for a text. -/
def createReadStream (text : List Char) : List (List Char) :=
  readPieces highWaterMark text.length text

/-! ## The accelerator -/

def chunkCheckpointInterval : Nat := 128
def maxCheckpointLineBytes : Nat := 64 * 1024
def maxIndexLineBytes : Nat := 1024 * 1024

/--
Consider one accelerator line: it replaces the candidate when it is a usable
checkpoint with a larger sequence.
-/
def considerCheckpoint (afterSequence indexSize : Nat)
    (candidate : Option ChunkIndexCheckpoint) (line : List Char) :
    Option ChunkIndexCheckpoint :=
  match Json.parse line with
  | none => candidate
  | some parsed =>
    match safeProperty sequenceKey parsed,
        safeProperty byteOffsetKey parsed with
    | some sequence, some byteOffset =>
      if sequence < 0 ∨ (afterSequence : Int) < sequence ∨
          byteOffset < 0 ∨ (indexSize : Int) < byteOffset ∨
          (∃ kept ∈ candidate, sequence ≤ (kept.sequence : Int)) then
        candidate
      else
        some
          { sequence := sequence.toNat
            byteOffset := byteOffset.toNat }
    | _, _ => candidate

/-- What the reader of the accelerator carries from piece to piece. -/
structure CheckpointReader where
  pending : List Char
  candidate : Option ChunkIndexCheckpoint

/-- Split the carried text and consider its complete lines. -/
def CheckpointReader.consume (reader : CheckpointReader)
    (afterSequence indexSize : Nat) (text : List Char) :
    CheckpointReader where
  pending := pendingText text
  candidate :=
    (completeLines text).foldl
      (considerCheckpoint afterSequence indexSize) reader.candidate

/--
Read one piece of the accelerator.  Once more text is carried than a line may
have, everything up to the first newline is dropped.
-/
def CheckpointReader.read (afterSequence indexSize : Nat)
    (reader : CheckpointReader) (piece : List Char) : CheckpointReader :=
  let pending := reader.pending ++ piece
  if maxCheckpointLineBytes < jsLength pending then
    match afterNewline pending with
    | none => { reader with pending := [] }
    | some rest => reader.consume afterSequence indexSize rest
  else
    reader.consume afterSequence indexSize pending

/-- The newest usable checkpoint among the pieces of the accelerator. -/
def newestCandidate (afterSequence indexSize : Nat)
    (pieces : List (List Char)) : Option ChunkIndexCheckpoint :=
  (pieces.foldl (CheckpointReader.read afterSequence indexSize)
    { pending := [], candidate := none }).candidate

/-- The number of bytes read to probe a candidate. -/
def probeBytes : Nat := 4096

/-- The line of the index the probe of a candidate looks at. -/
def probeLine (chunks : List Char) (byteOffset : Nat) : List Char :=
  ((chunks.drop byteOffset).take probeBytes).takeWhile (· ≠ '\n')

/-- Does the line at the candidate carry the sequence after it? -/
def probeCheckpoint (chunks : List Char)
    (candidate : ChunkIndexCheckpoint) : Bool :=
  match Json.parse (probeLine chunks candidate.byteOffset) with
  | none => false
  | some parsed =>
    match parsed.property sequenceKey with
    | some (some value) =>
      value.integer? = some ((candidate.sequence : Int) + 1)
    | _ => false

/-- The checkpoint a scan starts from, if the newest candidate is sound. -/
def findChunkCheckpoint (checkpointPieces : List (List Char))
    (chunks : List Char) (afterSequence indexSize : Nat) :
    Option ChunkIndexCheckpoint :=
  match newestCandidate afterSequence indexSize checkpointPieces with
  | none => none
  | some candidate =>
    if probeCheckpoint chunks candidate then some candidate else none

/-! ## Scanning the index -/

/-- What a scan has found so far. -/
structure Scan where
  previousSequence : Nat
  yielded : List ChunkIndexEntry
  deriving DecidableEq

/-- Visit one complete index line. -/
def visitLine (streamSizes : Stream → Nat) (afterSequence : Nat)
    (scan : Scan) (line : List Char) : Scan :=
  if line.all isTrimmed then
    scan
  else
    match parseIndexRecord line with
    | none => scan
    | some entry =>
      if streamSizes entry.stream < entry.byteEnd ∨
          entry.sequence ≤ scan.previousSequence then
        scan
      else
        { previousSequence := entry.sequence
          yielded :=
            if afterSequence < entry.sequence then
              scan.yielded ++ [entry]
            else
              scan.yielded }

/-- What the reader of the index carries from piece to piece. -/
structure IndexReader where
  pending : List Char
  discarding : Bool
  scan : Scan

/-- Split the carried text and visit its complete lines. -/
def IndexReader.consume (reader : IndexReader)
    (streamSizes : Stream → Nat) (afterSequence : Nat)
    (text : List Char) : IndexReader :=
  let pending := pendingText text
  let scan :=
    (completeLines text).foldl (visitLine streamSizes afterSequence)
      reader.scan
  if maxIndexLineBytes < jsLength pending then
    { pending := [], discarding := true, scan := scan }
  else
    { pending := pending, discarding := false, scan := scan }

def IndexReader.read (streamSizes : Stream → Nat) (afterSequence : Nat)
    (reader : IndexReader) (piece : List Char) : IndexReader :=
  if reader.discarding then
    match afterNewline piece with
    | none => reader
    | some rest => reader.consume streamSizes afterSequence rest
  else
    reader.consume streamSizes afterSequence (reader.pending ++ piece)

/-- The reader of the index when it starts at a checkpoint. -/
def IndexReader.start (previousSequence : Nat) : IndexReader where
  pending := []
  discarding := false
  scan := { previousSequence := previousSequence, yielded := [] }

/-- The entries yielded for the pieces of the index. -/
def scanPieces (streamSizes : Stream → Nat)
    (afterSequence previousSequence : Nat) (pieces : List (List Char)) :
    List ChunkIndexEntry :=
  (pieces.foldl (IndexReader.read streamSizes afterSequence)
    (IndexReader.start previousSequence)).scan.yielded

/-- The checkpoint `iterChunkIndexEntriesFrom` starts from. -/
def scanCheckpoint (logs : AttemptLogs)
    (afterSequence checkpointSequence : Nat) :
    Option ChunkIndexCheckpoint :=
  let checkpointBound :=
    if 0 < checkpointSequence then checkpointSequence else afterSequence
  if 0 < checkpointBound then
    findChunkCheckpoint (createReadStream logs.checkpoints) logs.chunks
      checkpointBound logs.chunks.length
  else
    none

/-- The entries of a directory at rest, after a sequence. -/
def iterChunkIndexEntriesFrom (logs : AttemptLogs)
    (afterSequence checkpointSequence : Nat) : List ChunkIndexEntry :=
  match scanCheckpoint logs afterSequence checkpointSequence with
  | none =>
    scanPieces logs.size afterSequence 0 (createReadStream logs.chunks)
  | some checkpoint =>
    scanPieces logs.size afterSequence checkpoint.sequence
      (createReadStream (logs.chunks.drop checkpoint.byteOffset))

/-- The full scan of the index. -/
def iterChunkIndexEntries (logs : AttemptLogs) : List ChunkIndexEntry :=
  iterChunkIndexEntriesFrom logs 0 0

/-- The accelerated scan of the index after a sequence. -/
def iterChunkIndexEntriesAfter (logs : AttemptLogs)
    (afterSequence : Nat) : List ChunkIndexEntry :=
  iterChunkIndexEntriesFrom logs afterSequence afterSequence

/-- The last sequence of the index, found through the accelerator. -/
def readLastChunkSequence (logs : AttemptLogs) : Nat :=
  (iterChunkIndexEntriesFrom logs 0 Json.maxSafeInteger).foldl
    (fun _ entry => entry.sequence) 0

/-! ## Appending -/

/-- The offset of a new chunk in its stream file. -/
def streamByteOffset (logs : AttemptLogs) (stream : Stream) : Nat :=
  logs.size stream

/-- The entry an append writes. -/
def newEntry (logs : AttemptLogs) (stream : Stream)
    (chunk : List UInt8) (sequence : Nat) (streamOffset : Option Nat) :
    ChunkIndexEntry where
  sequence := sequence
  stream := stream
  byteOffset := streamOffset.getD (streamByteOffset logs stream)
  byteLength := chunk.length

/-- The text an append adds to the accelerator. -/
def checkpointText (sequence indexOffset : Nat) : List Char :=
  if sequence % chunkCheckpointInterval = 0 then
    ChunkIndexCheckpoint.line
      { sequence := sequence - 1, byteOffset := indexOffset }
  else
    []

/-- The directory after the three writes of an append. -/
def writeChunk (logs : AttemptLogs) (chunk : List UInt8)
    (entry : ChunkIndexEntry) : AttemptLogs :=
  appendCheckpointText
    (appendChunksText (appendLogChunk logs entry.stream chunk) entry.line)
    (checkpointText entry.sequence logs.chunks.length)

/--
Append a chunk under an explicit sequence: the stream file first, then the
index line, then every 128 sequences a checkpoint.  The append is refused
when the sequence does not exceed the last one of the index.
-/
def appendIndexedLogChunk (logs : AttemptLogs) (stream : Stream)
    (chunk : List UInt8) (sequence : Nat) (streamOffset : Option Nat) :
    Option (AttemptLogs × ChunkIndexEntry) :=
  if sequence ≤ readLastChunkSequence logs then
    none
  else
    let entry := newEntry logs stream chunk sequence streamOffset
    some (writeChunk logs chunk entry, entry)

/-! ## Reading chunks back -/

/-- The bytes of an entry in its stream file, when they are all there. -/
def readIndexedBytes (file : List UInt8) (entry : ChunkIndexEntry) :
    Option (List UInt8) :=
  if entry.byteLength = 0 then
    some []
  else if file.length < entry.byteEnd then
    none
  else
    some ((file.drop entry.byteOffset).take entry.byteLength)

/-- A chunk with the bytes read back for it. -/
structure IndexedChunk where
  sequence : Nat
  stream : Stream
  bytes : List UInt8
  deriving DecidableEq

def iterIndexedChunkBytesAfter (logs : AttemptLogs)
    (afterSequence : Nat) : List IndexedChunk :=
  (iterChunkIndexEntriesAfter logs afterSequence).filterMap fun entry =>
    (readIndexedBytes (logs.file entry.stream) entry).map fun bytes =>
      { sequence := entry.sequence
        stream := entry.stream
        bytes := bytes }

end Rbo.Executor.Logs
