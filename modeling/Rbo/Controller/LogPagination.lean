import Rbo.Executor.Logs
import Rbo.Executor.LogPresentation

/-!
# Pages of a job's log

A page presents the next entries of the durable index within a byte budget.
The cursor it returns carries, for each stream, a raw position and the state
of the presentation parser.  An entry that ends inside a character is
completed from later entries of its stream.

A cursor is a value here: its fields that only name the job are left out, and
so is the signed token it is sent as.
-/

namespace Rbo.Controller.LogPagination

open Rbo.Foundation
open Rbo.Executor.Logs
open Rbo.Executor.LogPresentation

/-! ## Cursors -/

/-- A value for each stream. -/
structure PerStream (α : Type) where
  stdout : α
  stderr : α
  deriving DecidableEq

def PerStream.get {α : Type} (pair : PerStream α) : Stream → α
  | .stdout => pair.stdout
  | .stderr => pair.stderr

def PerStream.set {α : Type} (pair : PerStream α) (stream : Stream)
    (value : α) : PerStream α :=
  match stream with
  | .stdout => { pair with stdout := value }
  | .stderr => { pair with stderr := value }

/-- The same value for both streams. -/
def PerStream.both {α : Type} (value : α) : PerStream α where
  stdout := value
  stderr := value

/-- A raw position: an entry and an offset into it. -/
structure StreamPosition where
  seq : Nat
  off : Nat
  deriving DecidableEq

/-- The part of a cursor that a page reads and returns. -/
structure LogCursor where
  seq : Nat
  off : Nat
  states : Option (PerStream (Option LogPresentationState))
  positions : Option (PerStream (Option StreamPosition))
  deriving DecidableEq

/-- The cursor of a request that supplies none. -/
def nullCursor : LogCursor where
  seq := 0
  off := 0
  states := none
  positions := none

/-- Has a cursor moved? -/
def logCursorAdvanced (fromCursor toCursor : LogCursor) : Prop :=
  toCursor.seq ≠ fromCursor.seq ∨ toCursor.off ≠ fromCursor.off ∨
    toCursor.states ≠ fromCursor.states ∨
    toCursor.positions ≠ fromCursor.positions

/-! ## Reading the raw bytes of an entry -/

def indexReadCap : Nat := 1024 * 1024
def pageRawScanCap : Nat := 1024 * 1024

/-- The raw bytes of an entry from an offset on, up to the read cap. -/
def readIndexedRange (logs : AttemptLogs) (entry : ChunkIndexEntry)
    (offset : Nat) : Option (List UInt8) :=
  if entry.byteLength ≤ offset then
    some []
  else
    let length := min (entry.byteLength - offset) indexReadCap
    let start := entry.byteOffset + offset
    let file := logs.file entry.stream
    if file.length < start + length then none
    else some ((file.drop start).take length)

/-- How many bytes a character at the end of some bytes still lacks. -/
def utf8ContinuationBytesNeeded (bytes : List UInt8) : Nat :=
  let continuation :=
    (bytes.reverse.takeWhile fun byte => 0x80 ≤ byte ∧ byte ≤ 0xBF).length
  match bytes.reverse.drop continuation with
  | [] => 0
  | lead :: _ =>
    let width :=
      if lead < 0x80 then 1
      else if lead ≤ 0xDF then 2
      else if lead ≤ 0xEF then 3
      else if lead ≤ 0xF4 then 4
      else 1
    let available := continuation + 1
    if 1 < width ∧ available < width then width - available else 0

/-! ## A page in the making -/

/-- A presented piece of one entry. -/
structure PageChunk where
  sequence : Nat
  stream : Stream
  text : List Char
  complete : Bool
  deriving DecidableEq

/-- The variables of the loop over the entries. -/
structure PageState where
  positions : PerStream (Option StreamPosition)
  states : PerStream (Option LogPresentationState)
  output : List PageChunk
  returned : Nat
  nextSeq : Nat
  nextOff : Nat
  truncated : Bool
  blocked : PerStream Bool
  exhausted : PerStream Bool
  hasPendingIntervening : Bool
  remainingScan : Nat
  deriving DecidableEq

/-- Is an entry before a position? -/
def StreamPosition.passed (position : StreamPosition)
    (entry : ChunkIndexEntry) : Prop :=
  entry.sequence < position.seq ∨
    (entry.sequence = position.seq ∧ entry.byteLength ≤ position.off)

instance (position : StreamPosition) (entry : ChunkIndexEntry) :
    Decidable (position.passed entry) :=
  inferInstanceAs (Decidable (_ ∨ _))

/-- `alreadyConsumed`. -/
def alreadyConsumed (positions : PerStream (Option StreamPosition))
    (entry : ChunkIndexEntry) : Prop :=
  ∃ position ∈ positions.get entry.stream, position.passed entry

instance (positions : PerStream (Option StreamPosition))
    (entry : ChunkIndexEntry) :
    Decidable (alreadyConsumed positions entry) :=
  inferInstanceAs
    (Decidable
      (∃ position ∈ positions.get entry.stream, position.passed entry))

/-- What the search for the rest of a character has found. -/
structure Lookahead where
  parts : List (ChunkIndexEntry × List UInt8)
  collected : Nat
  scannedToEnd : Bool
  hasPendingIntervening : Bool
  nextSeq : Nat
  deriving DecidableEq

/-- Search the entries after the current one for the bytes that are needed. -/
def Lookahead.search (logs : AttemptLogs) (cursorSeq : Nat)
    (stream : Stream) (needed : Nat) :
    List ChunkIndexEntry → Lookahead → Lookahead
  | [], lookahead => lookahead
  | entry :: rest, lookahead =>
    if needed ≤ lookahead.collected then
      lookahead
    else if entry.stream ≠ stream then
      Lookahead.search logs cursorSeq stream needed rest
        { lookahead with
          hasPendingIntervening := true
          nextSeq :=
            if lookahead.nextSeq = cursorSeq then entry.sequence
            else min lookahead.nextSeq entry.sequence }
    else
      match readIndexedRange logs entry 0 with
      | none | some [] => { lookahead with scannedToEnd := false }
      | some look =>
        let part := look.take (needed - lookahead.collected)
        Lookahead.search logs cursorSeq stream needed rest
          { lookahead with
            parts := lookahead.parts ++ [(entry, part)]
            collected := lookahead.collected + part.length }

/-- The last entry that consumed bytes reach into, and how far. -/
def consumedNext : Nat → List (ChunkIndexEntry × List UInt8) →
    Option (ChunkIndexEntry × Nat) → Option (ChunkIndexEntry × Nat)
  | _, [], found => found
  | remain, (entry, part) :: more, _ =>
    let used := min remain part.length
    if remain - used = 0 then some (entry, used)
    else consumedNext (remain - used) more (some (entry, used))

/-- Go on with the loop or leave it. -/
inductive Visit where
  | goOn (page : PageState)
  | leave (page : PageState)
  deriving DecidableEq

def Visit.page : Visit → PageState
  | .goOn page => page
  | .leave page => page

/-- Move the position of a stream, and the cursor with it. -/
def PageState.moveTo (page : PageState) (stream : Stream) (seq off : Nat) :
    PageState :=
  { page with
    positions := page.positions.set stream (some { seq := seq, off := off })
    nextSeq := seq
    nextOff := off }

/-- What one entry contributes: the presented bytes and where they end. -/
structure Presented where
  result : PresentLogResult
  next : Option (ChunkIndexEntry × Nat)
  page : PageState

/-- Present the bytes of an entry, with the rest of its last character. -/
def PageState.present (page : PageState) (logs : AttemptLogs)
    (cursorSeq maxBytes : Nat) (entry : ChunkIndexEntry)
    (rest : List ChunkIndexEntry) (bytes : List UInt8)
    (rangeCapped : Bool) (needed : Nat) (plain : PresentLogResult) :
    Presented :=
  let stream := entry.stream
  if 0 < needed ∧ plain.data = [] ∧ plain.consumedRawBytes < bytes.length ∧
      rangeCapped = false then
    let lookahead :=
      Lookahead.search logs cursorSeq stream needed rest
        { parts := []
          collected := 0
          scannedToEnd := true
          hasPendingIntervening := page.hasPendingIntervening
          nextSeq := page.nextSeq }
    let looked :=
      { page with
        hasPendingIntervening := lookahead.hasPendingIntervening
        nextSeq := lookahead.nextSeq }
    if needed ≤ lookahead.collected then
      let result :=
        presentLogChunks (bytes :: lookahead.parts.map Prod.snd)
          (page.states.get stream) (maxBytes - page.returned)
          page.remainingScan
      { result := result
        next :=
          consumedNext (result.consumedRawBytes - bytes.length)
            lookahead.parts none
        page := looked }
    else
      { result := plain
        next := none
        page :=
          if lookahead.scannedToEnd then
            { looked with exhausted := looked.exhausted.set stream true }
          else
            looked }
  else
    { result := plain, next := none, page := page }

/-- Account for what an entry contributed. -/
def PageState.account (page : PageState) (entry : ChunkIndexEntry)
    (startOffset : Nat) (bytes : List UInt8) (result : PresentLogResult) :
    PageState :=
  { page with
    remainingScan := page.remainingScan - result.scannedRawBytes
    states := page.states.set entry.stream (some result.state)
    output :=
      if result.data = [] then page.output
      else
        page.output ++
          [{ sequence := entry.sequence
             stream := entry.stream
             text := Utf8.decode result.data
             complete :=
               decide (bytes.length ≤ result.consumedRawBytes ∧
                 bytes.length = entry.byteLength - startOffset) }]
    returned := page.returned + result.data.length }

/-- Move the position after an entry was presented. -/
def PageState.settle (page : PageState) (entry : ChunkIndexEntry)
    (startOffset : Nat) (bytes : List UInt8) (rangeCapped : Bool)
    (needed : Nat) (result : PresentLogResult)
    (next : Option (ChunkIndexEntry × Nat)) : Visit :=
  let stream := entry.stream
  let consumed := result.consumedRawBytes
  let consumedFromNext := (next.map Prod.snd).getD 0
  if (consumed < bytes.length ∧ next = none) ∨ result.truncated then
    let moved := page.moveTo stream entry.sequence (startOffset + consumed)
    if (0 < needed ∧ consumed < bytes.length ∧ consumedFromNext = 0) ∧
        result.truncated = false then
      .goOn { moved with blocked := moved.blocked.set stream true }
    else
      .leave { moved with truncated := true }
  else
    match next with
    | some (nextEntry, used + 1) =>
      let position : StreamPosition :=
        { seq := nextEntry.sequence, off := used + 1 }
      let moved :=
        { page with
          positions := page.positions.set stream (some position)
          nextSeq :=
            if page.hasPendingIntervening then page.nextSeq
            else position.seq
          nextOff :=
            if page.hasPendingIntervening then page.nextOff
            else position.off
          truncated := decide (used + 1 < nextEntry.byteLength) }
      if used + 1 < nextEntry.byteLength then .leave moved else .goOn moved
    | _ =>
      if rangeCapped then
        .leave
          { page.moveTo stream entry.sequence
              (startOffset + bytes.length) with
            truncated := true }
      else
        .goOn (page.moveTo stream (entry.sequence + 1) 0)

/-- Visit one entry, with the entries after it for the lookahead. -/
def PageState.visit (page : PageState) (logs : AttemptLogs)
    (cursorSeq maxBytes : Nat) (entry : ChunkIndexEntry)
    (rest : List ChunkIndexEntry) : Option Visit :=
  if maxBytes - page.returned < 4 ∨ page.remainingScan < 1 then
    some (.leave { page with truncated := true })
  else
    let stream := entry.stream
    let position := (page.positions.get stream).getD { seq := 0, off := 0 }
    let placed :=
      { page with positions := page.positions.set stream (some position) }
    if page.blocked.get stream then
      some (.goOn placed)
    else if position.passed entry then
      some (.goOn placed)
    else
      let startOffset :=
        if entry.sequence = position.seq then position.off else 0
      let remainingBytes := entry.byteLength - startOffset
      match readIndexedRange logs entry startOffset with
      | none => none
      | some [] => some (.goOn placed)
      | some bytes =>
        let rangeCapped := decide (bytes.length < remainingBytes)
        let plain :=
          presentLogChunks [bytes] (page.states.get stream)
            (maxBytes - page.returned) page.remainingScan
        let needed :=
          if plain.truncated then 0 else utf8ContinuationBytesNeeded bytes
        let presented :=
          placed.present logs cursorSeq maxBytes entry rest bytes
            rangeCapped needed plain
        some
          ((presented.page.account entry startOffset bytes
            presented.result).settle entry startOffset bytes rangeCapped
              needed presented.result presented.next)

/-- The loop over the entries, at most that many. -/
def PageState.loop (logs : AttemptLogs) (cursorSeq maxBytes : Nat) :
    Nat → List ChunkIndexEntry → PageState → Option PageState
  | 0, _, page => some page
  | _ + 1, [], page => some page
  | limit + 1, entry :: rest, page =>
    match page.visit logs cursorSeq maxBytes entry rest with
    | none => none
    | some (.leave left) => some left
    | some (.goOn next) =>
      PageState.loop logs cursorSeq maxBytes limit rest next

/-! ## The page -/

/-- The number of entries a page looks at, and visits. -/
def pageWindow : Nat := 129
def pageLimit : Nat := 128

def LogCursor.startPositions (cursor : LogCursor) :
    PerStream (Option StreamPosition) :=
  cursor.positions.getD (PerStream.both none)

/-- The first sequence a page may have to read. -/
def LogCursor.firstSequence (cursor : LogCursor) : Nat :=
  let seqs :=
    (cursor.startPositions.stdout.toList ++
      cursor.startPositions.stderr.toList).map StreamPosition.seq
  seqs.foldl min cursor.seq

/-- The entries of a page that are not consumed yet. -/
def pageEntries (logs : AttemptLogs) (cursor : LogCursor) :
    List ChunkIndexEntry :=
  ((iterChunkIndexEntriesAfter logs (cursor.firstSequence - 1)).filter
    fun entry => ¬ alreadyConsumed cursor.startPositions entry).take
      pageWindow

/-- The page before its first entry. -/
def PageState.start (cursor : LogCursor) : PageState where
  positions := cursor.startPositions
  states := cursor.states.getD (PerStream.both none)
  output := []
  returned := 0
  nextSeq := cursor.seq
  nextOff := cursor.off
  truncated := false
  blocked := PerStream.both false
  exhausted := PerStream.both false
  hasPendingIntervening := false
  remainingScan := pageRawScanCap

/-- A state is carried on only inside a control sequence. -/
def compactState (state : Option LogPresentationState) :
    Option LogPresentationState :=
  state.filter fun state => state.mode ≠ .ground

/-- The states of the next cursor. -/
def compactStates (states : PerStream (Option LogPresentationState)) :
    Option (PerStream (Option LogPresentationState)) :=
  let compact : PerStream (Option LogPresentationState) :=
    { stdout := compactState states.stdout
      stderr := compactState states.stderr }
  if compact = PerStream.both none then none else some compact

/-- The sequence of the next cursor. -/
def PageState.finalSeq (page : PageState) (cursor : LogCursor) : Nat :=
  if page.hasPendingIntervening = false ∧ page.nextSeq = cursor.seq then
    let progressed :=
      ((page.positions.stdout.toList ++ page.positions.stderr.toList).map
        StreamPosition.seq).filter fun seq => cursor.seq ≤ seq
    match progressed with
    | [] => page.nextSeq
    | first :: more => more.foldl min first
  else
    page.nextSeq

/-- What a page returns. -/
structure LogPage where
  chunks : List PageChunk
  next : LogCursor
  returned : Nat
  hasMore : Bool
  truncated : Bool
  deriving DecidableEq

/-- `readJobLogsPage`, or nothing when the log source is unavailable. -/
def readJobLogsPage (logs : AttemptLogs) (cursor : LogCursor)
    (maxBytes : Nat) : Option LogPage := do
  let entries := pageEntries logs cursor
  let page ←
    PageState.loop logs cursor.seq maxBytes pageLimit entries
      (PageState.start cursor)
  some
    { chunks := page.output
      next :=
        { seq := page.finalSeq cursor
          off := page.nextOff
          states := compactStates page.states
          positions := some page.positions }
      returned := page.returned
      hasMore :=
        page.truncated || decide (pageLimit < entries.length) ||
          (page.blocked.stdout && !page.exhausted.stdout) ||
          (page.blocked.stderr && !page.exhausted.stderr)
      truncated := page.truncated }

end Rbo.Controller.LogPagination
