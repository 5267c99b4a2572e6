import Mathlib.Data.Bool.AllAny
import Mathlib.Data.List.Nodup
import Rbo.Executor.LogsIndex
import Rbo.Foundation.JsonLocality

/-!
# Reading the chunk index backwards

`readChunkIndexTail` reads the index in blocks from its end, and carries the
first line of a block over to the block before it.  It finds the last entries
of the index, however its lines lie across the blocks.

The scan from the front drops a line once more than a mebibyte of it is
pending; the reader from the back has no such bound.  The last entries of the
two agree exactly when none of them stands on a line that the scan drops.
-/

namespace Rbo.Executor.Logs

open Rbo.Foundation
open Rbo.Foundation.Lines

/-! ## The reader -/

/-- `text.split('\n')`. -/
def splitText (text : List Char) : List (List Char) :=
  completeLines text ++ [pendingText text]

/-- The entry of a line of the suffix. -/
def tailEntry (streamSizes : Stream → Nat) (line : List Char) :
    Option ChunkIndexEntry :=
  if trim line = [] then
    none
  else
    (parseIndexRecord (trim line)).filter fun entry =>
      entry.byteEnd ≤ streamSizes entry.stream

/-- Push the entries of some lines, from the last line to the first, until
there are enough. -/
def pushEntries (streamSizes : Stream → Nat) (maxEntries : Nat) :
    List ChunkIndexEntry → List (List Char) → List ChunkIndexEntry
  | entries, [] => entries
  | entries, line :: older =>
    if maxEntries ≤ entries.length then
      entries
    else
      match tailEntry streamSizes line with
      | none => pushEntries streamSizes maxEntries entries older
      | some entry =>
        pushEntries streamSizes maxEntries (entries ++ [entry]) older

def blockSize : Nat := 64 * 1024

/-- The loop over the blocks, from the end of the index. -/
def readBlocks (streamSizes : Stream → Nat) (chunks : List Char)
    (maxEntries : Nat) :
    Nat → Nat → List Char → List ChunkIndexEntry → List ChunkIndexEntry
  | 0, _, _, entries => entries
  | fuel + 1, position, pending, entries =>
    if position = 0 ∨ maxEntries ≤ entries.length then
      entries
    else
      let start := position - blockSize
      let lines :=
        splitText ((chunks.drop start).take (position - start) ++ pending)
      if start = 0 then
        -- the first element is a whole line here
        readBlocks streamSizes chunks maxEntries fuel start []
          (pushEntries streamSizes maxEntries entries lines.reverse)
      else
        readBlocks streamSizes chunks maxEntries fuel start (lines.headD [])
          (pushEntries streamSizes maxEntries entries lines.tail.reverse)

/-- The last entries of the index.  Every block brings the position closer to
the start, so its length is fuel enough. -/
def readChunkIndexTail (logs : AttemptLogs) (maxEntries : Nat) :
    List ChunkIndexEntry :=
  if maxEntries < 1 ∨ Json.maxSafeInteger < maxEntries then
    []
  else
    (readBlocks logs.size logs.chunks maxEntries logs.chunks.length
      logs.chunks.length [] []).reverse

/-- The last entries of a list. -/
def lastOf {Item : Type} (count : Nat) (items : List Item) : List Item :=
  items.drop (items.length - count)

/-! ## Splitting in blocks -/

theorem splitText_newline (text : List Char) :
    splitText ('\n' :: text) = [] :: splitText text := by
  unfold splitText completeLines pendingText
  rw [splitLines_newline]
  rfl

variable {lines : List (List Char)}

theorem splitText_cons {char : Char} (other : char ≠ '\n')
    {text first : List Char} (split : splitText text = first :: lines) :
    splitText (char :: text) = (char :: first) :: lines := by
  unfold splitText completeLines pendingText at *
  rw [splitLines, if_neg other]
  cases found : (splitLines text).1 with
  | nil =>
    rw [found] at split
    cases split
    rfl
  | cons line rest =>
    rw [found] at split
    cases split
    rfl

theorem exists_splitText (text : List Char) :
    ∃ first lines, splitText text = first :: lines := by
  cases split : splitText text with
  | nil => exact absurd split (List.append_ne_nil_of_right_ne_nil _ (by simp))
  | cons first lines => exact ⟨first, lines, rfl⟩

theorem splitText_first {text first : List Char}
    (split : splitText text = first :: lines) : splitText first = [first] := by
  have plain : '\n' ∉ first := by
    have inside : first ∈ splitText text := by
      rw [split]
      exact List.mem_cons_self
    rcases List.mem_append.mp inside with line | pending
    · exact newline_notMem_of_mem_completeLines line
    · rw [List.mem_singleton.mp pending]
      exact newline_notMem_pendingText text
  unfold splitText
  rw [completeLines_of_noNewline plain, pendingText_of_noNewline plain]
  rfl

/-- A block before a text continues the first line of the text. -/
theorem splitText_append {block text first : List Char}
    (split : splitText text = first :: lines) :
    splitText (block ++ text) = splitText (block ++ first) ++ lines := by
  induction block with
  | nil =>
    rw [List.nil_append, List.nil_append, split, splitText_first split]
    rfl
  | cons char block inductionHypothesis =>
    rw [List.cons_append, List.cons_append]
    by_cases newline : char = '\n'
    · rw [newline, splitText_newline, splitText_newline,
        inductionHypothesis, List.cons_append]
    · rcases exists_splitText (block ++ first) with ⟨head, more, found⟩
      rw [splitText_cons newline found]
      refine splitText_cons newline ?_
      rw [inductionHypothesis, found]
      rfl

/-! ## What the reader pushes -/

theorem pushEntries_eq {streamSizes : Stream → Nat} {maxEntries : Nat}
    (lines : List (List Char)) {entries : List ChunkIndexEntry}
    (few : entries.length ≤ maxEntries) :
    pushEntries streamSizes maxEntries entries lines =
      (entries ++ lines.filterMap (tailEntry streamSizes)).take maxEntries := by
  induction lines generalizing entries with
  | nil =>
    rw [List.filterMap_nil, List.append_nil, List.take_of_length_le few]
    rfl
  | cons line older inductionHypothesis =>
    rw [pushEntries]
    split
    · rename_i enough
      have full : maxEntries = entries.length := Nat.le_antisymm enough few
      rw [full, List.take_left]
    · rename_i room
      split
      · rename_i none
        rw [inductionHypothesis few, List.filterMap_cons_none none]
      · rename_i entry some
        rw [inductionHypothesis, List.filterMap_cons_some some,
          List.append_assoc, List.singleton_append]
        rw [List.length_append, List.length_singleton]
        omega

theorem take_append_take {Item : Type} (count : Nat)
    (first second : List Item) :
    (first.take count ++ second).take count = (first ++ second).take count := by
  rw [List.take_append, List.take_append, List.take_take, Nat.min_self,
    List.length_take]
  congr 2
  omega

section Blocks

variable {streamSizes : Stream → Nat} {chunks : List Char} {maxEntries : Nat}

theorem readBlocks_zero (fuel : Nat) (pending : List Char)
    (entries : List ChunkIndexEntry) :
    readBlocks streamSizes chunks maxEntries fuel 0 pending entries =
      entries := by
  cases fuel with
  | zero => rfl
  | succ fuel =>
    rw [readBlocks]
    exact if_pos (Or.inl rfl)

/-- The entries pushed for the lines that are read so far, when these are
the lines of the index after the first one that begins behind the position. -/
theorem readBlocks_eq {fuel position : Nat} (enough : position ≤ fuel)
    (inside : position ≤ chunks.length) (positive : 0 < position)
    {pending : List Char} {done : List (List Char)}
    (split : splitText (chunks.drop position) = pending :: done) :
    readBlocks streamSizes chunks maxEntries fuel position pending
        ((done.reverse.filterMap (tailEntry streamSizes)).take maxEntries) =
      ((splitText chunks).reverse.filterMap
        (tailEntry streamSizes)).take maxEntries := by
  induction fuel generalizing position pending done with
  | zero => omega
  | succ fuel inductionHypothesis =>
    -- the lines that begin behind the new position
    have cut : ∀ start, start ≤ position →
        splitText (chunks.drop start) =
          splitText ((chunks.drop start).take (position - start) ++
            pending) ++ done := by
      intro start before
      rw [← splitText_append split]
      have whole : chunks.drop position =
          (chunks.drop start).drop (position - start) := by
        rw [List.drop_drop]
        congr 1
        omega
      rw [whole, List.take_append_drop]
    rw [readBlocks]
    split
    · rename_i stopped
      have full : maxEntries ≤
          ((done.reverse.filterMap
            (tailEntry streamSizes)).take maxEntries).length :=
        stopped.resolve_left (by omega)
      have all := cut 0 (Nat.zero_le _)
      rw [List.drop_zero] at all
      rw [List.length_take] at full
      rw [all, List.reverse_append, List.filterMap_append,
        List.take_append_of_le_length (by omega)]
    · dsimp only
      have few : ((done.reverse.filterMap
          (tailEntry streamSizes)).take maxEntries).length ≤ maxEntries := by
        rw [List.length_take]
        omega
      have smaller : position - blockSize < position := by
        have some : 0 < blockSize := by decide
        omega
      split
      · rename_i start
        rw [start, readBlocks_zero, pushEntries_eq _ few, take_append_take,
          ← List.filterMap_append, ← List.reverse_append,
          ← cut 0 (Nat.zero_le _), List.drop_zero]
      · rename_i start
        have all := cut _ smaller.le
        rcases exists_splitText ((chunks.drop (position - blockSize)).take
          (position - (position - blockSize)) ++ pending) with
            ⟨first, lines, found⟩
        rw [found] at all ⊢
        rw [pushEntries_eq _ few, take_append_take, ← List.filterMap_append,
          ← List.reverse_append]
        exact inductionHypothesis (by omega) (by omega) (by omega) all

end Blocks

variable {logs : AttemptLogs}

/-- The reader finds the last entries on any index. -/
theorem readChunkIndexTail_eq {maxEntries : Nat} (some : 1 ≤ maxEntries)
    (safe : maxEntries ≤ Json.maxSafeInteger) :
    readChunkIndexTail logs maxEntries =
      lastOf maxEntries
        ((splitText logs.chunks).filterMap (tailEntry logs.size)) := by
  unfold readChunkIndexTail lastOf
  rw [if_neg (by omega)]
  have blocks : readBlocks logs.size logs.chunks maxEntries
      logs.chunks.length logs.chunks.length [] [] =
        ((splitText logs.chunks).reverse.filterMap
          (tailEntry logs.size)).take maxEntries := by
    by_cases empty : logs.chunks = []
    · rw [empty]
      exact List.take_nil.symm
    · have positive := List.length_pos_of_ne_nil empty
      have read := @readBlocks_eq logs.size logs.chunks maxEntries _ _ le_rfl
        le_rfl positive [] [] (by rw [List.drop_length]; rfl)
      rwa [List.reverse_nil, List.filterMap_nil, List.take_nil] at read
  rw [blocks, List.filterMap_reverse, List.take_reverse, List.reverse_reverse]

/-! ## The lines the scan keeps -/

/-- Lines with the positions they begin at. -/
def positioned : Nat → List (List Char) → List (Nat × List Char)
  | _, [] => []
  | start, line :: lines =>
    (start, line) :: positioned (start + line.length + 1) lines

/-- More than the scan keeps pending of the line lies before the last piece
that a part of it is in. -/
def Overlong (line : Nat × List Char) : Prop :=
  maxIndexLineBytes + line.1 <
    (line.1 + line.2.length) / highWaterMark * highWaterMark

instance (line : Nat × List Char) : Decidable (Overlong line) :=
  inferInstanceAs (Decidable (_ < _))

def keptLines (text : List Char) : List (List Char) :=
  ((positioned 0 (completeLines text)).filter
    fun line => decide (¬ Overlong line)).map Prod.snd

theorem positioned_append (start : Nat) (front back : List (List Char)) :
    positioned start (front ++ back) =
      positioned start front ++
        positioned (start + (joinRecords front).length) back := by
  induction front generalizing start with
  | nil => rfl
  | cons line front inductionHypothesis =>
    rw [List.cons_append, positioned, positioned, inductionHypothesis,
      joinRecords_cons, List.length_append, List.length_cons,
      List.cons_append]
    congr 3
    omega

theorem map_snd_positioned (start : Nat) (lines : List (List Char)) :
    (positioned start lines).map Prod.snd = lines := by
  induction lines generalizing start with
  | nil => rfl
  | cons line lines inductionHypothesis =>
    rw [positioned, List.map_cons, inductionHypothesis]

theorem bounds_of_positioned {start : Nat} {line : Nat × List Char}
    (inside : line ∈ positioned start lines) :
    start ≤ line.1 ∧
      line.1 + line.2.length < start + (joinRecords lines).length := by
  induction lines generalizing start with
  | nil => cases inside
  | cons first lines inductionHypothesis =>
    rw [joinRecords_cons, List.length_append, List.length_cons]
    rcases List.mem_cons.mp inside with rfl | later
    · dsimp only
      omega
    · have bounds := inductionHypothesis later
      omega

/-- Nothing is dropped of lines that begin and end in one piece. -/
theorem filter_positioned {start bound : Nat} {lines : List (List Char)}
    (piece : bound % highWaterMark = 0) (begins : bound ≤ start)
    (ends : start + (joinRecords lines).length ≤ bound + highWaterMark) :
    (positioned start lines).filter (fun line => decide (¬ Overlong line)) =
      positioned start lines := by
  rw [List.filter_eq_self]
  intro line inside
  have bounds := bounds_of_positioned inside
  refine decide_eq_true ?_
  unfold Overlong highWaterMark at *
  omega

theorem jsLength_of_ascii {text : List Char}
    (ascii : ∀ char ∈ text, char.toNat < 128) :
    jsLength text = text.length := by
  induction text with
  | nil => rfl
  | cons char text inductionHypothesis =>
    have small := ascii char List.mem_cons_self
    have unit : Json.charUnits char = [char.toNat] := by
      unfold Json.charUnits
      exact if_pos (by omega)
    have later := inductionHypothesis fun other inside =>
      ascii other (List.mem_cons_of_mem _ inside)
    unfold jsLength Json.textUnits at *
    rw [List.flatMap_cons, unit, List.length_append, later,
      List.length_singleton, List.length_cons, Nat.add_comm]

theorem afterNewline_cases (text : List Char) :
    (afterNewline text = none ∧ '\n' ∉ text) ∨
      ∃ before rest, afterNewline text = some rest ∧ '\n' ∉ before ∧
        text = before ++ '\n' :: rest := by
  induction text with
  | nil => exact Or.inl ⟨rfl, nofun⟩
  | cons char text inductionHypothesis =>
    rw [afterNewline]
    by_cases newline : char = '\n'
    · rw [if_pos newline]
      exact Or.inr ⟨[], text, rfl, nofun, by rw [newline]; rfl⟩
    · rw [if_neg newline]
      rcases inductionHypothesis with ⟨none, plain⟩ |
        ⟨before, rest, found, plain, rfl⟩
      · exact Or.inl ⟨none, List.not_mem_cons_of_ne_of_not_mem (Ne.symm newline) plain⟩
      · exact Or.inr ⟨char :: before, rest, found,
          List.not_mem_cons_of_ne_of_not_mem (Ne.symm newline) plain, rfl⟩

section Scanning

variable {streamSizes : Stream → Nat} {afterSequence : Nat} {scan : Scan}

/-- The reader when the text is pending, behind a scan. -/
def pendingReader (text : List Char) (scan : Scan) : IndexReader :=
  if maxIndexLineBytes < text.length then
    { pending := [], discarding := true, scan := scan }
  else
    { pending := text, discarding := false, scan := scan }

/-- The reader after a part of the index. -/
def readerAt (streamSizes : Stream → Nat) (afterSequence : Nat) (scan : Scan)
    (front : List Char) : IndexReader :=
  pendingReader (pendingText front)
    ((keptLines front).foldl (visitLine streamSizes afterSequence) scan)

theorem consume_eq {reader : IndexReader} {text : List Char}
    (ascii : ∀ char ∈ pendingText text, char.toNat < 128) :
    reader.consume streamSizes afterSequence text =
      pendingReader (pendingText text)
        ((completeLines text).foldl (visitLine streamSizes afterSequence)
          reader.scan) := by
  unfold IndexReader.consume pendingReader
  dsimp only
  rw [jsLength_of_ascii ascii]

theorem mem_of_mem_pendingText {text : List Char} {char : Char}
    (inside : char ∈ pendingText text) : char ∈ text := by
  rw [← joinRecords_completeLines text]
  exact List.mem_append_right _ inside

/-- One piece of the index keeps the reader in step with the kept lines. -/
theorem read_readerAt {front piece : List Char}
    (ascii : ∀ char ∈ front ++ piece, char.toNat < 128)
    (aligned : front.length % highWaterMark = 0)
    (short : piece.length ≤ highWaterMark) :
    IndexReader.read streamSizes afterSequence
        (readerAt streamSizes afterSequence scan front) piece =
      readerAt streamSizes afterSequence scan (front ++ piece) := by
  have whole := congrArg List.length (joinRecords_completeLines front)
  rw [List.length_append] at whole
  have pendingAscii : ∀ char ∈ pendingText (front ++ piece),
      char.toNat < 128 := fun char inside =>
    ascii char (mem_of_mem_pendingText inside)
  have kept : keptLines (front ++ piece) = keptLines front ++
      ((positioned (joinRecords (completeLines front)).length
        (completeLines (pendingText front ++ piece))).filter
          fun line => decide (¬ Overlong line)).map Prod.snd := by
    unfold keptLines
    rw [completeLines_append, positioned_append, List.filter_append,
      List.map_append, Nat.zero_add]
  unfold readerAt
  rw [kept, List.foldl_append]
  generalize (keptLines front).foldl
    (visitLine streamSizes afterSequence) scan = visited
  rcases afterNewline_cases piece with ⟨none, plain⟩ |
    ⟨before, rest, found, plain, rfl⟩
  · -- the piece continues the pending line
    have noNewline : '\n' ∉ pendingText front ++ piece := by
      rw [List.mem_append, not_or]
      exact ⟨newline_notMem_pendingText front, plain⟩
    have pending : pendingText (front ++ piece) =
        pendingText front ++ piece := by
      rw [pendingText_append, pendingText_of_noNewline noNewline]
    rw [completeLines_of_noNewline noNewline, pending]
    unfold pendingReader IndexReader.read
    by_cases long : maxIndexLineBytes < (pendingText front).length
    · have longer : maxIndexLineBytes <
          (pendingText front ++ piece).length := by
        rw [List.length_append]
        omega
      rw [if_pos long, if_pos longer, none]
      rfl
    · rw [if_neg long]
      dsimp only
      rw [if_neg Bool.false_ne_true, consume_eq, pendingText_of_noNewline
        noNewline, completeLines_of_noNewline noNewline]
      · rfl
      · rw [pendingText_of_noNewline noNewline, ← pending]
        exact pendingAscii
  · -- the pending line ends in the piece
    have noNewline : '\n' ∉ pendingText front ++ before := by
      rw [List.mem_append, not_or]
      exact ⟨newline_notMem_pendingText front, plain⟩
    have lines : completeLines (pendingText front ++ (before ++ '\n' :: rest)) =
        (pendingText front ++ before) :: completeLines rest := by
      unfold completeLines
      rw [← List.append_assoc, splitLines_record_append noNewline]
    have pending : pendingText (front ++ (before ++ '\n' :: rest)) =
        pendingText rest := by
      rw [pendingText_append, ← List.append_assoc,
        pendingText_record_append noNewline]
    have total := congrArg List.length (joinRecords_completeLines rest)
    rw [List.length_append] at total
    rw [List.length_append, List.length_cons] at short
    have later := @filter_positioned
      ((joinRecords (completeLines front)).length +
        (pendingText front ++ before).length + 1) front.length
      (completeLines rest) aligned
      (by rw [List.length_append]; omega)
      (by rw [List.length_append]; omega)
    have first : Overlong ((joinRecords (completeLines front)).length,
        pendingText front ++ before) ↔
          maxIndexLineBytes < (pendingText front).length := by
      unfold Overlong highWaterMark at *
      rw [List.length_append]
      dsimp only
      omega
    rw [lines, pending, positioned]
    rw [pending] at pendingAscii
    unfold IndexReader.read
    by_cases long : maxIndexLineBytes < (pendingText front).length
    · rw [List.filter_cons_of_neg (by
        rw [decide_eq_true_iff, not_not]
        exact first.mpr long), later, map_snd_positioned]
      unfold pendingReader
      rw [if_pos long]
      dsimp only
      rw [if_pos rfl, found]
      dsimp only
      rw [consume_eq pendingAscii]
      rfl
    · rw [List.filter_cons_of_pos (by
        rw [decide_eq_true_iff]
        exact fun tooLong => long (first.mp tooLong)), List.map_cons, later,
        map_snd_positioned]
      unfold pendingReader
      rw [if_neg long]
      dsimp only
      have same : pendingText (pendingText front ++
          (before ++ '\n' :: rest)) = pendingText rest := by
        rw [← pendingText_append, pending]
      rw [if_neg Bool.false_ne_true, consume_eq, same, lines]
      · rfl
      · rw [same]
        exact pendingAscii

theorem readPieces_nil (size fuel : Nat) : readPieces size fuel [] = [] := by
  cases fuel <;> rfl

/-- Reading the pieces of a text goes on where the reader stands. -/
theorem foldl_readPieces {fuel : Nat} {front rest : List Char}
    (enough : rest.length ≤ fuel)
    (ascii : ∀ char ∈ front ++ rest, char.toNat < 128)
    (aligned : front.length % highWaterMark = 0) :
    (readPieces highWaterMark fuel rest).foldl
        (IndexReader.read streamSizes afterSequence)
        (readerAt streamSizes afterSequence scan front) =
      readerAt streamSizes afterSequence scan (front ++ rest) := by
  induction fuel generalizing front rest with
  | zero =>
    rw [List.length_eq_zero_iff.mp (Nat.le_zero.mp enough), List.append_nil]
    rfl
  | succ fuel inductionHypothesis =>
    cases rest with
    | nil => rw [List.append_nil, readPieces_nil, List.foldl_nil]
    | cons char rest =>
      have joined : front ++ (char :: rest).take highWaterMark ++
          (char :: rest).drop highWaterMark = front ++ char :: rest := by
        rw [List.append_assoc, List.take_append_drop]
      have firstAscii : ∀ other ∈
          front ++ (char :: rest).take highWaterMark,
            other.toNat < 128 := fun other inside =>
        ascii other (joined ▸ List.mem_append_left _ inside)
      have pieces : readPieces highWaterMark (fuel + 1) (char :: rest) =
          (char :: rest).take highWaterMark :: readPieces highWaterMark
            fuel ((char :: rest).drop highWaterMark) := rfl
      rw [pieces, List.foldl_cons, read_readerAt firstAscii aligned
        (List.length_take_le _ _)]
      by_cases last : (char :: rest).length ≤ highWaterMark
      · rw [List.drop_of_length_le last, readPieces_nil, List.foldl_nil,
          List.take_of_length_le last]
      · have piece : ((char :: rest).take highWaterMark).length =
            highWaterMark := by
          rw [List.length_take]
          omega
        have some : 0 < highWaterMark := by decide
        rw [inductionHypothesis, joined]
        · rw [List.length_drop]
          omega
        · rw [joined]
          exact ascii
        · rw [List.length_append, piece, Nat.add_mod_right]
          exact aligned

/-- A scan visits the lines it keeps. -/
theorem scanPieces_eq {text : List Char} (previousSequence : Nat)
    (ascii : ∀ char ∈ text, char.toNat < 128) :
    scanPieces streamSizes afterSequence previousSequence
        (createReadStream text) =
      ((keptLines text).foldl (visitLine streamSizes afterSequence)
        { previousSequence := previousSequence, yielded := [] }).yielded := by
  have read := @foldl_readPieces streamSizes afterSequence
    { previousSequence := previousSequence, yielded := [] } text.length []
    text le_rfl ascii rfl
  have start : IndexReader.start previousSequence =
      readerAt streamSizes afterSequence
        { previousSequence := previousSequence, yielded := [] } [] := rfl
  rw [scanPieces, createReadStream, start, read, List.nil_append]
  unfold readerAt pendingReader
  split <;> rfl

end Scanning

/-! ## Records -/

/-- The line of a record of a chunk that is there. -/
def IsRecord (logs : AttemptLogs) (line : List Char) : Prop :=
  ∃ entry, parseIndexRecord line = some entry ∧
    entry.byteEnd ≤ logs.size entry.stream

variable {line : List Char} {entry : ChunkIndexEntry}

theorem object_of_record (record : parseIndexRecord line = some entry) :
    ∃ members, Json.parse line = some (.object members) := by
  unfold parseIndexRecord at record
  simp only [Option.bind_eq_bind, Option.bind_eq_some_iff] at record
  rcases record with ⟨parsed, parse, _, _, sequence, found, _⟩
  unfold safeProperty at found
  simp only [Option.bind_eq_bind, Option.bind_eq_some_iff] at found
  rcases found with ⟨member, property, value, isMember, _⟩
  subst isMember
  rcases Json.object_of_property property with ⟨members, rfl⟩
  exact ⟨members, parse⟩

theorem parseIndexRecord_trim (record : parseIndexRecord line = some entry) :
    parseIndexRecord (trim line) = some entry ∧ trim line ≠ [] := by
  rcases object_of_record record with ⟨members, parse⟩
  rcases Json.parse_blank parse with
    ⟨before, front, after, rfl, blankBefore, blankAfter, again⟩
  rw [Json.trim_object blankBefore blankAfter]
  refine ⟨?_, nofun⟩
  unfold parseIndexRecord at record ⊢
  rw [parse] at record
  rw [again]
  exact record

theorem tailEntry_of_isRecord (record : IsRecord logs line) :
    tailEntry logs.size line = parseIndexRecord line := by
  rcases record with ⟨entry, parse, inRange⟩
  rcases parseIndexRecord_trim parse with ⟨trimmed, some⟩
  unfold tailEntry
  rw [if_neg some, trimmed, parse, Option.filter_some,
    if_pos (decide_eq_true inRange)]

/-- The records of some lines, in increasing order. -/
def Increasing (lines : List (List Char)) : Prop :=
  ((lines.filterMap parseIndexRecord).map
    ChunkIndexEntry.sequence).Pairwise (· < ·)

theorem visitLine_record (record : parseIndexRecord line = some entry)
    (inRange : entry.byteEnd ≤ logs.size entry.stream) {scan : Scan}
    (fresh : scan.previousSequence < entry.sequence) :
    visitLine logs.size 0 scan line =
      { previousSequence := entry.sequence
        yielded := scan.yielded ++ [entry] } := by
  have notBlank : line.all isTrimmed = false := by
    rcases object_of_record record with ⟨members, parse⟩
    rcases Json.parse_object parse with ⟨inner, starts, _⟩
    rw [List.all_eq_false]
    refine ⟨'{', ?_, by decide⟩
    exact (Json.skipWhitespace_suffix line).mem
      (starts ▸ List.mem_cons_self)
  have accepted : ¬ (logs.size entry.stream < entry.byteEnd ∨
      entry.sequence ≤ scan.previousSequence) := by
    omega
  have later : 0 < entry.sequence := by omega
  unfold visitLine
  rw [notBlank, if_neg Bool.false_ne_true, record]
  dsimp only
  rw [if_neg accepted, if_pos later]

/-- A scan over lines of records in increasing order yields all of them. -/
theorem foldl_visitLine_lines (records : ∀ line ∈ lines, IsRecord logs line)
    {scan : Scan} (increasing : (scan.previousSequence :: (lines.filterMap
      parseIndexRecord).map ChunkIndexEntry.sequence).Pairwise (· < ·)) :
    (lines.foldl (visitLine logs.size 0) scan).yielded =
      scan.yielded ++ lines.filterMap parseIndexRecord := by
  induction lines generalizing scan with
  | nil => exact (List.append_nil _).symm
  | cons line lines inductionHypothesis =>
    rcases records line List.mem_cons_self with ⟨entry, record, inRange⟩
    rw [List.filterMap_cons_some record, List.map_cons] at increasing
    have fresh := (List.pairwise_cons.mp increasing).1 _ List.mem_cons_self
    rw [List.foldl_cons, visitLine_record record inRange fresh,
      inductionHypothesis
        (fun other inside => records other (List.mem_cons_of_mem _ inside))
        (List.pairwise_cons.mp increasing).2,
      List.filterMap_cons_some record, List.append_assoc,
      List.singleton_append]

theorem positive_of_record (record : parseIndexRecord line = some entry) :
    0 < entry.sequence := by
  unfold parseIndexRecord at record
  simp only [Option.bind_eq_bind, Option.bind_eq_some_iff] at record
  rcases record with ⟨_, _, _, _, sequence, _, _, _, _, _, entry_⟩
  split at entry_
  · cases entry_
  · rename_i checked
    cases entry_
    dsimp only
    omega

/-- An index all lines of which are records, in increasing order and of chunks
that are there.  Its text is ASCII, so the bytes of a block are the characters
of a block. -/
structure WholeIndex (logs : AttemptLogs) : Prop where
  ascii : ∀ char ∈ logs.chunks, char.toNat < 128
  terminated : pendingText logs.chunks = []
  records : ∀ line ∈ completeLines logs.chunks, IsRecord logs line
  increasing : Increasing (completeLines logs.chunks)

theorem keptLines_sublist (text : List Char) :
    (keptLines text).Sublist (completeLines text) := by
  have part := (List.filter_sublist (l := positioned 0 (completeLines text))
    (p := fun line => decide (¬ Overlong line))).map Prod.snd
  rwa [map_snd_positioned] at part

/-- The scan yields the records of the lines it keeps. -/
theorem WholeIndex.iterChunkIndexEntries_eq (whole : WholeIndex logs) :
    iterChunkIndexEntries logs =
      (keptLines logs.chunks).filterMap parseIndexRecord := by
  have part := keptLines_sublist logs.chunks
  have increasing : ((keptLines logs.chunks).filterMap
      parseIndexRecord |>.map ChunkIndexEntry.sequence).Pairwise (· < ·) :=
    List.Pairwise.sublist ((part.filterMap _).map _) whole.increasing
  have scanned : iterChunkIndexEntries logs =
      scanPieces logs.size 0 0 (createReadStream logs.chunks) := rfl
  rw [scanned, scanPieces_eq 0 whole.ascii, foldl_visitLine_lines]
  · rfl
  · exact fun line inside => whole.records line (part.subset inside)
  · refine List.pairwise_cons.mpr ⟨?_, increasing⟩
    intro sequence inside
    rcases List.mem_map.mp inside with ⟨entry, found, rfl⟩
    rcases List.mem_filterMap.mp found with ⟨line, _, record⟩
    exact positive_of_record record

/-- The reader finds the last records of all lines. -/
theorem WholeIndex.readChunkIndexTail_eq (whole : WholeIndex logs)
    {maxEntries : Nat} (some : 1 ≤ maxEntries)
    (safe : maxEntries ≤ Json.maxSafeInteger) :
    readChunkIndexTail logs maxEntries = lastOf maxEntries
      ((completeLines logs.chunks).filterMap parseIndexRecord) := by
  have last : tailEntry logs.size (pendingText logs.chunks) = none := by
    rw [whole.terminated]
    rfl
  have same : (completeLines logs.chunks).filterMap (tailEntry logs.size) =
      (completeLines logs.chunks).filterMap parseIndexRecord :=
    List.filterMap_congr fun line inside =>
      tailEntry_of_isRecord (whole.records line inside)
  rw [Logs.readChunkIndexTail_eq some safe, splitText, List.filterMap_append,
    List.filterMap_cons_none last, List.filterMap_nil, List.append_nil, same]

/-! ## Where the two readers agree -/

theorem map_lastOf {Item Result : Type} (result : Item → Result) (count : Nat)
    (items : List Item) :
    (lastOf count items).map result = lastOf count (items.map result) := by
  unfold lastOf
  rw [List.map_drop, List.length_map]

/-- The last items survive a filter when they pass it. -/
theorem lastOf_filter_iff {Item Result : Type} {result : Item → Result}
    {good : Item → Prop} [DecidablePred good] {items : List Item}
    (distinct : (items.map result).Nodup) (count : Nat) :
    lastOf count (items.map result) =
        lastOf count ((items.filter fun item => decide (good item)).map
          result) ↔
      ∀ item ∈ lastOf count items, good item := by
  constructor
  · intro same item inside
    have found : result item ∈ lastOf count
        ((items.filter fun item => decide (good item)).map result) := by
      rw [← same, ← map_lastOf]
      exact List.mem_map_of_mem inside
    rcases List.mem_map.mp ((List.drop_suffix _ _).mem found) with
      ⟨other, kept, alike⟩
    rcases List.mem_filter.mp kept with ⟨from_, isGood⟩
    have equal := List.inj_on_of_nodup_map distinct from_
      ((List.drop_suffix _ _).mem inside) alike
    exact equal ▸ of_decide_eq_true isGood
  · intro allGood
    have split := List.take_append_drop (items.length - count) items
    have kept : items.filter (fun item => decide (good item)) =
        (items.take (items.length - count)).filter
          (fun item => decide (good item)) ++ lastOf count items := by
      conv_lhs => rw [← split]
      rw [List.filter_append]
      congr 1
      exact List.filter_eq_self.mpr fun item inside =>
        decide_eq_true (allGood item inside)
    rw [← map_lastOf, ← map_lastOf, kept]
    congr 1
    by_cases all : items.length ≤ count
    · have none : items.length - count = 0 := by omega
      rw [none, List.take_zero, List.filter_nil, List.nil_append]
      unfold lastOf
      rw [none, List.drop_zero, none, List.drop_zero]
    · have length : (lastOf count items).length = count := by
        unfold lastOf
        rw [List.length_drop]
        omega
      have whole : ∀ front : List Item,
          lastOf count (front ++ lastOf count items) =
            lastOf count items := by
        intro front
        conv_lhs => rw [lastOf, List.length_append, length,
          Nat.add_sub_cancel]
        exact List.drop_left
      exact (whole _).symm

/-- None of the last lines is dropped by the scan.  A number of entries beyond
the safe integers finds nothing. -/
def ReadAlike (logs : AttemptLogs) (maxEntries : Nat) : Prop :=
  if maxEntries ≤ Json.maxSafeInteger then
    ∀ line ∈ lastOf maxEntries (positioned 0 (completeLines logs.chunks)),
      ¬ Overlong line
  else
    ∀ line ∈ positioned 0 (completeLines logs.chunks), Overlong line

/-- The record of a line of records. -/
def recordOf (line : Nat × List Char) : ChunkIndexEntry :=
  (parseIndexRecord line.2).getD
    { sequence := 0, stream := .stdout, byteOffset := 0, byteLength := 0 }

theorem filterMap_record {lines : List (Nat × List Char)}
    (records : ∀ line ∈ lines, IsRecord logs line.2) :
    (lines.map Prod.snd).filterMap parseIndexRecord = lines.map recordOf := by
  rw [List.filterMap_map, ← List.filterMap_eq_map]
  refine List.filterMap_congr fun line inside => ?_
  rcases records line inside with ⟨entry, record, _⟩
  rw [Function.comp_apply, Function.comp_apply, recordOf, record]
  rfl

/-- The line of an entry behind spaces. -/
def paddedLine (count : Nat) (entry : ChunkIndexEntry) : List Char :=
  List.replicate count ' ' ++ entry.stringify

/-- A directory whose index has one such line. -/
def paddedLogs (count : Nat) (entry : ChunkIndexEntry) : AttemptLogs :=
  { ensureAttemptLogs with chunks := paddedLine count entry ++ ['\n'] }

theorem parse_paddedLine (count : Nat) (entry : ChunkIndexEntry) :
    Json.parse (paddedLine count entry) = Json.parse entry.stringify := by
  have blank : ∀ char ∈ List.replicate count ' ',
      Json.isWhitespace char = true := by
    intro char inside
    rw [List.eq_of_mem_replicate inside]
    rfl
  have long : ∃ fuel, (paddedLine count entry).length = fuel + 5 := by
    refine ⟨(paddedLine count entry).length - 5, ?_⟩
    have some : 8 ≤ entry.body.length := by
      rw [ChunkIndexEntry.body]
      simp [sequenceKey]
    rw [paddedLine, List.length_append, entry.stringify_eq, List.length_cons,
      List.length_cons]
    omega
  rcases long with ⟨fuel, length⟩
  rw [entry.parse_stringify, Json.parse, length]
  rw [paddedLine, Json.skipWhitespace_blank blank, entry.stringify_eq,
    Json.skipWhitespace_cons rfl,
    Json.parseValue_members (fuel + 5) (Json.skipWhitespace_cons rfl _),
    entry.parseMembers_body]
  rfl

theorem newline_notMem_paddedLine (count : Nat) (entry : ChunkIndexEntry) :
    '\n' ∉ paddedLine count entry := by
  rw [paddedLine, List.mem_append, not_or]
  refine ⟨fun inside => ?_, entry.newline_notMem_stringify⟩
  exact absurd (List.eq_of_mem_replicate inside) (by decide)

theorem splitLines_padded (count : Nat) (entry : ChunkIndexEntry) :
    splitLines (paddedLogs count entry).chunks =
      ([paddedLine count entry], []) := by
  exact splitLines_record_append (newline_notMem_paddedLine count entry) []

theorem wholeIndex_padded (count : Nat) (safe : entry.Safe)
    (empty : entry.byteEnd = 0)
    (ascii : ∀ char ∈ entry.stringify, char.toNat < 128) :
    WholeIndex (paddedLogs count entry) := by
  have lines : completeLines (paddedLogs count entry).chunks =
      [paddedLine count entry] := congrArg Prod.fst (splitLines_padded _ _)
  have record : parseIndexRecord (paddedLine count entry) = some entry := by
    rw [← ChunkIndexEntry.parseIndexRecord_stringify safe]
    unfold parseIndexRecord
    rw [parse_paddedLine]
  constructor
  · intro char inside
    rcases List.mem_append.mp inside with line | newline
    · rcases List.mem_append.mp line with blank | part
      · rw [List.eq_of_mem_replicate blank]
        decide
      · exact ascii char part
    · rw [List.mem_singleton.mp newline]
      decide
  · exact congrArg Prod.snd (splitLines_padded _ _)
  · intro line inside
    rw [lines] at inside
    rw [List.mem_singleton.mp inside]
    refine ⟨entry, record, ?_⟩
    rw [empty]
    exact Nat.zero_le _
  · rw [Increasing, lines, List.filterMap_cons_some record]
    exact List.pairwise_singleton _ _

def emptyEntry : ChunkIndexEntry :=
  { sequence := 1, stream := .stdout, byteOffset := 0, byteLength := 0 }

theorem emptyEntry_safe : emptyEntry.Safe := by
  constructor <;> decide

theorem ascii_emptyEntry : ∀ char ∈ emptyEntry.stringify, char.toNat < 128 :=
  List.all_iff_forall_prop.mp (by decide +kernel)

theorem finds_dropped {count : Nat} (many : 1114112 ≤ count) :
    WholeIndex (paddedLogs count emptyEntry) ∧
      readChunkIndexTail (paddedLogs count emptyEntry) 1 = [emptyEntry] ∧
      iterChunkIndexEntries (paddedLogs count emptyEntry) = [] := by
  have whole := wholeIndex_padded count emptyEntry_safe rfl ascii_emptyEntry
  have lines : completeLines (paddedLogs count emptyEntry).chunks =
      [paddedLine count emptyEntry] :=
    congrArg Prod.fst (splitLines_padded _ _)
  have record : parseIndexRecord (paddedLine count emptyEntry) =
      some emptyEntry := by
    rw [← ChunkIndexEntry.parseIndexRecord_stringify emptyEntry_safe]
    unfold parseIndexRecord
    rw [parse_paddedLine]
  have long : Overlong (0, paddedLine count emptyEntry) := by
    have length : (paddedLine count emptyEntry).length =
        count + emptyEntry.stringify.length := by
      rw [paddedLine, List.length_append, List.length_replicate]
    unfold Overlong maxIndexLineBytes highWaterMark
    dsimp only
    omega
  refine ⟨whole, ?_, ?_⟩
  · rw [whole.readChunkIndexTail_eq le_rfl (by decide), lines,
      List.filterMap_cons_some record]
    rfl
  · rw [whole.iterChunkIndexEntries_eq, keptLines, lines, positioned,
      List.filter_cons_of_neg (by
        rw [decide_eq_true_iff, not_not]
        exact long)]
    rfl

end Rbo.Executor.Logs
