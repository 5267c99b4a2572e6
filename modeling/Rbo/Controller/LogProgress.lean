import Mathlib.Data.List.Nodup
import Rbo.Executor.LogsDurable
import Rbo.Controller.LogPagination

/-!
# Pages make progress

The payload of a `log_chunk` frame is a string, so a log that was received
from an agent holds whole characters in every entry.  On such a log a page
that reports more has moved a position over at least one byte, unless the
entries it may visit are all empty.  The condition that excludes this bounds
the number of empty entries that can pile up before an entry.
-/

namespace Rbo.Controller.LogPagination

open Rbo.Foundation
open Rbo.Executor.Logs
open Rbo.Executor.LogPresentation

/-! ## Entries of whole characters -/

/-- The bytes of a text, as `Buffer.from(text, 'utf8')` has them. -/
def encodeText (text : List Char) : List UInt8 :=
  text.flatMap String.utf8EncodeChar

/-- The width that `utf8ContinuationBytesNeeded` takes from a lead byte. -/
def leadWidth (lead : UInt8) : Nat :=
  if lead < 0x80 then 1
  else if lead ≤ 0xDF then 2
  else if lead ≤ 0xEF then 3
  else if lead ≤ 0xF4 then 4
  else 1

/-- Every lead byte is followed by as many bytes as it announces. -/
def WholeCharacters : List UInt8 → Prop
  | [] => True
  | byte :: rest =>
    (0xC0 ≤ byte → leadWidth byte ≤ rest.length + 1) ∧ WholeCharacters rest

theorem WholeCharacters.of_append {left right : List UInt8}
    (whole : WholeCharacters (left ++ right)) : WholeCharacters right := by
  induction left with
  | nil => exact whole
  | cons byte left induction => exact induction whole.2

/-- A byte that is no lead byte asks for nothing. -/
theorem wholeCharacters_low {byte : UInt8} {rest : List UInt8}
    (low : byte.toNat < 0xC0) (whole : WholeCharacters rest) :
    WholeCharacters (byte :: rest) := by
  refine ⟨fun high => absurd high ?_, whole⟩
  rw [UInt8.le_iff_toNat_le]
  exact Nat.not_le.mpr low

theorem wholeCharacters_lead {byte : UInt8} {rest : List UInt8}
    (width : leadWidth byte ≤ rest.length + 1)
    (whole : WholeCharacters rest) : WholeCharacters (byte :: rest) :=
  ⟨fun _ => width, whole⟩

theorem leadWidth_le_four (byte : UInt8) : leadWidth byte ≤ 4 := by
  rw [leadWidth]
  split
  · decide
  · split
    · decide
    · split
      · decide
      · split <;> decide

theorem leadWidth_le_three {byte : UInt8} (low : byte.toNat ≤ 0xEF) :
    leadWidth byte ≤ 3 := by
  have within : byte ≤ 0xEF := UInt8.le_iff_toNat_le.mpr low
  rw [leadWidth, if_pos within]
  split
  · decide
  · split <;> decide

theorem leadWidth_le_two {byte : UInt8} (low : byte.toNat ≤ 0xDF) :
    leadWidth byte ≤ 2 := by
  have within : byte ≤ 0xDF := UInt8.le_iff_toNat_le.mpr low
  rw [leadWidth, if_pos within]
  split <;> decide

theorem wholeCharacters_encodeChar (char : Char) {rest : List UInt8}
    (whole : WholeCharacters rest) :
    WholeCharacters (String.utf8EncodeChar char ++ rest) := by
  have low (value : Nat) (less : value < 0xC0) :
      (UInt8.ofNat value).toNat < 0xC0 := by
    rw [UInt8.toNat_ofNat']
    omega
  have continuation (value : Nat) :
      (UInt8.ofNat (value % 0x40 + 0x80)).toNat < 0xC0 :=
    low _ (by omega)
  rw [String.utf8EncodeChar]
  split
  · exact wholeCharacters_low (low _ (by omega)) whole
  · split
    · refine wholeCharacters_lead ?_
        (wholeCharacters_low (continuation _) whole)
      refine Nat.le_trans (leadWidth_le_two ?_) ?_
      · rw [UInt8.toNat_ofNat']
        omega
      · simp
    · split
      · refine wholeCharacters_lead ?_
          (wholeCharacters_low (continuation _)
            (wholeCharacters_low (continuation _) whole))
        refine Nat.le_trans (leadWidth_le_three ?_) ?_
        · rw [UInt8.toNat_ofNat']
          omega
        · simp
      · refine wholeCharacters_lead ?_
          (wholeCharacters_low (continuation _)
            (wholeCharacters_low (continuation _)
              (wholeCharacters_low (continuation _) whole)))
        refine Nat.le_trans (leadWidth_le_four _) ?_
        simp

theorem wholeCharacters_encodeText (text : List Char) :
    WholeCharacters (encodeText text) := by
  induction text with
  | nil => exact True.intro
  | cons char text induction =>
    rw [encodeText, List.flatMap_cons]
    exact wholeCharacters_encodeChar char induction

namespace WholeCharacters

variable {byte : UInt8} {bytes rest : List UInt8}

theorem drop (whole : WholeCharacters bytes) (count : Nat) :
    WholeCharacters (bytes.drop count) := by
  rw [← List.take_append_drop count bytes] at whole
  exact whole.of_append

/-- The first character is there as a whole. -/
theorem utf8Width_le_length (whole : WholeCharacters (byte :: rest)) :
    utf8Width byte ≤ rest.length + 1 := by
  by_cases high : 0xC0 ≤ byte
  · refine Nat.le_trans ?_ (whole.1 high)
    rw [utf8Width, leadWidth]
    simp only [UInt8.lt_iff_toNat_lt, UInt8.le_iff_toNat_le,
      UInt8.reduceToNat] at high ⊢
    split_ifs <;> omega
  · rw [utf8Width]
    simp only [UInt8.lt_iff_toNat_lt, UInt8.le_iff_toNat_le,
      UInt8.reduceToNat] at high ⊢
    split_ifs <;> omega

/-- No character at the end lacks a byte. -/
theorem utf8ContinuationBytesNeeded_eq (whole : WholeCharacters bytes) :
    utf8ContinuationBytesNeeded bytes = 0 := by
  rw [utf8ContinuationBytesNeeded]
  dsimp only
  set isContinuation : UInt8 → Bool :=
    fun byte => 0x80 ≤ byte ∧ byte ≤ 0xBF with continuationEq
  have apart :=
    @List.takeWhile_append_dropWhile _ isContinuation bytes.reverse
  have dropped :
      bytes.reverse.drop (bytes.reverse.takeWhile isContinuation).length =
        bytes.reverse.dropWhile isContinuation := by
    nth_rewrite 2 [← apart]
    exact List.drop_left
  rw [dropped]
  cases found : bytes.reverse.dropWhile isContinuation with
  | nil => rfl
  | cons lead before =>
    rw [found] at apart
    have bytesEq := congrArg List.reverse apart
    rw [List.reverse_reverse, List.reverse_append, List.reverse_cons,
      List.append_assoc] at bytesEq
    rw [← bytesEq] at whole
    have announced := whole.of_append
    have notContinuation : isContinuation lead = false := by
      have head :=
        List.head_dropWhile_not isContinuation
          (l := bytes.reverse) (by rw [found]; exact List.cons_ne_nil _ _)
      simpa only [found, List.head_cons] using head
    dsimp only
    rw [if_neg]
    rintro ⟨multi, lacking⟩
    by_cases high : 0xC0 ≤ lead
    · have width := announced.1 high
      change leadWidth lead ≤
        (bytes.reverse.takeWhile isContinuation).reverse.length + 1
        at width
      rw [List.length_reverse] at width
      exact absurd lacking (Nat.not_lt.mpr width)
    · rw [continuationEq, decide_eq_false_iff_not] at notContinuation
      simp only [UInt8.lt_iff_toNat_lt, UInt8.le_iff_toNat_le,
        UInt8.reduceToNat] at high notContinuation multi
      split_ifs at multi <;> omega

/-- The first character of a capped read is there as a whole. -/
theorem utf8Width_le_take (whole : WholeCharacters bytes) {start : Nat}
    (read : (bytes.drop start).take indexReadCap = byte :: rest) :
    utf8Width byte ≤ [byte :: rest].flatten.length := by
  rw [List.flatten_singleton, ← read]
  cases dropped : bytes.drop start with
  | nil =>
    rw [dropped, List.take_nil] at read
    cases read
  | cons first more =>
    rw [dropped, indexReadCap, List.take_succ_cons,
      List.cons.injEq] at read
    have width := utf8Width_le byte
    have enough := whole.drop start
    rw [dropped, read.1] at enough
    have available := enough.utf8Width_le_length
    rw [List.length_take, List.length_cons, indexReadCap]
    omega

end WholeCharacters

/-! ## Reading a stored chunk -/

variable {logs : AttemptLogs}

/-- A read of a stored chunk returns its bytes from the offset on. -/
theorem readIndexedRange_stored {chunk : Chunk} (stored : chunk.Stored logs)
    (offset : Nat) :
    readIndexedRange logs chunk.entry offset =
      some ((chunk.bytes.drop offset).take indexReadCap) := by
  have length := stored.length_eq
  rw [readIndexedRange]
  split
  · rename_i past
    rw [List.drop_eq_nil_of_le (by omega), List.take_nil]
  · rename_i inside
    rw [Chunk.Stored, readIndexedBytes, if_neg (by omega)] at stored
    split at stored
    · cases stored
    · rename_i within
      rw [Option.some.injEq] at stored
      rw [ChunkIndexEntry.byteEnd] at within
      dsimp only
      rw [if_neg (by omega), ← stored, List.drop_take, List.drop_drop,
        List.take_take, Nat.min_comm]

/-! ## Unread bytes -/

/-- The position of a stream, the start when it has none. -/
def place (positions : PerStream (Option StreamPosition))
    (stream : Stream) : StreamPosition :=
  (positions.get stream).getD { seq := 0, off := 0 }

/-- How many bytes of an entry lie at or after a position. -/
def StreamPosition.unread (position : StreamPosition)
    (entry : ChunkIndexEntry) : Nat :=
  if entry.sequence < position.seq then 0
  else if entry.sequence = position.seq then
    entry.byteLength - position.off
  else entry.byteLength

/-- The bytes of the entries that the positions leave unread. -/
def unreadBytes (entries : List ChunkIndexEntry)
    (positions : PerStream (Option StreamPosition)) : Nat :=
  (entries.map fun entry =>
    (place positions entry.stream).unread entry).sum

/-- The order of positions. -/
def StreamPosition.upTo (position target : StreamPosition) : Prop :=
  position.seq < target.seq ∨
    (position.seq = target.seq ∧ position.off ≤ target.off)

theorem StreamPosition.upTo_refl (position : StreamPosition) :
    position.upTo position :=
  Or.inr ⟨rfl, Nat.le_refl _⟩

theorem StreamPosition.upTo.trans {first second third : StreamPosition}
    (left : first.upTo second) (right : second.upTo third) :
    first.upTo third := by
  rw [StreamPosition.upTo] at left right ⊢
  omega

variable {position target : StreamPosition}

theorem StreamPosition.upTo.unread_le (upTo : position.upTo target)
    (entry : ChunkIndexEntry) :
    target.unread entry ≤ position.unread entry := by
  rw [StreamPosition.upTo] at upTo
  rw [StreamPosition.unread, StreamPosition.unread]
  split_ifs <;> omega

/-- Positions that only move on leave no more bytes unread. -/
theorem unreadBytes_le {before after : PerStream (Option StreamPosition)}
    (upTo : ∀ stream, (place before stream).upTo (place after stream))
    (entries : List ChunkIndexEntry) :
    unreadBytes entries after ≤ unreadBytes entries before := by
  induction entries with
  | nil => exact Nat.le_refl 0
  | cons entry entries induction =>
    rw [unreadBytes, unreadBytes, List.map_cons, List.map_cons,
      List.sum_cons, List.sum_cons]
    exact Nat.add_le_add ((upTo entry.stream).unread_le entry) induction

variable {entries : List ChunkIndexEntry} {entry : ChunkIndexEntry}

/-- Fewer unread bytes of one entry are fewer unread bytes. -/
theorem unreadBytes_lt {before after : PerStream (Option StreamPosition)}
    (upTo : ∀ stream, (place before stream).upTo (place after stream))
    (member : entry ∈ entries) (less :
      (place after entry.stream).unread entry <
        (place before entry.stream).unread entry) :
    unreadBytes entries after < unreadBytes entries before := by
  rcases List.append_of_mem member with ⟨left, right, rfl⟩
  have leftLe := unreadBytes_le upTo left
  have rightLe := unreadBytes_le upTo right
  rw [unreadBytes] at leftLe rightLe ⊢
  rw [unreadBytes] at leftLe rightLe ⊢
  rw [List.map_append, List.map_append, List.sum_append, List.sum_append,
    List.map_cons, List.map_cons, List.sum_cons, List.sum_cons]
  omega

/-! ## One visit -/

/--
A position that a visit moves to: after the entry, or inside it at or after
an offset.
-/
def MovedTo (entry : ChunkIndexEntry) (start : Nat)
    (target : StreamPosition) : Prop :=
  target = { seq := entry.sequence + 1, off := 0 } ∨
    (target.seq = entry.sequence ∧ start ≤ target.off ∧
      target.off < entry.byteLength)

/-- The offset a position gives into an entry. -/
def StreamPosition.startOffset (position : StreamPosition)
    (entry : ChunkIndexEntry) : Nat :=
  if entry.sequence = position.seq then position.off else 0

/-- The page with the position of a stream written down. -/
def PageState.placed (page : PageState) (stream : Stream) : PageState :=
  { page with
    positions :=
      page.positions.set stream (some (place page.positions stream)) }

/-- What a visit of an entry can do when its characters are whole. -/
inductive VisitSpec (page : PageState) (maxBytes : Nat)
    (entry : ChunkIndexEntry) : Visit → Prop where
  | full (spent : maxBytes - page.returned < 4 ∨ page.remainingScan < 1) :
      VisitSpec page maxBytes entry (.leave { page with truncated := true })
  | skip
      (skipped :
        page.blocked.get entry.stream = true ∨
          (place page.positions entry.stream).passed entry ∨
          entry.byteLength = 0) :
      VisitSpec page maxBytes entry (.goOn (page.placed entry.stream))
  | move {visit : Visit} (target : StreamPosition)
      (ahead : ¬ (place page.positions entry.stream).passed entry)
      (nonempty : 0 < entry.byteLength)
      (positions :
        visit.page.positions =
          page.positions.set entry.stream (some target))
      (moved :
        MovedTo entry
          ((place page.positions entry.stream).startOffset entry) target)
      (strictly : 5 ≤ page.remainingScan →
        MovedTo entry
          ((place page.positions entry.stream).startOffset entry + 1)
          target) :
      VisitSpec page maxBytes entry visit

theorem MovedTo.of_le {start less : Nat} (moved : MovedTo entry start target)
    (le : less ≤ start) : MovedTo entry less target := by
  rcases moved with moved | ⟨seq, off, inside⟩
  · exact Or.inl moved
  · exact Or.inr ⟨seq, Nat.le_trans le off, inside⟩

theorem PerStream.get_set {α : Type} (pair : PerStream α)
    (stream other : Stream) (value : α) :
    (pair.set stream value).get other =
      if other = stream then value else pair.get other := by
  cases stream <;> cases other <;> rfl

theorem PerStream.set_set {α : Type} (pair : PerStream α)
    (stream : Stream) (first second : α) :
    (pair.set stream first).set stream second = pair.set stream second := by
  cases stream <;> rfl

section Visit

variable {logs : AttemptLogs} {chunk : Chunk} {page : PageState}
  {cursorSeq maxBytes : Nat}

/-- Settling an entry without a lookahead moves its position. -/
theorem settle_positions (entry : ChunkIndexEntry)
    {start : Nat} {bytes : List UInt8} {rangeCapped : Bool} {needed : Nat}
    {result : PresentLogResult}
    (inside : start + bytes.length ≤ entry.byteLength)
    (capped :
      rangeCapped = decide (bytes.length < entry.byteLength - start))
    (bounded : result.consumedRawBytes ≤ bytes.length)
    (truncated :
      result.truncated = true → result.consumedRawBytes < bytes.length)
    (nonempty : 0 < bytes.length) :
    ∃ target,
      (page.settle entry start bytes rangeCapped needed result
          none).page.positions =
        page.positions.set entry.stream (some target) ∧
      MovedTo entry (start + min 1 result.consumedRawBytes) target := by
  unfold PageState.settle
  dsimp only
  split
  · rename_i partly
    have less : result.consumedRawBytes < bytes.length := by
      rcases partly with ⟨less, _⟩ | cut
      · exact less
      · exact truncated cut
    refine ⟨⟨entry.sequence, start + result.consumedRawBytes⟩, ?_,
      Or.inr ⟨rfl, ?_, ?_⟩⟩
    · split <;> rfl
    · dsimp only
      omega
    · dsimp only
      omega
  · rename_i whole
    split
    · rename_i short
      rw [capped, decide_eq_true_eq] at short
      refine ⟨⟨entry.sequence, start + bytes.length⟩, rfl,
        Or.inr ⟨rfl, ?_, ?_⟩⟩
      · dsimp only
        omega
      · dsimp only
        omega
    · exact ⟨⟨entry.sequence + 1, 0⟩, rfl, Or.inl rfl⟩

/-- Without a character to complete there is no lookahead. -/
theorem present_plain (entry : ChunkIndexEntry)
    (rest : List ChunkIndexEntry) (bytes : List UInt8)
    {rangeCapped : Bool} {needed : Nat} (plain : PresentLogResult)
    (complete : rangeCapped = false → needed = 0) :
    page.present logs cursorSeq maxBytes entry rest bytes rangeCapped needed
        plain =
      { result := plain, next := none, page := page } := by
  rw [PageState.present]
  dsimp only
  rw [if_neg]
  rintro ⟨lacking, _, _, uncapped⟩
  rw [complete uncapped] at lacking
  exact Nat.lt_irrefl 0 lacking

/-- An entry that is not passed is read from inside it, or is empty. -/
theorem startOffset_le {position : StreamPosition} {entry : ChunkIndexEntry}
    (ahead : ¬ position.passed entry) :
    position.startOffset entry = 0 ∨
      position.startOffset entry < entry.byteLength := by
  rw [StreamPosition.passed] at ahead
  rw [StreamPosition.startOffset]
  split
  · omega
  · exact Or.inl rfl

/-- A visit of an entry of whole characters. -/
theorem visit_spec (stored : chunk.Stored logs)
    (whole : WholeCharacters chunk.bytes) (rest : List ChunkIndexEntry) :
    ∃ visit,
      page.visit logs cursorSeq maxBytes chunk.entry rest = some visit ∧
      VisitSpec page maxBytes chunk.entry visit := by
  have length := stored.length_eq
  rw [PageState.visit]
  split
  · rename_i spent
    exact ⟨_, rfl, .full spent⟩
  · rename_i budget
    dsimp only
    split
    · rename_i blocked
      exact ⟨_, rfl, .skip (Or.inl blocked)⟩
    · split
      · rename_i passed
        exact ⟨_, rfl, .skip (Or.inr (Or.inl passed))⟩
      · rename_i ahead
        change ¬ (place page.positions chunk.entry.stream).passed
          chunk.entry at ahead
        have start := startOffset_le ahead
        set position := place page.positions chunk.entry.stream
          with positionEq
        have offset :
            (if chunk.entry.sequence =
                ((page.positions.get chunk.entry.stream).getD
                  { seq := 0, off := 0 }).seq then
              ((page.positions.get chunk.entry.stream).getD
                { seq := 0, off := 0 }).off
            else 0) = position.startOffset chunk.entry := rfl
        rw [offset, readIndexedRange_stored stored]
        cases read :
            (chunk.bytes.drop (position.startOffset chunk.entry)).take
              indexReadCap with
        | nil =>
          refine ⟨_, rfl, .skip (Or.inr (Or.inr ?_))⟩
          have empty := congrArg List.length read
          rw [List.length_take, List.length_drop, List.length_nil,
            indexReadCap] at empty
          omega
        | cons byte more =>
          have size := congrArg List.length read
          rw [List.length_take, List.length_drop] at size
          have result :=
            presentLogChunks_one (byte :: more)
              (page.states.get chunk.entry.stream)
              (maxBytes - page.returned) page.remainingScan
          have inside :
              position.startOffset chunk.entry + (byte :: more).length ≤
                chunk.entry.byteLength := by
            rw [← size]
            omega
          have enough : 4 ≤ maxBytes - page.returned := by
            omega
          refine ⟨_, rfl, ?_⟩
          rw [present_plain]
          · rcases settle_positions chunk.entry inside rfl result.1
              result.2 (Nat.succ_pos _) with ⟨target, positions, moved⟩
            have nonempty : 0 < chunk.entry.byteLength :=
              Nat.lt_of_lt_of_le (Nat.succ_pos _)
                (Nat.le_trans (Nat.le_add_left _ _) inside)
            refine .move target ahead nonempty (positions.trans ?_) ?_ ?_
            · exact PerStream.set_set _ _ _ _
            · exact moved.of_le (Nat.le_add_right _ _)
            · intro scan
              refine moved.of_le (Nat.add_le_add_left ?_ _)
              have consumed :=
                presentLogChunks_consumes
                  (page.states.get chunk.entry.stream)
                  (whole.utf8Width_le_take read) enough scan
              omega
          · intro uncapped
            rw [decide_eq_false_iff_not, ← size] at uncapped
            change ¬ _ < chunk.entry.byteLength -
              position.startOffset chunk.entry at uncapped
            split
            · rfl
            · rw [← read, List.take_of_length_le]
              · exact (whole.drop _).utf8ContinuationBytesNeeded_eq
              · rw [List.length_drop]
                omega

end Visit

/-! ## The loop over the entries -/

/-- What the visits of some entries do to the positions. -/
structure Visited (page final : PageState)
    (visited : List ChunkIndexEntry) : Prop where
  kept : ∀ stream, (page.positions.get stream).isSome →
    (final.positions.get stream).isSome
  placed : ∀ entry ∈ visited, (final.positions.get entry.stream).isSome
  origin : ∀ stream, ∀ position ∈ final.positions.get stream,
    position ∈ page.positions.get stream ∨
      position = { seq := 0, off := 0 } ∨
      ∃ entry ∈ visited, entry.stream = stream ∧ MovedTo entry 0 position
  upTo : ∀ stream,
    (place page.positions stream).upTo (place final.positions stream)

namespace Visited

theorem refl {page final : PageState}
    (positions : final.positions = page.positions) :
    Visited page final [] where
  kept stream := by
    rw [positions]
    exact id
  placed := by simp
  origin stream position member := by
    rw [positions] at member
    exact Or.inl member
  upTo stream := by
    rw [positions]
    exact StreamPosition.upTo_refl _

theorem trans {page middle final : PageState}
    {first second : List ChunkIndexEntry} (left : Visited page middle first)
    (right : Visited middle final second) :
    Visited page final (first ++ second) where
  kept stream some := right.kept stream (left.kept stream some)
  placed entry member := by
    rcases List.mem_append.mp member with member | member
    · exact right.kept _ (left.placed entry member)
    · exact right.placed entry member
  origin stream position member := by
    rcases right.origin stream position member with
      before | start | ⟨entry, visited, same, moved⟩
    · rcases left.origin stream position before with
        before | start | ⟨entry, visited, same, moved⟩
      · exact Or.inl before
      · exact Or.inr (Or.inl start)
      · exact Or.inr (Or.inr
          ⟨entry, List.mem_append_left _ visited, same, moved⟩)
    · exact Or.inr (Or.inl start)
    · exact Or.inr (Or.inr
        ⟨entry, List.mem_append_right _ visited, same, moved⟩)
  upTo stream := (left.upTo stream).trans (right.upTo stream)

end Visited

theorem place_set (positions : PerStream (Option StreamPosition))
    (stream other : Stream) (position : StreamPosition) :
    place (positions.set stream (some position)) other =
      if other = stream then position else place positions other := by
  rw [place, PerStream.get_set]
  split
  · rfl
  · rfl

/-- A move goes forward. -/
theorem MovedTo.upTo (ahead : ¬ position.passed entry)
    (moved : MovedTo entry (position.startOffset entry) target) :
    position.upTo target := by
  rw [StreamPosition.passed] at ahead
  rw [MovedTo, StreamPosition.startOffset] at moved
  rw [StreamPosition.upTo]
  rcases moved with rfl | ⟨seq, off, inside⟩
  · dsimp only
    omega
  · split at off <;> omega

theorem Visited.of_set {page final : PageState} (positions :
      final.positions = page.positions.set entry.stream (some target))
    (upTo : (place page.positions entry.stream).upTo target) (origin :
      target ∈ page.positions.get entry.stream ∨
        target = { seq := 0, off := 0 } ∨ MovedTo entry 0 target) :
    Visited page final [entry] where
  kept stream some := by
    rw [positions, PerStream.get_set]
    split
    · rfl
    · exact some
  placed other member := by
    rw [List.mem_singleton.mp member, positions, PerStream.get_set,
      if_pos rfl]
    rfl
  origin stream position member := by
    rw [positions, PerStream.get_set] at member
    split at member
    · rename_i same
      rw [Option.mem_some_iff.mp member] at origin
      rw [same]
      rcases origin with before | start | moved
      · exact Or.inl before
      · exact Or.inr (Or.inl start)
      · exact Or.inr (Or.inr
          ⟨entry, List.mem_singleton_self _, rfl, moved⟩)
    · exact Or.inl member
  upTo stream := by
    rw [positions, place_set]
    split
    · rename_i same
      rw [same]
      exact upTo
    · exact StreamPosition.upTo_refl _

variable {maxBytes : Nat}

/-- A visit within the budget is a visited entry. -/
theorem VisitSpec.visited {page : PageState} {visit : Visit}
    (spec : VisitSpec page maxBytes entry visit)
    (budget : ¬ (maxBytes - page.returned < 4 ∨ page.remainingScan < 1)) :
    Visited page visit.page [entry] := by
  cases spec with
  | full spent => exact absurd spent budget
  | skip skipped =>
    refine Visited.of_set rfl (StreamPosition.upTo_refl _) ?_
    rw [place]
    cases page.positions.get entry.stream with
    | none => exact Or.inr (Or.inl rfl)
    | some position => exact Or.inl rfl
  | move target ahead nonempty positions moved strictly =>
    exact Visited.of_set positions (moved.upTo ahead)
      (Or.inr (Or.inr (moved.of_le (Nat.zero_le _))))

/-- The entry reads back whole characters. -/
def WholeEntry (logs : AttemptLogs) (entry : ChunkIndexEntry) : Prop :=
  ∃ bytes, Chunk.Stored { entry := entry, bytes := bytes } logs ∧
    WholeCharacters bytes

section Loop

variable {logs : AttemptLogs} {cursorSeq maxBytes : Nat}

/-- The loop ends, and has visited the first entries. -/
theorem loop_visited (limit : Nat) {entries : List ChunkIndexEntry}
    (whole : ∀ entry ∈ entries, WholeEntry logs entry) (page : PageState) :
    ∃ final visited,
      PageState.loop logs cursorSeq maxBytes limit entries page =
        some final ∧
      visited <+: entries ∧ Visited page final visited ∧
      (visited = [] → entries = [] ∨ limit = 0 ∨
        maxBytes - page.returned < 4 ∨ page.remainingScan < 1) := by
  induction limit generalizing entries page with
  | zero =>
    exact ⟨page, [], rfl, List.nil_prefix, Visited.refl rfl,
      fun _ => Or.inr (Or.inl rfl)⟩
  | succ limit induction =>
    cases entries with
    | nil =>
      exact ⟨page, [], rfl, List.nil_prefix, Visited.refl rfl,
        fun _ => Or.inl rfl⟩
    | cons entry rest =>
      rcases whole entry List.mem_cons_self with ⟨bytes, stored, wholly⟩
      rcases @visit_spec logs ⟨entry, bytes⟩ page cursorSeq maxBytes
        stored wholly rest with ⟨visit, visits, spec⟩
      dsimp only at visits spec
      by_cases spent :
          maxBytes - page.returned < 4 ∨ page.remainingScan < 1
      · refine ⟨{ page with truncated := true }, [], ?_,
          List.nil_prefix, Visited.refl rfl,
          fun _ => Or.inr (Or.inr spent)⟩
        rw [PageState.loop, PageState.visit, if_pos spent]
      · have first := spec.visited spent
        cases visit with
        | leave left =>
          refine ⟨left, [entry], ?_, ?_, first,
            fun empty => by cases empty⟩
          · rw [PageState.loop, visits]
          · exact ⟨rest, rfl⟩
        | goOn next =>
          rcases induction
            (fun other member =>
              whole other (List.mem_cons_of_mem _ member)) next with
            ⟨final, visited, ran, initial, later, _⟩
          refine ⟨final, entry :: visited, ?_, ?_,
            first.trans later, fun empty => by cases empty⟩
          · rw [PageState.loop, visits]
            exact ran
          · exact List.cons_prefix_cons.mpr ⟨rfl, initial⟩

/-- The loop has no reason to read an entry. -/
def PageState.Idle (page : PageState) (entry : ChunkIndexEntry) : Prop :=
  page.blocked.get entry.stream = true ∨
    (place page.positions entry.stream).passed entry ∨
    entry.byteLength = 0

theorem place_placed (page : PageState) (stream other : Stream) :
    place (page.placed stream).positions other =
      place page.positions other := by
  rw [PageState.placed, place_set]
  split
  · rename_i same
    rw [same]
  · rfl

theorem MovedTo.unread_lt {position target : StreamPosition}
    {entry : ChunkIndexEntry} (ahead : ¬ position.passed entry)
    (nonempty : 0 < entry.byteLength)
    (moved : MovedTo entry (position.startOffset entry + 1) target) :
    target.unread entry < position.unread entry := by
  rw [StreamPosition.passed] at ahead
  rw [StreamPosition.unread, StreamPosition.unread]
  rw [MovedTo, StreamPosition.startOffset] at moved
  rcases moved with rfl | ⟨seq, off, inside⟩
  · dsimp only
    split_ifs <;> omega
  · split_ifs at off ⊢ <;> omega

/-- From a fresh budget the loop reads bytes, or meets only idle entries. -/
theorem loop_progress (limit : Nat) {entries : List ChunkIndexEntry}
    (whole : ∀ entry ∈ entries, WholeEntry logs entry)
    {page final : PageState} (budget : 4 ≤ maxBytes - page.returned)
    (scan : 5 ≤ page.remainingScan)
    (ran :
      PageState.loop logs cursorSeq maxBytes limit entries page =
        some final) :
    (∃ entry ∈ entries,
      (place final.positions entry.stream).unread entry <
        (place page.positions entry.stream).unread entry) ∨
    (final.truncated = page.truncated ∧ final.blocked = page.blocked ∧
      ∀ entry ∈ entries.take limit, page.Idle entry) := by
  induction limit generalizing entries page with
  | zero =>
    rw [PageState.loop, Option.some.injEq] at ran
    rw [← ran]
    exact Or.inr ⟨rfl, rfl, by simp⟩
  | succ limit induction =>
    cases entries with
    | nil =>
      rw [PageState.loop, Option.some.injEq] at ran
      rw [← ran]
      exact Or.inr ⟨rfl, rfl, by simp⟩
    | cons entry rest =>
      rcases whole entry List.mem_cons_self with ⟨bytes, stored, wholly⟩
      have later : ∀ other ∈ rest, WholeEntry logs other :=
        fun other member => whole other (List.mem_cons_of_mem _ member)
      rcases @visit_spec logs ⟨entry, bytes⟩ page cursorSeq maxBytes
        stored wholly rest with ⟨visit, visits, spec⟩
      dsimp only at visits spec
      rw [PageState.loop, visits] at ran
      cases spec with
      | full spent => omega
      | skip skipped =>
        rcases @induction rest later (page.placed entry.stream) budget
          scan ran with ⟨other, member, less⟩ | ⟨truncated, blocked, idle⟩
        · rw [place_placed] at less
          exact Or.inl ⟨other, List.mem_cons_of_mem _ member, less⟩
        · refine Or.inr ⟨truncated, blocked, ?_⟩
          intro other member
          rw [List.take_succ_cons] at member
          rcases List.mem_cons.mp member with rfl | member
          · exact skipped
          · have same := idle other member
            rw [PageState.Idle, place_placed] at same
            exact same
      | move target ahead nonempty positions moved strictly =>
        refine Or.inl ⟨entry, List.mem_cons_self, ?_⟩
        have less := (strictly scan).unread_lt ahead nonempty
        have reached :
            place visit.page.positions entry.stream = target := by
          rw [positions, place_set, if_pos rfl]
        refine Nat.lt_of_le_of_lt ?_ less
        rw [← reached]
        cases visit with
        | leave left =>
          rw [Option.some.injEq] at ran
          rw [← ran]
          exact Nat.le_refl _
        | goOn next =>
          dsimp only at ran
          rcases @loop_visited logs cursorSeq maxBytes limit rest
            later next with ⟨other, visited, same, _, after, _⟩
          rw [same, Option.some.injEq] at ran
          rw [← ran]
          exact (after.upTo entry.stream).unread_le entry

end Loop

/-! ## Cursors that pages produce -/

/-- The index of a log whose entries all read back whole characters. -/
structure WholeLog (logs : AttemptLogs) (entries : List ChunkIndexEntry) :
    Prop where
  after : ∀ afterSequence,
    iterChunkIndexEntriesAfter logs afterSequence =
      entries.filter fun entry => afterSequence < entry.sequence
  increasing :
    entries.Pairwise fun left right => left.sequence < right.sequence
  positive : ∀ entry ∈ entries, 1 ≤ entry.sequence
  whole : ∀ entry ∈ entries, WholeEntry logs entry

/--
A cursor that pages of some entries produced: its positions were moved to
entries, and a stream without a position has no entry before the cursor.
-/
structure Settled (entries : List ChunkIndexEntry) (cursor : LogCursor) :
    Prop where
  origin : ∀ stream, ∀ position ∈ cursor.startPositions.get stream,
    position = { seq := 0, off := 0 } ∨
      ∃ entry ∈ entries, entry.stream = stream ∧ MovedTo entry 0 position
  unplaced : ∀ entry ∈ entries,
    cursor.startPositions.get entry.stream = none →
      cursor.firstSequence ≤ entry.sequence
  fresh : (∀ stream, cursor.startPositions.get stream = none) →
    cursor.seq = 0

theorem settled_nullCursor (entries : List ChunkIndexEntry) :
    Settled entries nullCursor where
  origin stream position member := by cases stream <;> cases member
  unplaced _ _ _ := Nat.zero_le _
  fresh _ := rfl

theorem firstSequence_le_position (cursor : LogCursor) {stream : Stream}
    (member : position ∈ cursor.startPositions.get stream) :
    cursor.firstSequence ≤ position.seq := by
  have bounds (start : Nat) (others : List Nat) :
      others.foldl min start ≤ start ∧
        ∀ other ∈ others, others.foldl min start ≤ other := by
    induction others generalizing start with
    | nil => simp
    | cons first others induction =>
      rw [List.foldl_cons]
      have later := induction (min start first)
      refine ⟨by omega, ?_⟩
      intro other member
      rcases List.mem_cons.mp member with rfl | member
      · omega
      · exact later.2 other member
  refine (bounds _ _).2 _ (List.mem_map_of_mem ?_)
  cases stream with
  | stdout =>
    exact List.mem_append_left _ (Option.mem_toList.mpr member)
  | stderr =>
    exact List.mem_append_right _ (Option.mem_toList.mpr member)

variable {cursor : LogCursor}

theorem firstSequence_unplaced
    (unplaced : ∀ stream, cursor.startPositions.get stream = none) :
    cursor.firstSequence = cursor.seq := by
  have stdout : cursor.startPositions.stdout = none := unplaced .stdout
  have stderr : cursor.startPositions.stderr = none := unplaced .stderr
  rw [LogCursor.firstSequence, stdout, stderr]
  rfl

theorem MovedTo.seq_le {start : Nat} (moved : MovedTo entry start target) :
    target.seq ≤ entry.sequence + 1 := by
  rcases moved with rfl | ⟨seq, _, _⟩
  · exact Nat.le_refl _
  · rw [seq]
    exact Nat.le_succ _

/-- A settled cursor is not ahead of a new entry. -/
theorem Settled.firstSequence_le (settled : Settled entries cursor)
    {sequence : Nat} (newer : ∀ entry ∈ entries, entry.sequence < sequence) :
    cursor.firstSequence ≤ sequence := by
  by_cases unplaced : ∀ stream, cursor.startPositions.get stream = none
  · rw [firstSequence_unplaced unplaced, settled.fresh unplaced]
    exact Nat.zero_le _
  · rcases Classical.not_forall.mp unplaced with ⟨stream, placed⟩
    rcases Option.ne_none_iff_exists'.mp placed with ⟨position, some⟩
    refine Nat.le_trans (firstSequence_le_position cursor some) ?_
    rcases settled.origin stream position some with
      rfl | ⟨entry, member, _, moved⟩
    · exact Nat.zero_le _
    · exact Nat.le_trans moved.seq_le (newer entry member)

/-- A cursor stays settled when the log grows. -/
theorem Settled.grow (settled : Settled entries cursor)
    {added : ChunkIndexEntry}
    (newer : ∀ entry ∈ entries, entry.sequence < added.sequence) :
    Settled (entries ++ [added]) cursor where
  origin stream position member := by
    rcases settled.origin stream position member with
      start | ⟨entry, inEntries, same, moved⟩
    · exact Or.inl start
    · exact Or.inr
        ⟨entry, List.mem_append_left _ inEntries, same, moved⟩
  unplaced entry member none := by
    rcases List.mem_append.mp member with member | member
    · exact settled.unplaced entry member none
    · rw [List.mem_singleton.mp member]
      exact settled.firstSequence_le newer
  fresh := settled.fresh

/-- The entries a cursor has not consumed. -/
def unconsumed (entries : List ChunkIndexEntry) (cursor : LogCursor) :
    List ChunkIndexEntry :=
  (entries.filter fun entry =>
    cursor.firstSequence - 1 < entry.sequence).filter fun entry =>
      ¬ alreadyConsumed cursor.startPositions entry

theorem WholeLog.pageEntries_eq (log : WholeLog logs entries)
    (cursor : LogCursor) :
    pageEntries logs cursor = (unconsumed entries cursor).take pageWindow := by
  rw [pageEntries, log.after]
  rfl

theorem WholeLog.mem_unconsumed (log : WholeLog logs entries) :
    entry ∈ unconsumed entries cursor ↔
      entry ∈ entries ∧ cursor.firstSequence ≤ entry.sequence ∧
        ¬ alreadyConsumed cursor.startPositions entry := by
  rw [unconsumed, List.mem_filter, List.mem_filter, decide_eq_true_eq,
    decide_eq_true_eq, and_assoc]
  constructor
  · rintro ⟨member, after, ahead⟩
    exact ⟨member, by omega, ahead⟩
  · rintro ⟨member, after, ahead⟩
    have positive := log.positive entry member
    exact ⟨member, by omega, ahead⟩

theorem readJobLogsPage_of_loop {final : PageState} (ran :
      PageState.loop logs cursor.seq maxBytes pageLimit
        (pageEntries logs cursor) (PageState.start cursor) = some final) :
    ∃ page,
      readJobLogsPage logs cursor maxBytes = some page ∧
      page.next.seq = final.finalSeq cursor ∧
      page.next.positions = some final.positions ∧
      page.hasMore =
        (final.truncated ||
          decide (pageLimit < (pageEntries logs cursor).length) ||
          (final.blocked.stdout && !final.exhausted.stdout) ||
          (final.blocked.stderr && !final.exhausted.stderr)) := by
  rw [readJobLogsPage, ran]
  exact ⟨_, rfl, rfl, rfl, rfl⟩

theorem get_start (cursor : LogCursor) (stream : Stream) :
    (PageState.start cursor).positions.get stream =
      cursor.startPositions.get stream :=
  rfl

theorem WholeLog.unconsumed_increasing (log : WholeLog logs entries)
    (cursor : LogCursor) :
    (unconsumed entries cursor).Pairwise fun left right =>
      left.sequence < right.sequence :=
  (log.increasing.filter _).filter _

/-- An entry of a stream that was not reached comes after the visited ones. -/
theorem Visited.before_unplaced (log : WholeLog logs entries)
    (settled : Settled entries cursor) {final : PageState}
    {visited : List ChunkIndexEntry}
    (positions : Visited (PageState.start cursor) final visited)
    (initial : visited <+: unconsumed entries cursor)
    (member : entry ∈ entries)
    (unplaced : final.positions.get entry.stream = none) :
    entry ∈ unconsumed entries cursor ∧
      ∀ other ∈ visited, other.sequence < entry.sequence := by
  have before : cursor.startPositions.get entry.stream = none := by
    cases found : cursor.startPositions.get entry.stream with
    | none => rfl
    | some position =>
      have kept := positions.kept entry.stream (by
        rw [get_start, found]
        rfl)
      rw [unplaced] at kept
      cases kept
  have inside : entry ∈ unconsumed entries cursor := by
    refine log.mem_unconsumed.mpr
      ⟨member, settled.unplaced entry member before, ?_⟩
    rintro ⟨position, found, _⟩
    rw [before] at found
    cases found
  refine ⟨inside, ?_⟩
  rcases initial with ⟨remainder, apart⟩
  have increasing := log.unconsumed_increasing cursor
  rw [← apart] at inside increasing
  rcases List.mem_append.mp inside with inVisited | inRemainder
  · have placed := positions.placed entry inVisited
    rw [unplaced] at placed
    cases placed
  · intro other inVisited
    exact (List.pairwise_append.mp increasing).2.2 other inVisited entry
      inRemainder

theorem Settled.next (log : WholeLog logs entries) {next : LogCursor}
    (settled : Settled entries cursor) {final : PageState}
    {visited : List ChunkIndexEntry}
    (initial : visited <+: unconsumed entries cursor)
    (positions : Visited (PageState.start cursor) final visited)
    (idle : visited = [] →
      unconsumed entries cursor = [] ∧ final = PageState.start cursor)
    (nextSeq : next.seq = final.finalSeq cursor)
    (nextPositions : next.positions = some final.positions) :
    Settled entries next := by
  have starts : next.startPositions = final.positions := by
    rw [LogCursor.startPositions, nextPositions]
    rfl
  have members : ∀ entry ∈ visited, entry ∈ unconsumed entries cursor :=
    fun entry member => initial.mem member
  refine { origin := ?_, unplaced := ?_, fresh := ?_ }
  · intro stream position member
    rw [starts] at member
    rcases positions.origin stream position member with
      before | start | ⟨entry, inVisited, same, moved⟩
    · exact settled.origin stream position before
    · exact Or.inl start
    · exact Or.inr
        ⟨entry, (log.mem_unconsumed.mp (members entry inVisited)).1,
          same, moved⟩
  · intro entry member none
    rw [starts] at none
    rcases positions.before_unplaced log settled initial member none with
      ⟨inside, before⟩
    cases visited with
    | nil =>
      rw [(idle rfl).1] at inside
      cases inside
    | cons first rest =>
      have placed := positions.placed first List.mem_cons_self
      rcases Option.isSome_iff_exists.mp placed with ⟨position, found⟩
      have least :=
        firstSequence_le_position next (starts ▸ found)
      refine Nat.le_trans least ?_
      have earlier := before first List.mem_cons_self
      rcases positions.origin first.stream position found with
        start | rfl | ⟨other, inVisited, _, moved⟩
      · have ahead :=
          (log.mem_unconsumed.mp (members first List.mem_cons_self)).2.2
        have notPassed : ¬ position.passed first :=
          fun passed => ahead ⟨position, start, passed⟩
        rw [StreamPosition.passed] at notPassed
        omega
      · exact Nat.zero_le _
      · exact Nat.le_trans moved.seq_le (before other inVisited)
  · intro unplaced
    rw [starts] at unplaced
    have empty : visited = [] := by
      cases visited with
      | nil => rfl
      | cons entry rest =>
        have placed := positions.placed entry List.mem_cons_self
        rw [unplaced] at placed
        cases placed
    have start := (idle empty).2
    rw [start] at unplaced
    have stdout : (PageState.start cursor).positions.stdout = none :=
      unplaced .stdout
    have stderr : (PageState.start cursor).positions.stderr = none :=
      unplaced .stderr
    rw [nextSeq, start, PageState.finalSeq, if_pos ⟨rfl, rfl⟩, stdout,
      stderr]
    exact settled.fresh unplaced

/-! ## Empty entries -/

/--
The empty entries among some first ones of a log that no position passes
once the others are read: they come after the entry that follows the last
non-empty one of their stream.
-/
def pendingEmpty (before : List ChunkIndexEntry) : List ChunkIndexEntry :=
  before.filter fun entry =>
    entry.byteLength = 0 ∧
      ∀ other ∈ before, other.stream = entry.stream →
        0 < other.byteLength → other.sequence + 1 < entry.sequence

/-- Before no entry do as many empty entries pile up as a page may visit. -/
def Sparse (entries : List ChunkIndexEntry) : Prop :=
  ∀ count < entries.length,
    (pendingEmpty (entries.take count)).length < pageLimit

instance (entries : List ChunkIndexEntry) : Decidable (Sparse entries) :=
  inferInstanceAs (Decidable (∀ count < entries.length, _))

/-- A list with more than some number of accepted elements is cut there. -/
theorem exists_cut_of_lt_length_filter {α : Type} (accept : α → Bool)
    {items : List α} {count : Nat}
    (more : count < (items.filter accept).length) :
    ∃ before item after, items = before ++ item :: after ∧
      before.filter accept = (items.filter accept).take count := by
  induction items generalizing count with
  | nil => cases more
  | cons first items induction =>
    by_cases accepted : accept first = true
    · rw [List.filter_cons_of_pos accepted] at more ⊢
      cases count with
      | zero => exact ⟨[], first, items, rfl, rfl⟩
      | succ count =>
        rcases induction (Nat.lt_of_succ_lt_succ more) with
          ⟨before, item, after, apart, same⟩
        refine ⟨first :: before, item, after, ?_, ?_⟩
        · rw [apart, List.cons_append]
        · rw [List.filter_cons_of_pos accepted, same,
            List.take_succ_cons]
    · rw [List.filter_cons_of_neg accepted] at more ⊢
      rcases induction more with ⟨before, item, after, apart, same⟩
      refine ⟨first :: before, item, after, ?_, ?_⟩
      · rw [apart, List.cons_append]
      · rw [List.filter_cons_of_neg accepted, same]

theorem WholeLog.eq_of_sequence (log : WholeLog logs entries)
    {left right : ChunkIndexEntry} (inLeft : left ∈ entries)
    (inRight : right ∈ entries) (same : left.sequence = right.sequence) :
    left = right := by
  have distinct : (entries.map ChunkIndexEntry.sequence).Nodup :=
    List.pairwise_map.mpr (log.increasing.imp Nat.ne_of_lt)
  exact List.inj_on_of_nodup_map distinct inLeft inRight same

/-- A non-empty entry that a settled cursor has passed lies before it. -/
theorem Settled.lt_of_passed (log : WholeLog logs entries)
    (settled : Settled entries cursor) (member : entry ∈ entries)
    (nonempty : 0 < entry.byteLength)
    (found : position ∈ cursor.startPositions.get entry.stream)
    (passed : position.passed entry) :
    entry.sequence < position.seq := by
  rcases passed with before | ⟨same, past⟩
  · exact before
  · rcases settled.origin _ position found with
      rfl | ⟨other, inEntries, _, rfl | ⟨seq, _, off⟩⟩
    · exact absurd past (Nat.not_le.mpr nonempty)
    · exact absurd past (Nat.not_le.mpr nonempty)
    · have equal := log.eq_of_sequence inEntries member (by omega)
      rw [equal] at off
      omega

/-- The empty entries a settled cursor has to visit are pending ones. -/
theorem Settled.pending_of_unconsumed (log : WholeLog logs entries)
    (settled : Settled entries cursor) {before : List ChunkIndexEntry}
    (initial : before <+: entries)
    (empty : ∀ entry ∈ before, entry ∈ unconsumed entries cursor →
      entry.byteLength = 0) (member : entry ∈ before)
    (ahead : entry ∈ unconsumed entries cursor) :
    entry ∈ pendingEmpty before := by
  refine List.mem_filter.mpr ⟨member, decide_eq_true ?_⟩
  refine ⟨empty entry member ahead, ?_⟩
  intro other inBefore stream nonempty
  rcases log.mem_unconsumed.mp ahead with ⟨_, _, notConsumed⟩
  -- The non-empty entry is behind the cursor, so its stream has a position.
  have behind : other ∉ unconsumed entries cursor := by
    intro unread
    rw [empty other inBefore unread] at nonempty
    exact Nat.lt_irrefl 0 nonempty
  have inEntries := initial.mem inBefore
  have consumed : ∃ position ∈ cursor.startPositions.get other.stream,
      position.passed other := by
    by_contra unconsumed
    refine behind (log.mem_unconsumed.mpr ⟨inEntries, ?_, unconsumed⟩)
    cases found : cursor.startPositions.get other.stream with
    | none => exact settled.unplaced other inEntries found
    | some position =>
      refine Nat.le_trans (firstSequence_le_position cursor found) ?_
      by_contra less
      exact unconsumed ⟨position, found, Or.inl (Nat.not_le.mp less)⟩
  rcases consumed with ⟨position, found, passed⟩
  have less := settled.lt_of_passed log inEntries nonempty found passed
  have notPassed : ¬ position.passed entry := fun passes =>
    notConsumed ⟨position, stream ▸ found, passes⟩
  have zero := empty entry member ahead
  rw [StreamPosition.passed] at notPassed
  omega

/-- A settled cursor of a sparse log does not meet only empty entries. -/
theorem Sparse.exists_nonempty (sparse : Sparse entries)
    (log : WholeLog logs entries) (settled : Settled entries cursor)
    (more : pageLimit < (unconsumed entries cursor).length) :
    ∃ entry ∈ (unconsumed entries cursor).take pageLimit,
      entry.byteLength ≠ 0 := by
  by_contra onlyEmpty
  have unconsumedEq := unconsumed.eq_1 entries cursor
  rw [List.filter_filter] at unconsumedEq
  rw [unconsumedEq] at more
  rcases exists_cut_of_lt_length_filter _ more with
    ⟨before, item, after, apart, same⟩
  rw [← unconsumedEq] at same more
  have accepted {entry : ChunkIndexEntry} (member : entry ∈ before)
      (ahead : entry ∈ unconsumed entries cursor) :
      entry ∈ (unconsumed entries cursor).take pageLimit := by
    rw [← same]
    rw [unconsumedEq] at ahead
    exact List.mem_filter.mpr ⟨member, (List.mem_filter.mp ahead).2⟩
  have empty : ∀ entry ∈ before, entry ∈ unconsumed entries cursor →
      entry.byteLength = 0 := by
    intro entry member ahead
    by_contra nonempty
    exact onlyEmpty ⟨entry, accepted member ahead, nonempty⟩
  have few := sparse before.length (by
    rw [apart, List.length_append, List.length_cons]
    omega)
  rw [apart, List.take_left] at few
  have many : pageLimit ≤ (pendingEmpty before).length := by
    have count := congrArg List.length same
    rw [List.length_take, Nat.min_eq_left (Nat.le_of_lt more)] at count
    rw [← count, pendingEmpty, ← List.countP_eq_length_filter,
      ← List.countP_eq_length_filter]
    refine List.countP_mono_left ?_
    intro entry member accepts
    have ahead : entry ∈ unconsumed entries cursor := by
      rw [unconsumedEq, apart]
      exact List.mem_filter.mpr
        ⟨List.mem_append_left _ member, accepts⟩
    have pending :=
      settled.pending_of_unconsumed log ⟨item :: after, apart.symm⟩ empty
        member ahead
    exact (List.mem_filter.mp pending).2
  exact absurd few (Nat.not_lt.mpr many)

/-! ## A page -/

/-- An entry that a settled cursor has to visit is idle only if empty. -/
theorem WholeLog.empty_of_idle (log : WholeLog logs entries)
    (ahead : entry ∈ unconsumed entries cursor)
    (idle : (PageState.start cursor).Idle entry) :
    entry.byteLength = 0 := by
  rcases log.mem_unconsumed.mp ahead with ⟨member, _, notConsumed⟩
  have positive := log.positive entry member
  rcases idle with blocked | passed | empty
  · cases stream : entry.stream <;> rw [stream] at blocked <;> cases blocked
  · rw [place] at passed
    cases found : (PageState.start cursor).positions.get entry.stream with
    | none =>
      rw [found] at passed
      rcases passed with before | ⟨same, _⟩
      · cases before
      · rw [same] at positive
        cases positive
    | some position =>
      rw [found] at passed
      exact absurd ⟨position, found, passed⟩ notConsumed
  · exact empty

/--
A page is returned and its cursor is settled.  When the log is sparse and the
page reports more, it has read at least one byte.
-/
theorem WholeLog.page (log : WholeLog logs entries)
    (settled : Settled entries cursor) (budget : 4 ≤ maxBytes) :
    ∃ page,
      readJobLogsPage logs cursor maxBytes = some page ∧
      Settled entries page.next ∧
      (Sparse entries → page.hasMore = true →
        unreadBytes entries page.next.startPositions <
          unreadBytes entries cursor.startPositions) := by
  have window := log.pageEntries_eq cursor
  have whole : ∀ entry ∈ pageEntries logs cursor, WholeEntry logs entry := by
    intro entry member
    rw [window] at member
    exact log.whole entry
      (log.mem_unconsumed.mp (List.mem_of_mem_take member)).1
  rcases @loop_visited logs cursor.seq maxBytes pageLimit _ whole
    (PageState.start cursor) with
    ⟨final, visited, ran, initial, positions, idle⟩
  rcases readJobLogsPage_of_loop ran with
    ⟨page, isPage, nextSeq, nextPositions, hasMore⟩
  have starts : page.next.startPositions = final.positions := by
    rw [LogCursor.startPositions, nextPositions]
    rfl
  refine ⟨page, isPage, ?_, ?_⟩
  · refine settled.next log ?_ positions ?_ nextSeq nextPositions
    · rw [window] at initial
      exact initial.trans (List.take_prefix _ _)
    · intro none
      rcases idle none with empty | zero | spent
      · rw [empty] at ran window
        rw [eq_comm, List.take_eq_nil_iff] at window
        exact ⟨window.resolve_left (by decide),
          (Option.some.inj ran).symm⟩
      · cases zero
      · exact absurd spent (by simp [PageState.start, pageRawScanCap, budget])
  · intro sparse more
    rw [starts]
    rcases loop_progress pageLimit whole
      (by simpa [PageState.start] using budget)
      (by simp [PageState.start, pageRawScanCap]) ran with
      ⟨entry, member, less⟩ | ⟨truncated, blocked, idle⟩
    · rw [window] at member
      exact unreadBytes_lt positions.upTo
        (log.mem_unconsumed.mp (List.mem_of_mem_take member)).1 less
    · -- Nothing was read: there is more only beyond the last entry.
      rw [hasMore, truncated, blocked] at more
      have beyond : pageLimit < (pageEntries logs cursor).length := by
        simpa [PageState.start, PerStream.both] using more
      rw [window] at beyond idle
      rw [List.length_take] at beyond
      rcases sparse.exists_nonempty log settled (by omega) with
        ⟨entry, member, nonempty⟩
      have visits : entry ∈
          ((unconsumed entries cursor).take pageWindow).take pageLimit := by
        rw [List.take_take]
        exact member
      exact absurd
        (log.empty_of_idle (List.mem_of_mem_take member)
          (idle entry visits)) nonempty

/-! ## Following the cursor -/

/-- A received log and a cursor on it. -/
structure Paging where
  logs : AttemptLogs
  cursor : LogCursor
  deriving DecidableEq

/-- An accepted frame with its string, or a request for a page. -/
inductive PagingEvent where
  | logChunk (stream : Stream) (text : List Char)
  | page (maxBytes : Nat)

/--
Accepted `log_chunk` frames, each under the sequence after the last one, and
pages that each continue from the cursor of the one before.
-/
def Paging.step (paging : Paging) : PagingEvent → Option Paging
  | .logChunk stream text =>
    (appendIndexedLogChunk paging.logs stream (encodeText text)
      (readLastChunkSequence paging.logs + 1) none).map fun appended =>
        { paging with logs := appended.1 }
  | .page maxBytes =>
    (readJobLogsPage paging.logs paging.cursor maxBytes).map fun page =>
      { paging with cursor := page.next }

def pagingMachine : Machine Paging PagingEvent where
  initial paging :=
    paging = { logs := ensureAttemptLogs, cursor := nullCursor }
  step := Paging.step

/--
The numbers of a frame are exact as JavaScript numbers, and the size of a
page is one that the tool accepts.
-/
def Paging.Admits (paging : Paging) : PagingEvent → Prop
  | .logChunk stream text =>
    readLastChunkSequence paging.logs + 1 ≤ Json.maxSafeInteger ∧
      paging.logs.size stream + (encodeText text).length ≤
        Json.maxSafeInteger
  | .page maxBytes => 4 ≤ maxBytes

/-- The page after that many others, each with its own size. -/
def pageAfter (logs : AttemptLogs) :
    Nat → (Nat → Nat) → LogCursor → Option LogPage
  | 0, sizes, cursor => readJobLogsPage logs cursor (sizes 0)
  | count + 1, sizes, cursor => do
    let page ← readJobLogsPage logs cursor (sizes 0)
    pageAfter logs count (fun index => sizes (index + 1)) page.next

/-- The invariant of a received log and a cursor on it. -/
def Paging.Received (paging : Paging) : Prop :=
  ∃ ledger torn,
    Durable paging.logs ledger torn [] ∧
    (∀ chunk ∈ ledger, WholeCharacters chunk.bytes) ∧
    Settled (ledger.map Chunk.entry) paging.cursor

theorem wholeLog_of_durable {ledger : List Chunk} {torn : ChunkIndexEntry}
    (durable : Durable logs ledger torn [])
    (whole : ∀ chunk ∈ ledger, WholeCharacters chunk.bytes) :
    WholeLog logs (ledger.map Chunk.entry) where
  after afterSequence := by
    rw [durable.index.iterChunkIndexEntriesAfter_eq,
      durable.iterChunkIndexEntries_eq]
  increasing := by
    have increasing := durable.index.increasing
    rw [IncreasingFrom, List.pairwise_cons, List.pairwise_map] at increasing
    exact increasing.2
  positive entry member := (durable.index.safe entry member).1
  whole entry member := by
    rcases List.mem_map.mp member with ⟨chunk, inLedger, rfl⟩
    exact ⟨chunk.bytes, durable.stored chunk inLedger, whole chunk inLedger⟩

theorem Paging.Received.logChunk {paging next : Paging}
    (received : paging.Received) {stream : Stream} {text : List Char}
    (admits : paging.Admits (.logChunk stream text))
    (stepped : paging.step (.logChunk stream text) = some next) :
    next.Received := by
  rcases received with ⟨ledger, torn, durable, whole, settled⟩
  rcases Option.map_eq_some_iff.mp stepped with
    ⟨⟨later, entry⟩, appended, rfl⟩
  rcases appendIndexedLogChunk_some appended with ⟨passes, rfl, rfl⟩
  have appends :
      AppendsAt paging.logs (ledger.map Chunk.entry) (encodeText text)
        (newEntry paging.logs stream (encodeText text)
          (readLastChunkSequence paging.logs + 1) none) :=
    durable.index.appendsAt_newEntry passes (by simp) admits.1 admits.2
  refine ⟨_, torn, durable.writeChunk appends, ?_, ?_⟩
  · intro chunk member
    rcases List.mem_append.mp member with member | member
    · exact whole chunk member
    · rw [List.mem_singleton.mp member]
      exact wholeCharacters_encodeText text
  · rw [List.map_append]
    exact settled.grow appends.newer

theorem Paging.Received.page {paging next : Paging}
    (received : paging.Received) (admits : paging.Admits (.page maxBytes))
    (stepped : paging.step (.page maxBytes) = some next) :
    next.Received := by
  rcases received with ⟨ledger, torn, durable, whole, settled⟩
  rcases (wholeLog_of_durable durable whole).page settled admits with
    ⟨page, isPage, nextSettled, _⟩
  rw [Paging.step, isPage, Option.map_some, Option.some.injEq] at stepped
  rw [← stepped]
  exact ⟨ledger, torn, durable, whole, nextSettled⟩

theorem received_of_reachable {paging : Paging}
    (reachable : pagingMachine.Reachable Paging.Admits paging) :
    paging.Received := by
  refine Machine.Reachable.invariant ?_ ?_ reachable
  · rintro paging rfl
    refine ⟨[], ⟨0, .stdout, 0, 0⟩, durable_ensureAttemptLogs _,
      by simp, ?_⟩
    exact settled_nullCursor _
  · intro paging event next received admits stepped
    cases event with
    | logChunk stream text => exact received.logChunk admits stepped
    | page maxBytes => exact received.page admits stepped

/-- Following the cursor over a sparse log comes to an end. -/
theorem WholeLog.pages_end (log : WholeLog logs entries)
    (sparse : Sparse entries) {sizes : Nat → Nat}
    (budget : ∀ index, 4 ≤ sizes index) (settled : Settled entries cursor) :
    ∃ count page,
      pageAfter logs count sizes cursor = some page ∧
        page.hasMore = false := by
  induction left : unreadBytes entries cursor.startPositions using
    Nat.strong_induction_on generalizing sizes cursor with
  | _ left induction =>
    rcases log.page settled (budget 0) with
      ⟨page, isPage, nextSettled, reads⟩
    cases more : page.hasMore with
    | false => exact ⟨0, page, isPage, more⟩
    | true =>
      have fewer := reads sparse more
      rcases induction _ (left ▸ fewer) (fun index => budget (index + 1))
        nextSettled rfl with ⟨count, last, isLast, done⟩
      refine ⟨count + 1, last, ?_, done⟩
      rw [pageAfter, isPage]
      exact isLast

/-- Positions that leave fewer bytes unread have moved. -/
theorem logCursorAdvanced_of_unreadBytes {next : LogCursor} (fewer :
      unreadBytes entries next.startPositions <
        unreadBytes entries cursor.startPositions) :
    logCursorAdvanced cursor next := by
  refine Or.inr (Or.inr (Or.inr ?_))
  intro same
  rw [LogCursor.startPositions, same] at fewer
  exact Nat.lt_irrefl _ fewer

/--
On a received log whose empty entries do not pile up, a page that reports
more has moved the cursor on over bytes it left unread before, and following
the cursor comes to an end, whatever the sizes of the pages are.
-/
theorem pages_make_progress {paging : Paging}
    (reachable : pagingMachine.Reachable Paging.Admits paging)
    (sparse : Sparse (iterChunkIndexEntries paging.logs)) :
    (∀ maxBytes, 4 ≤ maxBytes →
      ∃ page,
        readJobLogsPage paging.logs paging.cursor maxBytes = some page ∧
        (page.hasMore = true →
          logCursorAdvanced paging.cursor page.next ∧
          unreadBytes (iterChunkIndexEntries paging.logs)
              page.next.startPositions <
            unreadBytes (iterChunkIndexEntries paging.logs)
              paging.cursor.startPositions)) ∧
    ∀ sizes : Nat → Nat, (∀ index, 4 ≤ sizes index) →
      ∃ count page,
        pageAfter paging.logs count sizes paging.cursor = some page ∧
          page.hasMore = false := by
  rcases received_of_reachable reachable with
    ⟨ledger, torn, durable, whole, settled⟩
  have log := wholeLog_of_durable durable whole
  rw [durable.iterChunkIndexEntries_eq] at sparse ⊢
  constructor
  · intro maxBytes budget
    rcases log.page settled budget with ⟨page, isPage, _, reads⟩
    refine ⟨page, isPage, fun more => ?_⟩
    have fewer := reads sparse more
    exact ⟨logCursorAdvanced_of_unreadBytes fewer, fewer⟩
  · intro sizes budget
    exact log.pages_end sparse budget settled

instance (paging : Paging) :
    (event : PagingEvent) → Decidable (paging.Admits event)
  | .logChunk _ _ => inferInstanceAs (Decidable (_ ∧ _))
  | .page _ => inferInstanceAs (Decidable (_ ≤ _))

/-- A log before its first frame, and the cursor of a first request. -/
def freshPaging : Paging where
  logs := ensureAttemptLogs
  cursor := nullCursor

/-- Two characters, an empty chunk between them, and a page of one of them. -/
def shortRun : List PagingEvent :=
  [.logChunk .stdout ['é', 'a', 'b', 'c'], .logChunk .stderr [],
    .logChunk .stderr ['d'], .page 4]

theorem pages_make_progress_shortRun :
    ∃ paging page,
      pagingMachine.Reachable Paging.Admits paging ∧
      readJobLogsPage paging.logs paging.cursor 4 = some page ∧
      (page.hasMore = true →
        logCursorAdvanced paging.cursor page.next) := by
  have ran :
      (pagingMachine.run freshPaging shortRun).map
          (fun paging =>
            decide (Sparse (iterChunkIndexEntries paging.logs))) =
        some true := by
    decide +kernel
  rcases Option.map_eq_some_iff.mp ran with ⟨paging, final, sparse⟩
  have reachable : pagingMachine.Reachable Paging.Admits paging :=
    ⟨_, rfl, Machine.steps_of_run
      (fun state event => decide (state.Admits event))
      (fun _ _ => of_decide_eq_true) (by decide +kernel) final⟩
  rcases (pages_make_progress reachable (of_decide_eq_true sparse)).1 4
    (by decide) with ⟨page, isPage, advances⟩
  exact ⟨paging, page, reachable, isPage, fun more => (advances more).1⟩

/-! ## Empty entries alone -/

/-- The chunk of an accepted frame with an empty string. -/
def emptyChunk (sequence : Nat) : Chunk where
  entry :=
    { sequence := sequence, stream := .stdout, byteOffset := 0, byteLength := 0 }
  bytes := []

/-- That many of them. -/
def emptyLedger (count : Nat) : List Chunk :=
  (List.range' 1 count).map emptyChunk

theorem emptyLedger_succ (count : Nat) :
    emptyLedger (count + 1) = emptyLedger count ++ [emptyChunk (count + 1)] := by
  rw [emptyLedger, List.range'_1_concat, List.map_append, Nat.add_comm 1]
  rfl

theorem lastSequence_emptyLedger (count : Nat) :
    lastSequence ((emptyLedger count).map Chunk.entry) = count := by
  cases count with
  | zero => rfl
  | succ count =>
    rw [emptyLedger_succ, List.map_append]
    exact lastSequence_append_cons _ _ _

/-- Any number of empty frames is accepted. -/
theorem exists_emptyLedger (count : Nat) (safe : count ≤ Json.maxSafeInteger) :
    ∃ logs torn,
      pagingMachine.Reachable Paging.Admits
        { logs := logs, cursor := nullCursor } ∧
      Durable logs (emptyLedger count) torn [] ∧ logs.size .stdout = 0 := by
  induction count with
  | zero =>
    exact ⟨ensureAttemptLogs, ⟨0, .stdout, 0, 0⟩, .start rfl,
      durable_ensureAttemptLogs _, rfl⟩
  | succ count induction =>
    rcases induction (Nat.le_of_succ_le safe) with
      ⟨logs, torn, reachable, durable, size⟩
    have last : readLastChunkSequence logs = count := by
      rw [durable.index.readLastChunkSequence_whole,
        lastSequence_emptyLedger]
    have passes : ¬ count + 1 ≤ readLastChunkSequence logs := by
      omega
    have appends :=
      @TornIndex.appendsAt_newEntry logs _ torn durable.index .stdout
        (encodeText []) (count + 1) none passes (by simp) safe
        (by rw [size]; decide)
    have entry :
        newEntry logs .stdout (encodeText []) (count + 1) none =
          (emptyChunk (count + 1)).entry := by
      rw [newEntry, emptyChunk, Option.getD_none, streamByteOffset, size]
      rfl
    have written := durable.writeChunk appends
    rw [entry] at written
    have admits :
        Paging.Admits { logs := logs, cursor := nullCursor }
          (.logChunk .stdout []) := by
      refine ⟨?_, ?_⟩
      · rw [last]
        exact safe
      · rw [size]
        decide
    have stepped :
        pagingMachine.step { logs := logs, cursor := nullCursor }
            (.logChunk .stdout []) =
          some
            { logs :=
                writeChunk logs (encodeText [])
                  (emptyChunk (count + 1)).entry
              cursor := nullCursor } := by
      change (appendIndexedLogChunk logs .stdout (encodeText [])
        (readLastChunkSequence logs + 1) none).map _ = _
      rw [last, appendIndexedLogChunk, if_neg passes, ← entry]
      rfl
    refine ⟨_, torn, reachable.next admits stepped, ?_, ?_⟩
    · rw [emptyLedger_succ]
      exact written
    · rw [AttemptLogs.size, writeChunk, file_appendCheckpointText,
        file_appendChunksText, file_appendLogChunk]
      change (logs.file .stdout ++ []).length = 0
      rw [List.append_nil]
      exact size

theorem visit_empty {cursorSeq : Nat} {rest : List ChunkIndexEntry}
    {page : PageState} (empty : entry.byteLength = 0)
    (budget : ¬ (maxBytes - page.returned < 4 ∨ page.remainingScan < 1)) :
    page.visit logs cursorSeq maxBytes entry rest =
      some (.goOn (page.placed entry.stream)) := by
  rw [PageState.visit, if_neg budget]
  dsimp only
  split
  · rfl
  · split
    · rfl
    · rw [readIndexedRange, if_pos (by omega)]
      rfl

/-- Visits of empty entries of a stream that has a position change nothing. -/
theorem loop_empty {cursorSeq : Nat} (limit : Nat) {page : PageState}
    (empty : ∀ entry ∈ entries, entry.stream = .stdout ∧ entry.byteLength = 0)
    (placed : page.placed .stdout = page)
    (budget : ¬ (maxBytes - page.returned < 4 ∨ page.remainingScan < 1)) :
    PageState.loop logs cursorSeq maxBytes limit entries page =
      some page := by
  induction limit generalizing entries with
  | zero => rfl
  | succ limit induction =>
    cases entries with
    | nil => rfl
    | cons entry rest =>
      rw [PageState.loop,
        visit_empty (empty entry List.mem_cons_self).2 budget,
        (empty entry List.mem_cons_self).1, placed]
      exact induction fun other member =>
        empty other (List.mem_cons_of_mem _ member)

/-- The cursor after a first page of empty entries. -/
def stalledCursor : LogCursor where
  seq := 0
  off := 0
  states := none
  positions := some { stdout := some { seq := 0, off := 0 }, stderr := none }

/-- The entries of as many empty chunks as a page looks at. -/
def windowEntries : List ChunkIndexEntry :=
  (emptyLedger pageWindow).map Chunk.entry

theorem windowEntries_empty :
    ∀ entry ∈ windowEntries,
      entry.stream = .stdout ∧ entry.byteLength = 0 := by
  intro entry member
  rcases List.mem_map.mp member with ⟨chunk, inLedger, rfl⟩
  rcases List.mem_map.mp inLedger with ⟨sequence, _, rfl⟩
  exact ⟨rfl, rfl⟩

section Stall

variable {logs : AttemptLogs}

/-- A first page of empty entries only writes down a position. -/
theorem first_page_stalls
    (window : pageEntries logs nullCursor = windowEntries) :
    ∃ page,
      readJobLogsPage logs nullCursor 65536 = some page ∧
      page.next = stalledCursor := by
  have ran :
      PageState.loop logs nullCursor.seq 65536 pageLimit
          (pageEntries logs nullCursor) (PageState.start nullCursor) =
        some ((PageState.start nullCursor).placed .stdout) := by
    rw [window]
    change PageState.loop logs _ _ (127 + 1) (_ :: _) _ = _
    rw [PageState.loop, visit_empty rfl (by decide)]
    refine loop_empty 127 ?_ rfl (by decide)
    intro entry member
    exact windowEntries_empty entry (List.mem_cons_of_mem _ member)
  rw [readJobLogsPage, ran]
  exact ⟨_, rfl, rfl⟩

/-- Every further page returns the same cursor and reports more. -/
theorem next_page_stalls
    (window : pageEntries logs stalledCursor = windowEntries) :
    ∃ page,
      readJobLogsPage logs stalledCursor 65536 = some page ∧
      page.hasMore = true ∧ page.next = stalledCursor := by
  have ran :
      PageState.loop logs stalledCursor.seq 65536 pageLimit
          (pageEntries logs stalledCursor) (PageState.start stalledCursor) =
        some (PageState.start stalledCursor) := by
    rw [window]
    exact loop_empty _ windowEntries_empty rfl (by decide)
  rw [readJobLogsPage, ran, window]
  exact ⟨_, rfl, by decide +kernel, rfl⟩

end Stall

/--
After 129 accepted empty chunks a page returns the cursor it was given, and
reports more.
-/
theorem empty_entries_stall :
    ∃ paging page,
      pagingMachine.Reachable Paging.Admits paging ∧
      readJobLogsPage paging.logs paging.cursor 65536 = some page ∧
      page.hasMore = true ∧
      ¬ logCursorAdvanced paging.cursor page.next := by
  rcases exists_emptyLedger pageWindow (by decide) with
    ⟨logs, torn, reachable, durable, _⟩
  have log : WholeLog logs windowEntries :=
    wholeLog_of_durable durable (by
      intro chunk member
      rcases List.mem_map.mp member with ⟨sequence, _, rfl⟩
      exact True.intro)
  have window (cursor : LogCursor)
      (same :
        (unconsumed windowEntries cursor).take pageWindow = windowEntries) :
      pageEntries logs cursor = windowEntries := by
    rw [log.pageEntries_eq, same]
  rcases first_page_stalls (window nullCursor (by decide +kernel)) with
    ⟨first, isFirst, firstNext⟩
  rcases next_page_stalls (window stalledCursor (by decide +kernel)) with
    ⟨page, isPage, more, next⟩
  have stepped :
      pagingMachine.step { logs := logs, cursor := nullCursor }
          (.page 65536) =
        some { logs := logs, cursor := stalledCursor } := by
    change (readJobLogsPage logs nullCursor 65536).map _ = _
    rw [isFirst, Option.map_some, firstNext]
  refine ⟨_, page, reachable.next ?_ stepped, isPage, more, ?_⟩
  · change 4 ≤ 65536
    decide
  · rw [next]
    rintro (seq | off | states | positions)
    · exact seq rfl
    · exact off rfl
    · exact states rfl
    · exact positions rfl

end Rbo.Controller.LogPagination
