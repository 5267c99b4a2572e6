import Rbo.Executor.Logs

/-!
# Reading the chunk index back

The laws of the index reader.  A written record is read back as the entry it
was written for, no proper part of a record is read as one, and a scan in
pieces of an index made of written records visits exactly these records.
-/

namespace Rbo.Executor.Logs

open Rbo.Foundation
open Rbo.Foundation.Lines

/-! ## One record -/

/-- An entry whose numbers are exact as JavaScript numbers. -/
structure ChunkIndexEntry.Safe (entry : ChunkIndexEntry) : Prop where
  positive : 1 ≤ entry.sequence
  sequence : entry.sequence ≤ Json.maxSafeInteger
  byteEnd : entry.byteEnd ≤ Json.maxSafeInteger

variable {entry : ChunkIndexEntry}

theorem ChunkIndexEntry.Safe.byteOffset (safe : entry.Safe) :
    entry.byteOffset ≤ Json.maxSafeInteger :=
  (Nat.le_add_right _ _).trans safe.byteEnd

theorem ChunkIndexEntry.Safe.byteLength (safe : entry.Safe) :
    entry.byteLength ≤ Json.maxSafeInteger :=
  (Nat.le_add_left _ _).trans safe.byteEnd

theorem Stream.name_plain (stream : Stream) :
    ∀ char ∈ stream.name, Json.IsPlain char := by
  cases stream <;> simp [Stream.name, Json.IsPlain]

theorem sequenceKey_plain : ∀ char ∈ sequenceKey, Json.IsPlain char := by
  simp [sequenceKey, Json.IsPlain]

theorem streamKey_plain : ∀ char ∈ streamKey, Json.IsPlain char := by
  simp [streamKey, Json.IsPlain]

theorem byteOffsetKey_plain :
    ∀ char ∈ byteOffsetKey, Json.IsPlain char := by
  simp [byteOffsetKey, Json.IsPlain]

theorem byteLengthKey_plain :
    ∀ char ∈ byteLengthKey, Json.IsPlain char := by
  simp [byteLengthKey, Json.IsPlain]

/-- The value a written record denotes. -/
def ChunkIndexEntry.value (entry : ChunkIndexEntry) : Json.Value :=
  .object
    [(Json.textUnits sequenceKey, .number ⟨false, entry.sequence, 0⟩),
      (Json.textUnits streamKey,
        .string (Json.textUnits entry.stream.name)),
      (Json.textUnits byteOffsetKey, .number ⟨false, entry.byteOffset, 0⟩),
      (Json.textUnits byteLengthKey, .number ⟨false, entry.byteLength, 0⟩)]

/-- The text of a record after its opening brace and quote. -/
def ChunkIndexEntry.body (entry : ChunkIndexEntry) : List Char :=
  sequenceKey ++ '"' :: ':' :: Json.stringifyNat entry.sequence ++
    ',' :: '"' :: (streamKey ++ '"' :: ':' ::
      ('"' :: entry.stream.name ++ ['"']) ++
    ',' :: '"' :: (byteOffsetKey ++ '"' :: ':' ::
      Json.stringifyNat entry.byteOffset ++
    ',' :: '"' :: (byteLengthKey ++ '"' :: ':' ::
      Json.stringifyNat entry.byteLength ++ ['}'])))

theorem ChunkIndexEntry.stringify_eq (entry : ChunkIndexEntry) :
    entry.stringify = '{' :: '"' :: entry.body := by
  simp [ChunkIndexEntry.stringify, ChunkIndexEntry.body, memberText]

theorem endsNumber_comma : Json.EndsNumber ',' := by
  simp [Json.EndsNumber]

theorem endsNumber_brace : Json.EndsNumber '}' := by
  simp [Json.EndsNumber]

theorem ChunkIndexEntry.parseMembers_body
    (entry : ChunkIndexEntry) (fuel : Nat) :
    Json.parseMembers (fuel + 5) ('"' :: entry.body) =
      some
        ([(Json.textUnits sequenceKey,
            .number ⟨false, entry.sequence, 0⟩),
          (Json.textUnits streamKey,
            .string (Json.textUnits entry.stream.name)),
          (Json.textUnits byteOffsetKey,
            .number ⟨false, entry.byteOffset, 0⟩),
          (Json.textUnits byteLengthKey,
            .number ⟨false, entry.byteLength, 0⟩)], []) := by
  have last :
      Json.parseMembers (fuel + 2)
          ('"' :: byteLengthKey ++ '"' :: ':' ::
            Json.stringifyNat entry.byteLength ++ '}' :: []) =
        some
          ([(Json.textUnits byteLengthKey,
            .number ⟨false, entry.byteLength, 0⟩)], []) :=
    Json.parseMembers_last byteLengthKey_plain
      (Json.skipWhitespace_stringifyNat _ _)
      (Json.parseValue_stringifyNat _ _ endsNumber_brace _)
  have third :=
    Json.parseMembers_cons (fuel + 2) byteOffsetKey
      (Json.stringifyNat entry.byteOffset)
      (byteLengthKey ++ '"' :: ':' ::
        Json.stringifyNat entry.byteLength ++ '}' :: [])
      byteOffsetKey_plain
      (Json.skipWhitespace_stringifyNat _ _)
      (Json.parseValue_stringifyNat _ entry.byteOffset endsNumber_comma _)
  have second :=
    Json.parseMembers_cons (fuel + 3) streamKey
      ('"' :: entry.stream.name ++ ['"'])
      (byteOffsetKey ++ '"' :: ':' ::
        Json.stringifyNat entry.byteOffset ++
        ',' :: '"' :: (byteLengthKey ++ '"' :: ':' ::
          Json.stringifyNat entry.byteLength ++ '}' :: []))
      streamKey_plain
      (by
        rw [List.cons_append, List.cons_append]
        exact Json.skipWhitespace_cons (by decide) _)
      (by
        have read :=
          Json.parseValue_plain (fuel + 2) entry.stream.name_plain
            (',' :: '"' :: (byteOffsetKey ++ '"' :: ':' ::
              Json.stringifyNat entry.byteOffset ++
              ',' :: '"' :: (byteLengthKey ++ '"' :: ':' ::
                Json.stringifyNat entry.byteLength ++ '}' :: [])))
        simpa using read)
  have first :=
    Json.parseMembers_cons (fuel + 4) sequenceKey
      (Json.stringifyNat entry.sequence)
      (streamKey ++ '"' :: ':' ::
        ('"' :: entry.stream.name ++ ['"']) ++
        ',' :: '"' :: (byteOffsetKey ++ '"' :: ':' ::
          Json.stringifyNat entry.byteOffset ++
          ',' :: '"' :: (byteLengthKey ++ '"' :: ':' ::
            Json.stringifyNat entry.byteLength ++ '}' :: [])))
      sequenceKey_plain
      (Json.skipWhitespace_stringifyNat _ _)
      (Json.parseValue_stringifyNat _ entry.sequence endsNumber_comma _)
  simp only [List.cons_append] at last third second first
  rw [ChunkIndexEntry.body, List.append_assoc]
  simp only [List.cons_append]
  simp only [List.append_assoc, List.cons_append] at first second third last ⊢
  rw [first, second, third, last]
  rfl

/-- A written record denotes its value. -/
theorem ChunkIndexEntry.parse_stringify (entry : ChunkIndexEntry) :
    Json.parse entry.stringify = some entry.value := by
  rw [entry.stringify_eq]
  refine Json.parse_object_text ?_
  have long : ∃ fuel, entry.body.length + 2 = fuel + 5 := by
    refine ⟨entry.body.length - 3, ?_⟩
    have : 8 ≤ entry.body.length := by
      rw [ChunkIndexEntry.body]
      simp [sequenceKey]
    omega
  rcases long with ⟨fuel, equal⟩
  rw [equal]
  exact entry.parseMembers_body fuel

theorem ChunkIndexEntry.value_property_sequence (entry : ChunkIndexEntry) :
    entry.value.property sequenceKey =
      some (some (.number ⟨false, entry.sequence, 0⟩)) :=
  rfl

theorem ChunkIndexEntry.value_property_byteOffset
    (entry : ChunkIndexEntry) :
    entry.value.property byteOffsetKey =
      some (some (.number ⟨false, entry.byteOffset, 0⟩)) :=
  rfl

theorem ChunkIndexEntry.value_property_byteLength
    (entry : ChunkIndexEntry) :
    entry.value.property byteLengthKey =
      some (some (.number ⟨false, entry.byteLength, 0⟩)) :=
  rfl

theorem ChunkIndexEntry.streamProperty_value (entry : ChunkIndexEntry) :
    streamProperty entry.value = some entry.stream := by
  rcases entry with ⟨sequence, stream, byteOffset, byteLength⟩
  cases stream <;> rfl

/-- A written record with safe numbers is read back as its entry. -/
theorem ChunkIndexEntry.parseIndexRecord_stringify (safe : entry.Safe) :
    parseIndexRecord entry.stringify = some entry := by
  have sequence :
      safeProperty sequenceKey entry.value = some (entry.sequence : Int) := by
    simp [safeProperty, entry.value_property_sequence,
      Json.safeInteger?_natural safe.sequence]
  have byteOffset :
      safeProperty byteOffsetKey entry.value =
        some (entry.byteOffset : Int) := by
    simp [safeProperty, entry.value_property_byteOffset,
      Json.safeInteger?_natural safe.byteOffset]
  have byteLength :
      safeProperty byteLengthKey entry.value =
        some (entry.byteLength : Int) := by
    simp [safeProperty, entry.value_property_byteLength,
      Json.safeInteger?_natural safe.byteLength]
  have positive := safe.positive
  have byteEnd : entry.byteOffset + entry.byteLength ≤ Json.maxSafeInteger :=
    safe.byteEnd
  simp [parseIndexRecord, entry.parse_stringify,
    entry.streamProperty_value, sequence, byteOffset, byteLength]
  omega

/-! ## The characters of a record -/

theorem not_isDigit_of_mem_stringifyNat
    {value : Nat} {char : Char} (notDigit : char.isDigit = false) :
    char ∉ Json.stringifyNat value := by
  intro member
  have digit := Json.isDigit_of_mem_stringifyNat member
  rw [notDigit] at digit
  cases digit

/-- A record occupies one line. -/
theorem ChunkIndexEntry.newline_notMem_stringify
    (entry : ChunkIndexEntry) : '\n' ∉ entry.stringify := by
  have noDigit : ∀ value, '\n' ∉ Json.stringifyNat value := fun _ =>
    not_isDigit_of_mem_stringifyNat (by decide)
  rcases entry with ⟨sequence, stream, byteOffset, byteLength⟩
  cases stream <;>
    simp [ChunkIndexEntry.stringify, memberText, sequenceKey, streamKey,
      byteOffsetKey, byteLengthKey, Stream.name, noDigit]

/-- Only the first character of a record is an opening brace. -/
theorem ChunkIndexEntry.openBrace_notMem_tail
    (entry : ChunkIndexEntry) : '{' ∉ entry.stringify.tail := by
  have noDigit : ∀ value, '{' ∉ Json.stringifyNat value := fun _ =>
    not_isDigit_of_mem_stringifyNat (by decide)
  rcases entry with ⟨sequence, stream, byteOffset, byteLength⟩
  cases stream <;>
    simp [ChunkIndexEntry.stringify, memberText, sequenceKey, streamKey,
      byteOffsetKey, byteLengthKey, Stream.name, noDigit]

/-- Only the last character of a record is a closing brace. -/
theorem ChunkIndexEntry.closeBrace_notMem_dropLast
    (entry : ChunkIndexEntry) : '}' ∉ entry.stringify.dropLast := by
  have noDigit : ∀ value, '}' ∉ Json.stringifyNat value := fun _ =>
    not_isDigit_of_mem_stringifyNat (by decide)
  have dropLast :
      entry.stringify.dropLast =
        '{' :: memberText sequenceKey ++ Json.stringifyNat entry.sequence ++
          ',' :: memberText streamKey ++ '"' :: entry.stream.name ++
          '"' :: ',' :: memberText byteOffsetKey ++
            Json.stringifyNat entry.byteOffset ++
          ',' :: memberText byteLengthKey ++
            Json.stringifyNat entry.byteLength := by
    rw [ChunkIndexEntry.stringify, List.dropLast_concat]
  rw [dropLast]
  rcases entry with ⟨sequence, stream, byteOffset, byteLength⟩
  cases stream <;>
    simp [memberText, sequenceKey, streamKey, byteOffsetKey, byteLengthKey,
      Stream.name, noDigit]

theorem ChunkIndexEntry.notTrimmed (entry : ChunkIndexEntry) :
    entry.stringify.all isTrimmed = false := by
  rw [entry.stringify_eq]
  rfl

/-- A record with safe numbers is short. -/
theorem ChunkIndexEntry.Safe.length_stringify (safe : entry.Safe) :
    entry.stringify.length ≤ 128 := by
  have sequence := Json.length_stringifyNat_le safe.sequence
  have byteOffset := Json.length_stringifyNat_le safe.byteOffset
  have byteLength := Json.length_stringifyNat_le safe.byteLength
  have name : entry.stream.name.length = 6 := by
    cases entry.stream <;> rfl
  simp only [ChunkIndexEntry.stringify, memberText, sequenceKey, streamKey,
    byteOffsetKey, byteLengthKey, List.length_append, List.length_cons,
    List.length_nil, name]
  omega

/-! ## A scan visits the records -/

/-- Visiting the line of a record in range, with a fresh sequence. -/
theorem visitLine_stringify {streamSizes : Stream → Nat} (afterSequence : Nat)
    {scan : Scan} (safe : entry.Safe)
    (inRange : entry.byteEnd ≤ streamSizes entry.stream)
    (fresh : scan.previousSequence < entry.sequence) :
    visitLine streamSizes afterSequence scan entry.stringify =
      { previousSequence := entry.sequence
        yielded :=
          if afterSequence < entry.sequence then
            scan.yielded ++ [entry]
          else
            scan.yielded } := by
  have accepted :
      ¬ (streamSizes entry.stream < entry.byteEnd ∨
        entry.sequence ≤ scan.previousSequence) := by
    omega
  simp only [visitLine, entry.notTrimmed, Bool.false_eq_true, if_false,
    ChunkIndexEntry.parseIndexRecord_stringify safe, accepted]

/-- Entries whose sequences increase, all of them after a given one. -/
def IncreasingFrom (previous : Nat) (entries : List ChunkIndexEntry) :
    Prop :=
  (previous :: entries.map ChunkIndexEntry.sequence).Pairwise (· < ·)

variable {entries : List ChunkIndexEntry}

theorem IncreasingFrom.tail {previous : Nat}
    (increasing : IncreasingFrom previous (entry :: entries)) :
    previous < entry.sequence ∧ IncreasingFrom entry.sequence entries := by
  rw [IncreasingFrom, List.map_cons, List.pairwise_cons] at increasing
  exact ⟨increasing.1 _ (by simp), increasing.2⟩

theorem IncreasingFrom.skip {previous : Nat}
    (increasing : IncreasingFrom previous (entry :: entries)) :
    IncreasingFrom previous entries := by
  rw [IncreasingFrom, List.map_cons] at increasing
  exact increasing.sublist
    (List.Sublist.cons_cons _ (List.sublist_cons_self _ _))

/-- The line of a record beyond its stream file is skipped. -/
theorem visitLine_beyond {streamSizes : Stream → Nat} {afterSequence : Nat}
    {scan : Scan} (safe : entry.Safe)
    (beyond : ¬ entry.byteEnd ≤ streamSizes entry.stream) :
    visitLine streamSizes afterSequence scan entry.stringify = scan := by
  have refused :
      streamSizes entry.stream < entry.byteEnd ∨
        entry.sequence ≤ scan.previousSequence :=
    Or.inl (Nat.lt_of_not_le beyond)
  simp only [visitLine, entry.notTrimmed, Bool.false_eq_true, if_false,
    ChunkIndexEntry.parseIndexRecord_stringify safe, refused, if_true]

/-- A scan over the lines of fresh records yields those in range. -/
theorem foldl_visitLine_records (streamSizes : Stream → Nat)
    (afterSequence : Nat) (scan : Scan) (safe : ∀ entry ∈ entries, entry.Safe)
    (increasing : IncreasingFrom scan.previousSequence entries) :
    ((entries.map ChunkIndexEntry.stringify).foldl
        (visitLine streamSizes afterSequence) scan).yielded =
      scan.yielded ++
        entries.filter fun entry =>
          entry.byteEnd ≤ streamSizes entry.stream ∧
            afterSequence < entry.sequence := by
  induction entries generalizing scan with
  | nil => simp
  | cons entry entries induction =>
    rw [List.map_cons, List.foldl_cons]
    by_cases inRange : entry.byteEnd ≤ streamSizes entry.stream
    · rcases increasing.tail with ⟨fresh, restIncreasing⟩
      have visited :=
        visitLine_stringify afterSequence (safe entry (by simp)) inRange
          fresh
      rw [visited,
        induction _
          (fun other member => safe other (List.mem_cons_of_mem _ member))
          restIncreasing]
      by_cases later : afterSequence < entry.sequence
      · simp [later, inRange]
      · simp [later]
    · rw [visitLine_beyond (safe entry (by simp)) inRange,
        induction _
          (fun other member => safe other (List.mem_cons_of_mem _ member))
          increasing.skip]
      simp [inRange]

/-! ## Reading in pieces -/

theorem jsLength_le (text : List Char) : jsLength text ≤ 2 * text.length := by
  induction text with
  | nil => simp [jsLength, Json.textUnits]
  | cons head tail induction =>
    have units : (Json.charUnits head).length ≤ 2 := by
      rw [Json.charUnits]
      split <;> simp
    have split :
        jsLength (head :: tail) =
          (Json.charUnits head).length + jsLength tail := by
      simp [jsLength, Json.textUnits]
    rw [split, List.length_cons]
    omega

/--
Reading an index in pieces visits the complete lines of the whole text, as
long as no line is too long to be kept.
-/
theorem foldl_read_eq
    (streamSizes : Stream → Nat) (afterSequence : Nat) (scan : Scan)
    (pieces : List (List Char)) (front : List Char)
    (short : ∀ text, text <+: front ++ pieces.flatten →
      jsLength (pendingText text) ≤ maxIndexLineBytes) :
    pieces.foldl (IndexReader.read streamSizes afterSequence)
        { pending := pendingText front
          discarding := false
          scan := (completeLines front).foldl
            (visitLine streamSizes afterSequence) scan } =
      { pending := pendingText (front ++ pieces.flatten)
        discarding := false
        scan := (completeLines (front ++ pieces.flatten)).foldl
          (visitLine streamSizes afterSequence) scan } := by
  induction pieces generalizing front with
  | nil => simp
  | cons piece pieces induction =>
    have whole :
        front ++ (piece :: pieces).flatten =
          (front ++ piece) ++ pieces.flatten := by
      simp
    have keep :
        ¬ maxIndexLineBytes <
          jsLength (pendingText (pendingText front ++ piece)) := by
      rw [← pendingText_append]
      refine Nat.not_lt.mpr (short _ ?_)
      rw [whole]
      exact List.prefix_append _ _
    have step :
        IndexReader.read streamSizes afterSequence
            { pending := pendingText front
              discarding := false
              scan := (completeLines front).foldl
                (visitLine streamSizes afterSequence) scan } piece =
          { pending := pendingText (front ++ piece)
            discarding := false
            scan := (completeLines (front ++ piece)).foldl
              (visitLine streamSizes afterSequence) scan } := by
      rw [completeLines_append front piece, List.foldl_append,
        pendingText_append front piece]
      simp only [IndexReader.read, IndexReader.consume,
        Bool.false_eq_true, if_false, keep]
    rw [List.foldl_cons, step, whole]
    refine induction (front ++ piece) ?_
    rw [← whole]
    exact short

section Records

variable {entries : List ChunkIndexEntry} {tail : List Char}

theorem noNewline_records (entries : List ChunkIndexEntry) :
    ∀ record ∈ entries.map ChunkIndexEntry.stringify, '\n' ∉ record := by
  intro record member
  rcases List.mem_map.mp member with ⟨entry, _, rfl⟩
  exact entry.newline_notMem_stringify

/-- No part of an index leaves more text pending than a reader keeps. -/
theorem jsLength_pendingText_le
    (safe : ∀ entry ∈ entries, entry.Safe)
    (tailNo : '\n' ∉ tail) (tailShort : tail.length ≤ 128)
    {front : List Char}
    (isPart : front <+:
      joinRecords (entries.map ChunkIndexEntry.stringify) ++ tail) :
    jsLength (pendingText front) ≤ maxIndexLineBytes := by
  have recordShort :
      ∀ record ∈ entries.map ChunkIndexEntry.stringify,
        record.length ≤ 128 := by
    intro record member
    rcases List.mem_map.mp member with ⟨entry, entryMember, rfl⟩
    exact (safe entry entryMember).length_stringify
  have bounded :=
    length_pendingText_le (noNewline_records entries) tailNo recordShort tailShort
      isPart
  calc
    jsLength (pendingText front)
        ≤ 2 * (pendingText front).length := jsLength_le _
    _ ≤ 2 * 128 := Nat.mul_le_mul_left 2 bounded
    _ ≤ maxIndexLineBytes := by decide

/-- The scan of an index made of records and an unterminated short tail. -/
theorem scanPieces_records
    (streamSizes : Stream → Nat) (afterSequence previousSequence : Nat)
    {pieces : List (List Char)}
    (safe : ∀ entry ∈ entries, entry.Safe)
    (inRange : ∀ entry ∈ entries,
      entry.byteEnd ≤ streamSizes entry.stream)
    (increasing : IncreasingFrom previousSequence entries)
    (tailNo : '\n' ∉ tail) (tailShort : tail.length ≤ 128)
    (text : pieces.flatten =
      joinRecords (entries.map ChunkIndexEntry.stringify) ++ tail) :
    scanPieces streamSizes afterSequence previousSequence pieces =
      entries.filter fun entry => afterSequence < entry.sequence := by
  have short : ∀ front, front <+: [] ++ pieces.flatten →
      jsLength (pendingText front) ≤ maxIndexLineBytes := by
    intro front isPrefix
    rw [List.nil_append, text] at isPrefix
    exact jsLength_pendingText_le safe tailNo tailShort isPrefix
  have read :=
    foldl_read_eq streamSizes afterSequence
      { previousSequence := previousSequence, yielded := [] } pieces [] short
  have lines :
      completeLines pieces.flatten =
        entries.map ChunkIndexEntry.stringify := by
    rw [text, completeLines, splitLines_joinRecords (noNewline_records entries) tailNo]
  have start :
      IndexReader.start previousSequence =
        { pending := pendingText []
          discarding := false
          scan := (completeLines []).foldl
            (visitLine streamSizes afterSequence)
            { previousSequence := previousSequence, yielded := [] } } :=
    rfl
  have yielded :=
    foldl_visitLine_records streamSizes afterSequence
      { previousSequence := previousSequence, yielded := [] }
      safe increasing
  rw [scanPieces, start, read, List.nil_append, lines]
  refine yielded.trans (List.filter_congr ?_)
  intro entry member
  simp [inRange entry member]

end Records

theorem flatten_readPieces
    {size : Nat} (positive : 0 < size) (fuel : Nat)
    {text : List Char} (enough : text.length ≤ fuel) :
    (readPieces size fuel text).flatten = text := by
  induction fuel generalizing text with
  | zero =>
    have empty : text = [] := List.length_eq_zero_iff.mp (by omega)
    simp [readPieces, empty]
  | succ fuel induction =>
    cases text with
    | nil => rfl
    | cons head tail =>
      have dropped : ((head :: tail).drop size).length ≤ fuel := by
        rw [List.length_drop]
        simp only [List.length_cons] at enough ⊢
        omega
      rw [readPieces, List.flatten_cons, induction dropped,
        List.take_append_drop]
      simp

/-- A read stream delivers the text of its file. -/
@[simp]
theorem flatten_createReadStream (text : List Char) :
    (createReadStream text).flatten = text :=
  flatten_readPieces (by decide) _ le_rfl

end Rbo.Executor.Logs
