import Mathlib.Data.List.Infix
import Rbo.Foundation.JsonPrinted
import Rbo.Foundation.Texts
import Rbo.Foundation.Utf8Stream

/-!
# Events of a response

The controller writes each event of a log stream as lines with an empty line
behind them (`formatSseEvent`).  The CLI reads the body of the response in
pieces, decodes them, and cuts off a block at every empty line
(`parseSseBlocks`).

However the body is cut into pieces, and wherever it ends, the blocks are those
of the first events that were written.
-/

namespace Rbo.Cli.EventStream

open Rbo.Foundation

abbrev Text := List Char

/-! ## The reader -/

/-- The text up to the first empty line, and what follows it. -/
def nextRaw : Text → Option (Text × Text)
  | [] => none
  | '\n' :: '\n' :: rest => some ([], rest)
  | char :: rest =>
    (nextRaw rest).map fun found => (char :: found.1, found.2)

/-- A line without the carriage return at its end. -/
def dropReturn (line : Text) : Text :=
  if line.getLast? = some '\r' then line.dropLast else line

/-- `raw.split(/\r?\n/)`. -/
def splitLines (raw : Text) : List Text :=
  let parts := raw.splitOn '\n'
  parts.dropLast.map dropReturn ++ parts.getLast?.toList

/-- A block of the stream. -/
structure SseBlock where
  id : Option Text
  event : Option Text
  data : Text
  deriving DecidableEq

/-- The fields of a block while its lines are read. -/
structure Fields where
  id : Option Text
  event : Option Text
  dataLines : List Text
  deriving DecidableEq

def readLine (fields : Fields) (line : Text) : Fields :=
  if "id:".toList.isPrefixOf line then
    { fields with id := some (trim (line.drop 3)) }
  else if "event:".toList.isPrefixOf line then
    { fields with event := some (trim (line.drop 6)) }
  else if "data:".toList.isPrefixOf line then
    { fields with
      dataLines := fields.dataLines ++ [trimStart (line.drop 5)] }
  else fields

/-- The block of a text, when it has data. -/
def parseBlock (raw : Text) : Option SseBlock :=
  let fields := (splitLines raw).foldl readLine ⟨none, none, []⟩
  if fields.dataLines = [] then none
  else
    some
      { id := fields.id
        event := fields.event
        data := ['\n'].intercalate fields.dataLines }

theorem nextRaw_shorter {buffer raw rest : Text}
    (cut : nextRaw buffer = some (raw, rest)) :
    rest.length < buffer.length := by
  induction buffer using nextRaw.induct generalizing raw with
  | case1 => cases cut
  | case2 rest =>
    cases cut
    exact Nat.lt_succ_of_lt (Nat.lt_succ_self _)
  | case3 char rest other inductionHypothesis =>
    rw [nextRaw.eq_3 _ _ other] at cut
    obtain ⟨⟨front, after⟩, found, same⟩ := Option.map_eq_some_iff.mp cut
    cases same
    exact Nat.lt_succ_of_lt (inductionHypothesis found)

theorem nextRaw_append {buffer raw rest : Text} (more : Text)
    (cut : nextRaw buffer = some (raw, rest)) :
    nextRaw (buffer ++ more) = some (raw, rest ++ more) := by
  induction buffer using nextRaw.induct generalizing raw with
  | case1 => cases cut
  | case2 rest =>
    cases cut
    rfl
  | case3 char rest other inductionHypothesis =>
    rw [nextRaw.eq_3 _ _ other] at cut
    obtain ⟨⟨front, after⟩, found, same⟩ := Option.map_eq_some_iff.mp cut
    cases same
    have still : ∀ later, char = '\n' → rest ++ more = '\n' :: later →
        False := by
      intro later newline begins
      cases rest with
      | nil => cases found
      | cons second others =>
        exact other others newline (by
          rw [List.cons_append] at begins
          rw [(List.cons.inj begins).1])
    rw [List.cons_append, nextRaw.eq_3 _ _ still,
      inductionHypothesis found]
    rfl

/-- Texts cut off at empty lines. -/
def blockFraming : Framing Char Text where
  next := nextRaw
  shorter := fun _ _ _ => nextRaw_shorter
  stable := fun _ _ _ more => nextRaw_append more

/-- The decoder removes a byte order mark at the front of the stream. -/
def dropMark : List Text → List Text
  | [] => []
  | [] :: pieces => [] :: dropMark pieces
  | (char :: piece) :: pieces =>
    (if char = '\uFEFF' then piece else char :: piece) :: pieces

/-- `parseSseBlocks`, of the pieces that are read of a body. -/
def parseSseBlocks (reads : List (List UInt8)) : List SseBlock :=
  let texts := dropMark (Utf8.charFraming.feed [] reads).1
  (blockFraming.feed [] texts).1.flatten.filterMap parseBlock

/-! ## The writer -/

/-- What `formatSseEvent` is given. -/
structure SseEvent where
  id : Option Nat
  event : Option Text
  data : JsValue

/-- The lines of an event before its empty line. -/
def SseEvent.lines (event : SseEvent) : List Text :=
  (event.id.map fun id => "id: ".toList ++ Json.stringifyNat id).toList ++
    (event.event.bind fun name =>
      if name = [] then none else some ("event: ".toList ++ name)).toList ++
    ["data: ".toList ++
      (jsonStringify event.data).getD "undefined".toList]

def formatSseEvent (event : SseEvent) : Text :=
  ['\n'].intercalate (event.lines ++ [[], []])

/-! ## Blocks of lines -/

/-- A line that stays one line. -/
structure IsLine (line : Text) : Prop where
  present : line ≠ []
  printed : Printed line

theorem newline_notMem {line : Text} (printed : Printed line) :
    '\n' ∉ line := fun member =>
  absurd (printed '\n' member) (by decide)

theorem nextRaw_cons {char : Char} (other : char ≠ '\n') (rest : Text) :
    nextRaw (char :: rest) =
      (nextRaw rest).map fun found => (char :: found.1, found.2) :=
  nextRaw.eq_3 _ _ fun _ newline => absurd newline other

theorem nextRaw_line {line : Text} (ordinary : '\n' ∉ line) (rest : Text) :
    nextRaw (line ++ rest) =
      (nextRaw rest).map fun found => (line ++ found.1, found.2) := by
  induction line with
  | nil =>
    rw [List.nil_append]
    cases nextRaw rest <;> rfl
  | cons char line inductionHypothesis =>
    rw [List.mem_cons, not_or] at ordinary
    rw [List.cons_append, nextRaw_cons (Ne.symm ordinary.1),
      inductionHypothesis ordinary.2, Option.map_map]
    rfl

/-- Lines with an empty line behind them are cut off as a whole. -/
theorem nextRaw_lines {lines : List Text} (some : lines ≠ [])
    (each : ∀ line ∈ lines, IsLine line) (rest : Text) :
    nextRaw (['\n'].intercalate lines ++ '\n' :: '\n' :: rest) =
      .some (['\n'].intercalate lines, rest) := by
  induction lines with
  | nil => exact absurd rfl some
  | cons line others inductionHypothesis =>
    rw [List.forall_mem_cons] at each
    have ordinary := newline_notMem each.1.printed
    cases others with
    | nil =>
      rw [List.intercalate_singleton, nextRaw_line ordinary, nextRaw]
      simp
    | cons second others =>
      have later := inductionHypothesis (by simp) each.2
      obtain ⟨first, more, shape⟩ :=
        List.exists_cons_of_ne_nil (each.2 second (by simp)).present
      have notNewline : first ≠ '\n' := by
        rintro rfl
        exact newline_notMem (each.2 second (by simp)).printed
          (shape ▸ List.mem_cons_self)
      have begins : ∃ after, ['\n'].intercalate (second :: others) =
          first :: after := by
        cases others with
        | nil => exact ⟨more, by rw [List.intercalate_singleton, shape]⟩
        | cons next others =>
          exact ⟨_, by rw [List.intercalate_cons_cons, shape]; rfl⟩
      obtain ⟨after, begins⟩ := begins
      rw [List.intercalate_cons_cons, List.append_assoc,
        List.append_assoc, nextRaw_line ordinary, List.singleton_append]
      have skipped : nextRaw ('\n' :: (['\n'].intercalate
          (second :: others) ++ '\n' :: '\n' :: rest)) =
          (nextRaw (['\n'].intercalate (second :: others) ++
            '\n' :: '\n' :: rest)).map
              fun found => ('\n' :: found.1, found.2) := by
        rw [begins, List.cons_append]
        exact nextRaw.eq_3 _ _ fun _ _ same =>
          notNewline (List.cons.inj same).1
      rw [skipped, later]
      simp

theorem drain_blocks {blocks : List (List Text)}
    (each : ∀ lines ∈ blocks, lines ≠ [] ∧ ∀ line ∈ lines, IsLine line) :
    blockFraming.drain (blocks.flatMap fun lines =>
        ['\n'].intercalate lines ++ ['\n', '\n']) =
      (blocks.map (['\n'].intercalate ·), []) := by
  induction blocks with
  | nil => rfl
  | cons lines blocks inductionHypothesis =>
    rw [List.forall_mem_cons] at each
    have cut := nextRaw_lines each.1.1 each.1.2
      (blocks.flatMap fun lines =>
        ['\n'].intercalate lines ++ ['\n', '\n'])
    rw [List.flatMap_cons, List.append_assoc, List.cons_append,
      List.cons_append, List.nil_append]
    rw [@Framing.drain_of_some _ _ blockFraming _ _ _ cut,
      inductionHypothesis each.2]
    rfl

/-- From the front of a text its first blocks are cut off. -/
theorem drain_of_front {blocks : List (List Text)} {front : Text}
    (each : ∀ lines ∈ blocks, lines ≠ [] ∧ ∀ line ∈ lines, IsLine line)
    (cut : front <+: blocks.flatMap fun lines =>
      ['\n'].intercalate lines ++ ['\n', '\n']) :
    (blockFraming.drain front).1 <+: blocks.map (['\n'].intercalate ·) := by
  obtain ⟨back, cut⟩ := cut
  have whole := drain_blocks each
  rw [← cut, Framing.drain_append] at whole
  exact ⟨_, congrArg Prod.fst whole⟩

/-! ## Events that are read back -/

theorem dropReturn_of_printed {line : Text} (printed : Printed line) :
    dropReturn line = line := by
  unfold dropReturn
  rw [if_neg]
  intro last
  exact absurd (printed '\r' (List.mem_of_getLast? last)) (by decide)

/-- Lines that were joined are split again. -/
theorem splitLines_intercalate {lines : List Text} (some : lines ≠ [])
    (each : ∀ line ∈ lines, IsLine line) :
    splitLines (['\n'].intercalate lines) = lines := by
  have parts : (['\n'].intercalate lines).splitOn '\n' = lines :=
    List.splitOn_intercalate _ (fun line member =>
      newline_notMem (each line member).printed) some
  have kept : lines.dropLast.map dropReturn = lines.dropLast := by
    refine (List.map_congr_left ?_).trans (List.map_id _)
    intro line member
    exact dropReturn_of_printed
      (each line (List.mem_of_mem_dropLast member)).printed
  unfold splitLines
  rw [parts]
  dsimp only
  rw [kept]
  obtain ⟨front, last, rfl⟩ := List.eq_nil_or_concat lines |>.resolve_left some
  simp

theorem SseEvent.lines_ne_nil (event : SseEvent) : event.lines ≠ [] :=
  List.append_ne_nil_of_right_ne_nil _ (List.cons_ne_nil _ _)

theorem formatSseEvent_eq (event : SseEvent) :
    formatSseEvent event =
      ['\n'].intercalate event.lines ++ ['\n', '\n'] := by
  have joined : ∀ lines : List Text, lines ≠ [] →
      ['\n'].intercalate (lines ++ [[], []]) =
        ['\n'].intercalate lines ++ ['\n', '\n'] := by
    intro lines some
    induction lines with
    | nil => exact absurd rfl some
    | cons line others inductionHypothesis =>
      cases others with
      | nil => simp [List.intercalate_cons_cons]
      | cons second others =>
        rw [List.cons_append, List.cons_append,
          List.intercalate_cons_cons, List.intercalate_cons_cons,
          ← List.cons_append, inductionHypothesis (by simp)]
        simp
  exact joined _ event.lines_ne_nil

/-- An event with a name, and an object as its data. -/
structure IsNamed (sent : SseEvent) (name : Text)
    (members : List (JsString × JsValue)) : Prop where
  event : sent.event = some name
  data : sent.data = .object members
  present : name ≠ []
  printed : Printed name
  trimmed : trim (' ' :: name) = name

section Named

variable {sent : SseEvent} {name : Text}
  {members : List (JsString × JsValue)}

/-- The text of the data of a named event. -/
def dataText (members : List (JsString × JsValue)) : Text :=
  bracketed '{' '}' (memberTexts members)

theorem IsNamed.lines_eq (named : IsNamed sent name members) :
    sent.lines =
      (sent.id.map fun id => "id: ".toList ++ Json.stringifyNat id).toList ++
        ["event: ".toList ++ name, "data: ".toList ++ dataText members] := by
  unfold SseEvent.lines
  rw [named.event, named.data, Option.bind_some, if_neg named.present,
    List.append_assoc]
  rfl

theorem IsNamed.isLine (named : IsNamed sent name members) :
    ∀ line ∈ sent.lines, IsLine line := by
  rw [named.lines_eq]
  intro line member
  rcases List.mem_append.mp member with first | later
  · obtain ⟨id, -, rfl⟩ := Option.map_eq_some_iff.mp
      (Option.mem_toList.mp first)
    exact ⟨List.cons_ne_nil _ _, printed_append.mpr
      ⟨by decide, printed_toDigits id⟩⟩
  · rcases List.mem_cons.mp later with rfl | last
    · exact ⟨List.cons_ne_nil _ _, printed_append.mpr
        ⟨by decide, named.printed⟩⟩
    · obtain rfl := List.mem_singleton.mp last
      have written : jsonStringify (.object members) =
          some (dataText members) := rfl
      exact ⟨List.cons_ne_nil _ _, printed_append.mpr
        ⟨by decide, printed_stringify written⟩⟩

/-- A named event is read as a block with its name and its data. -/
theorem IsNamed.parseBlock (named : IsNamed sent name members) :
    ∃ id, parseBlock (['\n'].intercalate sent.lines) =
      some { id := id, event := some name, data := dataText members } := by
  unfold EventStream.parseBlock
  rw [splitLines_intercalate sent.lines_ne_nil named.isLine,
    named.lines_eq, List.foldl_append]
  generalize begun : List.foldl readLine ⟨none, none, []⟩
    (sent.id.map fun id => "id: ".toList ++ Json.stringifyNat id).toList =
      fields
  have noData : fields.dataLines = [] := by
    rw [← begun]
    cases sent.id with
    | none => rfl
    | some id => rfl
  have event : readLine fields ("event: ".toList ++ name) =
      { fields with event := some name } := by
    have read : readLine fields ("event: ".toList ++ name) =
        { fields with event := some (trim (' ' :: name)) } := rfl
    rw [read, named.trimmed]
  have data : ∀ fields : Fields,
      readLine fields ("data: ".toList ++ dataText members) =
        { fields with
          dataLines := fields.dataLines ++ [dataText members] } :=
    fun _ => rfl
  rw [List.foldl_cons, List.foldl_cons, List.foldl_nil, event, data]
  dsimp only
  rw [noData, List.nil_append, if_neg (List.cons_ne_nil _ _),
    List.intercalate_singleton]
  exact ⟨_, rfl⟩

end Named

/-! ## The blocks of a response -/

/-- The body of a response: a comment, and then events. -/
def streamText (events : List SseEvent) : Text :=
  ": ok\n\n".toList ++ events.flatMap formatSseEvent

/-- The block that is read for an event. -/
def blockOf (event : SseEvent) : Option SseBlock :=
  parseBlock (['\n'].intercalate event.lines)

theorem flatten_dropMark {texts : List Text}
    (unmarked : texts.flatten.head? ≠ some '\uFEFF') :
    (dropMark texts).flatten = texts.flatten := by
  induction texts with
  | nil => rfl
  | cons text texts inductionHypothesis =>
    cases text with
    | nil => exact inductionHypothesis unmarked
    | cons char piece =>
      have other : char ≠ '\uFEFF' := by
        rintro rfl
        exact unmarked rfl
      rw [dropMark, if_neg other]

theorem streamText_eq (events : List SseEvent) :
    streamText events =
      ([": ok".toList] :: events.map SseEvent.lines).flatMap fun lines =>
        ['\n'].intercalate lines ++ ['\n', '\n'] := by
  have each : events.flatMap formatSseEvent =
      (events.map SseEvent.lines).flatMap fun lines =>
        ['\n'].intercalate lines ++ ['\n', '\n'] := by
    rw [List.flatMap_map]
    exact congrArg (List.flatMap · events) (funext formatSseEvent_eq)
  unfold streamText
  rw [each, List.flatMap_cons]
  rfl

/-- The blocks of a text that was read in pieces. -/
theorem parseSseBlocks_eq {reads : List (List UInt8)} {text : Text}
    (decoded : (Utf8.charFraming.drain reads.flatten).1 = text)
    (unmarked : text.head? ≠ some '\uFEFF') :
    parseSseBlocks reads =
      (blockFraming.drain text).1.filterMap parseBlock := by
  have fedText : (Utf8.charFraming.feed [] reads).1.flatten = text :=
    (Framing.feed_eq_drain rfl).trans decoded
  have fed : (blockFraming.feed []
      (dropMark (Utf8.charFraming.feed [] reads).1)).1.flatten =
        (blockFraming.drain text).1 := by
    rw [← fedText] at unmarked ⊢
    rw [← flatten_dropMark unmarked]
    exact Framing.feed_eq_drain rfl
  unfold parseSseBlocks
  dsimp only
  rw [fed]

theorem unmarked_of_front {events : List SseEvent} {text : Text}
    (begins : text <+: streamText events) :
    text.head? ≠ some '\uFEFF' := by
  intro marked
  obtain ⟨rest, whole⟩ := begins
  cases text with
  | nil => cases marked
  | cons char more =>
    obtain rfl := Option.some.inj marked
    exact absurd (List.cons.inj whole).1 (by decide)

section Blocks

variable {events : List SseEvent}

/-- The comment at the front of a body and its events are lines. -/
theorem isLine_of_body
    (named : ∀ event ∈ events, ∀ line ∈ event.lines, IsLine line) :
    ∀ lines ∈ [": ok".toList] :: events.map SseEvent.lines,
      lines ≠ [] ∧ ∀ line ∈ lines, IsLine line := by
  refine List.forall_mem_cons.mpr ⟨⟨List.cons_ne_nil _ _, ?_⟩, ?_⟩
  · rw [List.forall_mem_singleton]
    exact ⟨List.cons_ne_nil _ _, by decide⟩
  · intro lines member
    obtain ⟨event, inside, rfl⟩ := List.mem_map.mp member
    exact ⟨event.lines_ne_nil, named event inside⟩

/-- The comment is no block. -/
theorem filterMap_body (events : List SseEvent) :
    (['\n'].intercalate [": ok".toList] ::
        events.map ((['\n'].intercalate ·) ∘ SseEvent.lines)).filterMap
          parseBlock =
      events.filterMap blockOf := by
  rw [List.filterMap_cons_none (by decide +kernel), List.filterMap_map]
  rfl

/-- However the bytes of a response are cut into pieces, the blocks are those
of its events. -/
theorem parseSseBlocks_of_whole {reads : List (List UInt8)}
    (named : ∀ event ∈ events, ∀ line ∈ event.lines, IsLine line)
    (whole : reads.flatten = Utf8.encode (streamText events)) :
    parseSseBlocks reads = events.filterMap blockOf := by
  rw [parseSseBlocks_eq (by rw [whole, Utf8.drain_encode])
      (unmarked_of_front (List.prefix_refl _)),
    streamText_eq, drain_blocks (isLine_of_body named), List.map_cons,
    List.map_map, filterMap_body]

/-- However the first bytes of a response are cut into pieces, the blocks are
those of its first events. -/
theorem parseSseBlocks_of_front {reads : List (List UInt8)}
    (named : ∀ event ∈ events, ∀ line ∈ event.lines, IsLine line)
    (front : reads.flatten <+: Utf8.encode (streamText events)) :
    ∃ taken, taken <+: events ∧
      parseSseBlocks reads = taken.filterMap blockOf := by
  obtain ⟨lost, cut⟩ := front
  have begins : (Utf8.charFraming.drain reads.flatten).1 <+:
      streamText events := Utf8.drain_of_front cut.symm
  have raws := drain_of_front (isLine_of_body named)
    (streamText_eq events ▸ begins)
  rw [parseSseBlocks_eq rfl (unmarked_of_front begins)]
  rw [List.map_cons, List.prefix_cons_iff] at raws
  rcases raws with none_ | ⟨rest, shape, within⟩
  · rw [none_]
    exact ⟨[], List.nil_prefix, rfl⟩
  · rw [List.map_map] at within
    obtain ⟨taken, before, rfl⟩ := List.prefix_map_iff.mp within
    exact ⟨taken, before, by rw [shape, filterMap_body]⟩

end Blocks

/-! ## Pieces of any bytes -/

/-- The mark is removed in the first piece that is not empty. -/
theorem flatten_dropMark_eq (texts : List Text) :
    (dropMark texts).flatten = (dropMark [texts.flatten]).flatten := by
  induction texts with
  | nil => rfl
  | cons text texts inductionHypothesis =>
    cases text with
    | nil => exact inductionHypothesis
    | cons char piece =>
      rw [List.flatten_cons, List.cons_append, dropMark, dropMark]
      split <;> simp

/--
The blocks of any bytes, well formed or not, do not depend on how they are
cut into pieces, also inside a character, the mark or an empty line.
-/
theorem parseSseBlocks_independent_of_reads (reads : List (List UInt8)) :
    parseSseBlocks reads = parseSseBlocks [reads.flatten] := by
  have texts : (Utf8.charFraming.feed [] reads).1.flatten =
      (Utf8.charFraming.feed [] [reads.flatten]).1.flatten := by
    rw [Framing.feed_eq_drain rfl, Framing.feed_eq_drain rfl,
      List.flatten_singleton]
  unfold parseSseBlocks
  dsimp only
  rw [Framing.feed_eq_drain rfl, Framing.feed_eq_drain rfl,
    flatten_dropMark_eq, texts, ← flatten_dropMark_eq]

end Rbo.Cli.EventStream
