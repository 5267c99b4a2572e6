import Rbo.Foundation.JsonLocality
import Rbo.Foundation.JsonPrinted
import Rbo.Foundation.Lines
import Rbo.Foundation.Run
import Rbo.Foundation.Utf8Stream

/-!
# Paging through the events of an attempt

`job_logs` in events mode reads `events.jsonl` line by line.  Its cursor is a
number of lines, and it moves behind the last event of a page, or, when a page
has none, behind all lines that were read.  An event is appended with one call,
but a reader may see the file with the line half written.

What `JobEventSchema.safeParse` gives for a value is a parameter.  An event is
a value that it gives back.
-/

namespace Rbo.Controller.EventPaging

open Rbo.Foundation

/-! ## Lines -/

/-- What ends a line for `createInterface`. -/
def isLineEnding (char : Char) : Bool :=
  char = '\n' || char = '\r' || char = '\u2028' || char = '\u2029'

/-- The lines of a text, the unterminated one at the end included. -/
def readlineLines : List Char → List (List Char)
  | [] => []
  | '\r' :: '\n' :: rest => [] :: readlineLines rest
  | char :: rest =>
    if isLineEnding char then
      [] :: readlineLines rest
    else
      match readlineLines rest with
      | [] => [[char]]
      | line :: lines => (char :: line) :: lines

def Clean (line : List Char) : Prop :=
  ∀ char ∈ line, isLineEnding char = false

theorem readlineLines_line {line : List Char} (clean : Clean line)
    (rest : List Char) :
    readlineLines (line ++ '\n' :: rest) = line :: readlineLines rest := by
  induction line with
  | nil => rfl
  | cons char line inductionHypothesis =>
    have plain := clean char List.mem_cons_self
    have later := inductionHypothesis fun other inside =>
      clean other (List.mem_cons_of_mem _ inside)
    rw [List.cons_append, readlineLines]
    · rw [plain, if_neg Bool.false_ne_true, later]
    · rintro other rfl
      cases plain

theorem readlineLines_last {line : List Char} (clean : Clean line)
    (some : line ≠ []) : readlineLines line = [line] := by
  induction line with
  | nil => exact absurd rfl some
  | cons char line inductionHypothesis =>
    have plain := clean char List.mem_cons_self
    rw [readlineLines]
    · rw [plain, if_neg Bool.false_ne_true]
      cases line with
      | nil => rfl
      | cons next line =>
        rw [inductionHypothesis
          (fun other inside => clean other (List.mem_cons_of_mem _ inside))
          (List.cons_ne_nil _ _)]
    · rintro other rfl
      cases plain

theorem readlineLines_records {lines : List (List Char)}
    (clean : ∀ line ∈ lines, Clean line) (tail : List Char) :
    readlineLines (Lines.joinRecords lines ++ tail) =
      lines ++ readlineLines tail := by
  induction lines with
  | nil => rfl
  | cons line lines inductionHypothesis =>
    rw [Lines.joinRecords_cons, List.append_assoc, List.cons_append,
      readlineLines_line (clean line List.mem_cons_self),
      inductionHypothesis fun other inside =>
        clean other (List.mem_cons_of_mem _ inside)]
    rfl

/-! ## A page -/

/-- `parseJobEventLine`; what it throws on is skipped like what it refuses. -/
def parseJobEventLine (safeParse : JsValue → Option JsValue)
    (line : List Char) : Option JsValue :=
  if trim line = [] then none else (jsonParse (trim line)).bind safeParse

structure EventsPage where
  events : List (JsValue × Nat)
  scannedLines : Nat

/-- The loop of `readEventsPage`, from a line on. -/
def scanLines (parse : List Char → Option JsValue) (cursor maxEvents : Nat) :
    Nat → List (JsValue × Nat) → List (List Char) → EventsPage
  | lineIndex, events, [] => { events, scannedLines := lineIndex }
  | lineIndex, events, line :: lines =>
    if lineIndex < cursor then
      scanLines parse cursor maxEvents (lineIndex + 1) events lines
    else
      let found :=
        match parse line with
        | some event => events ++ [(event, lineIndex)]
        | none => events
      if maxEvents ≤ found.length then
        { events := found, scannedLines := lineIndex + 1 }
      else
        scanLines parse cursor maxEvents (lineIndex + 1) found lines

def readEventsPage (parse : List Char → Option JsValue) (file : List UInt8)
    (cursor maxEvents : Nat) : EventsPage :=
  scanLines parse cursor maxEvents 0 [] (readlineLines (Utf8.decode file))

/-- `Buffer.byteLength(JSON.stringify(event), 'utf8')`. -/
def eventBytes (event : JsValue) : Nat :=
  (Utf8.encode ((jsonStringify event).getD [])).length

/-- The events that fit in a page, their bytes and the line behind them; none
when the first one alone does not fit. -/
def selectEvents (maxBytes : Nat) :
    List JsValue → Nat → Nat → List (JsValue × Nat) →
      Option (List JsValue × Nat × Nat)
  | selected, returned, nextLine, [] => some (selected, returned, nextLine)
  | selected, returned, nextLine, (event, line) :: items =>
    if selected ≠ [] ∧ maxBytes < returned + eventBytes event then
      some (selected, returned, nextLine)
    else if selected = [] ∧ maxBytes < eventBytes event then
      none
    else
      selectEvents maxBytes (selected ++ [event])
        (returned + eventBytes event) (line + 1) items

structure EventsResponse where
  events : List JsValue
  seq : Nat
  returnedBytes : Nat
  hasMore : Bool
  truncated : Bool

/-- The events mode of `job_logs`, without the checks of the cursor. -/
def jobLogsEvents (parse : List Char → Option JsValue) (file : List UInt8)
    (seq maxBytes : Nat) : Option EventsResponse :=
  let eventLimit := max 1 (maxBytes / 256)
  let page := readEventsPage parse file seq (eventLimit + 1)
  (selectEvents maxBytes [] 0 seq page.events).map
    fun (selected, returned, nextLine) =>
      { events := selected
        seq :=
          if selected ≠ [] then nextLine
          else if seq < page.scannedLines then page.scannedLines
          else seq
        returnedBytes := returned
        hasMore := selected.length < page.events.length ||
          eventLimit < page.events.length
        truncated := selected.isEmpty && !page.events.isEmpty }

/-! ## What a page has -/

/-- The events of some lines, with the places of their lines. -/
def eventsFrom (parse : List Char → Option JsValue) :
    Nat → List (List Char) → List (JsValue × Nat)
  | _, [] => []
  | start, line :: lines =>
    match parse line with
    | some event => (event, start) :: eventsFrom parse (start + 1) lines
    | none => eventsFrom parse (start + 1) lines

section Pages

variable {parse : List Char → Option JsValue}

theorem map_fst_eventsFrom (start : Nat) (lines : List (List Char)) :
    (eventsFrom parse start lines).map Prod.fst = lines.filterMap parse := by
  induction lines generalizing start with
  | nil => rfl
  | cons line lines inductionHypothesis =>
    rw [eventsFrom]
    split
    · rename_i event found
      rw [List.map_cons, inductionHypothesis, List.filterMap_cons_some found]
    · rename_i none
      rw [inductionHypothesis, List.filterMap_cons_none none]

/-- The lines up to the last of some events have just these events, and end
with the line of an event. -/
theorem eventsFrom_taken {start : Nat} {lines : List (List Char)}
    {taken more : List (JsValue × Nat)} {last : JsValue × Nat}
    (split : eventsFrom parse start lines = taken ++ more)
    (isLast : taken.getLast? = some last) :
    ∃ count before line, last.2 + 1 = start + count ∧
      count ≤ lines.length ∧
      lines.take count = before ++ [line] ∧ (parse line).isSome = true ∧
      (lines.take count).filterMap parse = taken.map Prod.fst := by
  induction lines generalizing start taken with
  | nil =>
    rcases List.append_eq_nil_iff.mp split.symm with ⟨rfl, _⟩
    cases isLast
  | cons line lines inductionHypothesis =>
    cases found : parse line with
    | none =>
      rw [eventsFrom, found] at split
      rcases inductionHypothesis split isLast with
        ⟨count, before, final, place, short, ends, isEvent, same⟩
      refine ⟨count + 1, line :: before, final, by omega,
        Nat.succ_le_succ short, congrArg (line :: ·) ends, isEvent, ?_⟩
      rw [List.take_succ_cons, List.filterMap_cons_none found, same]
    | some event =>
      rw [eventsFrom, found] at split
      cases taken with
      | nil => cases isLast
      | cons first taken =>
        rcases List.cons.inj split with ⟨rfl, later⟩
        cases taken with
        | nil =>
          cases isLast
          refine ⟨1, [], line, rfl, Nat.succ_le_succ (Nat.zero_le _),
            rfl, by rw [found]; rfl, ?_⟩
          rw [List.take_succ_cons, List.filterMap_cons_some found,
            List.take_zero]
          rfl
        | cons second taken =>
          rw [List.getLast?_cons_cons] at isLast
          rcases inductionHypothesis later isLast with
            ⟨count, before, final, place, short, ends, isEvent, same⟩
          refine ⟨count + 1, line :: before, final, by omega,
            Nat.succ_le_succ short, congrArg (line :: ·) ends,
            isEvent, ?_⟩
          rw [List.take_succ_cons, List.filterMap_cons_some found,
            same]
          rfl

/-- The scan finds the events from the cursor on, as many as asked for, and
reads all lines when there are fewer. -/
theorem scanLines_eq {cursor maxEvents lineIndex : Nat}
    {events : List (JsValue × Nat)} (few : events.length < maxEvents)
    (lines : List (List Char)) :
    (scanLines parse cursor maxEvents lineIndex events lines).events =
        (events ++ eventsFrom parse (max lineIndex cursor)
          (lines.drop (cursor - lineIndex))).take maxEvents ∧
      ((events ++ eventsFrom parse (max lineIndex cursor)
          (lines.drop (cursor - lineIndex))).length < maxEvents →
        (scanLines parse cursor maxEvents lineIndex events
          lines).scannedLines = lineIndex + lines.length) := by
  induction lines generalizing lineIndex events with
  | nil =>
    rw [List.drop_nil, eventsFrom, List.append_nil,
      List.take_of_length_le few.le]
    exact ⟨rfl, fun _ => rfl⟩
  | cons line lines inductionHypothesis =>
    rw [scanLines]
    by_cases before : lineIndex < cursor
    · have start : max lineIndex cursor = max (lineIndex + 1) cursor := by
        omega
      have dropped : (line :: lines).drop (cursor - lineIndex) =
          lines.drop (cursor - (lineIndex + 1)) := by
        have step : cursor - lineIndex = cursor - (lineIndex + 1) + 1 := by
          omega
        rw [step, List.drop_succ_cons]
      rw [if_pos before, start, dropped, List.length_cons]
      rcases @inductionHypothesis (lineIndex + 1) events few with ⟨found, all⟩
      exact ⟨found, fun short => (all short).trans (by omega)⟩
    · have start : max lineIndex cursor = lineIndex := by omega
      have none : cursor - lineIndex = 0 := by omega
      have next : max (lineIndex + 1) cursor = lineIndex + 1 := by omega
      have noneNext : cursor - (lineIndex + 1) = 0 := by omega
      rw [if_neg before, start, none, List.drop_zero, eventsFrom]
      cases found : parse line with
      | none =>
        dsimp only
        rw [if_neg (by omega), List.length_cons]
        rcases @inductionHypothesis (lineIndex + 1) events few with
          ⟨same, all⟩
        rw [next, noneNext, List.drop_zero] at same all
        exact ⟨same, fun short => (all short).trans (by omega)⟩
      | some event =>
        dsimp only
        have layout : events ++ (event, lineIndex) ::
            eventsFrom parse (lineIndex + 1) lines =
              events ++ [(event, lineIndex)] ++
                eventsFrom parse (lineIndex + 1) lines := by
          simp
        have length : (events ++ [(event, lineIndex)]).length =
            events.length + 1 := by
          rw [List.length_append, List.length_singleton]
        rw [layout]
        split
        · rename_i full
          have exact_ : maxEvents =
              (events ++ [(event, lineIndex)]).length := by omega
          refine ⟨?_, ?_⟩
          · conv_rhs => rw [exact_]
            exact List.take_left.symm
          · intro short
            rw [List.length_append] at short
            omega
        · rename_i room
          rw [List.length_cons]
          rcases @inductionHypothesis (lineIndex + 1) _
            (Nat.lt_of_not_le room) with ⟨same, all⟩
          rw [next, noneNext, List.drop_zero] at same all
          exact ⟨same, fun short => (all short).trans (by omega)⟩

/-- The selected events are the first ones, and the place is behind them. -/
theorem selectEvents_eq {maxBytes returned nextLine : Nat}
    {selected : List JsValue} {items : List (JsValue × Nat)}
    {out : List JsValue × Nat × Nat}
    (done : selectEvents maxBytes selected returned nextLine items =
      some out) :
    ∃ taken more, items = taken ++ more ∧
      out.1 = selected ++ taken.map Prod.fst ∧
      out.2.2 = (taken.getLast?.map fun item => item.2 + 1).getD nextLine ∧
      (selected = [] → items ≠ [] → taken ≠ []) := by
  induction items generalizing selected returned nextLine with
  | nil =>
    cases done
    exact ⟨[], [], rfl, (List.append_nil _).symm, rfl,
      fun _ some => absurd rfl some⟩
  | cons item items inductionHypothesis =>
    rcases item with ⟨event, line⟩
    rw [selectEvents] at done
    split at done
    · rename_i full
      cases done
      exact ⟨[], _, rfl, (List.append_nil _).symm, rfl,
        fun none => absurd none full.1⟩
    · split at done
      · cases done
      · rcases inductionHypothesis done with ⟨taken, more, rfl, same, place, _⟩
        refine ⟨(event, line) :: taken, more, rfl, ?_, ?_,
          fun _ _ => List.cons_ne_nil _ _⟩
        · rw [same, List.append_assoc]
          rfl
        · rw [place]
          cases taken with
          | nil => rfl
          | cons second taken =>
            rw [List.getLast?_cons_cons]
            cases last : (second :: taken).getLast? with
            | none => cases List.getLast?_eq_none_iff.mp last
            | some last => rfl

/-- A page is an answer once its first event fits. -/
theorem selectEvents_isSome {maxBytes : Nat} {selected : List JsValue}
    (returned nextLine : Nat) (items : List (JsValue × Nat))
    (fits : selected = [] → ∀ item ∈ items.head?,
      eventBytes item.1 ≤ maxBytes) :
    (selectEvents maxBytes selected returned nextLine items).isSome = true := by
  induction items generalizing selected returned nextLine with
  | nil => rfl
  | cons item items inductionHypothesis =>
    rcases item with ⟨event, line⟩
    rw [selectEvents]
    split
    · rfl
    · split
      · rename_i large
        exact absurd (fits large.1 _ rfl) (Nat.not_le.mpr large.2)
      · refine inductionHypothesis _ _ fun none => ?_
        exact absurd none (List.append_ne_nil_of_right_ne_nil _
          (List.cons_ne_nil _ _))

theorem jobLogsEvents_isSome {file : List UInt8} {seq maxBytes : Nat}
    (fits : ∀ event ∈ ((readlineLines (Utf8.decode file)).drop
      seq).filterMap parse, eventBytes event ≤ maxBytes) :
    (jobLogsEvents parse file seq maxBytes).isSome = true := by
  unfold jobLogsEvents readEventsPage
  rw [Option.isSome_map]
  refine selectEvents_isSome _ _ _ fun _ item first => fits item.1 ?_
  have some : ([] : List (JsValue × Nat)).length <
      max 1 (maxBytes / 256) + 1 := Nat.succ_pos _
  have found := (@scanLines_eq parse seq (max 1 (maxBytes / 256) + 1) 0 []
    some (readlineLines (Utf8.decode file))).1
  rw [Nat.zero_max, Nat.sub_zero, List.nil_append] at found
  rw [found] at first
  rw [← map_fst_eventsFrom seq]
  exact List.mem_map_of_mem
    (List.mem_of_mem_take (List.mem_of_mem_head? first))

/-- A page has the events of the lines up to its new cursor, the last of which
is an event.  One without events has read all lines, and none of them is an
event. -/
theorem jobLogsEvents_eq {file : List UInt8} {seq maxBytes : Nat}
    {response : EventsResponse}
    (answer : jobLogsEvents parse file seq maxBytes = some response) :
    (response.events ≠ [] ∧ ∃ count before line,
        response.seq = seq + count ∧
        seq + count ≤ (readlineLines (Utf8.decode file)).length ∧
        ((readlineLines (Utf8.decode file)).drop seq).take count =
          before ++ [line] ∧ (parse line).isSome = true ∧
        (((readlineLines (Utf8.decode file)).drop seq).take count).filterMap
          parse = response.events) ∨
      (response.events = [] ∧
        ((readlineLines (Utf8.decode file)).drop seq).filterMap parse = [] ∧
        response.seq =
          max seq (readlineLines (Utf8.decode file)).length) := by
  unfold jobLogsEvents readEventsPage at answer
  rw [Option.map_eq_some_iff] at answer
  rcases answer with ⟨out, done, rfl⟩
  generalize readlineLines (Utf8.decode file) = lines at done ⊢
  have some : ([] : List (JsValue × Nat)).length <
      max 1 (maxBytes / 256) + 1 := Nat.succ_pos _
  rcases @scanLines_eq parse seq (max 1 (maxBytes / 256) + 1) 0 [] some lines
    with ⟨found, all⟩
  rw [Nat.zero_max, Nat.sub_zero, List.nil_append] at found all
  rw [found] at done
  rcases selectEvents_eq done with ⟨taken, more, split, same, place, begins⟩
  rw [List.nil_append] at same
  dsimp only
  cases last : taken.getLast? with
  | none =>
    have nothing : taken = [] := List.getLast?_eq_none_iff.mp last
    subst nothing
    have noItems := of_not_not fun items => begins rfl items rfl
    have noEvents : eventsFrom parse seq (lines.drop seq) = [] := by
      cases events : eventsFrom parse seq (lines.drop seq) with
      | nil => rfl
      | cons first rest =>
        rw [events, List.take_succ_cons] at noItems
        cases noItems
    have scanned := all (by rw [noEvents]; exact some)
    have empty : out.1 = [] := same
    refine Or.inr ⟨empty, ?_, ?_⟩
    · rw [← map_fst_eventsFrom seq, noEvents]
      rfl
    · rw [if_neg (not_not.mpr empty), scanned]
      split
      · omega
      · omega
  | some final =>
    have whole : eventsFrom parse seq (lines.drop seq) =
        taken ++ (more ++ (eventsFrom parse seq (lines.drop seq)).drop
          (max 1 (maxBytes / 256) + 1)) := by
      rw [← List.append_assoc, ← split, List.take_append_drop]
    rcases eventsFrom_taken whole last with
      ⟨count, before, line, behind, short, ends, isEvent, events⟩
    have notEmpty : out.1 ≠ [] := by
      rw [same]
      intro none
      rw [List.map_eq_nil_iff] at none
      rw [none] at last
      cases last
    refine Or.inl ⟨notEmpty, count, before, line, ?_, ?_, ends, isEvent, ?_⟩
    · rw [if_pos notEmpty, place, last]
      exact behind
    · rw [List.length_drop] at short
      have positive : count ≠ 0 := by
        rintro rfl
        rw [List.take_zero] at events
        exact notEmpty (same.trans events.symm)
      omega
    · rw [events, same]

end Pages

/-! ## Events -/

section Events

variable (safeParse : JsValue → Option JsValue)

/-- An event of the schema: an object that is read from its text as it was
written, and that the schema gives back. -/
structure JobEvent where
  members : List (JsString × JsValue)
  distinct : (JsValue.object members).Distinct
  kept : stored (.object members) = .object members
  accepted : safeParse (.object members) = some (.object members)

variable {safeParse}

def JobEvent.value (event : JobEvent safeParse) : JsValue :=
  .object event.members

/-- `JSON.stringify(event)`. -/
def JobEvent.text (event : JobEvent safeParse) : List Char :=
  (jsonStringify event.value).getD []

/-- No character of the text ends a line. -/
def JobEvent.Unbroken (event : JobEvent safeParse) : Prop :=
  '\u2028' ∉ event.text ∧ '\u2029' ∉ event.text

instance (event : JobEvent safeParse) : Decidable event.Unbroken :=
  inferInstanceAs (Decidable (_ ∧ _))

theorem JobEvent.stringify (event : JobEvent safeParse) :
    jsonStringify event.value = some event.text := rfl

theorem JobEvent.text_braces (event : JobEvent safeParse) :
    ∃ body, event.text = '{' :: body ++ ['}'] :=
  ⟨[','].intercalate (memberTexts event.members), rfl⟩

theorem JobEvent.text_ne_nil (event : JobEvent safeParse) :
    event.text ≠ [] := by
  rcases event.text_braces with ⟨body, shape⟩
  rw [shape]
  exact List.cons_ne_nil _ _

theorem JobEvent.clean_text {event : JobEvent safeParse}
    (unbroken : event.Unbroken) : Clean event.text := by
  intro char inside
  have printed := printed_stringify event.stringify char inside
  unfold isLineEnding
  rw [Bool.or_eq_false_iff, Bool.or_eq_false_iff, Bool.or_eq_false_iff,
    decide_eq_false_iff_not, decide_eq_false_iff_not,
    decide_eq_false_iff_not, decide_eq_false_iff_not]
  refine ⟨⟨⟨?_, ?_⟩, ?_⟩, ?_⟩
  · rintro rfl
    exact absurd printed (by decide)
  · rintro rfl
    exact absurd printed (by decide)
  · rintro rfl
    exact unbroken.1 inside
  · rintro rfl
    exact unbroken.2 inside

theorem JobEvent.jsonParse_text (event : JobEvent safeParse) :
    jsonParse event.text = some event.value := by
  have read := jsonParse_stringify event.distinct event.stringify
  rw [event.kept] at read
  exact read

/-- A whole line of an event is read as the event. -/
theorem JobEvent.parse_text (event : JobEvent safeParse) :
    parseJobEventLine safeParse event.text = some event.value := by
  rcases event.text_braces with ⟨body, shape⟩
  have trimmed : trim event.text = event.text := by
    have none := @Json.trim_object [] body [] nofun nofun
    rwa [List.nil_append, ← shape] at none
  unfold parseJobEventLine
  rw [trimmed, if_neg event.text_ne_nil, event.jsonParse_text]
  exact event.accepted

/-- The beginning of a line of an event is not read as an event. -/
theorem JobEvent.parse_torn (event : JobEvent safeParse)
    {front back mark : List Char} (cut : event.text = front ++ back)
    (torn : back ≠ [])
    (marked : mark = [] ∨ mark = [Utf8.replacement]) :
    parseJobEventLine safeParse (front ++ mark) = none := by
  rcases event.text_braces with ⟨body, shape⟩
  have parsed := event.jsonParse_text
  unfold jsonParse at parsed
  rw [Option.map_eq_some_iff] at parsed
  rcases parsed with ⟨value, whole, _⟩
  rw [shape] at whole cut
  have nothing := Json.parse_torn whole cut torn marked
  unfold parseJobEventLine jsonParse
  rw [nothing]
  split <;> rfl

end Events

/-! ## Appending and following -/

section Following

variable (safeParse : JsValue → Option JsValue)

/-- The file, the bytes of the append under way that are not written yet, the
events appended so far, and what a caller that follows the cursor has seen. -/
structure Following where
  file : List UInt8
  pending : List UInt8
  appended : List (JobEvent safeParse)
  seq : Nat
  returned : List JsValue

inductive FollowingStep where
  /-- `appendEvent` begins. -/
  | append (event : JobEvent safeParse)
  /-- The file has a line that is no event. -/
  | malformed (line : List Char)
  /-- So many bytes of the append are written. -/
  | write (count : Nat)
  /-- A call of `job_logs`; an error changes nothing. -/
  | read (maxBytes : Nat)

variable {safeParse}

/-- A call with the cursor of the caller. -/
def Following.read (state : Following safeParse) (maxBytes : Nat) :
    Following safeParse :=
  match jobLogsEvents (parseJobEventLine safeParse) state.file state.seq
      maxBytes with
  | none => state
  | some response =>
    { state with
      seq := response.seq
      returned := state.returned ++ response.events }

def Following.step (state : Following safeParse) :
    FollowingStep safeParse → Option (Following safeParse)
  | .append event =>
    if state.pending = [] then
      some { state with
        pending := Utf8.encode (event.text ++ ['\n'])
        appended := state.appended ++ [event] }
    else
      none
  | .malformed line =>
    if state.pending = [] then
      some { state with
        file := state.file ++ Utf8.encode (line ++ ['\n']) }
    else
      none
  | .write count =>
    if state.pending = [] then
      none
    else
      some { state with
        file := state.file ++ state.pending.take count
        pending := state.pending.drop count }
  | .read maxBytes => some (state.read maxBytes)

variable (safeParse) in
def followingMachine : Machine (Following safeParse) (FollowingStep safeParse)
    where
  initial state := state = ⟨[], [], [], 0, []⟩
  step := Following.step

/-- The lines a call sees. -/
def Following.lines (state : Following safeParse) : List (List Char) :=
  readlineLines (Utf8.decode state.file)

/-- Events have no separator of lines or paragraphs, a malformed line is one
line that is no event, and no call that finds no event behind its cursor sees
an unterminated line there. -/
def Following.Orderly (state : Following safeParse) :
    FollowingStep safeParse → Prop
  | .append event => event.Unbroken
  | .malformed line =>
    Clean line ∧ parseJobEventLine safeParse line = none
  | .write _ => True
  | .read _ =>
    (∃ line ∈ state.lines.drop state.seq,
      (parseJobEventLine safeParse line).isSome = true) ∨
    state.lines.length ≤ state.seq ∨
    Lines.pendingText (Utf8.decode state.file) = []

/-- So many calls, one after the other. -/
def Following.readTimes (maxBytes : Nat) :
    Nat → Following safeParse → Following safeParse
  | 0, state => state
  | count + 1, state =>
    Following.readTimes maxBytes count (state.read maxBytes)

/-- What was returned are the first events in their order, and once all is
written, calls with enough bytes for each event return the others. -/
structure Following.Lossless (state : Following safeParse) : Prop where
  inOrder : state.returned <+: state.appended.map JobEvent.value
  complete : state.pending = [] → ∀ maxBytes,
    (∀ event ∈ state.appended, eventBytes event.value ≤ maxBytes) →
      (state.readTimes maxBytes state.appended.length).returned =
        state.appended.map JobEvent.value

/-! ## What a call sees of an append under way -/

variable {done : List (List Char)}

/-- The lines that a call sees when an event is partly written: the lines
before it, and the part of its line, if there is one. -/
theorem lines_of_front (clean : ∀ line ∈ done, Clean line)
    {event : JobEvent safeParse} (unbroken : event.Unbroken)
    {file front back : List UInt8}
    (layout : file = Utf8.encode (Lines.joinRecords done) ++ front)
    (cut : front ++ back = Utf8.encode (event.text ++ ['\n']))
    (unfinished : back ≠ []) :
    (front = [] ∧ readlineLines (Utf8.decode file) = done) ∨
      (readlineLines (Utf8.decode file) = done ++ [event.text] ∧
        front = Utf8.encode event.text) ∨
      ∃ torn, readlineLines (Utf8.decode file) = done ++ [torn] ∧
        parseJobEventLine safeParse torn = none ∧
        Lines.pendingText (Utf8.decode file) ≠ [] := by
  have cleanText := JobEvent.clean_text unbroken
  have read : Utf8.decode file =
      Lines.joinRecords done ++ Utf8.decode front := by
    rw [layout, Utf8.decode_encode_append]
  -- a nonempty part without ends of lines is the last line
  have last : ∀ torn : List Char, Utf8.decode front = torn → torn ≠ [] →
      Clean torn → readlineLines (Utf8.decode file) = done ++ [torn] ∧
        Lines.pendingText (Utf8.decode file) = torn := by
    intro torn isTorn some cleanTorn
    have noNewline : '\n' ∉ torn := fun inside =>
      absurd (cleanTorn _ inside) (by decide)
    have records : ∀ line ∈ done, '\n' ∉ line := fun line member inside =>
      absurd (clean line member _ inside) (by decide)
    rw [read, isTorn, readlineLines_records clean,
      readlineLines_last cleanTorn some, Lines.pendingText,
      Lines.splitLines_joinRecords records noNewline]
    exact ⟨rfl, rfl⟩
  rcases Utf8.decode_front cut.symm with ⟨chars, more, split, shape⟩
  have moreEnds : more ≠ [] → ∃ middle, event.text = chars ++ middle ∧
      more = middle ++ ['\n'] := by
    intro some
    rcases List.eq_nil_or_concat more with none | ⟨middle, final, rfl⟩
    · exact absurd none some
    · rw [List.concat_eq_append, ← List.append_assoc] at split
      rcases List.append_inj' split rfl with ⟨text, newline⟩
      exact ⟨middle, text, by rw [List.concat_eq_append, newline]⟩
  rcases shape with ⟨decoded, whole⟩ | ⟨decoded, char, next, long⟩
  · have some : more ≠ [] := by
      rintro rfl
      rw [List.append_nil] at split
      rw [split, ← whole] at cut
      exact unfinished (List.append_right_eq_self.mp cut)
    rcases moreEnds some with ⟨middle, text, _⟩
    by_cases empty : chars = []
    · subst empty
      have nothing : front = [] := whole
      refine Or.inl ⟨nothing, ?_⟩
      have written := readlineLines_records clean []
      rw [List.append_nil] at written
      rw [read, nothing, Utf8.decode_nil, List.append_nil, written]
      exact List.append_nil done
    · have cleanPart : Clean chars := fun char inside =>
        cleanText char (text ▸ List.mem_append_left _ inside)
      rcases last chars decoded empty cleanPart with ⟨lines, pending⟩
      by_cases all : middle = []
      · rw [all, List.append_nil] at text
        rw [text]
        exact Or.inr (Or.inl ⟨lines, whole⟩)
      · have torn := event.parse_torn text all (Or.inl rfl)
        rw [List.append_nil] at torn
        refine Or.inr (Or.inr ⟨chars, lines, torn, ?_⟩)
        rw [pending]
        exact empty
  · have some : more ≠ [] := by
      rintro rfl
      cases next
    rcases moreEnds some with ⟨middle, text, ending⟩
    have torn : middle ≠ [] := by
      rintro rfl
      rw [ending] at next
      cases next
      exact absurd long (by decide)
    have cleanPart : Clean (chars ++ [Utf8.replacement]) := by
      intro char inside
      rcases List.mem_append.mp inside with part | mark
      · exact cleanText char (text ▸ List.mem_append_left _ part)
      · rw [List.mem_singleton.mp mark]
        decide
    have nonempty : chars ++ [Utf8.replacement] ≠ [] :=
      List.append_ne_nil_of_right_ne_nil _ (List.cons_ne_nil _ _)
    rcases last _ decoded nonempty cleanPart with ⟨lines, pending⟩
    refine Or.inr (Or.inr ⟨_, lines,
      event.parse_torn text torn (Or.inr rfl), ?_⟩)
    rw [pending]
    exact nonempty

/-! ## The invariant -/

/-- The lines of the file that are done, and the line of the append under way
with its part that is written. -/
def Following.Written (state : Following safeParse)
    (done cur : List (List Char)) : Prop :=
  (cur = [] ∧ state.pending = [] ∧
    state.file = Utf8.encode (Lines.joinRecords done) ∧
    state.seq ≤ done.length) ∨
  ∃ (event : JobEvent safeParse) (front : List UInt8),
    cur = [event.text] ∧ event.Unbroken ∧ state.pending ≠ [] ∧
    state.file = Utf8.encode (Lines.joinRecords done) ++ front ∧
    front ++ state.pending = Utf8.encode (event.text ++ ['\n']) ∧
    (state.seq ≤ done.length ∨
      state.seq = done.length + 1 ∧ front = Utf8.encode event.text)

/-- The caller has the events of the lines before its cursor. -/
structure Following.Follows (state : Following safeParse)
    (done cur : List (List Char)) : Prop where
  clean : ∀ line ∈ done, Clean line
  returned : state.returned = ((done ++ cur).take state.seq).filterMap
    (parseJobEventLine safeParse)
  appended : state.appended.map JobEvent.value =
    (done ++ cur).filterMap (parseJobEventLine safeParse)
  written : state.Written done cur

/-- The same file with the caller further on. -/
def Following.moved (state : Following safeParse) (seq : Nat)
    (events : List JsValue) : Following safeParse :=
  { state with seq := seq, returned := state.returned ++ events }

variable {state : Following safeParse} {cur : List (List Char)}

theorem Following.Written.moved (written : state.Written done cur) {seq : Nat}
    (inside : seq ≤ done.length) (events : List JsValue) :
    (state.moved seq events).Written done cur := by
  rcases written with ⟨none, pending, file, _⟩ |
    ⟨event, front, is, unbroken, some, file, cut, _⟩
  · exact Or.inl ⟨none, pending, file, inside⟩
  · exact Or.inr ⟨event, front, is, unbroken, some, file, cut,
      Or.inl inside⟩

/-- The lines that a call sees, and where its cursor is among them. -/
theorem Following.Follows.sees (follows : state.Follows done cur) :
    (state.lines = done ∧ state.seq ≤ done.length) ∨
      (∃ event : JobEvent safeParse, cur = [event.text] ∧
        state.lines = done ++ cur ∧ state.seq ≤ done.length + 1 ∧
        ∀ events, (state.moved (done.length + 1) events).Written done cur) ∨
      ∃ torn, state.lines = done ++ [torn] ∧ state.seq ≤ done.length ∧
        parseJobEventLine safeParse torn = none ∧
        Lines.pendingText (Utf8.decode state.file) ≠ [] := by
  unfold Following.lines
  rcases follows.written with ⟨rfl, _, file, seq⟩ |
    ⟨event, front, rfl, unbroken, some, file, cut, seq⟩
  · have written := readlineLines_records follows.clean []
    rw [List.append_nil] at written
    rw [file, Utf8.decode_encode, written]
    exact Or.inl ⟨List.append_nil done, seq⟩
  · rcases lines_of_front follows.clean unbroken file cut some with
      ⟨rfl, lines⟩ | ⟨lines, whole⟩ | ⟨torn, lines, bad, pending⟩
    · refine Or.inl ⟨lines, seq.resolve_right ?_⟩
      rintro ⟨_, whole⟩
      have text := Utf8.decode_encode event.text
      rw [← whole] at text
      exact event.text_ne_nil text.symm
    · exact Or.inr (Or.inl ⟨event, rfl, lines, by omega, fun events =>
        Or.inr ⟨event, front, rfl, unbroken, some, file, cut,
          Or.inr ⟨rfl, whole⟩⟩⟩)
    · refine Or.inr (Or.inr ⟨torn, lines, seq.resolve_right ?_, bad, pending⟩)
      rintro ⟨_, whole⟩
      have read := Utf8.decode_encode_append (Lines.joinRecords done) front
      rw [← file, whole, Utf8.decode_encode] at read
      have records := readlineLines_records follows.clean event.text
      rw [readlineLines_last (JobEvent.clean_text unbroken)
        event.text_ne_nil, ← read, lines] at records
      have same := List.append_cancel_left records
      rw [(List.cons.inj same).1, event.parse_text] at bad
      cases bad

theorem take_drop_append {Item : Type} {first second : List Item}
    {start count : Nat} (inside : start + count ≤ first.length) :
    ((first ++ second).drop start).take count =
      (first.drop start).take count := by
  rw [List.drop_append_of_le_length (by omega),
    List.take_append_of_le_length]
  rw [List.length_drop]
  omega

/-- A caller that moves on by some lines has their events too. -/
theorem Following.Follows.moved (follows : state.Follows done cur)
    {count : Nat} {events : List JsValue}
    (written : (state.moved (state.seq + count) events).Written done cur)
    (found : (((done ++ cur).drop state.seq).take count).filterMap
      (parseJobEventLine safeParse) = events) :
    (state.moved (state.seq + count) events).Follows done cur where
  clean := follows.clean
  returned := by
    have split : (state.moved (state.seq + count) events).returned =
        state.returned ++ events := rfl
    have seq : (state.moved (state.seq + count) events).seq =
        state.seq + count := rfl
    rw [split, seq, follows.returned, List.take_add, List.filterMap_append,
      found]
  appended := follows.appended
  written := written

/-- A call that meets the condition keeps the invariant. -/
theorem Following.Follows.read (follows : state.Follows done cur)
    {maxBytes : Nat} (orderly : state.Orderly (.read maxBytes)) :
    (state.read maxBytes).Follows done cur := by
  unfold Following.read
  cases answer : jobLogsEvents (parseJobEventLine safeParse) state.file
      state.seq maxBytes with
  | none => exact follows
  | some response =>
    have lines : readlineLines (Utf8.decode state.file) = state.lines := rfl
    have goal : ({ state with
        seq := response.seq
        returned := state.returned ++ response.events } :
          Following safeParse) =
        state.moved response.seq response.events := rfl
    dsimp only
    rw [goal]
    rcases jobLogsEvents_eq answer with
      ⟨_, count, before, line, seq, short, ends, isEvent, events⟩ |
        ⟨none, noEvent, seq⟩
    · -- the page has events
      rw [lines] at short ends events
      have next : (state.moved (state.seq + count) response.events).Follows
          done cur := by
        rcases follows.sees with ⟨all, _⟩ | ⟨event, _, all, _, written⟩ |
          ⟨torn, all, _, bad, _⟩
        · rw [all] at short events
          exact follows.moved (follows.written.moved short _)
            ((congrArg _ (take_drop_append short)).trans events)
        · rw [all] at short events
          refine follows.moved ?_ events
          by_cases further : state.seq + count ≤ done.length
          · exact follows.written.moved further _
          · have final : state.seq + count = done.length + 1 := by
              rw [List.length_append] at short
              have one : cur.length = 1 := by
                rename_i is _
                rw [is]
                rfl
              omega
            rw [final]
            exact written _
        · rw [all] at short events ends
          rw [List.length_append, List.length_singleton] at short
          have further : state.seq + count ≤ done.length := by
            by_contra beyond
            -- the torn line would be the last line of the page
            have whole : ((done ++ [torn]).drop state.seq).take count =
                (done.drop state.seq) ++ [torn] := by
              rw [List.drop_append_of_le_length (by omega)]
              refine List.take_of_length_le ?_
              rw [List.length_append, List.length_drop,
                List.length_singleton]
              omega
            rw [whole] at ends
            have same := (List.append_inj' ends rfl).2
            rw [← (List.cons.inj same).1, bad] at isEvent
            cases isEvent
          exact follows.moved (follows.written.moved further _)
            ((congrArg _ ((take_drop_append further).trans
              (take_drop_append further).symm)).trans events)
      rw [seq]
      exact next
    · -- the page has none
      rw [lines] at noEvent seq
      have eventless : ¬ ∃ line ∈ state.lines.drop state.seq,
          (parseJobEventLine safeParse line).isSome = true := by
        rintro ⟨line, inside, isEvent⟩
        rw [List.filterMap_eq_nil_iff] at noEvent
        rw [noEvent line inside] at isEvent
        cases isEvent
      have still : state.lines.length ≤ state.seq →
          (state.moved response.seq response.events).Follows done cur := by
        intro behind
        have same : response.seq = state.seq + 0 := by omega
        have written : (state.moved (state.seq + 0)
            response.events).Written done cur := follows.written
        rw [same]
        exact follows.moved written (by rw [none, List.take_zero]; rfl)
      rcases orderly with found | behind | terminated
      · exact absurd found eventless
      · exact still behind
      · rcases follows.sees with ⟨all, inside⟩ | ⟨event, is, all, _⟩ |
          ⟨torn, _, _, _, pending⟩
        · rw [all] at noEvent seq
          have same : response.seq =
              state.seq + (done.length - state.seq) := by omega
          have reach : state.seq + (done.length - state.seq) ≤
              done.length := by omega
          rw [same]
          refine follows.moved (follows.written.moved reach _) ?_
          rw [take_drop_append reach, List.take_of_length_le, noEvent, none]
          rw [List.length_drop]
        · refine still ?_
          by_contra inside
          rw [all, is, List.length_append, List.length_singleton] at inside
          refine eventless ⟨event.text, ?_, ?_⟩
          · rw [all, is, List.drop_append_of_le_length (by omega)]
            exact List.mem_append_right _ List.mem_cons_self
          · rw [event.parse_text]
            rfl
        · exact absurd terminated pending

/-- While nothing is pending, the file has whole lines. -/
theorem Following.Follows.idle (follows : state.Follows done cur)
    (idle : state.pending = []) :
    cur = [] ∧ state.file = Utf8.encode (Lines.joinRecords done) ∧
      state.seq ≤ done.length := by
  rcases follows.written with ⟨none, _, file, seq⟩ |
    ⟨_, _, _, _, some, _⟩
  · exact ⟨none, file, seq⟩
  · exact absurd idle some

theorem encode_joinRecords_concat (done : List (List Char))
    (line : List Char) :
    Utf8.encode (Lines.joinRecords (done ++ [line])) =
      Utf8.encode (Lines.joinRecords done) ++
        Utf8.encode (line ++ ['\n']) := by
  rw [Lines.joinRecords_append, Utf8.encode_append]
  rfl

/-- One step that meets the condition keeps the invariant. -/
theorem Following.Follows.step {next : Following safeParse}
    (follows : state.Follows done cur) {label : FollowingStep safeParse}
    (orderly : state.Orderly label) (step : state.step label = some next) :
    ∃ done cur, next.Follows done cur := by
  cases label with
  | append event =>
    rw [Following.step] at step
    split at step
    · rename_i idle
      cases step
      rcases follows.idle idle with ⟨rfl, file, seq⟩
      have text := event.parse_text
      have pending : Utf8.encode (event.text ++ ['\n']) ≠ [] := by
        rw [Utf8.encode_append]
        exact List.append_ne_nil_of_right_ne_nil _ (by decide)
      refine ⟨done, [event.text], follows.clean, ?_, ?_, Or.inr
        ⟨event, [], rfl, orderly, pending, ?_, rfl, Or.inl seq⟩⟩
      · have returned := follows.returned
        rw [List.append_nil] at returned
        rw [List.take_append_of_le_length seq]
        exact returned
      · have appended := follows.appended
        rw [List.append_nil] at appended
        rw [List.map_append, appended, List.filterMap_append,
          List.filterMap_cons_some text]
        rfl
      · rw [List.append_nil]
        exact file
    · cases step
  | malformed line =>
    rw [Following.step] at step
    split at step
    · rename_i idle
      cases step
      rcases follows.idle idle with ⟨rfl, file, seq⟩
      have returned := follows.returned
      have appended := follows.appended
      rw [List.append_nil] at returned appended
      refine ⟨done ++ [line], [], ?_, ?_, ?_, Or.inl
        ⟨rfl, idle, ?_, ?_⟩⟩
      · intro other inside
        rcases List.mem_append.mp inside with old | new
        · exact follows.clean other old
        · rw [List.mem_singleton.mp new]
          exact orderly.1
      · rw [List.append_nil, List.take_append_of_le_length seq]
        exact returned
      · rw [List.append_nil, List.filterMap_append,
          List.filterMap_cons_none orderly.2, List.filterMap_nil,
          List.append_nil]
        exact appended
      · rw [encode_joinRecords_concat, file]
      · rw [List.length_append]
        exact Nat.le_add_right_of_le seq
    · cases step
  | write count =>
    rw [Following.step] at step
    split at step
    · cases step
    · rename_i busy
      cases step
      rcases follows.written with ⟨_, idle, _⟩ |
        ⟨event, front, rfl, unbroken, _, file, cut, seq⟩
      · exact absurd idle busy
      · by_cases over_ : state.pending.drop count = []
        · have all : state.pending.take count = state.pending := by
            have split := List.take_append_drop count state.pending
            rwa [over_, List.append_nil] at split
          refine ⟨done ++ [event.text], [], ?_, ?_, ?_, Or.inl
            ⟨rfl, over_, ?_, ?_⟩⟩
          · intro other inside
            rcases List.mem_append.mp inside with old | new
            · exact follows.clean other old
            · rw [List.mem_singleton.mp new]
              exact JobEvent.clean_text unbroken
          · rw [List.append_nil]
            exact follows.returned
          · rw [List.append_nil]
            exact follows.appended
          · rw [encode_joinRecords_concat, all, file, List.append_assoc, cut]
          · rw [List.length_append, List.length_singleton]
            dsimp only
            omega
        · refine ⟨done, [event.text], follows.clean, follows.returned,
            follows.appended, Or.inr ⟨event,
              front ++ state.pending.take count, rfl, unbroken, over_, ?_, ?_,
              ?_⟩⟩
          · rw [file, List.append_assoc]
          · rw [List.append_assoc, List.take_append_drop, cut]
          · rcases seq with inside | ⟨beyond, whole⟩
            · exact Or.inl inside
            · -- only the newline is left, so nothing of it was written
              have rest : state.pending = Utf8.encode ['\n'] := by
                rw [whole, Utf8.encode_append] at cut
                exact List.append_cancel_left cut
              have none : state.pending.take count = [] := by
                cases count with
                | zero => exact List.take_zero
                | succ count =>
                  rw [rest] at over_
                  exact absurd List.drop_nil over_
              exact Or.inr ⟨beyond, by rw [none, List.append_nil, whole]⟩
  | read maxBytes =>
    rw [Following.step] at step
    cases step
    exact ⟨done, cur, follows.read orderly⟩

/-! ## Progress -/

/-- Once all is written, a call returns an event unless all are returned. -/
theorem Following.Follows.read_returns (follows : state.Follows done [])
    (idle : state.pending = []) {maxBytes : Nat}
    (fits : ∀ event ∈ state.appended, eventBytes event.value ≤ maxBytes)
    (more : state.returned ≠ state.appended.map JobEvent.value) :
    state.returned.length < (state.read maxBytes).returned.length := by
  rcases follows.idle idle with ⟨_, file, _⟩
  have lines : readlineLines (Utf8.decode state.file) = done := by
    have written := readlineLines_records follows.clean []
    rw [List.append_nil] at written
    rw [file, Utf8.decode_encode, written]
    exact List.append_nil done
  have appended := follows.appended
  have returned := follows.returned
  rw [List.append_nil] at appended returned
  have small : ∀ event ∈ (done.drop state.seq).filterMap
      (parseJobEventLine safeParse), eventBytes event ≤ maxBytes := by
    intro event inside
    have known := ((List.drop_sublist state.seq done).filterMap
      (parseJobEventLine safeParse)).subset inside
    rw [← appended] at known
    rcases List.mem_map.mp known with ⟨original, member, rfl⟩
    exact fits original member
  have answered := @jobLogsEvents_isSome (parseJobEventLine safeParse)
    state.file state.seq maxBytes (by rw [lines]; exact small)
  rcases Option.isSome_iff_exists.mp answered with ⟨response, answer⟩
  have grown : (state.read maxBytes).returned =
      state.returned ++ response.events := by
    unfold Following.read
    rw [answer]
  rw [grown, List.length_append]
  rcases jobLogsEvents_eq answer with ⟨some, _⟩ | ⟨_, noEvent, _⟩
  · have length := List.length_pos_of_ne_nil some
    omega
  · rw [lines] at noEvent
    refine absurd ?_ more
    have split := congrArg (List.filterMap (parseJobEventLine safeParse))
      (List.take_append_drop state.seq done)
    rw [List.filterMap_append, noEvent, List.append_nil] at split
    rw [returned, appended, split]

theorem Following.read_returned (state : Following safeParse)
    (maxBytes : Nat) :
    state.returned.length ≤ (state.read maxBytes).returned.length ∧
      (state.read maxBytes).pending = state.pending ∧
      (state.read maxBytes).appended = state.appended := by
  unfold Following.read
  split
  · exact ⟨le_rfl, rfl, rfl⟩
  · refine ⟨?_, rfl, rfl⟩
    rw [List.length_append]
    exact Nat.le_add_right _ _

theorem Following.Follows.inOrder (follows : state.Follows done cur) :
    state.returned <+: state.appended.map JobEvent.value := by
  rw [follows.returned, follows.appended]
  exact (List.take_prefix _ _).filterMap _

/-- Once all is written, as many calls as events are missing return them. -/
theorem Following.Follows.readTimes {maxBytes : Nat} (count : Nat)
    (follows : state.Follows done []) (idle : state.pending = [])
    (fits : ∀ event ∈ state.appended, eventBytes event.value ≤ maxBytes)
    (enough : state.appended.length ≤ state.returned.length + count) :
    (state.readTimes maxBytes count).returned =
      state.appended.map JobEvent.value := by
  induction count generalizing state with
  | zero =>
    refine follows.inOrder.eq_of_length_le ?_
    rw [List.length_map]
    exact enough
  | succ count inductionHypothesis =>
    rcases state.read_returned maxBytes with ⟨grows, pending, appended⟩
    have whole : Lines.pendingText (Utf8.decode state.file) = [] := by
      rcases follows.idle idle with ⟨_, file, _⟩
      have records : ∀ line ∈ done, '\n' ∉ line := fun line member inside =>
        absurd (follows.clean line member _ inside) (by decide)
      have split := Lines.splitLines_joinRecords records
        (List.not_mem_nil (a := '\n'))
      rw [List.append_nil] at split
      rw [file, Utf8.decode_encode, Lines.pendingText, split]
    have orderly : state.Orderly (.read maxBytes) := Or.inr (Or.inr whole)
    have next := follows.read orderly
    rw [← appended]
    refine inductionHypothesis next (pending.trans idle) ?_ ?_
    · rw [appended]
      exact fits
    · rw [appended]
      by_cases all : state.returned = state.appended.map JobEvent.value
      · have length := congrArg List.length all
        rw [List.length_map] at length
        omega
      · have more := follows.read_returns idle fits all
        omega

/-- In every run whose steps meet the condition, the events come once and in
order, and all of them in the end. -/
theorem following_lossless {state : Following safeParse}
    (reachable : (followingMachine safeParse).Reachable Following.Orderly
      state) : state.Lossless := by
  have follows : ∃ done cur, state.Follows done cur := by
    refine @Machine.Reachable.invariant _ _ _ _
      (fun state => ∃ done cur, state.Follows done cur) ?_ ?_ _ reachable
    · rintro start rfl
      exact ⟨[], [], nofun, rfl, rfl, Or.inl ⟨rfl, rfl, rfl, le_rfl⟩⟩
    · rintro state label next ⟨done, cur, follows⟩ orderly step
      exact follows.step orderly step
  rcases follows with ⟨done, cur, follows⟩
  refine ⟨follows.inOrder, ?_⟩
  intro idle maxBytes fits
  rcases follows.idle idle with ⟨rfl, _⟩
  exact follows.readTimes _ idle fits (Nat.le_add_left _ _)

end Following

/-! ## Runs -/

/-- The event of a workspace that was made. -/
def materializedEvent : JobEvent some where
  members :=
    [(jsText "type", .string (jsText "materialized")),
      (jsText "sequence", .number (.finite false ⟨1, 0, by decide⟩)),
      (jsText "created_at", .string (jsText "2024-01-01T00:00:00.000Z")),
      (jsText "job_id", .string (jsText "job_1")),
      (jsText "attempt_id", .string (jsText "att_1")),
      (jsText "workspace", .string (jsText "w"))]
  distinct := by
    refine (everywhere_object _).mpr ⟨?_, ?_⟩
    · change [jsText "type", jsText "sequence", jsText "created_at",
        jsText "job_id", jsText "attempt_id", jsText "workspace"].Nodup
      decide +kernel
    intro member inside
    simp only [List.mem_cons, List.not_mem_nil, or_false] at inside
    rcases inside with rfl | rfl | rfl | rfl | rfl | rfl
    all_goals exact trivial
  kept := rfl
  accepted := rfl

theorem following_lossless_written :
    ∃ state : Following some,
      (followingMachine some).Reachable Following.Orderly state ∧
        state.appended.length = 1 ∧ state.pending = [] ∧ state.Lossless := by
  have start : (followingMachine some).Reachable Following.Orderly
      ⟨[], [], [], 0, []⟩ := Machine.Reachable.start rfl
  have unbroken : materializedEvent.Unbroken := by decide +kernel
  have begun := @Machine.Reachable.next _ _ _ _ _ _
    (FollowingStep.append materializedEvent) start unbroken rfl
  have written := @Machine.Reachable.next _ _ _ _ _ _
    (FollowingStep.write 400) begun trivial rfl
  exact ⟨_, written, rfl, by decide +kernel, following_lossless written⟩

/-- A call that sees the first byte of the only event skips its line. -/
theorem following_loses :
    ∃ state : Following some,
      (followingMachine some).run ⟨[], [], [], 0, []⟩
          [.append materializedEvent, .write 1, .read 1000, .write 400] =
        some state ∧ ¬ state.Lossless := by
  have ran : ((followingMachine some).run ⟨[], [], [], 0, []⟩
      [.append materializedEvent, .write 1, .read 1000, .write 400]).map
        (fun state => (state.pending, state.appended.length,
          state.appended.all fun event => eventBytes event.value ≤ 1000,
          (state.readTimes 1000 state.appended.length).returned.length)) =
      some ([], 1, true, 0) := by
    decide +kernel
  rcases Option.map_eq_some_iff.mp ran with ⟨state, final, seen⟩
  rw [Prod.mk.injEq, Prod.mk.injEq, Prod.mk.injEq] at seen
  rcases seen with ⟨idle, one, small, nothing⟩
  refine ⟨state, final, ?_⟩
  intro lossless
  have all := lossless.complete idle 1000 fun event inside =>
    of_decide_eq_true (List.all_eq_true.mp small event inside)
  have length := congrArg List.length all
  rw [List.length_map, nothing, one] at length
  cases length

end Rbo.Controller.EventPaging
