import Rbo.Foundation.Framing
import Rbo.Foundation.Run

/-!
# The frames of the Windows helper

The helper runs a command, and two of its threads pump the output of the
command into its own standard output, as frames with a tag and a length.  A
frame is written by three calls.  When both threads have ended, the main
thread writes the response as a control frame.

`WindowsHelperFrameReader` reads the frames again from chunks of the stream.
What arrives is what was sent, as long as no thread writes between the calls
of another thread's frame.
-/

namespace Rbo.Executor.WindowsFrames

open Rbo.Foundation

abbrev Bytes := List UInt8

/-! ## Frames -/

/-- Who writes frames: the two pumps and the main thread. -/
inductive Sender where
  | stdout
  | stderr
  | main
  deriving DecidableEq

/-- `TAG_STDOUT`, `TAG_STDERR` and `TAG_CONTROL`. -/
def Sender.tag : Sender → UInt8
  | .stdout => 0x01
  | .stderr => 0x02
  | .main => 0x03

/-- `len.to_le_bytes()` of the length as `u32`. -/
def lengthBytes (length : Nat) : Bytes :=
  [(length % 256).toUInt8, (length / 256 % 256).toUInt8,
    (length / 65536 % 256).toUInt8, (length / 16777216 % 256).toUInt8]

/-- `readUInt32LE`. -/
def readUInt32LE : Bytes → Nat
  | first :: second :: third :: fourth :: _ =>
    first.toNat + 256 * second.toNat + 65536 * third.toNat +
      16777216 * fourth.toNat
  | _ => 0

/-! ## The helper -/

/-- A thread: the calls left of the frame that it is writing, and the data of
the frames that it has still to write. -/
structure Writer where
  calls : List Bytes
  data : List Bytes
  deriving DecidableEq

/-- The helper process and what it wrote so far. -/
structure Helper where
  stdout : Writer
  stderr : Writer
  main : Writer
  output : Bytes
  deriving DecidableEq

def Helper.writer (helper : Helper) : Sender → Writer
  | .stdout => helper.stdout
  | .stderr => helper.stderr
  | .main => helper.main

def Helper.withWriter (helper : Helper) (sender : Sender) (writer : Writer) :
    Helper :=
  match sender with
  | .stdout => { helper with stdout := writer }
  | .stderr => { helper with stderr := writer }
  | .main => { helper with main := writer }

/-- Nothing is left to write. -/
def Writer.ended (writer : Writer) : Prop :=
  writer.calls = [] ∧ writer.data = []

instance (writer : Writer) : Decidable writer.ended :=
  inferInstanceAs (Decidable (_ ∧ _))

/-- The main thread joins the pumps before it writes. -/
def mayWrite (helper : Helper) : Sender → Bool
  | .main => helper.stdout.ended ∧ helper.stderr.ended
  | _ => true

/-- The next call of a thread; the first call of a frame follows the read that
gave its data. -/
def nextCall (sender : Sender) (writer : Writer) : Option (Bytes × Writer) :=
  match writer.calls, writer.data with
  | call :: calls, data => some (call, { calls, data })
  | [], [] => none
  | [], first :: data =>
    some ([sender.tag],
      { calls := [lengthBytes first.length, first], data })

/-- One call, made as a whole. -/
def step (helper : Helper) (sender : Sender) : Option Helper :=
  if mayWrite helper sender then
    (nextCall sender (helper.writer sender)).map fun call =>
      { helper.withWriter sender call.2 with
        output := helper.output ++ call.1 }
  else
    none

/-- What a read into the buffer of 4096 bytes gives; `stream_pipe` ends when
it gives nothing. -/
abbrev Chunk := { bytes : Bytes // 0 < bytes.length ∧ bytes.length ≤ 4096 }

/-- What the pumps read and the response that the main thread writes. -/
structure Sent where
  stdout : List Chunk
  stderr : List Chunk
  response : Bytes

/-- The data of the frames of a sender. -/
def Sent.data (sent : Sent) : Sender → List Bytes
  | .stdout => sent.stdout.map Subtype.val
  | .stderr => sent.stderr.map Subtype.val
  | .main => [sent.response]

def start (sent : Sent) : Helper where
  stdout := { calls := [], data := sent.data .stdout }
  stderr := { calls := [], data := sent.data .stderr }
  main := { calls := [], data := sent.data .main }
  output := []

/-- The threads of the helper, writing in any order. -/
def machine (sent : Sent) : Machine Helper Sender where
  initial helper := helper = start sent
  step := step

/-- Every thread has written everything. -/
def Helper.done (helper : Helper) : Prop :=
  ∀ sender, (helper.writer sender).ended

/-! ## The reader -/

/-- The first frame of a buffer, if all of it is there. -/
def nextFrame (buffer : Bytes) : Option ((UInt8 × Bytes) × Bytes) :=
  match buffer with
  | [] => none
  | tag :: rest =>
    if rest.length < 4 then none
    else
      let length := readUInt32LE rest
      if rest.length < 4 + length then none
      else some ((tag, (rest.drop 4).take length), rest.drop (4 + length))

/-- `ParsedFrames`. -/
structure ParsedFrames where
  stdout : List Bytes
  stderr : List Bytes
  control : Option Bytes
  deriving DecidableEq

/-- The loop body of `append` for one frame; other tags are dropped. -/
def ParsedFrames.push (parsed : ParsedFrames) (frame : UInt8 × Bytes) :
    ParsedFrames :=
  if frame.1 = Sender.stdout.tag then
    { parsed with stdout := parsed.stdout ++ [frame.2] }
  else if frame.1 = Sender.stderr.tag then
    { parsed with stderr := parsed.stderr ++ [frame.2] }
  else if frame.1 = Sender.main.tag then
    { parsed with control := some frame.2 }
  else
    parsed

def ParsedFrames.empty : ParsedFrames where
  stdout := []
  stderr := []
  control := none

theorem readUInt32LE_lengthBytes {length : Nat} (short : length < 4294967296)
    (rest : Bytes) : readUInt32LE (lengthBytes length ++ rest) = length := by
  unfold lengthBytes
  simp only [List.cons_append, readUInt32LE, Nat.toUInt8_eq,
    UInt8.toNat_ofNat']
  omega

/-- The bytes of a frame that is written as a whole. -/
def frameBytes (frame : UInt8 × Bytes) : Bytes :=
  frame.1 :: (lengthBytes frame.2.length ++ frame.2)

/-- A whole frame at the front is read back. -/
theorem nextFrame_frameBytes {tag : UInt8} {data : Bytes}
    (short : data.length < 4294967296) (rest : Bytes) :
    nextFrame (frameBytes (tag, data) ++ rest) = some ((tag, data), rest) := by
  have read := readUInt32LE_lengthBytes short (data ++ rest)
  have four : (lengthBytes data.length).length = 4 := rfl
  simp only [frameBytes, List.cons_append, List.append_assoc, nextFrame,
    read, List.length_append, four]
  rw [if_neg (by omega), if_neg (by omega)]
  have tail : (lengthBytes data.length ++ (data ++ rest)).drop 4 =
      data ++ rest := List.drop_left' four
  rw [← List.drop_drop, tail, List.take_left, List.drop_left]

/-- A frame is cut off a buffer that holds its header and its data. -/
theorem nextFrame_eq_some {buffer : Bytes} {frame : UInt8 × Bytes}
    {rest : Bytes} :
    nextFrame buffer = some (frame, rest) ↔
      ∃ tail, buffer = frame.1 :: tail ∧ 4 + readUInt32LE tail ≤ tail.length ∧
        frame.2 = (tail.drop 4).take (readUInt32LE tail) ∧
        rest = tail.drop (4 + readUInt32LE tail) := by
  cases buffer with
  | nil => simp [nextFrame]
  | cons tag tail =>
    constructor
    · intro cut
      dsimp only [nextFrame] at cut
      split at cut
      · cases cut
      · split at cut
        · cases cut
        · rename_i whole
          cases cut
          exact ⟨tail, rfl, Nat.le_of_not_lt whole, rfl, rfl⟩
    · rintro ⟨found, same, whole, data, rfl⟩
      obtain ⟨rfl, rfl⟩ := List.cons.inj same
      dsimp only [nextFrame]
      rw [if_neg (by omega), if_neg (by omega), ← data]

/-- The length is read from the header alone. -/
theorem readUInt32LE_append {tail : Bytes} (header : 4 ≤ tail.length)
    (more : Bytes) : readUInt32LE (tail ++ more) = readUInt32LE tail := by
  rcases tail with _ | ⟨first, _ | ⟨second, _ | ⟨third, _ | ⟨fourth, tail⟩⟩⟩⟩
  all_goals first | rfl | (simp at header)

/-- The frame reader as a way to cut frames off a buffer. -/
def frames : Framing UInt8 (UInt8 × Bytes) where
  next := nextFrame
  shorter := by
    intro buffer frame rest cut
    obtain ⟨tail, rfl, whole, -, rfl⟩ := nextFrame_eq_some.mp cut
    rw [List.length_drop, List.length_cons]
    omega
  stable := by
    intro buffer frame rest more cut
    obtain ⟨tail, rfl, whole, data, rfl⟩ := nextFrame_eq_some.mp cut
    have header : 4 ≤ tail.length := by omega
    refine nextFrame_eq_some.mpr ⟨tail ++ more, rfl, ?_, ?_, ?_⟩
    · rw [readUInt32LE_append header, List.length_append]
      omega
    · rw [readUInt32LE_append header, List.drop_append_of_le_length header,
        List.take_append_of_le_length, data]
      rw [List.length_drop]
      omega
    · rw [readUInt32LE_append header, List.drop_append_of_le_length whole]

/-- What `append` returns for the frames that a chunk completed. -/
def parse (found : List (UInt8 × Bytes)) : ParsedFrames :=
  found.foldl ParsedFrames.push .empty

/-- `append`, from the buffer kept so far. -/
def append (buffer chunk : Bytes) : ParsedFrames × Bytes :=
  let drained := frames.drain (buffer ++ chunk)
  (parse drained.1, drained.2)

/-- What the listener for `data` does with the frames of a chunk: output is
passed on, and a control frame replaces an earlier one. -/
def ParsedFrames.join (before after : ParsedFrames) : ParsedFrames where
  stdout := before.stdout ++ after.stdout
  stderr := before.stderr ++ after.stderr
  control := after.control.or before.control

/-- What is received from a stream that arrives in chunks. -/
def readAll (buffer : Bytes) : List Bytes → ParsedFrames
  | [] => .empty
  | chunk :: chunks =>
    (append buffer chunk).1.join (readAll (append buffer chunk).2 chunks)

theorem push_join (before after : ParsedFrames) (frame : UInt8 × Bytes) :
    (before.push frame).join after =
      before.join ((ParsedFrames.empty.push frame).join after) := by
  unfold ParsedFrames.push
  split
  · simp [ParsedFrames.join, ParsedFrames.empty]
  · split
    · simp [ParsedFrames.join, ParsedFrames.empty]
    · split
      · cases after.control <;> simp [ParsedFrames.join, ParsedFrames.empty]
      · simp [ParsedFrames.join, ParsedFrames.empty]

theorem foldl_push (before : ParsedFrames) (found : List (UInt8 × Bytes)) :
    found.foldl ParsedFrames.push before = before.join (parse found) := by
  induction found generalizing before with
  | nil => simp [parse, ParsedFrames.join, ParsedFrames.empty]
  | cons frame found inductionHypothesis =>
    rw [List.foldl_cons, inductionHypothesis, push_join]
    unfold parse
    rw [List.foldl_cons, inductionHypothesis (ParsedFrames.empty.push frame)]
    rfl

theorem parse_append (first second : List (UInt8 × Bytes)) :
    parse (first ++ second) = (parse first).join (parse second) := by
  rw [← foldl_push, parse, List.foldl_append]
  rfl

/-- What is received depends on the stream alone, not on its chunks. -/
theorem readAll_eq_parse (chunks : List Bytes) :
    readAll [] chunks = parse (frames.drain chunks.flatten).1 := by
  have fed : ∀ buffer : Bytes, readAll buffer chunks =
      parse (frames.feed buffer chunks).1.flatten := by
    induction chunks with
    | nil => exact fun _ => rfl
    | cons chunk chunks inductionHypothesis =>
      intro buffer
      rw [readAll, Framing.feed, List.flatten_cons, parse_append,
        inductionHypothesis]
      rfl
  rw [fed, Framing.feed_eq_drain rfl, List.nil_append]

/-- A stream of whole frames is read as these frames. -/
theorem drain_frameBytes {found : List (UInt8 × Bytes)}
    (short : ∀ frame ∈ found, frame.2.length < 4294967296) :
    frames.drain (found.flatMap frameBytes) = (found, []) := by
  induction found with
  | nil => rfl
  | cons frame found inductionHypothesis =>
    have cut : frames.next (frameBytes frame ++ found.flatMap frameBytes) =
        some (frame, found.flatMap frameBytes) :=
      nextFrame_frameBytes (short frame (List.mem_cons_self ..)) _
    rw [List.flatMap_cons, Framing.drain_of_some cut,
      inductionHypothesis fun other listed =>
        short other (List.mem_cons_of_mem _ listed)]

/-! ## What arrives -/

/-- What arrived from a sender. -/
def ParsedFrames.of (parsed : ParsedFrames) : Sender → List Bytes
  | .stdout => parsed.stdout
  | .stderr => parsed.stderr
  | .main => parsed.control.toList

variable {sender : Sender}

theorem of_push_self {parsed : ParsedFrames}
    (fresh : sender = .main → parsed.of .main = []) (data : Bytes) :
    (parsed.push (sender.tag, data)).of sender = parsed.of sender ++ [data] := by
  cases sender with
  | stdout => rfl
  | stderr => rfl
  | main =>
    rw [fresh rfl]
    rfl

theorem of_push_other {parsed : ParsedFrames} {other : Sender}
    (different : other ≠ sender) (data : Bytes) :
    (parsed.push (sender.tag, data)).of other = parsed.of other := by
  cases sender <;> cases other <;> first | rfl | exact absurd rfl different

/-- Everything has arrived as it was sent. -/
theorem eq_of_received {parsed : ParsedFrames} {sent : Sent}
    (received : ∀ sender, parsed.of sender = sent.data sender) :
    parsed = {
      stdout := sent.stdout.map Subtype.val
      stderr := sent.stderr.map Subtype.val
      control := some sent.response } := by
  obtain ⟨stdout, stderr, control⟩ := parsed
  obtain rfl : stdout = _ := received .stdout
  obtain rfl : stderr = _ := received .stderr
  have answer : control.toList = [sent.response] := received .main
  rw [Option.toList_eq_singleton_iff.mp answer]
  rfl

/-! ## Frames that are not interrupted -/

/-- No other thread is between the calls of a frame, and the length of the
response fits its header. -/
def Uninterrupted (sent : Sent) (helper : Helper) (sender : Sender) : Prop :=
  (∀ other, other ≠ sender → (helper.writer other).calls = []) ∧
    (sender = .main → sent.response.length < 4294967296)

/-- The data that a thread has still to write, its frame begun included. -/
def Writer.left (writer : Writer) : List Bytes :=
  match writer.calls.getLast? with
  | none => writer.data
  | some data => data :: writer.data

/-- The calls of frames not yet complete, and the bytes that they gave. -/
inductive Begun (helper : Helper) : Bytes → Prop
  | nothing (idle : ∀ sender, (helper.writer sender).calls = []) :
      Begun helper []
  | tag (sender : Sender) (data : Bytes) (short : data.length < 4294967296)
      (calls : (helper.writer sender).calls = [lengthBytes data.length, data])
      (others : ∀ other, other ≠ sender → (helper.writer other).calls = []) :
      Begun helper [sender.tag]
  | header (sender : Sender) (data : Bytes) (short : data.length < 4294967296)
      (calls : (helper.writer sender).calls = [data])
      (others : ∀ other, other ≠ sender → (helper.writer other).calls = []) :
      Begun helper (sender.tag :: lengthBytes data.length)

/-- The output is the frames that were written and one that is begun. -/
structure Whole (sent : Sent) (helper : Helper)
    (found : List (UInt8 × Bytes)) (begun : Bytes) : Prop where
  output : helper.output = found.flatMap frameBytes ++ begun
  begun : Begun helper begun
  short : ∀ frame ∈ found, frame.2.length < 4294967296
  received : ∀ sender,
    (parse found).of sender ++ (helper.writer sender).left = sent.data sender

/-- What a step can do. -/
theorem step_cases {helper next : Helper}
    (stepped : step helper sender = some next) :
    mayWrite helper sender = true ∧
      ∃ call, nextCall sender (helper.writer sender) =
          some (call, next.writer sender) ∧
        next.output = helper.output ++ call ∧
        ∀ other, other ≠ sender → next.writer other = helper.writer other := by
  unfold step at stepped
  split at stepped
  · rename_i may
    obtain ⟨⟨call, writer⟩, made, rfl⟩ := Option.map_eq_some_iff.mp stepped
    refine ⟨may, call, ?_, rfl, ?_⟩
    · rw [made]
      cases sender <;> rfl
    · intro other different
      cases sender <;> cases other <;> first | rfl | exact absurd rfl different
  · cases stepped

/-- The call by which a thread goes on, by what its frame lacks. -/
theorem nextCall_cases {writer next : Writer} {call : Bytes}
    (made : nextCall sender writer = some (call, next)) :
    writer.calls = call :: next.calls ∧ next.data = writer.data ∨
      ∃ data, writer.calls = [] ∧ writer.data = data :: next.data ∧
        call = [sender.tag] ∧
        next.calls = [lengthBytes data.length, data] := by
  obtain ⟨calls, data⟩ := writer
  cases calls with
  | cons first calls =>
    cases made
    exact .inl ⟨rfl, rfl⟩
  | nil =>
    cases data with
    | nil => cases made
    | cons first data =>
      cases made
      exact .inr ⟨first, rfl, rfl, rfl, rfl⟩

/-- Every frame that is begun fits its header. -/
theorem short_of_mem_data {sent : Sent} {data : Bytes}
    (listed : data ∈ sent.data sender)
    (response : sender = .main → sent.response.length < 4294967296) :
    data.length < 4294967296 := by
  have pumped : ∀ chunks : List Chunk, data ∈ chunks.map Subtype.val →
      data.length < 4294967296 := by
    intro chunks read
    obtain ⟨chunk, -, rfl⟩ := List.mem_map.mp read
    exact Nat.lt_of_le_of_lt chunk.2.2 (by decide)
  cases sender with
  | stdout => exact pumped _ listed
  | stderr => exact pumped _ listed
  | main =>
    rw [List.mem_singleton.mp listed]
    exact response rfl

variable {sent : Sent} {helper next : Helper} {sender : Sender}
  {found : List (UInt8 × Bytes)} {begun : Bytes}

/-- A thread that begins a frame while no other frame is begun. -/
theorem Whole.begin (whole : Whole sent helper found [])
    (idle : ∀ other, (helper.writer other).calls = [])
    (response : sender = .main → sent.response.length < 4294967296)
    {data : Bytes} {rest : List Bytes}
    (waiting : (helper.writer sender).data = data :: rest)
    (calls : (next.writer sender).calls = [lengthBytes data.length, data])
    (left : (next.writer sender).data = rest)
    (others : ∀ other, other ≠ sender → next.writer other = helper.writer other)
    (output : next.output = helper.output ++ [sender.tag]) :
    Whole sent next found [sender.tag] := by
  have owed : (helper.writer sender).left = data :: rest := by
    rw [Writer.left, idle, waiting]
    rfl
  have received := whole.received sender
  have short : data.length < 4294967296 := by
    have listed : data ∈ sent.data sender := by
      rw [← received, owed]
      exact List.mem_append_right _ (List.mem_cons_self ..)
    exact short_of_mem_data listed response
  refine ⟨?_, .tag sender data short calls ?_, whole.short, ?_⟩
  · rw [output, whole.output, List.append_nil]
  · intro other different
    rw [others other different, idle]
  · intro other
    by_cases same : other = sender
    · rw [same, ← received, owed, Writer.left, calls, left]
      rfl
    · rw [others other same, whole.received]

/-- A thread that writes the length of the frame that it has begun. -/
theorem Whole.goOn (whole : Whole sent helper found [sender.tag])
    {data : Bytes} (short : data.length < 4294967296)
    (idle : ∀ other, other ≠ sender → (helper.writer other).calls = [])
    (begun : (helper.writer sender).calls = [lengthBytes data.length, data])
    (calls : (next.writer sender).calls = [data])
    (left : (next.writer sender).data = (helper.writer sender).data)
    (others : ∀ other, other ≠ sender → next.writer other = helper.writer other)
    (output : next.output = helper.output ++ lengthBytes data.length) :
    Whole sent next found (sender.tag :: lengthBytes data.length) := by
  refine ⟨?_, .header sender data short calls ?_, whole.short, ?_⟩
  · rw [output, whole.output, List.append_assoc]
    rfl
  · intro other different
    rw [others other different, idle other different]
  · intro other
    have received := whole.received other
    by_cases same : other = sender
    · subst same
      rw [Writer.left, begun] at received
      rw [Writer.left, calls, left]
      exact received
    · rw [others other same, received]

/-- A thread that completes its frame. -/
theorem Whole.complete {data : Bytes}
    (whole : Whole sent helper found (sender.tag :: lengthBytes data.length))
    (short : data.length < 4294967296)
    (idle : ∀ other, other ≠ sender → (helper.writer other).calls = [])
    (begun : (helper.writer sender).calls = [data])
    (calls : (next.writer sender).calls = [])
    (left : (next.writer sender).data = (helper.writer sender).data)
    (others : ∀ other, other ≠ sender → next.writer other = helper.writer other)
    (output : next.output = helper.output ++ data) :
    Whole sent next (found ++ [(sender.tag, data)]) [] := by
  have parsed : parse (found ++ [(sender.tag, data)]) =
      (parse found).push (sender.tag, data) := by
    rw [parse, List.foldl_append]
    rfl
  refine ⟨?_, .nothing ?_, ?_, ?_⟩
  · rw [output, whole.output, List.flatMap_append, List.append_nil]
    simp [frameBytes]
  · intro other
    by_cases same : other = sender
    · rw [same, calls]
    · rw [others other same, idle other same]
  · intro frame listed
    rcases List.mem_append.mp listed with old | new
    · exact whole.short frame old
    · rw [List.mem_singleton.mp new]
      exact short
  · intro other
    have received := whole.received other
    by_cases same : other = sender
    · subst same
      rw [Writer.left, begun] at received
      have fresh : other = .main → (parse found).of .main = [] := by
        rintro rfl
        change _ ++ data :: _ = [sent.response] at received
        exact (List.append_eq_singleton_iff.mp received).elim And.left
          fun first => absurd first.2 (List.cons_ne_nil _ _)
      rw [parsed, of_push_self fresh, Writer.left, calls, left,
        List.append_assoc]
      exact received
    · rw [parsed, of_push_other same, others other same, received]

/-- The invariant of the runs in which no frame is interrupted. -/
def Unmixed (sent : Sent) (helper : Helper) : Prop :=
  ∃ found begun, Whole sent helper found begun

/-- A step that interrupts no frame keeps the output whole. -/
theorem whole_step (whole : Whole sent helper found begun)
    (uninterrupted : Uninterrupted sent helper sender)
    (stepped : step helper sender = some next) : Unmixed sent next := by
  obtain ⟨-, call, made, output, others⟩ := step_cases stepped
  obtain ⟨idle, response⟩ := uninterrupted
  have alone : ∀ {active : Sender} {calls : List Bytes} {first : Bytes},
      (helper.writer active).calls = first :: calls → active = sender := by
    intro active calls first under
    by_contra different
    rw [idle active different] at under
    cases under
  rcases nextCall_cases made with
    ⟨calls, left⟩ | ⟨data, calls, waiting, rfl, after⟩
  · cases whole.begun with
    | nothing quiet =>
      rw [quiet sender] at calls
      cases calls
    | tag active data short under quiet =>
      obtain rfl := alone under
      rw [under] at calls
      obtain ⟨rfl, after⟩ := List.cons.inj calls
      exact ⟨_, _, whole.goOn short quiet under after.symm left others
        output⟩
    | header active data short under quiet =>
      obtain rfl := alone under
      rw [under] at calls
      obtain ⟨rfl, after⟩ := List.cons.inj calls
      exact ⟨_, _, whole.complete short quiet under after.symm left others
        output⟩
  · have quiet : ∀ other, (helper.writer other).calls = [] := by
      intro other
      by_cases same : other = sender
      · rw [same, calls]
      · exact idle other same
    cases whole.begun with
    | nothing _ =>
      exact ⟨_, _, whole.begin quiet response waiting after rfl others
        output⟩
    | tag active data short under _ =>
      rw [quiet active] at under
      cases under
    | header active data short under _ =>
      rw [quiet active] at under
      cases under

theorem start_whole (sent : Sent) : Whole sent (start sent) [] [] := by
  refine ⟨rfl, .nothing ?_, ?_, ?_⟩
  · intro sender
    cases sender <;> rfl
  · intro frame listed
    cases listed
  · intro sender
    cases sender <;> rfl

/-- When no thread writes between the calls of another thread's frame, what
the helper sent is received, however the stream is cut into chunks. -/
theorem frames_arrive_as_sent (sent : Sent) (helper : Helper)
    (reachable : (machine sent).Reachable (Uninterrupted sent) helper)
    (done : helper.done) (chunks : List Bytes)
    (stream : chunks.flatten = helper.output) :
    readAll [] chunks = {
      stdout := sent.stdout.map Subtype.val
      stderr := sent.stderr.map Subtype.val
      control := some sent.response } := by
  have unmixed : Unmixed sent helper := by
    refine reachable.invariant (fun _ initial => ?_) ?_
    · exact initial ▸ ⟨[], [], start_whole sent⟩
    · rintro helper sender next ⟨found, begun, whole⟩ uninterrupted stepped
      exact whole_step whole uninterrupted stepped
  obtain ⟨found, begun, whole⟩ := unmixed
  have idle : ∀ {sender : Sender} {first : Bytes} {calls : List Bytes},
      (helper.writer sender).calls ≠ first :: calls := by
    intro sender first calls under
    rw [(done sender).1] at under
    cases under
  cases whole.begun with
  | nothing _ =>
    have output := whole.output
    rw [List.append_nil] at output
    rw [readAll_eq_parse, stream, output, drain_frameBytes whole.short]
    refine eq_of_received fun sender => ?_
    have received := whole.received sender
    rw [Writer.left, (done sender).1, (done sender).2] at received
    exact (List.append_nil _).symm.trans received
  | tag _ _ _ under _ => exact absurd under idle
  | header _ _ _ under _ => exact absurd under idle

/-- Both pumps read one byte. -/
def oneByteEach : Sent where
  stdout := [⟨[0x61], by decide⟩]
  stderr := [⟨[0x62], by decide⟩]
  response := [0x7b, 0x7d]

/-- Nothing but the step is asked: does it interrupt a frame? -/
def uninterrupted (sent : Sent) (helper : Helper) (sender : Sender) : Bool :=
  [Sender.stdout, .stderr, .main].all (fun other =>
    other = sender || (helper.writer other).calls.isEmpty) &&
    (sender ≠ .main || decide (sent.response.length < 4294967296))

theorem uninterrupted_sound {sent : Sent} {helper : Helper} {sender : Sender}
    (meets : uninterrupted sent helper sender = true) :
    Uninterrupted sent helper sender := by
  unfold uninterrupted at meets
  simp only [List.all_cons, List.all_nil, Bool.and_true, Bool.and_eq_true,
    Bool.or_eq_true, decide_eq_true_eq, List.isEmpty_iff] at meets
  obtain ⟨⟨stdout, stderr, main⟩, response⟩ := meets
  refine ⟨fun other different => ?_, fun same => ?_⟩
  · cases other with
    | stdout => exact stdout.resolve_left different
    | stderr => exact stderr.resolve_left different
    | main => exact main.resolve_left different
  · exact response.resolve_left fun other => other same

/-- The frames in turn. -/
def inTurn : List Sender :=
  [.stdout, .stdout, .stdout, .stderr, .stderr, .stderr, .main, .main, .main]

/-- What the helper has written in the end. -/
def inTurnEnd : Helper where
  stdout := ⟨[], []⟩
  stderr := ⟨[], []⟩
  main := ⟨[], []⟩
  output := [1, 1, 0, 0, 0, 0x61, 2, 1, 0, 0, 0, 0x62, 3, 2, 0, 0, 0, 0x7b, 0x7d]

theorem inTurn_uninterrupted : (machine oneByteEach).runMeets
    (uninterrupted oneByteEach) (start oneByteEach) inTurn = true := by
  decide

theorem inTurn_ends : (machine oneByteEach).run (start oneByteEach) inTurn =
    some inTurnEnd := by
  decide

theorem frames_arrive_as_sent_oneByteEach :
    readAll [] [[1, 1, 0], [0, 0, 0x61, 2, 1, 0, 0, 0, 0x62, 3, 2], [],
        [0, 0, 0, 0x7b, 0x7d]] = {
      stdout := oneByteEach.stdout.map Subtype.val
      stderr := oneByteEach.stderr.map Subtype.val
      control := some oneByteEach.response } :=
  frames_arrive_as_sent oneByteEach inTurnEnd
    ⟨_, rfl, Machine.steps_of_run (uninterrupted oneByteEach)
      (fun _ _ => uninterrupted_sound) inTurn_uninterrupted inTurn_ends⟩
    (fun sender => by cases sender <;> exact ⟨rfl, rfl⟩) _ (by decide)

/-- The tag of the second frame is written right after that of the first. -/
def interleaved : List Sender :=
  [.stdout, .stderr, .stdout, .stdout, .stderr, .stderr, .main, .main, .main]

def interleavedEnd : Helper :=
  { inTurnEnd with
    output :=
      [1, 2, 1, 0, 0, 0, 0x61, 1, 0, 0, 0, 0x62, 3, 2, 0, 0, 0, 0x7b, 0x7d] }

theorem interleaved_ends :
    (machine oneByteEach).run (start oneByteEach) interleaved =
      some interleavedEnd := by
  decide

/-- The length of the first frame then begins with the tag of the second, and
nothing that was sent is received. -/
theorem interleaved_frames_garbled :
    ∃ sent helper chunks,
      (machine sent).Reachable (fun _ _ => True) helper ∧ helper.done ∧
        chunks.flatten = helper.output ∧
        readAll [] chunks ≠ {
          stdout := sent.stdout.map Subtype.val
          stderr := sent.stderr.map Subtype.val
          control := some sent.response } := by
  refine ⟨oneByteEach, interleavedEnd, [interleavedEnd.output], ?_, ?_, ?_, ?_⟩
  · exact Machine.reachable_of_run rfl interleaved_ends
  · intro sender
    cases sender <;> exact ⟨rfl, rfl⟩
  · rfl
  · decide

end Rbo.Executor.WindowsFrames
