import Rbo.Executor.Spool
import Rbo.Agent.Redactor

/-!
# From the process to the spool

What a process writes arrives in data events.  Each event is decoded on its
own, redacted, and encoded again when it is appended to the spool.  A
character that two events share is replaced, and so is a surrogate pair that
the redactor's buffer cuts in two.
-/

namespace Rbo.Agent.OutputSpool

open Rbo.Foundation
open Rbo.Executor.Logs
open Rbo.Executor.Spool
open Rbo.Agent.Redactor

/-! ## The data handlers -/

/-- `stdoutRedactor` and `stderrRedactor`. -/
structure Redactors where
  stdout : StreamRedactor
  stderr : StreamRedactor
  deriving DecidableEq

def Redactors.get (redactors : Redactors) : Stream → StreamRedactor
  | .stdout => redactors.stdout
  | .stderr => redactors.stderr

def Redactors.set (redactors : Redactors) (stream : Stream)
    (redactor : StreamRedactor) : Redactors :=
  match stream with
  | .stdout => { redactors with stdout := redactor }
  | .stderr => { redactors with stderr := redactor }

/-- What the data handlers of a run share. -/
structure OutputRun where
  redactors : Redactors
  logs : AttemptLogs
  spool : AttemptSpool
  spoolLimitBreached : Bool
  deriving DecidableEq

/-- A data event: the stream and the bytes that arrived. -/
abbrev DataEvent := Stream × List UInt8

/-- `totalBytes`. -/
def totalBytes (logs : AttemptLogs) : Nat :=
  logs.size .stdout + logs.size .stderr

namespace OutputRun

variable (logSpoolMaxBytes : Nat)

/-- `appendAndEnqueue`; the appends are chained one after the other. -/
def appendAndEnqueue (run : OutputRun) (stream : Stream) (text : Text) :
    OutputRun :=
  if run.spoolLimitBreached then
    run
  else
    let appended :=
      appendChunk run.logs run.spool stream (Utf16.toBytes text)
    { run with
      logs := appended.1
      spool := appended.2
      spoolLimitBreached := logSpoolMaxBytes ≤ totalBytes appended.1 }

/-- An append of a text that is not empty. -/
def put (run : OutputRun) (stream : Stream) (text : Text) : OutputRun :=
  if text = [] then run
  else run.appendAndEnqueue logSpoolMaxBytes stream text

/-- The handler of a `'data'` event. -/
def onData (run : OutputRun) (event : DataEvent) : OutputRun :=
  let redacted :=
    (run.redactors.get event.1).redact
      (Utf16.encode (Utf8.decode event.2))
  { run with redactors := run.redactors.set event.1 redacted.2 }.put
    logSpoolMaxBytes event.1 redacted.1

/-- The flush of a stream after the process has ended. -/
def flushStream (run : OutputRun) (stream : Stream) : OutputRun :=
  let redactor := run.redactors.get stream
  { run with
    redactors :=
      run.redactors.set stream { redactor with tailBuffer := [] } }.put
    logSpoolMaxBytes stream redactor.flush

/-- All data events, and the flush of both streams. -/
def complete (run : OutputRun) : List DataEvent → OutputRun
  | [] =>
    (run.flushStream logSpoolMaxBytes .stdout).flushStream
      logSpoolMaxBytes .stderr
  | event :: events => (run.onData logSpoolMaxBytes event).complete events

end OutputRun

/-- A run before its first data event. -/
def startRun (secrets : List Text) : OutputRun where
  redactors := { stdout := create secrets, stderr := create secrets }
  logs := ensureAttemptLogs
  spool :=
    { nextSequence := 1, streamOffsets := { stdout := 0, stderr := 0 } }
  spoolLimitBreached := false

/-- The spool of a process that wrote some data. -/
def outputRun (secrets : List Text) (logSpoolMaxBytes : Nat)
    (events : List DataEvent) : OutputRun :=
  (startRun secrets).complete logSpoolMaxBytes events

/-- The data of one stream, event by event. -/
def dataOf (stream : Stream) (events : List DataEvent) : List (List UInt8) :=
  events.filterMap fun event =>
    if event.1 = stream then some event.2 else none

theorem dataOf_cons_same {stream : Stream} {event : DataEvent}
    {events : List DataEvent} (same : event.1 = stream) :
    dataOf stream (event :: events) = event.2 :: dataOf stream events := by
  simp [dataOf, same]

theorem dataOf_cons_other {stream : Stream} {event : DataEvent}
    {events : List DataEvent} (other : event.1 ≠ stream) :
    dataOf stream (event :: events) = dataOf stream events := by
  simp [dataOf, other]

/-- What the redactor of a stream is given for an event. -/
def received (data : List UInt8) : Text :=
  Utf16.encode (Utf8.decode data)

/-! ## What the appends add to a file -/

section Files

variable {logSpoolMaxBytes : Nat} {run : OutputRun} {stream : Stream}

theorem file_appendChunk (logs : AttemptLogs) (spool : AttemptSpool)
    (target : Stream) (bytes : List UInt8) (stream : Stream) :
    (appendChunk logs spool target bytes).1.file stream =
      logs.file stream ++ if target = stream then bytes else [] := by
  cases target <;> cases stream <;>
    simp [appendChunk, writeChunk, appendCheckpointText, appendChunksText,
      appendLogChunk, AttemptSpool.newEntry, AttemptLogs.file]

theorem put_unbreached {text : Text}
    (unbreached :
      (run.put logSpoolMaxBytes stream text).spoolLimitBreached = false) :
    run.spoolLimitBreached = false := by
  unfold OutputRun.put OutputRun.appendAndEnqueue at unbreached
  split at unbreached
  · exact unbreached
  · split at unbreached
    · exact unbreached
    · rename_i open_
      exact Bool.eq_false_iff.mpr open_

theorem put_redactors (text : Text) :
    (run.put logSpoolMaxBytes stream text).redactors = run.redactors := by
  unfold OutputRun.put OutputRun.appendAndEnqueue
  split
  · rfl
  · split <;> rfl

theorem put_file {text : Text} (target : Stream)
    (unbreached :
      (run.put logSpoolMaxBytes target text).spoolLimitBreached = false) :
    (run.put logSpoolMaxBytes target text).logs.file stream =
      run.logs.file stream ++
        if target = stream then Utf16.toBytes text else [] := by
  have before := put_unbreached unbreached
  unfold OutputRun.put OutputRun.appendAndEnqueue
  split
  · rename_i empty
    rw [empty]
    have none : Utf16.toBytes [] = [] := rfl
    rw [none, ite_self, List.append_nil]
  · rw [before]
    exact file_appendChunk _ _ _ _ _

theorem Redactors.get_set (redactors : Redactors) (target stream : Stream)
    (redactor : StreamRedactor) :
    (redactors.set target redactor).get stream =
      if target = stream then redactor else redactors.get stream := by
  cases target <;> cases stream <;> rfl

theorem flushStream_unbreached
    (unbreached :
      (run.flushStream logSpoolMaxBytes stream).spoolLimitBreached =
        false) : run.spoolLimitBreached = false := by
  unfold OutputRun.flushStream at unbreached
  have before := put_unbreached unbreached
  exact before

theorem flushStream_redactors (target : Stream) :
    (run.flushStream logSpoolMaxBytes target).redactors.get stream =
      if target = stream then
        { run.redactors.get target with tailBuffer := [] }
      else run.redactors.get stream := by
  unfold OutputRun.flushStream
  rw [put_redactors, Redactors.get_set]

theorem flushStream_file (target : Stream)
    (unbreached :
      (run.flushStream logSpoolMaxBytes target).spoolLimitBreached =
        false) :
    (run.flushStream logSpoolMaxBytes target).logs.file stream =
      run.logs.file stream ++
        if target = stream then
          Utf16.toBytes (run.redactors.get target).flush
        else [] := by
  unfold OutputRun.flushStream at unbreached ⊢
  rw [put_file target unbreached]

theorem onData_unbreached {event : DataEvent}
    (unbreached :
      (run.onData logSpoolMaxBytes event).spoolLimitBreached = false) :
    run.spoolLimitBreached = false := by
  unfold OutputRun.onData at unbreached
  have before := put_unbreached unbreached
  exact before

theorem onData_redactors (event : DataEvent) :
    (run.onData logSpoolMaxBytes event).redactors.get stream =
      if event.1 = stream then
        ((run.redactors.get event.1).redact (received event.2)).2
      else run.redactors.get stream := by
  unfold OutputRun.onData
  rw [put_redactors, Redactors.get_set]
  rfl

theorem onData_file (event : DataEvent)
    (unbreached :
      (run.onData logSpoolMaxBytes event).spoolLimitBreached = false) :
    (run.onData logSpoolMaxBytes event).logs.file stream =
      run.logs.file stream ++
        if event.1 = stream then
          Utf16.toBytes
            ((run.redactors.get event.1).redact (received event.2)).1
        else [] := by
  unfold OutputRun.onData at unbreached ⊢
  rw [put_file event.1 unbreached]
  rfl

theorem complete_unbreached {events : List DataEvent}
    (unbreached :
      (run.complete logSpoolMaxBytes events).spoolLimitBreached = false) :
    run.spoolLimitBreached = false := by
  induction events generalizing run with
  | nil => exact flushStream_unbreached (flushStream_unbreached unbreached)
  | cons event events induction =>
    exact onData_unbreached (induction unbreached)

/-- A stream file grows by what its own redactor puts out. -/
theorem complete_file {events : List DataEvent}
    (unbreached :
      (run.complete logSpoolMaxBytes events).spoolLimitBreached = false) :
    (run.complete logSpoolMaxBytes events).logs.file stream =
      run.logs.file stream ++
        ((run.redactors.get stream).outputs
          ((dataOf stream events).map received)).flatMap Utf16.toBytes := by
  induction events generalizing run with
  | nil =>
    have first := flushStream_unbreached unbreached
    have last : ∀ stream,
        (run.complete logSpoolMaxBytes []).logs.file stream = _ :=
      fun stream => flushStream_file .stderr unbreached
    rw [last, flushStream_file .stdout first, flushStream_redactors]
    show _ = run.logs.file stream ++
      (Utf16.toBytes (run.redactors.get stream).flush ++ [])
    cases stream with
    | stdout =>
      rw [if_pos rfl, if_neg (by decide), List.append_nil,
        List.append_nil]
    | stderr =>
      rw [if_neg (by decide), if_pos rfl, if_neg (by decide),
        List.append_nil, List.append_nil]
  | cons event events induction =>
    have later :
        (run.onData logSpoolMaxBytes event).spoolLimitBreached = false :=
      complete_unbreached unbreached
    have grown := induction unbreached
    rw [onData_file event later, onData_redactors] at grown
    refine grown.trans ?_
    by_cases same : event.1 = stream
    · subst same
      rw [if_pos rfl, if_pos rfl, dataOf_cons_same rfl, List.map_cons,
        StreamRedactor.outputs, List.flatMap_cons, List.append_assoc]
    · rw [if_neg same, if_neg same, dataOf_cons_other same,
        List.append_nil]

end Files

/-! ## Where the redactor cuts -/

/-- A surrogate pair is cut at a place of a string. -/
def SplitsPair (units : Text) (place : Nat) : Prop :=
  Utf16.Joins (units.take place) (units.drop place)

/-- The pieces of a text that goes through a buffer of some length. -/
def pieces (keepLength : Nat) (tailBuffer : Text) : List Text → List Text
  | [] => [tailBuffer]
  | chunk :: chunks =>
    let combined := tailBuffer ++ chunk
    combined.take (combined.length - keepLength) ::
      pieces keepLength (combined.drop (combined.length - keepLength))
        chunks

theorem drop_length_sub {Item : Type} (items : List Item) (keep : Nat) :
    items.length - min keep items.length = items.length - keep := by
  omega

/-- An output without secrets is only cut into pieces. -/
theorem outputs_eq_pieces {redactor : StreamRedactor}
    (noBuffer : redactor.secrets.length = 0 →
      redactor.tailBuffer = [] ∧ redactor.maxSecretLength = 0)
    (chunks : List Text)
    (absent : ∀ secret ∈ redactor.secrets,
      ¬ secret <:+: redactor.tailBuffer ++ chunks.flatten) :
    redactor.outputs chunks =
      pieces (redactor.maxSecretLength - 1) redactor.tailBuffer chunks := by
  induction chunks generalizing redactor with
  | nil =>
    rw [List.flatten_nil, List.append_nil] at absent
    rw [StreamRedactor.outputs, pieces, flush_eq_self absent]
  | cons chunk chunks induction =>
    rw [List.flatten_cons, ← List.append_assoc] at absent
    have clean : ∀ secret ∈ redactor.secrets,
        ¬ secret <:+: redactor.tailBuffer ++ chunk :=
      fun secret member inside =>
        absent secret member
          (inside.trans (List.prefix_append _ _).isInfix)
    have step :
        redactor.redact chunk =
          ((redactor.tailBuffer ++ chunk).take
              ((redactor.tailBuffer ++ chunk).length -
                (redactor.maxSecretLength - 1)),
            { redactor with
              tailBuffer :=
                (redactor.tailBuffer ++ chunk).drop
                  ((redactor.tailBuffer ++ chunk).length -
                    (redactor.maxSecretLength - 1)) }) := by
      unfold StreamRedactor.redact
      split
      · rename_i none
        rcases noBuffer none with ⟨empty, zero⟩
        cases redactor
        simp_all
      · dsimp only
        rw [redactSecrets_eq_self clean]
        split
        · rename_i short
          have zero : redactor.maxSecretLength - 1 = 0 := by omega
          rw [zero, Nat.sub_zero, List.take_length, List.drop_length]
        · rw [drop_length_sub]
    rw [StreamRedactor.outputs, pieces, step, induction]
    · intro none
      rcases noBuffer none with ⟨empty, zero⟩
      refine ⟨?_, zero⟩
      show List.drop _ _ = []
      rw [zero, Nat.zero_sub, Nat.sub_zero, List.drop_length]
    · intro secret member inside
      apply absent secret member
      rw [← List.take_append_drop
        ((redactor.tailBuffer ++ chunk).length -
          (redactor.maxSecretLength - 1)) (redactor.tailBuffer ++ chunk),
        List.append_assoc]
      exact inside.trans (List.suffix_append _ _).isInfix

/-- The places at which a text is cut that goes through a buffer. -/
def NoPairCut (keepLength : Nat) (tailBuffer : Text)
    (chunks : List Text) : Prop :=
  ∀ before after, chunks = before ++ after → before ≠ [] →
    ¬ SplitsPair (tailBuffer ++ chunks.flatten)
      ((tailBuffer ++ before.flatten).length - keepLength)

theorem splitsPair_append (front units : Text) (place : Nat) :
    SplitsPair (front ++ units) (front.length + place) ↔
      Utf16.Joins (front ++ units.take place) (units.drop place) := by
  unfold SplitsPair
  rw [List.take_append, List.drop_append, List.take_of_length_le (by omega),
    List.drop_eq_nil_of_le (by omega), List.nil_append,
    Nat.add_sub_cancel_left]

theorem joins_append {front middle back : Text} (some : middle ≠ []) :
    Utf16.Joins (front ++ middle) back ↔ Utf16.Joins middle back := by
  unfold Utf16.Joins
  rw [List.getLast?_append_of_ne_nil front some]

theorem joins_nil_left (back : Text) : ¬ Utf16.Joins [] back := by
  rintro ⟨⟨high, last, _⟩, _⟩
  cases last

theorem joins_nil_right (front : Text) : ¬ Utf16.Joins front [] := by
  rintro ⟨_, low, first, _⟩
  cases first

/-- The first piece, and the pieces of what is left. -/
theorem noPairCut_cons {keepLength : Nat} {tailBuffer chunk : Text}
    {chunks : List Text} {output kept : Text}
    (split : tailBuffer ++ chunk = output ++ kept)
    (length : output.length = (tailBuffer ++ chunk).length - keepLength) :
    NoPairCut keepLength tailBuffer (chunk :: chunks) ↔
      ¬ Utf16.Joins output (kept ++ chunks.flatten) ∧
        NoPairCut keepLength kept chunks := by
  have whole :
      tailBuffer ++ (chunk :: chunks).flatten =
        output ++ (kept ++ chunks.flatten) := by
    rw [List.flatten_cons, ← List.append_assoc, split, List.append_assoc]
  have lengths := congrArg List.length split
  rw [List.length_append, List.length_append] at lengths
  have place : ∀ before : List Text,
      (tailBuffer ++ (chunk :: before).flatten).length - keepLength =
        output.length + ((kept ++ before.flatten).length - keepLength) := by
    intro before
    rw [List.length_append] at length ⊢
    rw [List.flatten_cons, List.length_append, List.length_append]
    omega
  constructor
  · intro none
    constructor
    · have first := none [chunk] chunks rfl (List.cons_ne_nil _ _)
      rw [whole, place []] at first
      have zero : (kept ++ ([] : List Text).flatten).length - keepLength = 0
          := by
        rw [List.flatten_nil, List.append_nil]
        rw [List.length_append] at length
        omega
      rw [zero, splitsPair_append, List.take_zero, List.drop_zero,
        List.append_nil] at first
      exact first
    · intro before after equal some
      have later :=
        none (chunk :: before) after (by rw [equal]; rfl)
          (List.cons_ne_nil _ _)
      rw [whole, place before, splitsPair_append] at later
      by_cases empty :
          (kept ++ chunks.flatten).take
            ((kept ++ before.flatten).length - keepLength) = []
      · unfold SplitsPair
        rw [empty]
        exact joins_nil_left _
      · rw [joins_append empty] at later
        exact later
  · rintro ⟨first, later⟩ before after equal some
    cases before with
    | nil => exact absurd rfl some
    | cons head before =>
      rw [List.cons_append, List.cons.injEq] at equal
      rcases equal with ⟨rfl, equal⟩
      rw [whole, place before, splitsPair_append]
      by_cases empty :
          (kept ++ chunks.flatten).take
            ((kept ++ before.flatten).length - keepLength) = []
      · rw [empty, List.append_nil]
        rcases List.take_eq_nil_iff.mp empty with zero | nothing
        · rw [zero, List.drop_zero]
          exact first
        · rw [nothing, List.drop_nil]
          exact joins_nil_right _
      · rw [joins_append empty]
        by_cases last : before = []
        · rw [last, List.flatten_nil, List.append_nil] at empty
          exfalso
          apply empty
          rw [List.length_append] at length
          have zero : kept.length - keepLength = 0 := by omega
          rw [zero, List.take_zero]
        · exact later before after equal last

/-- Where no pair is cut, the pieces have the bytes of the whole. -/
theorem flatMap_pieces {keepLength : Nat} {tailBuffer : Text}
    {chunks : List Text} (whole : NoPairCut keepLength tailBuffer chunks) :
    (pieces keepLength tailBuffer chunks).flatMap Utf16.toBytes =
      Utf16.toBytes (tailBuffer ++ chunks.flatten) := by
  induction chunks generalizing tailBuffer with
  | nil =>
    rw [pieces, List.flatMap_singleton, List.flatten_nil, List.append_nil]
  | cons chunk chunks induction =>
    have split :=
      (List.take_append_drop
        ((tailBuffer ++ chunk).length - keepLength)
        (tailBuffer ++ chunk)).symm
    have length :
        ((tailBuffer ++ chunk).take
          ((tailBuffer ++ chunk).length - keepLength)).length =
        (tailBuffer ++ chunk).length - keepLength :=
      List.length_take_of_le (Nat.sub_le _ _)
    rcases (noPairCut_cons split length).mp whole with ⟨apart, later⟩
    rw [pieces, List.flatMap_cons, induction later,
      ← Utf16.toBytes_append apart, ← List.append_assoc, ← split,
      List.flatten_cons, List.append_assoc]

/-- The pieces never have fewer bytes than the whole. -/
theorem length_pieces (keepLength : Nat) (tailBuffer : Text)
    (chunks : List Text) :
    (Utf16.toBytes (tailBuffer ++ chunks.flatten)).length ≤
      ((pieces keepLength tailBuffer chunks).flatMap
        Utf16.toBytes).length := by
  induction chunks generalizing tailBuffer with
  | nil =>
    rw [pieces, List.flatMap_singleton, List.flatten_nil, List.append_nil]
  | cons chunk chunks induction =>
    have split :=
      List.take_append_drop ((tailBuffer ++ chunk).length - keepLength)
        (tailBuffer ++ chunk)
    have first :=
      Utf16.length_toBytes_append
        ((tailBuffer ++ chunk).take
          ((tailBuffer ++ chunk).length - keepLength))
        ((tailBuffer ++ chunk).drop
            ((tailBuffer ++ chunk).length - keepLength) ++ chunks.flatten)
    rw [← List.append_assoc, split] at first
    have later :=
      induction
        ((tailBuffer ++ chunk).drop
          ((tailBuffer ++ chunk).length - keepLength))
    rw [pieces, List.flatMap_cons, List.length_append, List.flatten_cons,
      ← List.append_assoc]
    omega

/-- Pieces with no more bytes than the whole cut no pair. -/
theorem noPairCut_of_length {keepLength : Nat} {tailBuffer : Text}
    {chunks : List Text}
    (short : ((pieces keepLength tailBuffer chunks).flatMap
        Utf16.toBytes).length ≤
      (Utf16.toBytes (tailBuffer ++ chunks.flatten)).length) :
    NoPairCut keepLength tailBuffer chunks := by
  induction chunks generalizing tailBuffer with
  | nil =>
    intro before after equal some
    exact absurd (List.append_eq_nil_iff.mp equal.symm).1 some
  | cons chunk chunks induction =>
    have split :=
      (List.take_append_drop
        ((tailBuffer ++ chunk).length - keepLength)
        (tailBuffer ++ chunk)).symm
    have length :
        ((tailBuffer ++ chunk).take
          ((tailBuffer ++ chunk).length - keepLength)).length =
        (tailBuffer ++ chunk).length - keepLength :=
      List.length_take_of_le (Nat.sub_le _ _)
    rw [noPairCut_cons split length]
    rw [pieces, List.flatMap_cons, List.length_append, List.flatten_cons,
      ← List.append_assoc] at short
    generalize output :
      (tailBuffer ++ chunk).take
        ((tailBuffer ++ chunk).length - keepLength) = front at *
    generalize kept :
      (tailBuffer ++ chunk).drop
        ((tailBuffer ++ chunk).length - keepLength) = back at *
    rw [split, List.append_assoc] at short
    have first := Utf16.length_toBytes_append front (back ++ chunks.flatten)
    have later := length_pieces keepLength back chunks
    constructor
    · intro joins
      have longer := Utf16.length_toBytes_of_joins joins
      omega
    · apply induction
      omega

/-! ## What reaches the spool -/

theorem received_flatten (data : List (List UInt8)) :
    (data.map received).flatten =
      Utf16.encode (data.map Utf8.decode).flatten := by
  induction data with
  | nil => rfl
  | cons raw data induction =>
    rw [List.map_cons, List.flatten_cons, induction, List.map_cons,
      List.flatten_cons]
    unfold received Utf16.encode
    rw [List.flatMap_append]

theorem encode_flatten (data : List (List UInt8)) :
    Utf8.encode (data.map Utf8.decode).flatten =
      (data.map fun raw => Utf8.encode (Utf8.decode raw)).flatten := by
  induction data with
  | nil => rfl
  | cons raw data induction =>
    rw [List.map_cons, List.flatten_cons, List.map_cons,
      List.flatten_cons, ← induction]
    unfold Utf8.encode
    rw [List.flatMap_append]

variable {data : List (List UInt8)}

theorem encode_of_whole (whole : ∀ raw ∈ data, Utf8.Whole raw) :
    Utf8.encode (data.map Utf8.decode).flatten = data.flatten := by
  rw [encode_flatten]
  congr 1
  conv_rhs => rw [← List.map_id data]
  apply List.map_congr_left
  intro raw member
  rcases whole raw member with ⟨text, rfl⟩
  rw [Utf8.decode_encode]
  rfl

theorem length_encode_flatten (data : List (List UInt8)) :
    data.flatten.length ≤
      (Utf8.encode (data.map Utf8.decode).flatten).length := by
  rw [encode_flatten]
  induction data with
  | nil => exact Nat.le_refl 0
  | cons raw data induction =>
    have first := Utf8.length_le_decode raw
    rw [List.map_cons, List.flatten_cons, List.flatten_cons,
      List.length_append, List.length_append]
    omega

/-- An event that begins inside a character makes the output longer. -/
theorem length_encode_flatten_lt {raw : List UInt8} (member : raw ∈ data)
    (inside : Utf8.StartsInside raw) :
    data.flatten.length <
      (Utf8.encode (data.map Utf8.decode).flatten).length := by
  induction data with
  | nil => cases member
  | cons first data induction =>
    have later := length_encode_flatten data
    have front := Utf8.length_le_decode first
    rw [encode_flatten] at later induction ⊢
    rw [List.map_cons, List.flatten_cons, List.flatten_cons,
      List.length_append, List.length_append]
    rcases List.mem_cons.mp member with rfl | there
    · rcases inside with ⟨lead, starts, stray⟩
      cases raw with
      | nil => cases starts
      | cons byte rest =>
        have same : byte = lead := Option.some.inj starts
        subst same
        have longer := Utf8.length_lt_decode rest stray
        omega
    · have shorter := induction there
      omega

theorem startsInside_flatten (inside : Utf8.StartsInside data.flatten) :
    ∃ raw ∈ data, Utf8.StartsInside raw := by
  induction data with
  | nil =>
    rcases inside with ⟨lead, starts, _⟩
    cases starts
  | cons raw data induction =>
    cases raw with
    | nil =>
      rcases induction inside with ⟨found, member, starts⟩
      exact ⟨found, List.mem_cons_of_mem _ member, starts⟩
    | cons byte rest => exact ⟨_, List.mem_cons_self, inside⟩

theorem whole_of_outside {text : List Char}
    (valid : data.flatten = Utf8.encode text)
    (outside : ∀ raw ∈ data, ¬ Utf8.StartsInside raw) :
    ∀ raw ∈ data, Utf8.Whole raw := by
  induction data generalizing text with
  | nil =>
    intro raw member
    cases member
  | cons raw data induction =>
    rw [List.forall_mem_cons] at outside ⊢
    rw [List.flatten_cons] at valid
    have later : ¬ Utf8.StartsInside data.flatten := by
      intro inside
      rcases startsInside_flatten inside with ⟨found, member, starts⟩
      exact outside.2 found member starts
    rcases Utf8.exists_split valid.symm later with
      ⟨before, after, _, first, rest⟩
    exact ⟨⟨before, first⟩, induction rest outside.2⟩

/--
Every data event holds whole characters, and the buffer of the redactor cuts
no surrogate pair.
-/
structure Unbroken (secrets : List Text) (data : List (List UInt8)) :
    Prop where
  whole : ∀ raw ∈ data, Utf8.Whole raw
  pairs : NoPairCut ((create secrets).maxSecretLength - 1) []
    (data.map received)

theorem file_eq_pieces {secrets : List Text} {logSpoolMaxBytes : Nat}
    {events : List DataEvent} {stream : Stream}
    (unbreached :
      (outputRun secrets logSpoolMaxBytes events).spoolLimitBreached = false)
    (absent : ∀ secret ∈ ordered secrets,
      ¬ secret <:+: ((dataOf stream events).map received).flatten) :
    (outputRun secrets logSpoolMaxBytes events).logs.file stream =
      (pieces ((create secrets).maxSecretLength - 1) []
        ((dataOf stream events).map received)).flatMap Utf16.toBytes := by
  have grown :=
    @complete_file logSpoolMaxBytes (startRun secrets) stream events
      unbreached
  have start : ((startRun secrets).redactors.get stream) = create secrets := by
    cases stream <;> rfl
  have empty : (startRun secrets).logs.file stream = [] := by
    cases stream <;> rfl
  rw [start, empty, List.nil_append, outputs_eq_pieces] at grown
  · exact grown
  · intro none
    refine ⟨rfl, ?_⟩
    have nothing : ordered secrets = [] := List.length_eq_zero_iff.mp none
    show (ordered secrets).foldl _ 0 = 0
    rw [nothing, List.foldl_nil]
  · exact absent

/-- Two events of a stream, cut between characters. -/
def unbrokenEvents : List DataEvent :=
  [(.stdout, Utf8.encode "café € 1.".toList),
    (.stderr, Utf8.encode "warn".toList),
    (.stdout, Utf8.encode "😀 done".toList)]

/-- A character of two bytes, of which each event holds one. -/
def brokenEvents : List DataEvent :=
  [(.stdout, [0xC3]), (.stdout, [0xA9])]

end Rbo.Agent.OutputSpool
