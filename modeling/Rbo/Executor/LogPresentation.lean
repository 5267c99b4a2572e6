import Rbo.Foundation.Utf8

/-!
# The presentation of raw log bytes

Raw output is cleaned for a reader: control sequences are dropped by a
byte-level parser that keeps only bounded counters, and the rest is passed on
in whole characters.  A call stops when its output budget or its scan budget
is used up, or before a character whose last bytes are not there yet; the
number of consumed bytes and the parser state let the caller resume exactly
there.

The option that collapses duplicate lines is set by no caller and is left out.
-/

namespace Rbo.Executor.LogPresentation

open Rbo.Foundation

/-! ## The parser of control sequences -/

/-- Where the parser is in a control sequence. -/
inductive PresentationParserMode where
  | ground
  | escape
  | csi
  | osc
  | oscEscape
  | discard
  deriving DecidableEq

/-- What the parser carries from call to call. -/
structure LogPresentationState where
  mode : PresentationParserMode
  csiLength : Nat
  oscLength : Nat
  controlLength : Nat
  deriving DecidableEq

def minBudget : Nat := 4
def maxControlBytes : Nat := 4096

def initialState : LogPresentationState where
  mode := .ground
  csiLength := 0
  oscLength := 0
  controlLength := 0

/-- A state with its counters clamped, the initial one when there is none. -/
def copyState (state : Option LogPresentationState) :
    LogPresentationState :=
  let source := state.getD initialState
  { mode := source.mode
    csiLength := min source.csiLength maxControlBytes
    oscLength := min source.oscLength maxControlBytes
    controlLength := min source.controlLength maxControlBytes }

/-- The number of bytes a character with this lead byte has. -/
def utf8Width (byte : UInt8) : Nat :=
  if byte < 0x80 then 1
  else if 0xC2 ≤ byte ∧ byte ≤ 0xDF then 2
  else if 0xE0 ≤ byte ∧ byte ≤ 0xEF then 3
  else if 0xF0 ≤ byte ∧ byte ≤ 0xF4 then 4
  else 1

/-- Count a byte of a control sequence, and give up on one that is too long. -/
def controlByte (parser : LogPresentationState) : LogPresentationState :=
  let controlLength := min maxControlBytes (parser.controlLength + 1)
  let mode := if maxControlBytes ≤ controlLength then .discard else parser.mode
  { mode := mode
    csiLength :=
      if mode = .csi then min maxControlBytes (parser.csiLength + 1)
      else parser.csiLength
    oscLength :=
      if mode = .osc ∨ mode = .oscEscape then
        min maxControlBytes (parser.oscLength + 1)
      else
        parser.oscLength
    controlLength := controlLength }

/-- Back to ordinary text. -/
def LogPresentationState.toGround (parser : LogPresentationState) :
    LogPresentationState :=
  { parser with mode := .ground, controlLength := 0 }

/--
The parser after a byte that is not ordinary text, and whether the byte is
consumed.  An unknown escape gives its second byte back.
-/
def LogPresentationState.control (parser : LogPresentationState)
    (byte : UInt8) : LogPresentationState × Bool :=
  let counted := controlByte parser
  match parser.mode with
  | .escape =>
    if byte = 0x5B then ({ counted with mode := .csi, csiLength := 0 }, true)
    else if byte = 0x5D then
      ({ counted with mode := .osc, oscLength := 0 }, true)
    else (counted.toGround, false)
  | .csi =>
    (if 0x40 ≤ byte ∧ byte ≤ 0x7E then counted.toGround else counted, true)
  | .osc | .oscEscape =>
    -- The mode is looked at again after the byte has been counted.
    (if counted.mode = .oscEscape then
      if byte = 0x5C then counted.toGround
      else { counted with mode := .osc }
    else if byte = 0x07 then counted.toGround
    else if byte = 0x1B then { counted with mode := .oscEscape }
    else counted, true)
  | .discard | .ground =>
    (if byte = 0x07 ∨ byte = 0x5C then counted.toGround else counted, true)

/-! ## The loop over the raw bytes -/

/-- The state of the loop. -/
structure Presenting where
  parser : LogPresentationState
  chunkIndex : Nat
  offset : Nat
  output : List UInt8
  consumed : Nat
  scanned : Nat
  deriving DecidableEq

/-- One turn of the loop goes on or leaves it. -/
inductive Turn where
  | next (presenting : Presenting)
  | stop (presenting : Presenting) (truncated : Bool)
  deriving DecidableEq

/--
The inner loop that moves over the bytes of a character.  It compares with the
length of the chunk the character begins in, also after it has gone on to the
next one.
-/
def moveOver (chunkCount chunkLength : Nat) :
    Nat → Nat → Presenting → Presenting
  | 0, _, presenting => presenting
  | fuel + 1, remaining, presenting =>
    if remaining = 0 then
      presenting
    else
      let step := min remaining (chunkLength - presenting.offset)
      let moved :=
        { presenting with
          offset := presenting.offset + step
          consumed := presenting.consumed + step }
      if moved.offset = chunkLength ∧ 0 < remaining - step then
        let entered :=
          { moved with chunkIndex := moved.chunkIndex + 1, offset := 0 }
        if chunkCount ≤ entered.chunkIndex then entered
        else moveOver chunkCount chunkLength fuel (remaining - step) entered
      else
        moveOver chunkCount chunkLength fuel (remaining - step) moved

/-- `append`: add bytes to the output if they fit the budget. -/
def Presenting.append (presenting : Presenting) (maxBytes : Nat)
    (bytes : List UInt8) : Option Presenting :=
  if maxBytes < presenting.output.length + bytes.length then
    none
  else
    some { presenting with output := presenting.output ++ bytes }

/-- Move over one byte. -/
def Presenting.skip (presenting : Presenting) : Presenting :=
  { presenting with
    offset := presenting.offset + 1
    consumed := presenting.consumed + 1 }

def Presenting.emitByte (presenting : Presenting) (maxBytes : Nat)
    (byte : UInt8) : Turn :=
  match presenting.append maxBytes [byte] with
  | none => .stop presenting true
  | some emitted => .next emitted.skip

/-- One byte of ordinary text, already counted as scanned. -/
def Presenting.ground (presenting : Presenting) (chunks : List (List UInt8))
    (chunk : List UInt8) (maxBytes scanCap : Nat) (byte : UInt8) : Turn :=
  if byte = 0x1B then
    .next
      { presenting with
        parser :=
          { presenting.parser with mode := .escape, controlLength := 1 } }.skip
  else
    let width := utf8Width byte
    if 1 < width then
      let candidate :=
        ((chunks.drop presenting.chunkIndex).flatten.drop
          presenting.offset).take width
      let unscanned :=
        { presenting with scanned := presenting.scanned - 1 }
      if candidate.length < width then
        .stop unscanned false
      else if scanCap < presenting.scanned + width - 1 then
        .stop unscanned true
      else if Utf8.replacement ∈ Utf8.decode candidate then
        presenting.emitByte maxBytes byte
      else
        match presenting.append maxBytes candidate with
        | none => .stop presenting true
        | some emitted =>
          .next
            (moveOver chunks.length chunk.length width width
              { emitted with scanned := presenting.scanned + width - 1 })
    else
      presenting.emitByte maxBytes byte

/-- One turn of the loop of `presentLogChunks`. -/
def Presenting.turn (chunks : List (List UInt8)) (maxBytes scanCap : Nat)
    (presenting : Presenting) : Turn :=
  match chunks[presenting.chunkIndex]? with
  | none => .stop presenting false
  | some chunk =>
    match chunk[presenting.offset]? with
    | none =>
      .next
        { presenting with
          chunkIndex := presenting.chunkIndex + 1, offset := 0 }
    | some byte =>
      if scanCap ≤ presenting.scanned then
        .stop presenting true
      else
        let scanning :=
          { presenting with scanned := presenting.scanned + 1 }
        if presenting.parser.mode = .ground then
          scanning.ground chunks chunk maxBytes scanCap byte
        else
          let controlled := presenting.parser.control byte
          let parsed := { scanning with parser := controlled.1 }
          .next (if controlled.2 then parsed.skip else parsed)

/-- Take at most that many turns. -/
def Presenting.run (chunks : List (List UInt8)) (maxBytes scanCap : Nat) :
    Nat → Presenting → Presenting × Bool
  | 0, presenting => (presenting, false)
  | fuel + 1, presenting =>
    match presenting.turn chunks maxBytes scanCap with
    | .next later => later.run chunks maxBytes scanCap fuel
    | .stop last truncated => (last, truncated)

/-- What a call returns. -/
structure PresentLogResult where
  data : List UInt8
  state : LogPresentationState
  consumedRawBytes : Nat
  scannedRawBytes : Nat
  truncated : Bool
  deriving DecidableEq

/-- The loop before its first turn. -/
def Presenting.start (state : Option LogPresentationState) : Presenting where
  parser := copyState state
  chunkIndex := 0
  offset := 0
  output := []
  consumed := 0
  scanned := 0

/-- More turns than the loop can take. -/
def turnBound (chunks : List (List UInt8)) : Nat :=
  2 * (chunks.flatten.length + 5 * chunks.length) + 2

/-- `presentLogChunks` with `stripAnsi` set. -/
def presentLogChunks (chunks : List (List UInt8))
    (state : Option LogPresentationState) (maxBytes rawScanCap : Nat) :
    PresentLogResult :=
  let ran :=
    (Presenting.start state).run chunks maxBytes rawScanCap
      (turnBound chunks)
  { data := ran.1.output
    state := ran.1.parser
    consumedRawBytes := ran.1.consumed
    scannedRawBytes := ran.1.scanned
    truncated := ran.2 }

/-! ## A call consumes at least one byte -/

theorem utf8Width_le (byte : UInt8) : utf8Width byte ≤ 4 := by
  rw [utf8Width]
  split
  · decide
  · split
    · decide
    · split
      · decide
      · split <;> decide

theorem consumed_le_moveOver (chunkCount chunkLength fuel remaining : Nat)
    (presenting : Presenting) :
    presenting.consumed ≤
      (moveOver chunkCount chunkLength fuel remaining
        presenting).consumed := by
  induction fuel generalizing remaining presenting with
  | zero => exact Nat.le_refl _
  | succ fuel induction =>
    rw [moveOver]
    split
    · exact Nat.le_refl _
    · dsimp only
      split
      · split
        · exact Nat.le_add_right _ _
        · refine Nat.le_trans ?_ (induction _ _)
          exact Nat.le_add_right _ _
      · refine Nat.le_trans ?_ (induction _ _)
        exact Nat.le_add_right _ _

/-- Moving over a character consumes its first byte at least. -/
theorem consumed_lt_moveOver (chunkCount : Nat)
    {chunkLength remaining fuel : Nat} {presenting : Presenting}
    (inside : presenting.offset < chunkLength) (some : 0 < remaining)
    (fueled : 0 < fuel) :
    presenting.consumed <
      (moveOver chunkCount chunkLength fuel remaining
        presenting).consumed := by
  have step : 0 < min remaining (chunkLength - presenting.offset) := by
    omega
  cases fuel with
  | zero => exact absurd fueled (Nat.lt_irrefl 0)
  | succ fuel =>
    rw [moveOver, if_neg (by omega)]
    dsimp only
    split
    · split
      · dsimp only
        omega
      · refine Nat.lt_of_lt_of_le ?_ (consumed_le_moveOver _ _ _ _ _)
        dsimp only
        omega
    · refine Nat.lt_of_lt_of_le ?_ (consumed_le_moveOver _ _ _ _ _)
      dsimp only
      omega

/-- The loop state of a turn, whether it goes on or stops. -/
def Turn.presenting : Turn → Presenting
  | .next presenting => presenting
  | .stop presenting _ => presenting

theorem consumed_le_emitByte (presenting : Presenting) (maxBytes : Nat)
    (byte : UInt8) :
    presenting.consumed ≤
      (presenting.emitByte maxBytes byte).presenting.consumed := by
  rw [Presenting.emitByte]
  split
  · exact Nat.le_refl _
  · rename_i emitted appended
    rw [Presenting.append] at appended
    split at appended
    · cases appended
    · rw [Option.some.injEq] at appended
      subst appended
      exact Nat.le_add_right _ _

theorem consumed_le_ground (presenting : Presenting)
    (chunks : List (List UInt8)) (chunk : List UInt8)
    (maxBytes scanCap : Nat) (byte : UInt8) :
    presenting.consumed ≤
      (presenting.ground chunks chunk maxBytes scanCap
        byte).presenting.consumed := by
  rw [Presenting.ground]
  split
  · exact Nat.le_add_right _ _
  · dsimp only
    split
    · split
      · exact Nat.le_refl _
      · split
        · exact Nat.le_refl _
        · split
          · exact consumed_le_emitByte _ _ _
          · split
            · exact Nat.le_refl _
            · rename_i emitted appended
              rw [Presenting.append] at appended
              split at appended
              · cases appended
              · rw [Option.some.injEq] at appended
                subst appended
                refine Nat.le_trans ?_ (consumed_le_moveOver _ _ _ _ _)
                exact Nat.le_refl _
    · exact consumed_le_emitByte _ _ _

/-- No turn gives consumed bytes back. -/
theorem consumed_le_turn (chunks : List (List UInt8))
    (maxBytes scanCap : Nat) (presenting : Presenting) :
    presenting.consumed ≤
      (presenting.turn chunks maxBytes scanCap).presenting.consumed := by
  rw [Presenting.turn]
  split
  · exact Nat.le_refl _
  · split
    · exact Nat.le_refl _
    · split
      · exact Nat.le_refl _
      · dsimp only
        split
        · exact consumed_le_ground { presenting with
            scanned := presenting.scanned + 1 } _ _ _ _ _
        · change presenting.consumed ≤ Presenting.consumed (if _ then _ else _)
          split
          · exact Nat.le_add_right _ _
          · exact Nat.le_refl _

theorem consumed_le_run (chunks : List (List UInt8))
    (maxBytes scanCap fuel : Nat) (presenting : Presenting) :
    presenting.consumed ≤
      (presenting.run chunks maxBytes scanCap fuel).1.consumed := by
  induction fuel generalizing presenting with
  | zero => exact Nat.le_refl _
  | succ fuel induction =>
    have turned := consumed_le_turn chunks maxBytes scanCap presenting
    rw [Presenting.run]
    split
    · rename_i later equal
      rw [equal] at turned
      exact Nat.le_trans turned (induction later)
    · rename_i last truncated equal
      rw [equal] at turned
      exact turned

/-- The loop stands before the first byte of its first chunk. -/
structure AtFirst (presenting : Presenting) : Prop where
  chunkIndex : presenting.chunkIndex = 0
  offset : presenting.offset = 0
  output : presenting.output = []

section FirstByte

variable {presenting : Presenting} {byte : UInt8} {rest : List UInt8}
  {more : List (List UInt8)} {maxBytes scanCap : Nat}

theorem AtFirst.chunk (first : AtFirst presenting) :
    ((byte :: rest) :: more)[presenting.chunkIndex]? =
      some (byte :: rest) := by
  rw [first.chunkIndex]
  rfl

theorem AtFirst.atByte (first : AtFirst presenting) :
    (byte :: rest)[presenting.offset]? = some byte := by
  rw [first.offset]
  rfl

theorem emitByte_consumes (first : AtFirst presenting)
    (budget : 4 ≤ maxBytes) :
    ∃ later, presenting.emitByte maxBytes byte = .next later ∧
      presenting.consumed < later.consumed := by
  refine ⟨Presenting.skip { presenting with output := [byte] }, ?_,
    Nat.lt_succ_self _⟩
  rw [Presenting.emitByte, Presenting.append, if_neg]
  · rw [first.output]
    rfl
  · rw [first.output]
    simp only [List.length_nil, List.length_singleton]
    omega

/-- Ordinary text at the first byte: a whole character is consumed. -/
theorem ground_consumes (first : AtFirst presenting)
    (whole : utf8Width byte ≤ ((byte :: rest) :: more).flatten.length)
    (budget : 4 ≤ maxBytes) (scan : presenting.scanned + 3 ≤ scanCap) :
    ∃ later,
      presenting.ground ((byte :: rest) :: more) (byte :: rest) maxBytes
          scanCap byte =
        .next later ∧
      presenting.consumed < later.consumed := by
  have wide := utf8Width_le byte
  rw [Presenting.ground]
  split
  · exact ⟨_, rfl, Nat.lt_succ_self _⟩
  · dsimp only
    split
    · rename_i multi
      have candidate :
          ((((byte :: rest) :: more).drop
              presenting.chunkIndex).flatten.drop
                presenting.offset).take (utf8Width byte) =
            ((byte :: rest) :: more).flatten.take (utf8Width byte) := by
        rw [first.chunkIndex, first.offset, List.drop_zero, List.drop_zero]
      have length :
          (((byte :: rest) :: more).flatten.take
            (utf8Width byte)).length = utf8Width byte := by
        rw [List.length_take, Nat.min_eq_left whole]
      rw [candidate, length, if_neg (Nat.lt_irrefl _),
        if_neg (by omega)]
      split
      · exact emitByte_consumes first budget
      · rw [Presenting.append, if_neg]
        · refine ⟨_, rfl, ?_⟩
          have inside : presenting.offset < (byte :: rest).length := by
            rw [first.offset]
            exact Nat.succ_pos _
          have positive : 0 < utf8Width byte := Nat.lt_of_succ_lt multi
          exact
            @consumed_lt_moveOver _ _ _ _
              { presenting with
                output := presenting.output ++ _
                scanned := _ } inside positive positive
        · rw [first.output, length, List.length_nil]
          omega
    · exact emitByte_consumes first budget

/-- A byte of a control sequence is consumed, or given back to the text. -/
theorem control_consumes (parser : LogPresentationState) (byte : UInt8) :
    (parser.control byte).2 = true ∨
      (parser.control byte).1.mode = .ground := by
  rw [LogPresentationState.control]
  split
  · split
    · exact Or.inl rfl
    · split
      · exact Or.inl rfl
      · exact Or.inr rfl
  all_goals exact Or.inl rfl

/-- A turn at a byte, within the scan budget. -/
theorem turn_eq_of_byte {chunks : List (List UInt8)} {chunk : List UInt8}
    (inChunk : chunks[presenting.chunkIndex]? = some chunk)
    (atByte : chunk[presenting.offset]? = some byte)
    (scan : presenting.scanned < scanCap) :
    presenting.turn chunks maxBytes scanCap =
      if presenting.parser.mode = .ground then
        Presenting.ground
          { presenting with scanned := presenting.scanned + 1 }
          chunks chunk maxBytes scanCap byte
      else
        .next
          (if (presenting.parser.control byte).2 then
            Presenting.skip
              { presenting with
                scanned := presenting.scanned + 1
                parser := (presenting.parser.control byte).1 }
          else
            { presenting with
              scanned := presenting.scanned + 1
              parser := (presenting.parser.control byte).1 }) := by
  rw [Presenting.turn, inChunk]
  dsimp only
  rw [atByte]
  dsimp only
  rw [if_neg (Nat.not_le.mpr scan)]

theorem run_consumes_of_next {later : Presenting} (fuel : Nat)
    {chunks : List (List UInt8)}
    (turned : presenting.turn chunks maxBytes scanCap = .next later)
    (less : presenting.consumed < later.consumed) :
    presenting.consumed <
      (presenting.run chunks maxBytes scanCap (fuel + 1)).1.consumed := by
  rw [Presenting.run, turned]
  exact Nat.lt_of_lt_of_le less (consumed_le_run _ _ _ _ _)

/-- From ordinary text the run consumes the first byte. -/
theorem run_consumes_of_ground (fuel : Nat) (first : AtFirst presenting)
    (ground : presenting.parser.mode = .ground)
    (whole : utf8Width byte ≤ ((byte :: rest) :: more).flatten.length)
    (budget : 4 ≤ maxBytes) (scan : presenting.scanned + 4 ≤ scanCap) :
    presenting.consumed <
      (presenting.run ((byte :: rest) :: more) maxBytes scanCap
        (fuel + 1)).1.consumed := by
  have scanning :
      AtFirst { presenting with scanned := presenting.scanned + 1 } :=
    ⟨first.chunkIndex, first.offset, first.output⟩
  rcases @ground_consumes _ byte rest more maxBytes scanCap scanning whole budget
    (by dsimp only; omega) with ⟨later, turned, less⟩
  refine run_consumes_of_next fuel ?_ less
  rw [turn_eq_of_byte first.chunk first.atByte (by omega), if_pos ground]
  exact turned

/-- From any parser state the run consumes the first byte. -/
theorem run_consumes (fuel : Nat) (first : AtFirst presenting)
    (whole : utf8Width byte ≤ ((byte :: rest) :: more).flatten.length)
    (budget : 4 ≤ maxBytes) (scan : presenting.scanned + 5 ≤ scanCap) :
    presenting.consumed <
      (presenting.run ((byte :: rest) :: more) maxBytes scanCap
        (fuel + 2)).1.consumed := by
  by_cases ground : presenting.parser.mode = .ground
  · exact run_consumes_of_ground (fuel + 1) first ground whole budget
      (by omega)
  · let parsed : Presenting :=
      { presenting with
        scanned := presenting.scanned + 1
        parser := (presenting.parser.control byte).1 }
    have turned :
        presenting.turn ((byte :: rest) :: more) maxBytes scanCap =
          .next
            (if (presenting.parser.control byte).2 then parsed.skip
            else parsed) := by
      rw [turn_eq_of_byte first.chunk first.atByte (by omega), if_neg ground]
    by_cases consumed : (presenting.parser.control byte).2 = true
    · rw [if_pos consumed] at turned
      exact run_consumes_of_next _ turned (Nat.lt_succ_self _)
    · -- The byte is given back: the next turn sees it as text.
      rw [if_neg consumed] at turned
      have later : AtFirst parsed :=
        ⟨first.chunkIndex, first.offset, first.output⟩
      rw [Presenting.run, turned]
      exact run_consumes_of_ground fuel later
        ((control_consumes _ _).resolve_left consumed) whole budget
        (by dsimp only [parsed]; omega)

end FirstByte

/-- A call whose first character is whole consumes at least one byte. -/
theorem presentLogChunks_consumes (state : Option LogPresentationState)
    {byte : UInt8} {rest : List UInt8} {more : List (List UInt8)}
    {maxBytes rawScanCap : Nat}
    (whole : utf8Width byte ≤ ((byte :: rest) :: more).flatten.length)
    (budget : 4 ≤ maxBytes) (scan : 5 ≤ rawScanCap) :
    0 < (presentLogChunks ((byte :: rest) :: more) state maxBytes
      rawScanCap).consumedRawBytes :=
  @run_consumes (Presenting.start state) byte rest more maxBytes rawScanCap
    _ ⟨rfl, rfl, rfl⟩ whole budget (by simpa [Presenting.start] using scan)

/-! ## A call on one chunk -/

/-- A character that lies in its chunk is moved over at once. -/
theorem moveOver_within (chunkCount : Nat) {chunkLength remaining fuel : Nat}
    {presenting : Presenting}
    (within : remaining ≤ chunkLength - presenting.offset)
    (fueled : 0 < fuel) :
    moveOver chunkCount chunkLength fuel remaining presenting =
      { presenting with
        offset := presenting.offset + remaining
        consumed := presenting.consumed + remaining } := by
  cases fuel with
  | zero => exact absurd fueled (Nat.lt_irrefl 0)
  | succ fuel =>
    rw [moveOver]
    by_cases nothing : remaining = 0
    · rw [if_pos nothing, nothing]
      rfl
    · rw [if_neg nothing, Nat.min_eq_left within]
      dsimp only
      rw [Nat.sub_self, if_neg (by omega)]
      cases fuel with
      | zero => rfl
      | succ fuel => rw [moveOver, if_pos rfl]

/-- Where the loop stands in its only chunk. -/
def InChunk (bytes : List UInt8) (presenting : Presenting) : Prop :=
  (presenting.chunkIndex = 0 ∧ presenting.offset = presenting.consumed ∧
      presenting.consumed ≤ bytes.length) ∨
    (presenting.chunkIndex = 1 ∧ presenting.consumed = bytes.length)

/-- A turn on one chunk stays in it, and a truncated one before its end. -/
def Turn.InChunk (bytes : List UInt8) : Turn → Prop
  | .next presenting => LogPresentation.InChunk bytes presenting
  | .stop presenting truncated =>
    presenting.consumed ≤ bytes.length ∧
      (truncated = true → presenting.consumed < bytes.length)

section OneChunk

variable {presenting : Presenting} {bytes : List UInt8} {byte : UInt8}

theorem emitByte_inChunk (maxBytes : Nat)
    (chunkIndex : presenting.chunkIndex = 0)
    (offset : presenting.offset = presenting.consumed)
    (less : presenting.consumed < bytes.length) :
    (presenting.emitByte maxBytes byte).InChunk bytes := by
  rw [Presenting.emitByte, Presenting.append]
  split
  · rename_i refused
    exact ⟨Nat.le_of_lt less, fun _ => less⟩
  · rename_i emitted appended
    split at appended
    · cases appended
    · rw [Option.some.injEq] at appended
      subst appended
      exact Or.inl ⟨chunkIndex, congrArg Nat.succ offset, less⟩

theorem ground_inChunk (maxBytes scanCap : Nat)
    (chunkIndex : presenting.chunkIndex = 0)
    (offset : presenting.offset = presenting.consumed)
    (less : presenting.consumed < bytes.length) :
    (presenting.ground [bytes] bytes maxBytes scanCap byte).InChunk
      bytes := by
  rw [Presenting.ground]
  split
  · exact Or.inl ⟨chunkIndex, congrArg Nat.succ offset, less⟩
  · dsimp only
    split
    · rename_i multi
      have candidate :
          ((([bytes].drop presenting.chunkIndex).flatten.drop
              presenting.offset).take (utf8Width byte)).length =
            min (utf8Width byte) (bytes.length - presenting.consumed) := by
        rw [chunkIndex, offset, List.drop_zero, List.length_take,
          List.length_drop, List.flatten_singleton]
      split
      · exact ⟨Nat.le_of_lt less, fun truncated => by cases truncated⟩
      · rename_i enough
        rw [candidate] at enough
        split
        · exact ⟨Nat.le_of_lt less, fun _ => less⟩
        · split
          · exact emitByte_inChunk maxBytes chunkIndex offset less
          · rw [Presenting.append]
            split
            · exact ⟨Nat.le_of_lt less, fun _ => less⟩
            · rename_i emitted appended
              split at appended
              · cases appended
              · rw [Option.some.injEq] at appended
                subst appended
                rw [moveOver_within _ (by dsimp only; omega) (by omega)]
                refine Or.inl ⟨chunkIndex, ?_, ?_⟩
                · dsimp only
                  rw [offset]
                · dsimp only
                  omega
    · exact emitByte_inChunk maxBytes chunkIndex offset less

/-- Every turn on one chunk stays in it. -/
theorem turn_inChunk (maxBytes scanCap : Nat)
    (inChunk : InChunk bytes presenting) :
    (presenting.turn [bytes] maxBytes scanCap).InChunk bytes := by
  rcases inChunk with ⟨chunkIndex, offset, bound⟩ | ⟨chunkIndex, atEnd⟩
  · have chunk : [bytes][presenting.chunkIndex]? = some bytes := by
      rw [chunkIndex]
      rfl
    cases found : bytes[presenting.offset]? with
    | none =>
      rw [List.getElem?_eq_none_iff, offset] at found
      rw [Presenting.turn, chunk]
      dsimp only
      rw [List.getElem?_eq_none (offset ▸ found)]
      refine Or.inr ⟨?_, Nat.le_antisymm bound found⟩
      dsimp only
      rw [chunkIndex]
    | some byte =>
      have less : presenting.consumed < bytes.length := by
        rw [← offset]
        exact (List.getElem?_eq_some_iff.mp found).1
      by_cases scan : presenting.scanned < scanCap
      · rw [turn_eq_of_byte chunk found scan]
        split
        · exact ground_inChunk maxBytes scanCap chunkIndex offset less
        · change InChunk bytes (if _ then _ else _)
          split
          · exact Or.inl ⟨chunkIndex, congrArg Nat.succ offset, less⟩
          · exact Or.inl ⟨chunkIndex, offset, bound⟩
      · rw [Presenting.turn, chunk]
        dsimp only
        rw [found]
        dsimp only
        rw [if_pos (Nat.not_lt.mp scan)]
        exact ⟨bound, fun _ => less⟩
  · rw [Presenting.turn, chunkIndex]
    exact ⟨Nat.le_of_eq atEnd, fun truncated => by cases truncated⟩

theorem run_inChunk (maxBytes scanCap fuel : Nat)
    (inChunk : InChunk bytes presenting) :
    (Turn.stop (presenting.run [bytes] maxBytes scanCap fuel).1
      (presenting.run [bytes] maxBytes scanCap fuel).2).InChunk bytes := by
  induction fuel generalizing presenting with
  | zero =>
    refine ⟨?_, fun truncated => by cases truncated⟩
    rcases inChunk with ⟨_, _, bound⟩ | ⟨_, atEnd⟩
    · exact bound
    · exact Nat.le_of_eq atEnd
  | succ fuel induction =>
    have turned := turn_inChunk maxBytes scanCap inChunk
    rw [Presenting.run]
    split
    · rename_i later equal
      rw [equal] at turned
      exact induction turned
    · rename_i last truncated equal
      rw [equal] at turned
      exact turned

end OneChunk

/-- A call on one chunk consumes no more than it, and all only untruncated. -/
theorem presentLogChunks_one (bytes : List UInt8)
    (state : Option LogPresentationState) (maxBytes rawScanCap : Nat) :
    let result := presentLogChunks [bytes] state maxBytes rawScanCap
    result.consumedRawBytes ≤ bytes.length ∧
      (result.truncated = true → result.consumedRawBytes < bytes.length) :=
  run_inChunk maxBytes rawScanCap _ (Or.inl ⟨rfl, rfl, Nat.zero_le _⟩)

/-! ## The counters stay in their bound -/

/-- The counters of a state are within the bound of the parser. -/
structure Bounded (state : LogPresentationState) : Prop where
  csiLength : state.csiLength ≤ maxControlBytes
  oscLength : state.oscLength ≤ maxControlBytes
  controlLength : state.controlLength ≤ maxControlBytes

theorem bounded_copyState (state : Option LogPresentationState) :
    Bounded (copyState state) :=
  ⟨Nat.min_le_right _ _, Nat.min_le_right _ _, Nat.min_le_right _ _⟩

section Parser

variable {parser : LogPresentationState}

theorem Bounded.toGround (bounded : Bounded parser) :
    Bounded parser.toGround :=
  ⟨bounded.csiLength, bounded.oscLength, Nat.zero_le _⟩

theorem clamped {counts : Prop} [Decidable counts] {limit next now : Nat}
    (bounded : now ≤ limit) :
    (if counts then min limit next else now) ≤ limit := by
  split
  · exact Nat.min_le_left _ _
  · exact bounded

theorem Bounded.counted (bounded : Bounded parser) :
    Bounded (controlByte parser) :=
  ⟨clamped bounded.csiLength, clamped bounded.oscLength,
    Nat.min_le_left _ _⟩

theorem Bounded.ends (bounded : Bounded parser) (ended : Prop)
    [Decidable ended] :
    Bounded (if ended then parser.toGround else parser) := by
  split
  · exact bounded.toGround
  · exact bounded

theorem Bounded.withMode (bounded : Bounded parser)
    (mode : PresentationParserMode) :
    Bounded { parser with mode := mode } :=
  ⟨bounded.csiLength, bounded.oscLength, bounded.controlLength⟩

/-- A byte of a control sequence keeps the counters in their bound. -/
theorem Bounded.control (bounded : Bounded parser) (byte : UInt8) :
    Bounded (parser.control byte).1 := by
  have counted := bounded.counted
  have string : Bounded
      (if (controlByte parser).mode = .oscEscape then
        if byte = 0x5C then (controlByte parser).toGround
        else { controlByte parser with mode := .osc }
      else if byte = 0x07 then (controlByte parser).toGround
      else if byte = 0x1B then { controlByte parser with mode := .oscEscape }
      else controlByte parser) := by
    split
    · split
      · exact counted.toGround
      · exact counted.withMode .osc
    · split
      · exact counted.toGround
      · split
        · exact counted.withMode .oscEscape
        · exact counted
  rw [LogPresentationState.control]
  split
  · split
    · exact ⟨Nat.zero_le _, counted.oscLength, counted.controlLength⟩
    · split
      · exact ⟨counted.csiLength, Nat.zero_le _, counted.controlLength⟩
      · exact counted.toGround
  · exact counted.ends _
  · exact string
  · exact string
  · exact counted.ends _
  · exact counted.ends _

end Parser

theorem parser_moveOver (chunkCount chunkLength fuel remaining : Nat)
    (presenting : Presenting) :
    (moveOver chunkCount chunkLength fuel remaining presenting).parser =
      presenting.parser := by
  induction fuel generalizing remaining presenting with
  | zero => rfl
  | succ fuel induction =>
    rw [moveOver]
    split
    · rfl
    · dsimp only
      split
      · split
        · rfl
        · exact induction _ _
      · exact induction _ _

theorem parser_append {presenting emitted : Presenting} {maxBytes : Nat}
    {bytes : List UInt8}
    (appended : presenting.append maxBytes bytes = some emitted) :
    emitted.parser = presenting.parser := by
  rw [Presenting.append] at appended
  split at appended
  · cases appended
  · cases appended
    rfl

theorem parser_emitByte (presenting : Presenting) (maxBytes : Nat)
    (byte : UInt8) :
    (presenting.emitByte maxBytes byte).presenting.parser =
      presenting.parser := by
  rw [Presenting.emitByte]
  split
  · rfl
  · rename_i emitted appended
    change emitted.parser = _
    exact parser_append appended

section Presenting

variable {presenting : Presenting} (chunks : List (List UInt8))
  (maxBytes scanCap : Nat)

theorem bounded_ground (chunk : List UInt8) (byte : UInt8)
    (bounded : Bounded presenting.parser) :
    Bounded (presenting.ground chunks chunk maxBytes scanCap
      byte).presenting.parser := by
  rw [Presenting.ground]
  split
  · have one : 1 ≤ maxControlBytes := by decide
    exact ⟨bounded.csiLength, bounded.oscLength, one⟩
  · dsimp only
    split
    · split
      · exact bounded
      · split
        · exact bounded
        · split
          · rw [parser_emitByte]
            exact bounded
          · split
            · exact bounded
            · rename_i emitted appended
              change Bounded (moveOver _ _ _ _ _).parser
              rw [parser_moveOver]
              change Bounded emitted.parser
              rw [parser_append appended]
              exact bounded
    · rw [parser_emitByte]
      exact bounded

theorem bounded_turn (bounded : Bounded presenting.parser) :
    Bounded (presenting.turn chunks maxBytes scanCap).presenting.parser := by
  rw [Presenting.turn]
  split
  · exact bounded
  · split
    · exact bounded
    · split
      · exact bounded
      · dsimp only
        split
        · exact bounded_ground chunks maxBytes scanCap _ _ bounded
        · change Bounded (Presenting.parser (if _ then _ else _))
          split <;> exact bounded.control _

theorem bounded_run (fuel : Nat) (bounded : Bounded presenting.parser) :
    Bounded (presenting.run chunks maxBytes scanCap fuel).1.parser := by
  induction fuel generalizing presenting with
  | zero => exact bounded
  | succ fuel induction =>
    have turned := bounded_turn chunks maxBytes scanCap bounded
    rw [Presenting.run]
    split
    · rename_i later equal
      rw [equal] at turned
      exact induction turned
    · rename_i last truncated equal
      rw [equal] at turned
      exact turned

/-- The state a call returns has its counters in their bound. -/
theorem bounded_presentLogChunks (state : Option LogPresentationState) :
    Bounded (presentLogChunks chunks state maxBytes scanCap).state :=
  bounded_run chunks maxBytes scanCap _ (bounded_copyState state)

end Presenting

end Rbo.Executor.LogPresentation
