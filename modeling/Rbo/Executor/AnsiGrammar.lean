import Rbo.Executor.LogPresentation

/-!
# Control sequences in a text

The grammar of the control sequences that a log is freed from.  A text is a
sequence of pieces: ordinary bytes, CSI sequences up to their final byte, OSC
strings up to a bell or an escape with a backslash, and escape bytes that
introduce neither.  A place of a text is what is left of it from there.

The parser of `presentLogChunks` is compared with the grammar: `Tracked` says
for which control sequences it finds the end that the grammar gives them.
-/

namespace Rbo.Executor.AnsiGrammar

open Rbo.Executor.LogPresentation

/-! ## The grammar -/

def bell : UInt8 := 0x07
def escape : UInt8 := 0x1B
def backslash : UInt8 := 0x5C

/-- Does a byte end a CSI sequence? -/
def isFinal (byte : UInt8) : Bool :=
  0x40 ≤ byte && byte ≤ 0x7E

/-- The rest of a CSI sequence, with its final byte if there is one. -/
def csiBody : List UInt8 → List UInt8
  | [] => []
  | byte :: rest => if isFinal byte then [byte] else byte :: csiBody rest

/-- The rest of an OSC string, with its terminator if there is one. -/
def oscBody : List UInt8 → List UInt8
  | [] => []
  | byte :: rest =>
    if byte = bell then [byte]
    else if byte = escape ∧ rest.head? = some backslash then
      [escape, backslash]
    else byte :: oscBody rest

/-- A piece of a text; an ordinary byte is given by its place. -/
inductive Piece where
  | ordinary (place : List UInt8)
  | lone
  | csi (body : List UInt8)
  | osc (body : List UInt8)
  deriving DecidableEq

/-- The first piece of a text, and what is left after it. -/
def nextPiece (byte : UInt8) (rest : List UInt8) : Piece × List UInt8 :=
  if byte ≠ escape then (.ordinary (byte :: rest), rest)
  else if rest.head? = some 0x5B then
    (.csi (csiBody rest.tail), rest.tail.drop (csiBody rest.tail).length)
  else if rest.head? = some 0x5D then
    (.osc (oscBody rest.tail), rest.tail.drop (oscBody rest.tail).length)
  else (.lone, rest)

/-- At most that many pieces. -/
def piecesFrom : Nat → List UInt8 → List Piece
  | 0, _ => []
  | _ + 1, [] => []
  | fuel + 1, byte :: rest =>
    (nextPiece byte rest).1 :: piecesFrom fuel (nextPiece byte rest).2

def pieces (bytes : List UInt8) : List Piece :=
  piecesFrom bytes.length bytes

def Piece.place? : Piece → Option (List UInt8)
  | .ordinary place => some place
  | _ => none

/-- The places of the ordinary bytes of a text. -/
def places (bytes : List UInt8) : List (List UInt8) :=
  (pieces bytes).filterMap Piece.place?

/-- The bytes at some places. -/
def bytesAt (places : List (List UInt8)) : List UInt8 :=
  places.filterMap List.head?

/-- A text without its control sequences. -/
def stripped (bytes : List UInt8) : List UInt8 :=
  bytesAt (places bytes)

/-! ## The places that a parser shows -/

/-- The places of the bytes that the parser takes for ordinary text. -/
def shown : LogPresentationState → List UInt8 → List (List UInt8)
  | _, [] => []
  | parser, byte :: rest =>
    if parser.mode = .ground then
      if byte = escape then
        shown { parser with mode := .escape, controlLength := 1 } rest
      else (byte :: rest) :: shown parser rest
    else if (parser.control byte).2 then
      shown (parser.control byte).1 rest
    else if byte = escape then
      shown
        { (parser.control byte).1 with mode := .escape, controlLength := 1 }
        rest
    else (byte :: rest) :: shown (parser.control byte).1 rest

/-! ## Laws of the grammar -/

theorem length_nextPiece_le (byte : UInt8) (rest : List UInt8) :
    (nextPiece byte rest).2.length ≤ rest.length := by
  rw [nextPiece]
  split
  · exact Nat.le_refl _
  · split
    · dsimp only
      rw [List.length_drop, List.length_tail]
      omega
    · split
      · dsimp only
        rw [List.length_drop, List.length_tail]
        omega
      · exact Nat.le_refl _

theorem nextPiece_ordinary {byte : UInt8} (ordinary : byte ≠ escape)
    (rest : List UInt8) :
    nextPiece byte rest = (.ordinary (byte :: rest), rest) := by
  rw [nextPiece, if_pos ordinary]

theorem nextPiece_csi (rest : List UInt8) :
    nextPiece escape (0x5B :: rest) =
      (.csi (csiBody rest), rest.drop (csiBody rest).length) :=
  rfl

theorem nextPiece_osc (rest : List UInt8) :
    nextPiece escape (0x5D :: rest) =
      (.osc (oscBody rest), rest.drop (oscBody rest).length) :=
  rfl

theorem nextPiece_lone {byte : UInt8} (notCsi : byte ≠ 0x5B)
    (notOsc : byte ≠ 0x5D) (rest : List UInt8) :
    nextPiece escape (byte :: rest) = (.lone, byte :: rest) := by
  have csi : ¬ (byte :: rest).head? = some 0x5B := fun equal =>
    notCsi (Option.some.inj equal)
  have osc : ¬ (byte :: rest).head? = some 0x5D := fun equal =>
    notOsc (Option.some.inj equal)
  rw [nextPiece, if_neg (not_not.mpr rfl), if_neg csi, if_neg osc]

theorem piecesFrom_eq {fuel other : Nat} {bytes : List UInt8}
    (enough : bytes.length ≤ fuel) (alsoEnough : bytes.length ≤ other) :
    piecesFrom fuel bytes = piecesFrom other bytes := by
  induction fuel generalizing other bytes with
  | zero =>
    have empty : bytes = [] := List.length_eq_zero_iff.mp (by omega)
    subst empty
    cases other <;> rfl
  | succ fuel induction =>
    cases bytes with
    | nil => cases other <;> rfl
    | cons byte rest =>
      cases other with
      | zero => exact absurd alsoEnough (by simp)
      | succ other =>
        rw [List.length_cons] at enough alsoEnough
        have short := length_nextPiece_le byte rest
        rw [piecesFrom, piecesFrom, @induction other]
        · omega
        · omega

theorem pieces_cons (byte : UInt8) (rest : List UInt8) :
    pieces (byte :: rest) =
      (nextPiece byte rest).1 :: pieces (nextPiece byte rest).2 := by
  rw [pieces, List.length_cons, piecesFrom, pieces,
    piecesFrom_eq (length_nextPiece_le byte rest) (Nat.le_refl _)]

theorem places_cons (byte : UInt8) (rest : List UInt8) :
    places (byte :: rest) =
      (nextPiece byte rest).1.place?.toList ++
        places (nextPiece byte rest).2 := by
  rw [places, pieces_cons, List.filterMap_cons, places]
  cases (nextPiece byte rest).1.place? <;> rfl

/-! ## Laws of the parser -/

section Parser

variable {parser other : LogPresentationState}

theorem mode_controlByte (parser : LogPresentationState) :
    (controlByte parser).mode =
      if 4095 ≤ parser.controlLength then .discard else parser.mode := by
  have limit : maxControlBytes ≤ min maxControlBytes
      (parser.controlLength + 1) ↔ 4095 ≤ parser.controlLength := by
    rw [maxControlBytes]
    omega
  unfold controlByte
  dsimp only
  by_cases long : 4095 ≤ parser.controlLength
  · rw [if_pos (limit.mpr long), if_pos long]
  · rw [if_neg (limit.not.mpr long), if_neg long]

theorem controlLength_controlByte (parser : LogPresentationState) :
    (controlByte parser).controlLength =
      min 4096 (parser.controlLength + 1) :=
  rfl

/-- What the parser goes by: its mode and the length of the sequence. -/
structure Alike (parser other : LogPresentationState) : Prop where
  mode : parser.mode = other.mode
  controlLength : parser.controlLength = other.controlLength

theorem Alike.counted (alike : Alike parser other) :
    Alike (controlByte parser) (controlByte other) := by
  constructor
  · rw [mode_controlByte, mode_controlByte, alike.mode, alike.controlLength]
  · rw [controlLength_controlByte, controlLength_controlByte,
      alike.controlLength]

theorem Alike.ite {first second third fourth : LogPresentationState}
    (condition : Prop) [Decidable condition] (yes : Alike first third)
    (no : Alike second fourth) :
    Alike (if condition then first else second)
      (if condition then third else fourth) := by
  split
  · exact yes
  · exact no

theorem Alike.control (alike : Alike parser other) (byte : UInt8) :
    Alike (parser.control byte).1 (other.control byte).1 ∧
      (parser.control byte).2 = (other.control byte).2 := by
  have counted := alike.counted
  have ground : Alike (controlByte parser).toGround
      (controlByte other).toGround := ⟨rfl, rfl⟩
  have string : Alike
      (if (controlByte parser).mode = .oscEscape then
        if byte = 0x5C then (controlByte parser).toGround
        else { controlByte parser with mode := .osc }
      else if byte = 0x07 then (controlByte parser).toGround
      else if byte = 0x1B then { controlByte parser with mode := .oscEscape }
      else controlByte parser)
      (if (controlByte other).mode = .oscEscape then
        if byte = 0x5C then (controlByte other).toGround
        else { controlByte other with mode := .osc }
      else if byte = 0x07 then (controlByte other).toGround
      else if byte = 0x1B then { controlByte other with mode := .oscEscape }
      else controlByte other) := by
    rw [counted.mode]
    refine Alike.ite _ (Alike.ite _ ground ⟨rfl, counted.controlLength⟩)
      (Alike.ite _ ground (Alike.ite _ ⟨rfl, counted.controlLength⟩ counted))
  unfold LogPresentationState.control
  dsimp only
  rw [← alike.mode]
  cases parser.mode with
  | ground => exact ⟨Alike.ite _ ground counted, rfl⟩
  | escape =>
    dsimp only
    split
    · exact ⟨⟨rfl, counted.controlLength⟩, rfl⟩
    · split
      · exact ⟨⟨rfl, counted.controlLength⟩, rfl⟩
      · exact ⟨ground, rfl⟩
  | csi => exact ⟨Alike.ite _ ground counted, rfl⟩
  | osc => exact ⟨string, rfl⟩
  | oscEscape => exact ⟨string, rfl⟩
  | discard => exact ⟨Alike.ite _ ground counted, rfl⟩

theorem shown_congr (alike : Alike parser other) (bytes : List UInt8) :
    shown parser bytes = shown other bytes := by
  induction bytes generalizing parser other with
  | nil => rfl
  | cons byte rest induction =>
    rcases alike.control byte with ⟨controlled, consumed⟩
    have restart {first second : LogPresentationState} :
        shown { first with mode := .escape, controlLength := 1 } rest =
          shown { second with mode := .escape, controlLength := 1 } rest :=
      induction ⟨rfl, rfl⟩
    rw [shown, shown, ← alike.mode, ← consumed, @restart parser other,
      induction alike, @restart (parser.control byte).1
        (other.control byte).1, induction controlled]

theorem shown_of_ground (ground : parser.mode = .ground) (byte : UInt8)
    (rest : List UInt8) :
    shown parser (byte :: rest) =
      if byte = escape then
        shown { parser with mode := .escape, controlLength := 1 } rest
      else (byte :: rest) :: shown parser rest := by
  rw [shown, if_pos ground]

/-- Ordinary text does not depend on what came before it. -/
theorem shown_ground (ground : parser.mode = .ground) (bytes : List UInt8) :
    shown parser bytes = shown initialState bytes := by
  induction bytes generalizing parser with
  | nil => rfl
  | cons byte rest induction =>
    have restart := shown_congr
      (⟨rfl, rfl⟩ : Alike
        { parser with mode := .escape, controlLength := 1 }
        { initialState with mode := .escape, controlLength := 1 }) rest
    rw [shown_of_ground ground,
      @shown_of_ground initialState rfl, restart, induction ground]

/-- A byte of a control sequence is not shown. -/
theorem shown_control (inside : parser.mode ≠ .ground) {byte : UInt8}
    (consumed : (parser.control byte).2 = true) (rest : List UInt8) :
    shown parser (byte :: rest) = shown (parser.control byte).1 rest := by
  rw [shown, if_neg inside, if_pos consumed]

end Parser

/-! ## CSI sequences -/

/-- The parser after so many bytes of a CSI sequence. -/
structure InCsi (count : Nat) (parser : LogPresentationState) : Prop where
  controlLength : parser.controlLength = min 4096 count
  mode : parser.mode = if count < 4096 then .csi else .discard

/-- The part of a sequence that is discarded, after so many bytes of it. -/
def discarded (count : Nat) (body : List UInt8) : List UInt8 :=
  body.drop (4096 - count)

/--
Discarding ends at a bell or a backslash, whichever sequence it is in.  The
end of a CSI sequence is found when no bell is discarded and its final byte,
if it is discarded, is a backslash.
-/
def CsiTracked (count : Nat) (body : List UInt8) : Prop :=
  bell ∉ discarded count body ∧
    ∀ last ∈ (discarded count body).getLast?, isFinal last = true →
      last = backslash

theorem discarded_cons (count : Nat) (byte : UInt8) (body : List UInt8) :
    discarded (count + 1) body <:+ discarded count (byte :: body) := by
  rw [discarded, discarded]
  by_cases early : count < 4096
  · have one : 4096 - count = (4096 - (count + 1)) + 1 := by omega
    rw [one]
    exact List.suffix_refl _
  · have none : 4096 - (count + 1) = 0 := by omega
    have noneYet : 4096 - count = 0 := by omega
    rw [none, noneYet, List.drop_zero, List.drop_zero]
    exact List.suffix_cons _ _

theorem CsiTracked.cons {count : Nat} {byte : UInt8} {body : List UInt8}
    (tracked : CsiTracked count (byte :: body)) :
    CsiTracked (count + 1) body := by
  have part := discarded_cons count byte body
  refine ⟨fun member => tracked.1 (part.subset member), ?_⟩
  intro last isLast
  refine tracked.2 last ?_
  rcases part with ⟨front, whole⟩
  rw [← whole, List.getLast?_append, isLast]
  rfl

variable {parser : LogPresentationState}

theorem InCsi.inside {count : Nat} (inCsi : InCsi count parser) :
    parser.mode ≠ .ground := by
  rw [inCsi.mode]
  split <;> decide

theorem InCsi.counted {count : Nat} (inCsi : InCsi count parser) :
    InCsi (count + 1) (controlByte parser) := by
  constructor
  · rw [controlLength_controlByte, inCsi.controlLength]
    omega
  · rw [mode_controlByte, inCsi.controlLength, inCsi.mode]
    by_cases early : count + 1 < 4096
    · rw [if_neg (by omega), if_pos (by omega), if_pos early]
    · rw [if_pos (by omega), if_neg early]

theorem isFinal_iff (byte : UInt8) :
    isFinal byte = true ↔ 0x40 ≤ byte ∧ byte ≤ 0x7E := by
  rw [isFinal, Bool.and_eq_true, decide_eq_true_iff, decide_eq_true_iff]

/-- A tracked sequence ends where its final byte is. -/
theorem InCsi.control {count : Nat} (inCsi : InCsi count parser)
    {byte : UInt8} {rest : List UInt8}
    (tracked : CsiTracked count (csiBody (byte :: rest))) :
    parser.control byte =
      (if isFinal byte then (controlByte parser).toGround
      else controlByte parser, true) := by
  rw [LogPresentationState.control, inCsi.mode]
  by_cases early : count < 4096
  · rw [if_pos early]
    dsimp only
    simp only [isFinal_iff]
  · rw [if_neg early]
    dsimp only
    have all (body : List UInt8) : discarded count body = body := by
      rw [discarded, Nat.sub_eq_zero_of_le (Nat.not_lt.mp early),
        List.drop_zero]
    rw [CsiTracked, all] at tracked
    by_cases final : isFinal byte = true
    · rw [csiBody, if_pos final] at tracked
      have last : byte = 0x5C := tracked.2 byte rfl final
      rw [if_pos (Or.inr last), if_pos final]
    · rw [csiBody, if_neg final] at tracked
      rw [if_neg final, if_neg]
      rintro (rfl | rfl)
      · exact tracked.1 List.mem_cons_self
      · exact final (by decide)

/-- The rest of a CSI sequence is passed over. -/
theorem shown_csi {count : Nat} (inCsi : InCsi count parser)
    {bytes : List UInt8} (tracked : CsiTracked count (csiBody bytes)) :
    shown parser bytes =
      shown initialState (bytes.drop (csiBody bytes).length) := by
  induction bytes generalizing count parser with
  | nil => rfl
  | cons byte rest induction =>
    have controlled := inCsi.control tracked
    rw [shown_control inCsi.inside (by rw [controlled]), controlled]
    by_cases final : isFinal byte = true
    · rw [csiBody, if_pos final, if_pos final]
      exact shown_ground rfl rest
    · rw [csiBody, if_neg final] at tracked
      rw [csiBody, if_neg final, if_neg final]
      exact induction inCsi.counted tracked.cons

/-! ## OSC strings -/

/--
Does a text end in an escape byte that is not the second of a pair?  The
parser reads the escape bytes of an OSC string in pairs.
-/
def unpaired : Bool → List UInt8 → Bool
  | pending, [] => pending
  | pending, byte :: rest =>
    unpaired (decide (byte = escape) && !pending) rest

/-- The string terminator that is an escape and a backslash. -/
def stringTerminator : List UInt8 :=
  [escape, backslash]

/--
The end of a short OSC string is found when its bell stands behind no
unpaired escape, or its backslash behind one.  In a long one no backslash may
be discarded before the end, and the escape of its terminator must not belong
to the escapes with which discarding begins.
-/
structure OscTracked (count : Nat) (pending : Bool)
    (body : List UInt8) : Prop where
  ringing : count + body.length < 4096 → body.getLast? = some bell →
    unpaired pending body.dropLast = false
  terminated : count + body.length < 4096 → stringTerminator <:+ body →
    unpaired pending body.dropLast = true
  discarded : 4096 ≤ count + body.length →
    backslash ∉ (discarded count body).dropLast
  late : 4096 ≤ count + body.length → stringTerminator <:+ body →
    (4096 ≤ count ∧ pending = false) ∨
      ∃ byte ∈ (body.drop (4095 - count)).dropLast, byte ≠ escape

/-- The parser after so many bytes of an OSC string. -/
structure InOsc (count : Nat) (pending : Bool)
    (parser : LogPresentationState) : Prop where
  controlLength : parser.controlLength = min 4096 count
  mode : parser.mode =
    if pending then .oscEscape
    else if count < 4096 then .osc
    else .discard

/-- Does the parser take the string to end at a byte? -/
def oscEnds (count : Nat) (pending : Bool) (byte : UInt8) : Prop :=
  if 4096 ≤ count ∧ pending = false then byte = bell ∨ byte = backslash
  else if count + 1 < 4096 ∧ pending = true then byte = backslash
  else byte = bell

/-- Has the parser read an escape that may begin a terminator? -/
def oscPending (count : Nat) (pending : Bool) (byte : UInt8) : Bool :=
  if count + 1 < 4096 then decide (byte = escape) && !pending
  else if 4096 ≤ count ∧ pending = false then false
  else decide (byte = escape)

section Osc

variable {count : Nat} {pending : Bool} {parser : LogPresentationState}
  {byte : UInt8} {body bytes : List UInt8}

theorem InOsc.inside (inOsc : InOsc count pending parser) :
    parser.mode ≠ .ground := by
  rw [inOsc.mode]
  split
  · decide
  · split <;> decide

theorem InOsc.length_counted (inOsc : InOsc count pending parser) :
    (controlByte parser).controlLength = min 4096 (count + 1) := by
  rw [controlLength_controlByte, inOsc.controlLength]
  omega

theorem InOsc.mode_counted (inOsc : InOsc count pending parser) :
    (controlByte parser).mode =
      if 4096 ≤ count + 1 then .discard else parser.mode := by
  rw [mode_controlByte, inOsc.controlLength]
  by_cases long : 4096 ≤ count + 1
  · rw [if_pos (by omega), if_pos long]
  · rw [if_neg (by omega), if_neg long]

/-- A byte of an OSC string ends it or is counted. -/
theorem InOsc.control (inOsc : InOsc count pending parser)
    (byte : UInt8) :
    (parser.control byte).2 = true ∧
      (oscEnds count pending byte →
        (parser.control byte).1.mode = .ground) ∧
      (¬ oscEnds count pending byte →
        InOsc (count + 1) (oscPending count pending byte)
          (parser.control byte).1) := by
  have length := inOsc.length_counted
  have mode := inOsc.mode_counted
  by_cases discards : 4096 ≤ count ∧ pending = false
  · have discarding : parser.mode = .discard := by
      rw [inOsc.mode, discards.2, if_neg Bool.false_ne_true,
        if_neg (by omega)]
    have controlled : parser.control byte =
        (if byte = bell ∨ byte = backslash then
          (controlByte parser).toGround
        else controlByte parser, true) := by
      rw [LogPresentationState.control, discarding]
      rfl
    rw [controlled, oscEnds, if_pos discards]
    refine ⟨rfl, fun ends => ?_, fun goesOn => ?_⟩
    · rw [if_pos ends]
      rfl
    · rw [if_neg goesOn, oscPending, if_neg (by omega), if_pos discards]
      refine ⟨length, ?_⟩
      rw [mode, if_pos (by omega), if_neg Bool.false_ne_true,
        if_neg (by omega)]
  · have controlled : parser.control byte =
        (if (controlByte parser).mode = .oscEscape then
          if byte = backslash then (controlByte parser).toGround
          else { controlByte parser with mode := .osc }
        else if byte = bell then (controlByte parser).toGround
        else if byte = escape then
          { controlByte parser with mode := .oscEscape }
        else controlByte parser, true) := by
      have inString : parser.mode = .oscEscape ∨ parser.mode = .osc := by
        rw [inOsc.mode]
        cases pending with
        | true => exact Or.inl rfl
        | false =>
          refine Or.inr ?_
          rw [if_neg Bool.false_ne_true, if_pos]
          rw [and_iff_left rfl] at discards
          omega
      rw [LogPresentationState.control]
      rcases inString with escaped | plain
      · rw [escaped]
        rfl
      · rw [plain]
        rfl
    rw [controlled]
    refine ⟨rfl, ?_⟩
    dsimp only
    by_cases escaped : count + 1 < 4096 ∧ pending = true
    · have counted : (controlByte parser).mode = .oscEscape := by
        rw [mode, if_neg (by omega), inOsc.mode, if_pos escaped.2]
      have reads : oscEnds count pending byte ↔ byte = backslash := by
        rw [oscEnds, if_neg discards, if_pos escaped]
      rw [reads, if_pos counted, oscPending, if_pos escaped.1, escaped.2,
        Bool.not_true, Bool.and_false]
      refine ⟨fun ends => ?_, fun goesOn => ?_⟩
      · rw [if_pos ends]
        rfl
      · rw [if_neg goesOn]
        refine ⟨length, ?_⟩
        rw [if_neg Bool.false_ne_true, if_pos escaped.1]
    · have reads : oscEnds count pending byte ↔ byte = bell := by
        rw [oscEnds, if_neg discards, if_neg escaped]
      have counted : (controlByte parser).mode =
          if count + 1 < 4096 then .osc else .discard := by
        rw [mode, inOsc.mode]
        by_cases short : count + 1 < 4096
        · have plain : pending = false :=
            Bool.eq_false_iff.mpr fun pends => escaped ⟨short, pends⟩
          rw [if_neg (by omega), plain, if_neg Bool.false_ne_true,
            if_pos (by omega), if_pos short]
        · rw [if_pos (by omega), if_neg short]
      have plain : (controlByte parser).mode ≠ .oscEscape := by
        rw [counted]
        split <;> decide
      have pends : oscPending count pending byte = decide (byte = escape) := by
        rw [oscPending, if_neg discards]
        split
        · rename_i short
          have plain : pending = false :=
            Bool.eq_false_iff.mpr fun pends => escaped ⟨short, pends⟩
          rw [plain, Bool.not_false, Bool.and_true]
        · rfl
      rw [reads, if_neg plain, pends]
      refine ⟨fun ends => ?_, fun goesOn => ?_⟩
      · rw [if_pos ends]
        rfl
      · rw [if_neg goesOn]
        by_cases begins : byte = escape
        · rw [if_pos begins]
          exact ⟨length, (if_pos (decide_eq_true begins)).symm⟩
        · rw [if_neg begins, decide_eq_false begins]
          refine ⟨length, ?_⟩
          rw [counted, if_neg Bool.false_ne_true]

theorem dropLast_subset_of_suffix {part whole : List UInt8}
    (suffix : part <:+ whole) : part.dropLast ⊆ whole.dropLast := by
  rcases suffix with ⟨front, rfl⟩
  cases part with
  | nil => exact List.nil_subset _
  | cons first rest =>
    rw [List.dropLast_append_of_ne_nil (List.cons_ne_nil _ _)]
    exact List.subset_append_right _ _

/-- What is left of a tracked string is tracked. -/
theorem OscTracked.cons (tracked : OscTracked count pending (byte :: body))
    (more : body ≠ []) :
    OscTracked (count + 1) (oscPending count pending byte) body := by
  have total : count + 1 + body.length = count + (byte :: body).length := by
    rw [List.length_cons]
    omega
  have last : (byte :: body).getLast? = body.getLast? := by
    cases body with
    | nil => exact absurd rfl more
    | cons first rest => rfl
  have front : (byte :: body).dropLast = byte :: body.dropLast :=
    List.dropLast_cons_of_ne_nil more
  have pends (short : count + 1 + body.length < 4096) :
      unpaired pending (byte :: body).dropLast =
        unpaired (oscPending count pending byte) body.dropLast := by
    rw [front, unpaired, oscPending, if_pos (by omega)]
  constructor
  · intro short rings
    rw [← pends short]
    exact tracked.ringing (total ▸ short) (last.trans rings)
  · intro short terminator
    rw [← pends short]
    exact tracked.terminated (total ▸ short)
      (terminator.trans (List.suffix_cons _ _))
  · intro long member
    exact tracked.discarded (total ▸ long)
      (dropLast_subset_of_suffix (discarded_cons count byte body) member)
  · intro long terminator
    rcases tracked.late (total ▸ long)
        (terminator.trans (List.suffix_cons _ _)) with
      ⟨late, plain⟩ | ⟨other, member, apart⟩
    · refine Or.inl ⟨by omega, ?_⟩
      rw [oscPending, if_neg (by omega), if_pos ⟨late, plain⟩]
    · by_cases early : count < 4095
      · have one : 4095 - count = (4095 - (count + 1)) + 1 := by omega
        rw [one, List.drop_succ_cons] at member
        exact Or.inr ⟨other, member, apart⟩
      · have none : 4095 - count = 0 := by omega
        have noneNow : 4095 - (count + 1) = 0 := by omega
        rw [none, List.drop_zero, front] at member
        rcases List.mem_cons.mp member with rfl | later
        · refine Or.inl ⟨by omega, ?_⟩
          rw [oscPending, if_neg (by omega), decide_eq_false apart, ite_self]
        · refine Or.inr ⟨other, ?_, apart⟩
          rw [noneNow, List.drop_zero]
          exact later

theorem oscBody_bell (rest : List UInt8) : oscBody (bell :: rest) = [bell] := by
  rw [oscBody, if_pos rfl]

theorem oscBody_terminator (rest : List UInt8) :
    oscBody (escape :: backslash :: rest) = stringTerminator := by
  rw [oscBody, if_neg (by decide), if_pos ⟨rfl, rfl⟩]
  rfl

theorem oscBody_ne_nil {rest : List UInt8} (some : rest ≠ []) :
    oscBody rest ≠ [] := by
  cases rest with
  | nil => exact absurd rfl some
  | cons byte rest =>
    rw [oscBody]
    split
    · exact List.cons_ne_nil _ _
    · split <;> exact List.cons_ne_nil _ _

theorem OscTracked.ends_bell (tracked : OscTracked count pending [bell]) :
    oscEnds count pending bell := by
  rw [oscEnds]
  split
  · exact Or.inl rfl
  · split
    · rename_i escaped
      have paired := tracked.ringing (by
        rw [List.length_singleton]
        exact escaped.1) rfl
      rw [escaped.2] at paired
      cases paired
    · rfl

/-- An escape does not end a string by itself. -/
theorem not_oscEnds_escape : ¬ oscEnds count pending escape := by
  rw [oscEnds]
  split
  · decide
  · split <;> decide

theorem OscTracked.ends_terminator
    (tracked : OscTracked count pending stringTerminator) :
    oscEnds (count + 1) (oscPending count pending escape) backslash := by
  have length : stringTerminator.length = 2 := rfl
  by_cases short : count + 2 < 4096
  · have escaped := tracked.terminated (length.symm ▸ short)
      (List.suffix_refl _)
    change (true && !pending) = true at escaped
    rw [oscPending, if_pos (by omega), oscEnds, if_neg (by omega),
      if_pos ⟨by omega, escaped⟩]
  · rcases tracked.late (length.symm ▸ Nat.not_lt.mp short)
        (List.suffix_refl _) with ⟨late, plain⟩ | ⟨other, member, apart⟩
    · rw [oscPending, if_neg (by omega), if_pos ⟨late, plain⟩, oscEnds,
        if_pos ⟨by omega, rfl⟩]
      exact Or.inr rfl
    · exfalso
      have inside := dropLast_subset_of_suffix
        (List.drop_suffix (4095 - count) stringTerminator) member
      exact apart (List.mem_singleton.mp inside)

theorem escape_of_oscPending
    (pends : oscPending count pending byte = true) : byte = escape := by
  rw [oscPending] at pends
  split at pends
  · rw [Bool.and_eq_true] at pends
    exact of_decide_eq_true pends.1
  · split at pends
    · cases pends
    · exact of_decide_eq_true pends

/-- The rest of an OSC string is passed over. -/
theorem shown_osc (inOsc : InOsc count pending parser)
    (tracked : OscTracked count pending (oscBody bytes))
    (begun : pending = true → bytes.head? ≠ some backslash) :
    shown parser bytes =
      shown initialState (bytes.drop (oscBody bytes).length) := by
  induction bytes generalizing count pending parser with
  | nil => rfl
  | cons byte rest induction =>
    rcases inOsc.control byte with ⟨consumed, ends, counts⟩
    rw [shown_control inOsc.inside consumed]
    by_cases rings : byte = bell
    · subst rings
      rw [oscBody_bell] at tracked
      rw [oscBody_bell]
      exact shown_ground (ends tracked.ends_bell) rest
    · by_cases terminates : byte = escape ∧ rest.head? = some backslash
      · rcases terminates with ⟨rfl, follows⟩
        rcases List.head?_eq_some_iff.mp follows with ⟨later, rfl⟩
        rw [oscBody_terminator] at tracked
        rw [oscBody_terminator]
        have escaped := counts not_oscEnds_escape
        rcases escaped.control backslash with ⟨consumed, ends, -⟩
        rw [shown_control escaped.inside consumed]
        exact shown_ground (ends tracked.ends_terminator) later
      · have body : oscBody (byte :: rest) = byte :: oscBody rest := by
          rw [oscBody, if_neg rings, if_neg terminates]
        rw [body] at tracked
        rw [body, List.length_cons, List.drop_succ_cons]
        cases rest with
        | nil => rfl
        | cons next rest =>
          have more := oscBody_ne_nil (List.cons_ne_nil next rest)
          have goesOn : ¬ oscEnds count pending byte := by
            rw [oscEnds]
            split
            · rename_i late
              rintro (equal | rfl)
              · exact rings equal
              · -- A backslash before the end is not discarded.
                refine tracked.discarded
                  (Nat.le_add_right_of_le late.1) ?_
                rw [discarded, Nat.sub_eq_zero_of_le late.1,
                  List.drop_zero, List.dropLast_cons_of_ne_nil more]
                exact List.mem_cons_self
            · split
              · rename_i escaped
                rintro rfl
                exact begun escaped.2 rfl
              · exact rings
          refine induction (counts goesOn) (tracked.cons more) ?_
          intro pends follows
          exact terminates ⟨escape_of_oscPending pends, follows⟩

end Osc

/-! ## The parser and the grammar -/

/-- The parser finds the end of a piece where the grammar has it. -/
def Piece.Tracked : Piece → Prop
  | .ordinary _ => True
  | .lone => True
  | .csi body => CsiTracked 2 body
  | .osc body => OscTracked 2 false body

/-- A CSI sequence within the limit is always tracked. -/
theorem csiTracked_of_short {body : List UInt8} (short : body.length ≤ 4094) :
    CsiTracked 2 body := by
  have none : discarded 2 body = [] := List.drop_eq_nil_of_le short
  rw [CsiTracked, none]
  refine ⟨List.not_mem_nil, ?_⟩
  intro last member
  cases member

/-- The parser after an escape byte. -/
def escapeState : LogPresentationState :=
  { initialState with mode := .escape, controlLength := 1 }

theorem shown_escape (rest : List UInt8) :
    shown initialState (escape :: rest) = shown escapeState rest := by
  rw [@shown_of_ground initialState rfl, if_pos rfl]
  rfl

/-- An escape that introduces nothing leaves the next byte to the text. -/
theorem shown_lone {byte : UInt8} (notCsi : byte ≠ 0x5B)
    (notOsc : byte ≠ 0x5D) (rest : List UInt8) :
    shown escapeState (byte :: rest) = shown initialState (byte :: rest) := by
  have given : escapeState.control byte =
      ((controlByte escapeState).toGround, false) := by
    rw [LogPresentationState.control]
    change (if byte = 0x5B then _ else if byte = 0x5D then _ else _) = _
    rw [if_neg notCsi, if_neg notOsc]
  have restart := shown_congr
    (⟨rfl, rfl⟩ : Alike
      { (controlByte escapeState).toGround with
        mode := .escape, controlLength := 1 }
      { initialState with mode := .escape, controlLength := 1 }) rest
  rw [shown, if_neg (by decide), given, if_neg Bool.false_ne_true,
    @shown_of_ground initialState rfl, restart]
  dsimp only
  rw [@shown_ground (controlByte escapeState).toGround rfl]

/-- Where all pieces are tracked, what is shown is the ordinary text. -/
theorem shown_eq_places {bytes : List UInt8}
    (tracked : ∀ piece ∈ pieces bytes, piece.Tracked) :
    shown initialState bytes = places bytes := by
  induction size : bytes.length using Nat.strongRecOn generalizing bytes with
  | ind length induction =>
    subst size
    cases bytes with
    | nil => rfl
    | cons byte rest =>
      rw [pieces_cons, List.forall_mem_cons] at tracked
      have later : shown initialState (nextPiece byte rest).2 =
          places (nextPiece byte rest).2 :=
        induction _ (Nat.lt_succ_of_le (length_nextPiece_le byte rest))
          tracked.2 rfl
      rw [places_cons, ← later]
      have here := tracked.1
      by_cases ordinary : byte ≠ escape
      · rw [nextPiece_ordinary ordinary,
          @shown_of_ground initialState rfl, if_neg ordinary]
        rfl
      · rw [not_not] at ordinary
        subst ordinary
        rw [shown_escape]
        cases rest with
        | nil => rfl
        | cons next rest =>
          by_cases csi : next = 0x5B
          · subst csi
            rw [nextPiece_csi] at here ⊢
            rw [shown_control (by decide) rfl]
            exact shown_csi ⟨rfl, rfl⟩ here
          · by_cases osc : next = 0x5D
            · subst osc
              rw [nextPiece_osc] at here ⊢
              rw [shown_control (by decide) rfl]
              refine shown_osc ⟨rfl, rfl⟩ here ?_
              rintro ⟨⟩
            · rw [nextPiece_lone csi osc]
              exact shown_lone csi osc rest

end Rbo.Executor.AnsiGrammar
