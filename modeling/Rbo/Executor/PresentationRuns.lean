import Rbo.Executor.AnsiGrammar
import Rbo.Foundation.Run

/-!
# Presenting a log call by call

One call of `presentLogChunks` shows what its parser takes for ordinary text,
up to where it stops.  A caller goes on from the consumed bytes with the
returned state; the calls together show the text without its control
sequences where the parser tracks these, the cuts between chunks are harmless
and the text does not end inside a character.
-/

namespace Rbo.Executor.PresentationRuns

open Rbo.Foundation
open Rbo.Executor.LogPresentation
open Rbo.Executor.AnsiGrammar

/-! ## Characters -/

/-- A whole character at the front of a place, which is moved over at once. -/
structure WholeCharacter (place : List UInt8) (width : Nat) : Prop where
  lead : ∃ lead ∈ place.head?, width = utf8Width lead
  multi : 1 < width
  inside : width ≤ place.length
  valid : Utf8.replacement ∉ Utf8.decode (place.take width)

theorem utf8Width_low {lead : UInt8} (low : lead < 0x80) :
    utf8Width lead = 1 := by
  rw [utf8Width, if_pos low]

theorem inRange_prop {low high byte : UInt8} :
    Utf8.inRange low high byte = true ↔ low ≤ byte ∧ byte ≤ high := by
  rw [Utf8.inRange_iff, UInt8.le_iff_toNat_le, UInt8.le_iff_toNat_le]

theorem high_of_continuation {byte : UInt8}
    (continued : Utf8.isContinuation byte = true) : 0x80 ≤ byte :=
  (inRange_prop.mp continued).1

theorem high_of_secondOfThree {lead second : UInt8}
    (inside : Utf8.isSecondOfThree lead second = true) : 0x80 ≤ second := by
  have bounds := (inRange_prop.mp inside).1
  split at bounds
  · exact UInt8.le_trans (by decide) bounds
  · exact bounds

theorem high_of_secondOfFour {lead second : UInt8}
    (inside : Utf8.isSecondOfFour lead second = true) : 0x80 ≤ second := by
  have bounds := (inRange_prop.mp inside).1
  split at bounds
  · exact UInt8.le_trans (by decide) bounds
  · exact bounds

/-- Behind a lead byte that is decoded there are bytes that continue it. -/
theorem high_of_decodeOne {lead : UInt8} {rest : List UInt8}
    (valid : (Utf8.decodeOne lead rest).1 ≠ Utf8.replacement) :
    ∀ byte ∈ rest.take (utf8Width lead - 1), 0x80 ≤ byte := by
  by_cases low : lead < 0x80
  · rw [utf8Width_low low]
    intro byte member
    cases member
  · by_cases two : 0xC2 ≤ lead ∧ lead ≤ 0xDF
    · unfold Utf8.decodeOne at valid
      rw [if_neg low, if_pos (inRange_prop.mpr two)] at valid
      rw [utf8Width, if_neg low, if_pos two]
      cases rest with
      | nil => exact absurd rfl valid
      | cons second rest =>
        dsimp only at valid
        split at valid
        · rename_i continued
          intro byte member
          rw [List.mem_singleton.mp member]
          exact high_of_continuation continued
        · exact absurd rfl valid
    · by_cases three : 0xE0 ≤ lead ∧ lead ≤ 0xEF
      · unfold Utf8.decodeOne at valid
        rw [if_neg low,
          if_neg (inRange_prop.not.mpr two),
          if_pos (inRange_prop.mpr three)] at valid
        rw [utf8Width, if_neg low, if_neg two, if_pos three]
        rcases rest with _ | ⟨second, _ | ⟨third, rest⟩⟩
        · exact absurd rfl valid
        · dsimp only at valid
          split at valid <;> exact absurd rfl valid
        · dsimp only at valid
          split at valid
          · rename_i inside
            split at valid
            · rename_i continued
              intro byte member
              rcases List.mem_cons.mp member with rfl | last
              · exact high_of_secondOfThree inside
              · rw [List.mem_singleton.mp last]
                exact high_of_continuation continued
            · exact absurd rfl valid
          · exact absurd rfl valid
      · by_cases four : 0xF0 ≤ lead ∧ lead ≤ 0xF4
        · unfold Utf8.decodeOne at valid
          rw [if_neg low,
            if_neg (inRange_prop.not.mpr two),
            if_neg (inRange_prop.not.mpr three),
            if_pos (inRange_prop.mpr four)] at valid
          rw [utf8Width, if_neg low, if_neg two, if_neg three, if_pos four]
          rcases rest with _ | ⟨second, _ | ⟨third, _ | ⟨fourth, rest⟩⟩⟩
          · exact absurd rfl valid
          · dsimp only at valid
            split at valid <;> exact absurd rfl valid
          · dsimp only at valid
            split at valid
            · split at valid <;> exact absurd rfl valid
            · exact absurd rfl valid
          · dsimp only at valid
            split at valid
            · rename_i inside
              split at valid
              · rename_i continued
                split at valid
                · rename_i ended
                  intro byte member
                  rcases List.mem_cons.mp member with rfl | later
                  · exact high_of_secondOfFour inside
                  · rcases List.mem_cons.mp later with rfl | last
                    · exact high_of_continuation continued
                    · rw [List.mem_singleton.mp last]
                      exact high_of_continuation ended
                · exact absurd rfl valid
              · exact absurd rfl valid
            · exact absurd rfl valid
        · intro byte member
          rw [utf8Width, if_neg low, if_neg two, if_neg three,
            if_neg four] at member
          cases member

/-- No byte of a whole character is an escape. -/
theorem WholeCharacter.plain {place : List UInt8} {width : Nat}
    (whole : WholeCharacter place width) :
    ∀ byte ∈ place.take width, byte ≠ escape := by
  rcases whole with ⟨⟨lead, first, rfl⟩, multi, inside, valid⟩
  rcases List.head?_eq_some_iff.mp first with ⟨rest, rfl⟩
  have one : utf8Width lead = (utf8Width lead - 1) + 1 := by omega
  rw [one, List.take_succ_cons, Utf8.decode_cons] at valid
  have decoded := List.ne_of_not_mem_cons valid
  have high := high_of_decodeOne (Ne.symm decoded)
  rw [List.take_take, Nat.min_self] at high
  rw [one, List.take_succ_cons, List.forall_mem_cons]
  constructor
  · rintro rfl
    rw [utf8Width_low (by decide)] at multi
    exact absurd multi (by decide)
  · rintro byte member rfl
    exact absurd (high escape member) (by decide)

/-- The places of some bytes in front of others. -/
def placesBefore (back : List UInt8) : List UInt8 → List (List UInt8)
  | [] => []
  | byte :: front => (byte :: front ++ back) :: placesBefore back front

theorem bytesAt_placesBefore (back front : List UInt8) :
    bytesAt (placesBefore back front) = front := by
  induction front with
  | nil => rfl
  | cons byte front induction =>
    exact congrArg (List.cons byte) induction

theorem length_placesBefore {back front place : List UInt8}
    (member : place ∈ placesBefore back front) :
    back.length < place.length := by
  induction front with
  | nil => cases member
  | cons byte front induction =>
    rcases List.mem_cons.mp member with rfl | member
    · rw [List.length_append, List.length_cons]
      omega
    · exact induction member

/-- Bytes without an escape are shown one after the other. -/
theorem shown_append {parser : LogPresentationState}
    (ground : parser.mode = .ground) {front : List UInt8}
    (plain : ∀ byte ∈ front, byte ≠ escape) (back : List UInt8) :
    shown parser (front ++ back) =
      placesBefore back front ++ shown parser back := by
  induction front with
  | nil => rfl
  | cons byte front induction =>
    rw [List.forall_mem_cons] at plain
    rw [List.cons_append, shown_of_ground ground, if_neg plain.1,
      induction plain.2]
    rfl

theorem bytesAt_append (first second : List (List UInt8)) :
    bytesAt (first ++ second) = bytesAt first ++ bytesAt second :=
  List.filterMap_append

/-! ## Cuts between chunks -/

/--
Do the bytes of a character that are left after its first chunk lie in the
next chunks as the loop looks for them?  It goes by the length of the first
chunk also in the later ones.
-/
def Fits (length : Nat) : List (List UInt8) → Nat → Prop
  | [], _ => False
  | next :: more, remaining =>
    if remaining ≤ length then remaining ≤ next.length
    else next.length = length ∧ Fits length more (remaining - length)

/-- A character at a place is not cut, or is cut where it does no harm. -/
def Carried (chunks : List (List UInt8)) (place : List UInt8) : Prop :=
  ∀ before chunk after offset, chunks = before ++ chunk :: after →
    offset < chunk.length → place = chunk.drop offset ++ after.flatten →
      ∀ width, WholeCharacter place width →
        width ≤ chunk.length - offset ∨
          Fits chunk.length after (width - (chunk.length - offset))

/-- What is left of the chunks from the place of the loop on. -/
def leftOf (chunks : List (List UInt8)) (presenting : Presenting) :
    List UInt8 :=
  (chunks.drop presenting.chunkIndex).flatten.drop presenting.offset

/-- The loop stands at a place of its chunk. -/
def Stands (chunks : List (List UInt8)) (presenting : Presenting) : Prop :=
  ∀ chunk ∈ chunks[presenting.chunkIndex]?,
    presenting.offset ≤ chunk.length

section Position

variable {chunks : List (List UInt8)} {chunk : List UInt8}
  {presenting : Presenting}

theorem drop_chunks {index : Nat} (inChunk : chunks[index]? = some chunk) :
    chunks.drop index = chunk :: chunks.drop (index + 1) := by
  rcases List.getElem?_eq_some_iff.mp inChunk with ⟨inside, rfl⟩
  exact List.drop_eq_getElem_cons inside

theorem leftOf_eq (inChunk : chunks[presenting.chunkIndex]? = some chunk)
    (within : presenting.offset ≤ chunk.length) :
    leftOf chunks presenting =
      chunk.drop presenting.offset ++
        (chunks.drop (presenting.chunkIndex + 1)).flatten := by
  rw [leftOf, drop_chunks inChunk, List.flatten_cons,
    List.drop_append_of_le_length within]

theorem leftOf_none (ended : chunks[presenting.chunkIndex]? = none) :
    leftOf chunks presenting = [] := by
  rw [List.getElem?_eq_none_iff] at ended
  rw [leftOf, List.drop_eq_nil_of_le ended]
  exact List.drop_nil

/-- What the loop over the bytes of a character is meant to do. -/
structure MovedOver (chunks : List (List UInt8)) (count : Nat)
    (presenting moved : Presenting) : Prop where
  stands : Stands chunks moved
  left : leftOf chunks moved = (leftOf chunks presenting).drop count
  consumed : moved.consumed = presenting.consumed + count
  output : moved.output = presenting.output

theorem movedOver_within
    (inChunk : chunks[presenting.chunkIndex]? = some chunk) {count : Nat}
    (within : presenting.offset + count ≤ chunk.length) :
    MovedOver chunks count presenting
      { presenting with
        offset := presenting.offset + count
        consumed := presenting.consumed + count } where
  stands other member := by
    rw [inChunk, Option.mem_some_iff] at member
    rw [← member]
    exact within
  left := by
    rw [leftOf, leftOf, List.drop_drop]
  consumed := rfl
  output := rfl

/-- The rest of a character that fits is moved over. -/
theorem movedOver_fits {length : Nat} (some : 0 < length) (fuel : Nat)
    {remaining : Nat} (positive : 0 < remaining) (fueled : remaining ≤ fuel)
    (first : presenting.offset = 0)
    (fits : Fits length (chunks.drop presenting.chunkIndex) remaining) :
    MovedOver chunks remaining presenting
      (moveOver chunks.length length fuel remaining presenting) := by
  induction fuel generalizing remaining presenting with
  | zero => omega
  | succ fuel induction =>
    cases chunksLeft : chunks.drop presenting.chunkIndex with
    | nil =>
      rw [chunksLeft] at fits
      cases fits
    | cons next more =>
      have inChunk : chunks[presenting.chunkIndex]? = .some next := by
        rw [← List.head?_drop, chunksLeft]
        rfl
      rw [chunksLeft, Fits] at fits
      by_cases last : remaining ≤ length
      · rw [if_pos last] at fits
        rw [moveOver_within _ (by omega) (Nat.succ_pos fuel)]
        exact movedOver_within inChunk (by omega)
      · rw [if_neg last] at fits
        have later : chunks.drop (presenting.chunkIndex + 1) = more := by
          have both := drop_chunks inChunk
          rw [chunksLeft, List.cons.injEq] at both
          exact both.2.symm
        have there : ¬ chunks.length ≤ presenting.chunkIndex + 1 := by
          intro ended
          rw [List.drop_eq_nil_of_le ended] at later
          rw [← later] at fits
          exact fits.2
        rw [moveOver, if_neg (by omega), first, Nat.sub_zero,
          Nat.min_eq_right (by omega)]
        dsimp only
        rw [if_pos ⟨by omega, by omega⟩, if_neg there]
        have moved := @induction
          { presenting with
            chunkIndex := presenting.chunkIndex + 1
            offset := 0
            consumed := presenting.consumed + length }
          (remaining - length) (by omega) (by omega) rfl
          (later ▸ fits.2)
        refine ⟨moved.stands, ?_, ?_, moved.output⟩
        · rw [moved.left]
          have whole := leftOf_eq inChunk (by omega)
          have gone : (next ++ more.flatten).drop remaining =
              more.flatten.drop (remaining - length) := by
            have long : next.length ≤ remaining := by omega
            rw [List.drop_append, List.drop_eq_nil_of_le long,
              List.nil_append, fits.1]
          rw [whole, first, List.drop_zero, later, gone]
          change List.drop _ (leftOf chunks _) = _
          rw [leftOf, later, List.drop_zero]
        · rw [moved.consumed]
          dsimp only
          omega

/-- A character that is carried is moved over, however it is cut. -/
theorem movedOver_character {width : Nat}
    (inChunk : chunks[presenting.chunkIndex]? = some chunk)
    (inside : presenting.offset < chunk.length)
    (carried : Carried chunks (leftOf chunks presenting))
    (whole : WholeCharacter (leftOf chunks presenting) width) :
    MovedOver chunks width presenting
      (moveOver chunks.length chunk.length width width presenting) := by
  have positive : 0 < width := Nat.lt_of_succ_lt whole.multi
  have left := leftOf_eq inChunk (Nat.le_of_lt inside)
  have decomposed : chunks =
      chunks.take presenting.chunkIndex ++
        chunk :: chunks.drop (presenting.chunkIndex + 1) := by
    rw [← drop_chunks inChunk, List.take_append_drop]
  by_cases within : width ≤ chunk.length - presenting.offset
  · rw [moveOver_within _ within positive]
    exact movedOver_within inChunk (by omega)
  · have fits := (carried _ _ _ _ decomposed inside left width
      whole).resolve_left within
    have there : ¬ chunks.length ≤ presenting.chunkIndex + 1 := by
      intro ended
      rw [List.drop_eq_nil_of_le ended] at fits
      exact fits
    obtain ⟨fuel, rfl⟩ : ∃ fuel, width = fuel + 1 :=
      ⟨width - 1, by omega⟩
    rw [moveOver, if_neg (by omega),
      Nat.min_eq_right (by omega)]
    dsimp only
    rw [if_pos ⟨by omega, by omega⟩, if_neg there]
    have moved := @movedOver_fits chunks
      { presenting with
        chunkIndex := presenting.chunkIndex + 1
        offset := 0
        consumed :=
          presenting.consumed + (chunk.length - presenting.offset) }
      chunk.length (by omega) fuel
      (fuel + 1 - (chunk.length - presenting.offset)) (by omega) (by omega)
      rfl fits
    refine ⟨moved.stands, ?_, ?_, moved.output⟩
    · have gone : (chunk.drop presenting.offset ++
          (chunks.drop (presenting.chunkIndex + 1)).flatten).drop
            (fuel + 1) =
          (chunks.drop (presenting.chunkIndex + 1)).flatten.drop
            (fuel + 1 - (chunk.length - presenting.offset)) := by
        have long : (chunk.drop presenting.offset).length ≤ fuel + 1 := by
          rw [List.length_drop]
          omega
        rw [List.drop_append, List.drop_eq_nil_of_le long,
          List.nil_append, List.length_drop]
      rw [moved.left, left, gone]
      rfl
    · rw [moved.consumed]
      dsimp only
      omega

end Position

/-! ## The loop shows what its parser shows -/

/--
The loop has shown what the parser showed so far; behind its chunks the text
goes on with a tail.
-/
structure Follows (start : LogPresentationState)
    (chunks : List (List UInt8)) (tail : List UInt8)
    (presenting : Presenting) : Prop where
  stands : Stands chunks presenting
  left : leftOf chunks presenting =
    chunks.flatten.drop presenting.consumed
  consumed : presenting.consumed ≤ chunks.flatten.length
  shown : ∃ done, shown start (chunks.flatten ++ tail) =
      done ++ shown presenting.parser (leftOf chunks presenting ++ tail) ∧
    presenting.output = bytesAt done ∧
    ∀ place ∈ done,
      (leftOf chunks presenting ++ tail).length < place.length

/-- The places of a text that begin in the chunks are carried. -/
def CarriedAll (start : LogPresentationState) (chunks : List (List UInt8))
    (tail : List UInt8) : Prop :=
  ∀ inner, inner ++ tail ∈ shown start (chunks.flatten ++ tail) →
    Carried chunks inner

section Loop

variable {start : LogPresentationState} {chunks : List (List UInt8)}
  {tail : List UInt8} {presenting : Presenting}

theorem follows_start (state : Option LogPresentationState)
    (chunks : List (List UInt8)) (tail : List UInt8) :
    Follows (copyState state) chunks tail (Presenting.start state) where
  stands _ _ := Nat.zero_le _
  left := rfl
  consumed := Nat.zero_le _
  shown := ⟨[], rfl, rfl, fun _ member => absurd member List.not_mem_nil⟩

/-- Some bytes more are consumed. -/
theorem Follows.advance (follows : Follows start chunks tail presenting)
    {later : Presenting} {count : Nat} (stands : Stands chunks later)
    (left : leftOf chunks later = (leftOf chunks presenting).drop count)
    (consumed : later.consumed = presenting.consumed + count)
    (within : count ≤ (leftOf chunks presenting).length)
    {more : List (List UInt8)}
    (adds : AnsiGrammar.shown presenting.parser
        (leftOf chunks presenting ++ tail) =
      more ++ AnsiGrammar.shown later.parser (leftOf chunks later ++ tail))
    (output : later.output = presenting.output ++ bytesAt more)
    (longer : ∀ place ∈ more,
      (leftOf chunks later ++ tail).length < place.length) :
    Follows start chunks tail later where
  stands := stands
  left := by
    rw [left, follows.left, List.drop_drop, consumed]
  consumed := by
    rw [follows.left, List.length_drop] at within
    have bound := follows.consumed
    omega
  shown := by
    rcases follows.shown with ⟨done, shown, isOutput, before⟩
    refine ⟨done ++ more, ?_, ?_, ?_⟩
    · rw [shown, adds, List.append_assoc]
    · rw [output, isOutput, bytesAt_append]
    · intro place member
      rcases List.mem_append.mp member with member | member
      · refine Nat.lt_of_le_of_lt ?_ (before place member)
        rw [left, List.length_append, List.length_append, List.length_drop]
        omega
      · exact longer place member

/-- Only the place, the parser and what is shown matter. -/
theorem Follows.congr (follows : Follows start chunks tail presenting)
    {later : Presenting} (chunkIndex : later.chunkIndex = presenting.chunkIndex)
    (offset : later.offset = presenting.offset)
    (consumed : later.consumed = presenting.consumed)
    (output : later.output = presenting.output)
    (parser : AnsiGrammar.shown later.parser
        (leftOf chunks presenting ++ tail) =
      AnsiGrammar.shown presenting.parser
        (leftOf chunks presenting ++ tail)) :
    Follows start chunks tail later := by
  have left : leftOf chunks later = leftOf chunks presenting := by
    rw [leftOf, leftOf, chunkIndex, offset]
  refine ⟨?_, ?_, ?_, ?_⟩
  · rw [Stands, chunkIndex, offset]
    exact follows.stands
  · rw [left, consumed]
    exact follows.left
  · rw [consumed]
    exact follows.consumed
  · rw [left, parser, output]
    exact follows.shown

variable {chunk : List UInt8} {byte : UInt8}

theorem leftOf_cons (inChunk : chunks[presenting.chunkIndex]? = some chunk)
    (atByte : chunk[presenting.offset]? = some byte) :
    leftOf chunks presenting =
      byte :: (leftOf chunks presenting).drop 1 := by
  rcases List.getElem?_eq_some_iff.mp atByte with ⟨inside, rfl⟩
  rw [leftOf_eq inChunk (Nat.le_of_lt inside),
    List.drop_eq_getElem_cons inside]
  rfl

/-- The loop moves over one byte. -/
theorem movedOver_skip (inChunk : chunks[presenting.chunkIndex]? = some chunk)
    (inside : presenting.offset < chunk.length) :
    MovedOver chunks 1 presenting presenting.skip :=
  movedOver_within inChunk inside

section

variable (follows : Follows start chunks tail presenting)

include follows

/-- A byte of a control sequence, or an escape byte, is not shown. -/
theorem Follows.skip (inChunk : chunks[presenting.chunkIndex]? = some chunk)
    (inside : presenting.offset < chunk.length)
    (parser : LogPresentationState)
    (passes : AnsiGrammar.shown presenting.parser
        (leftOf chunks presenting ++ tail) =
      AnsiGrammar.shown parser ((leftOf chunks presenting).drop 1 ++ tail)) :
    Follows start chunks tail { presenting with parser := parser }.skip := by
  have moved := movedOver_skip inChunk inside
  have left : leftOf chunks { presenting with parser := parser }.skip =
      (leftOf chunks presenting).drop 1 := moved.left
  refine @Follows.advance _ _ _ _ follows _ 1 moved.stands left rfl ?_ []
    ?_ ?_ fun _ member => absurd member List.not_mem_nil
  · rw [leftOf_eq inChunk (Nat.le_of_lt inside), List.length_append,
      List.length_drop]
    omega
  · rw [left, passes]
    rfl
  · exact (List.append_nil _).symm

theorem Follows.emitByte
    (inChunk : chunks[presenting.chunkIndex]? = some chunk)
    (atByte : chunk[presenting.offset]? = some byte)
    (ground : presenting.parser.mode = .ground) (ordinary : byte ≠ escape)
    (maxBytes : Nat) :
    Follows start chunks tail
      (presenting.emitByte maxBytes byte).presenting := by
  have inside := (List.getElem?_eq_some_iff.mp atByte).1
  have left := leftOf_cons inChunk atByte
  rw [Presenting.emitByte]
  cases appended : presenting.append maxBytes [byte] with
  | none => exact follows
  | some emitted =>
    rw [Presenting.append] at appended
    split at appended
    · cases appended
    · rw [Option.some.injEq] at appended
      subst appended
      change Follows start chunks tail
        { presenting with output := presenting.output ++ [byte] }.skip
      have moved := @movedOver_skip chunks
        { presenting with output := presenting.output ++ [byte] } chunk
        inChunk inside
      have later : leftOf chunks
          { presenting with output := presenting.output ++ [byte] }.skip =
            (leftOf chunks presenting).drop 1 := moved.left
      refine @Follows.advance _ _ _ _ follows _ 1 moved.stands later rfl ?_
        [leftOf chunks presenting ++ tail] ?_ ?_ ?_
      · rw [left]
        exact Nat.succ_le_succ (Nat.zero_le _)
      · rw [later, left, List.cons_append, shown_of_ground ground,
          if_neg ordinary, ← List.cons_append, ← left]
        rfl
      · rw [left]
        rfl
      · intro place member
        rw [List.mem_singleton.mp member, later, List.length_append,
          List.length_append, List.length_drop, left, List.length_cons]
        omega

/-- A byte of ordinary text is shown, alone or in its character. -/
theorem Follows.ground (carried : CarriedAll start chunks tail)
    (inChunk : chunks[presenting.chunkIndex]? = some chunk)
    (atByte : chunk[presenting.offset]? = some byte)
    (ground : presenting.parser.mode = .ground) (maxBytes scanCap : Nat) :
    Follows start chunks tail
      (presenting.ground chunks chunk maxBytes scanCap byte).presenting := by
  have inside := (List.getElem?_eq_some_iff.mp atByte).1
  have left := leftOf_cons inChunk atByte
  rw [Presenting.ground]
  by_cases begins : byte = escape
  · have introduces : byte = 0x1B := begins
    rw [if_pos introduces]
    refine follows.skip inChunk inside _ ?_
    rw [left, List.cons_append, shown_of_ground ground, if_pos begins]
    rfl
  · have ordinary : ¬ byte = 0x1B := begins
    rw [if_neg ordinary]
    dsimp only
    by_cases multi : 1 < utf8Width byte
    · rw [if_pos multi]
      split
      · exact follows.congr rfl rfl rfl rfl rfl
      · rename_i enough
        split
        · exact follows.congr rfl rfl rfl rfl rfl
        · split
          · exact follows.emitByte inChunk atByte ground begins maxBytes
          · rename_i valid
            have whole : WholeCharacter (leftOf chunks presenting)
                (utf8Width byte) := by
              refine ⟨⟨byte, by rw [left]; rfl, rfl⟩, multi, ?_, valid⟩
              rw [List.length_take] at enough
              change ¬ min _ (leftOf chunks presenting).length < _ at enough
              omega
            split
            · exact follows
            · rename_i emitted appended
              rw [Presenting.append] at appended
              split at appended
              · cases appended
              · rw [Option.some.injEq] at appended
                subst appended
                have shown : leftOf chunks presenting ++ tail ∈
                    AnsiGrammar.shown start (chunks.flatten ++ tail) := by
                  rcases follows.shown with ⟨done, shown, -⟩
                  rw [shown, left, List.cons_append, shown_of_ground ground,
                    if_neg begins]
                  exact List.mem_append_right _ List.mem_cons_self
                have moved := @movedOver_character chunks chunk
                  { presenting with
                    output := presenting.output ++
                      (leftOf chunks presenting).take (utf8Width byte)
                    scanned := presenting.scanned + utf8Width byte - 1 }
                  (utf8Width byte) inChunk inside (carried _ shown) whole
                have parser := parser_moveOver chunks.length chunk.length
                  (utf8Width byte) (utf8Width byte)
                  { presenting with
                    output := presenting.output ++
                      (leftOf chunks presenting).take (utf8Width byte)
                    scanned := presenting.scanned + utf8Width byte - 1 }
                refine @Follows.advance _ _ _ _ follows _ (utf8Width byte)
                  moved.stands moved.left moved.consumed whole.inside
                  (placesBefore
                    ((leftOf chunks presenting).drop (utf8Width byte) ++ tail)
                    ((leftOf chunks presenting).take (utf8Width byte)))
                  ?_ ?_ ?_
                · have split := shown_append ground whole.plain
                    ((leftOf chunks presenting).drop (utf8Width byte) ++ tail)
                  rw [← List.append_assoc, List.take_append_drop] at split
                  rw [split]
                  exact congrArg _
                    (congrArg₂ AnsiGrammar.shown parser.symm
                      (congrArg (· ++ tail) moved.left.symm))
                · rw [bytesAt_placesBefore]
                  exact moved.output
                · intro place member
                  exact lt_of_eq_of_lt
                    (congrArg (fun left => (left ++ tail).length) moved.left)
                    (length_placesBefore member)
    · rw [if_neg multi]
      exact follows.emitByte inChunk atByte ground begins maxBytes

/-- A turn keeps the loop to what its parser shows. -/
theorem Follows.turn (carried : CarriedAll start chunks tail)
    (maxBytes scanCap : Nat) :
    Follows start chunks tail
      (presenting.turn chunks maxBytes scanCap).presenting := by
  rw [Presenting.turn]
  cases inChunk : chunks[presenting.chunkIndex]? with
  | none => exact follows
  | some chunk =>
    dsimp only
    cases atByte : chunk[presenting.offset]? with
    | none =>
      have ended := follows.stands chunk inChunk
      have left := leftOf_eq inChunk ended
      rw [List.getElem?_eq_none_iff] at atByte
      rw [List.drop_eq_nil_of_le atByte, List.nil_append] at left
      have later : leftOf chunks
          { presenting with
            chunkIndex := presenting.chunkIndex + 1, offset := 0 } =
            leftOf chunks presenting := by
        rw [left]
        rfl
      refine @Follows.advance _ _ _ _ follows _ 0 ?_ later rfl
        (Nat.zero_le _) [] ?_ (List.append_nil _).symm
        fun _ member => absurd member List.not_mem_nil
      · exact fun _ _ => Nat.zero_le _
      · rw [List.nil_append]
        exact congrArg (fun left => AnsiGrammar.shown _ (left ++ tail))
          later.symm
    | some byte =>
      dsimp only
      have inside := (List.getElem?_eq_some_iff.mp atByte).1
      split
      · exact follows
      · have scanning : Follows start chunks tail
            { presenting with scanned := presenting.scanned + 1 } :=
          follows.congr rfl rfl rfl rfl rfl
        split
        · rename_i ground
          exact scanning.ground carried inChunk atByte ground _ _
        · rename_i controlling
          have left := leftOf_cons inChunk atByte
          change Follows start chunks tail (if _ then _ else _)
          split
          · rename_i consumed
            refine scanning.skip inChunk inside _ ?_
            change AnsiGrammar.shown presenting.parser
              (leftOf chunks presenting ++ tail) = _
            rw [left]
            exact shown_control controlling consumed _
          · rename_i given
            have ground := (control_consumes presenting.parser
              byte).resolve_left given
            refine scanning.congr rfl rfl rfl rfl ?_
            change AnsiGrammar.shown (presenting.parser.control byte).1
              (leftOf chunks presenting ++ tail) = AnsiGrammar.shown
                presenting.parser (leftOf chunks presenting ++ tail)
            rw [left, List.cons_append, shown_of_ground ground, AnsiGrammar.shown,
              if_neg controlling, if_neg given]

theorem Follows.run (carried : CarriedAll start chunks tail)
    (maxBytes scanCap fuel : Nat) :
    Follows start chunks tail
      (presenting.run chunks maxBytes scanCap fuel).1 := by
  induction fuel generalizing presenting with
  | zero => exact follows
  | succ fuel induction =>
    have turned := follows.turn carried maxBytes scanCap
    rw [Presenting.run]
    split
    · rename_i later equal
      rw [equal] at turned
      exact induction turned
    · rename_i last truncated equal
      rw [equal] at turned
      exact turned

end

end Loop

/--
A call shows what the parser shows, and what the parser still shows is shown
from the returned state on the bytes that are not consumed.
-/
theorem presentLogChunks_shows (chunks : List (List UInt8))
    (tail : List UInt8) (state : Option LogPresentationState)
    (maxBytes scanCap : Nat)
    (carried : CarriedAll (copyState state) chunks tail) :
    let result := presentLogChunks chunks state maxBytes scanCap
    result.consumedRawBytes ≤ chunks.flatten.length ∧
      ∃ done,
        AnsiGrammar.shown (copyState state) (chunks.flatten ++ tail) =
          done ++ AnsiGrammar.shown result.state
            (chunks.flatten.drop result.consumedRawBytes ++ tail) ∧
        result.data = bytesAt done ∧
        ∀ place ∈ done,
          (chunks.flatten.drop result.consumedRawBytes ++ tail).length <
            place.length := by
  have ran := (follows_start state chunks tail).run carried maxBytes scanCap
    (turnBound chunks)
  refine ⟨ran.consumed, ?_⟩
  rcases ran.shown with ⟨done, shown, output, longer⟩
  rw [ran.left] at shown longer
  exact ⟨done, shown, output, longer⟩

/-! ## Every call gets ahead -/

/-- Nothing is given back, and no escape is read without being consumed. -/
def NotBack (presenting later : Presenting) : Prop :=
  presenting.consumed < later.consumed ∨
    (later.consumed = presenting.consumed ∧
      (later.parser.mode = .escape → presenting.parser.mode = .escape))

/-- A byte is consumed, or given back to the text by an escape. -/
def Ahead (presenting later : Presenting) : Prop :=
  presenting.consumed < later.consumed ∨
    (later.consumed = presenting.consumed ∧
      presenting.parser.mode = .escape ∧ later.parser.mode ≠ .escape)

section Progress

variable {chunks : List (List UInt8)} {chunk : List UInt8} {byte : UInt8}
  {presenting later last : Presenting} {maxBytes scanCap : Nat}

theorem NotBack.refl (presenting : Presenting) :
    NotBack presenting presenting :=
  Or.inr ⟨rfl, id⟩

theorem NotBack.trans (first : NotBack presenting later)
    (second : NotBack later last) : NotBack presenting last := by
  rcases first with more | ⟨same, mode⟩
  · rcases second with evenMore | ⟨same, -⟩
    · exact Or.inl (Nat.lt_trans more evenMore)
    · exact Or.inl (same ▸ more)
  · rcases second with more | ⟨again, modeAgain⟩
    · exact Or.inl (same ▸ more)
    · exact Or.inr ⟨again.trans same, mode ∘ modeAgain⟩

theorem Ahead.trans (first : Ahead presenting later)
    (second : NotBack later last) : Ahead presenting last := by
  rcases first with more | ⟨same, escaped, plain⟩
  · rcases second with evenMore | ⟨same, -⟩
    · exact Or.inl (Nat.lt_trans more evenMore)
    · exact Or.inl (same ▸ more)
  · rcases second with more | ⟨again, mode⟩
    · exact Or.inl (same ▸ more)
    · exact Or.inr ⟨again.trans same, escaped, plain ∘ mode⟩

theorem notBack_emitByte (presenting : Presenting) (maxBytes : Nat)
    (byte : UInt8) :
    NotBack presenting (presenting.emitByte maxBytes byte).presenting := by
  rw [Presenting.emitByte, Presenting.append]
  split
  · exact NotBack.refl _
  · rename_i emitted appended
    split at appended
    · cases appended
    · cases appended
      exact Or.inl (Nat.lt_succ_self _)

theorem notBack_ground (inside : presenting.offset < chunk.length)
    (byte : UInt8) (maxBytes scanCap : Nat) :
    NotBack presenting
      (presenting.ground chunks chunk maxBytes scanCap byte).presenting := by
  rw [Presenting.ground]
  split
  · exact Or.inl (Nat.lt_succ_self _)
  · dsimp only
    split
    · rename_i multi
      split
      · exact Or.inr ⟨rfl, id⟩
      · split
        · exact Or.inr ⟨rfl, id⟩
        · split
          · exact notBack_emitByte _ _ _
          · split
            · exact NotBack.refl _
            · rename_i emitted appended
              rw [Presenting.append] at appended
              split at appended
              · cases appended
              · cases appended
                have positive : 0 < utf8Width byte := Nat.lt_of_succ_lt multi
                exact Or.inl (@consumed_lt_moveOver _ _ _ _
                  { presenting with
                    output := presenting.output ++ _
                    scanned := _ } inside positive positive)
    · exact notBack_emitByte _ _ _

theorem notBack_turn (chunks : List (List UInt8)) (maxBytes scanCap : Nat)
    (presenting : Presenting) :
    NotBack presenting
      (presenting.turn chunks maxBytes scanCap).presenting := by
  rw [Presenting.turn]
  split
  · exact NotBack.refl _
  · split
    · exact Or.inr ⟨rfl, id⟩
    · rename_i byte atByte
      have inside := (List.getElem?_eq_some_iff.mp atByte).1
      split
      · exact NotBack.refl _
      · dsimp only
        split
        · exact @notBack_ground chunks _
            { presenting with scanned := presenting.scanned + 1 } inside _ _ _
        · change NotBack presenting (if _ then _ else _)
          split
          · exact Or.inl (Nat.lt_succ_self _)
          · rename_i given
            have ground := (control_consumes presenting.parser
              byte).resolve_left given
            refine Or.inr ⟨rfl, fun escaped => ?_⟩
            change (presenting.parser.control byte).1.mode = _ at escaped
            rw [ground] at escaped
            cases escaped

theorem notBack_run (chunks : List (List UInt8))
    (maxBytes scanCap fuel : Nat) (presenting : Presenting) :
    NotBack presenting (presenting.run chunks maxBytes scanCap fuel).1 := by
  induction fuel generalizing presenting with
  | zero => exact NotBack.refl _
  | succ fuel induction =>
    have turned := notBack_turn chunks maxBytes scanCap presenting
    rw [Presenting.run]
    split
    · rename_i later equal
      rw [equal] at turned
      exact turned.trans (induction later)
    · rename_i last truncated equal
      rw [equal] at turned
      exact turned

/-- The first byte of a call is emitted, whatever the budget. -/
theorem ahead_emitByte (budget : 4 ≤ maxBytes)
    (unused : presenting.output = []) (byte : UInt8) :
    ∃ later, presenting.emitByte maxBytes byte = .next later ∧
      presenting.consumed < later.consumed := by
  refine ⟨Presenting.skip { presenting with output := [byte] }, ?_,
    Nat.lt_succ_self _⟩
  rw [Presenting.emitByte, Presenting.append, if_neg]
  · rw [unused]
    rfl
  · rw [unused, List.length_nil, List.length_singleton]
    omega

/-- At the first byte of a call the loop gets ahead. -/
theorem ahead_turn (inChunk : chunks[presenting.chunkIndex]? = some chunk)
    (atByte : chunk[presenting.offset]? = some byte)
    (budget : 4 ≤ maxBytes) (unused : presenting.output = [])
    (unscanned : presenting.scanned = 0) (cap : 1 ≤ scanCap)
    (whole : presenting.parser.mode = .ground → byte ≠ escape →
      utf8Width byte ≤ (leftOf chunks presenting).length ∧
        utf8Width byte ≤ scanCap) :
    ∃ later, presenting.turn chunks maxBytes scanCap = .next later ∧
      Ahead presenting later := by
  have inside := (List.getElem?_eq_some_iff.mp atByte).1
  rw [turn_eq_of_byte inChunk atByte (by omega)]
  by_cases ground : presenting.parser.mode = .ground
  · rw [if_pos ground, Presenting.ground]
    by_cases begins : byte = escape
    · have introduces : byte = 0x1B := begins
      rw [if_pos introduces]
      exact ⟨_, rfl, Or.inl (Nat.lt_succ_self _)⟩
    · rcases whole ground begins with ⟨available, scans⟩
      have ordinary : ¬ byte = 0x1B := begins
      have emitted := @ahead_emitByte
        { presenting with scanned := presenting.scanned + 1 } maxBytes budget
        unused byte
      rw [if_neg ordinary]
      dsimp only
      by_cases multi : 1 < utf8Width byte
      · have length : (((chunks.drop presenting.chunkIndex).flatten.drop
            presenting.offset).take (utf8Width byte)).length =
              utf8Width byte := by
          rw [List.length_take]
          exact Nat.min_eq_left available
        rw [if_pos multi, length, if_neg (Nat.lt_irrefl _),
          if_neg (by omega)]
        split
        · rcases emitted with ⟨later, turned, more⟩
          exact ⟨later, turned, Or.inl more⟩
        · have four := utf8Width_le byte
          have fits : ¬ maxBytes < presenting.output.length +
              (((chunks.drop presenting.chunkIndex).flatten.drop
                presenting.offset).take (utf8Width byte)).length := by
            rw [length, unused, List.length_nil]
            omega
          have positive : 0 < utf8Width byte := Nat.lt_of_succ_lt multi
          rw [Presenting.append, if_neg fits]
          exact ⟨_, rfl, Or.inl (@consumed_lt_moveOver _ _ _ _
            { presenting with
              output := presenting.output ++ _
              scanned := _ } inside positive positive)⟩
      · rw [if_neg multi]
        rcases emitted with ⟨later, turned, more⟩
        exact ⟨later, turned, Or.inl more⟩
  · rw [if_neg ground]
    refine ⟨_, rfl, ?_⟩
    split
    · exact Or.inl (Nat.lt_succ_self _)
    · rename_i given
      have back := (control_consumes presenting.parser byte).resolve_left given
      have escaped : presenting.parser.mode = .escape := by
        by_contra other
        apply given
        rw [LogPresentationState.control]
        split
        · exact absurd ‹_› other
        all_goals rfl
      refine Or.inr ⟨rfl, escaped, ?_⟩
      change (presenting.parser.control byte).1.mode ≠ _
      rw [back]
      decide

/-- Empty chunks are passed over, and then the loop gets ahead. -/
theorem ahead_run (fuel : Nat) (budget : 4 ≤ maxBytes)
    (unused : presenting.output = []) (unscanned : presenting.scanned = 0)
    (cap : 1 ≤ scanCap) (stands : Stands chunks presenting)
    (some : leftOf chunks presenting ≠ [])
    (fueled : chunks.length - presenting.chunkIndex < fuel)
    (whole : ∀ byte ∈ (leftOf chunks presenting).head?,
      presenting.parser.mode = .ground → byte ≠ escape →
        utf8Width byte ≤ (leftOf chunks presenting).length ∧
          utf8Width byte ≤ scanCap) :
    Ahead presenting (presenting.run chunks maxBytes scanCap fuel).1 := by
  induction fuel generalizing presenting with
  | zero => omega
  | succ fuel induction =>
    cases inChunk : chunks[presenting.chunkIndex]? with
    | none => exact absurd (leftOf_none inChunk) some
    | some chunk =>
      have within := stands chunk inChunk
      have index := (List.getElem?_eq_some_iff.mp inChunk).1
      cases atByte : chunk[presenting.offset]? with
      | none =>
        have left := leftOf_eq inChunk within
        rw [List.getElem?_eq_none_iff] at atByte
        rw [List.drop_eq_nil_of_le atByte, List.nil_append] at left
        let entered : Presenting :=
          { presenting with
            chunkIndex := presenting.chunkIndex + 1, offset := 0 }
        have same : leftOf chunks entered = leftOf chunks presenting := by
          rw [left]
          rfl
        have turned : presenting.turn chunks maxBytes scanCap =
            .next entered := by
          rw [Presenting.turn, inChunk]
          dsimp only
          rw [List.getElem?_eq_none atByte]
        rw [Presenting.run, turned]
        refine @induction entered unused unscanned
          (fun _ _ => Nat.zero_le _) (same ▸ some) ?_ ?_
        · dsimp only [entered]
          omega
        · rw [same]
          exact whole
      | some byte =>
        have left := leftOf_cons inChunk atByte
        rcases ahead_turn inChunk atByte budget unused unscanned cap
            (whole byte (by rw [left]; rfl)) with
          ⟨later, turned, ahead⟩
        rw [Presenting.run, turned]
        exact ahead.trans (notBack_run _ _ _ _ _)

end Progress

/-- A call with something left gets ahead. -/
theorem presentLogChunks_ahead {chunks : List (List UInt8)}
    (state : Option LogPresentationState) {maxBytes scanCap : Nat}
    (budget : 4 ≤ maxBytes) (cap : 1 ≤ scanCap) (some : chunks.flatten ≠ [])
    (whole : ∀ byte ∈ chunks.flatten.head?,
      (copyState state).mode = .ground → byte ≠ escape →
        utf8Width byte ≤ chunks.flatten.length ∧
          utf8Width byte ≤ scanCap) :
    let result := presentLogChunks chunks state maxBytes scanCap
    0 < result.consumedRawBytes ∨
      (result.consumedRawBytes = 0 ∧ (copyState state).mode = .escape ∧
        result.state.mode ≠ .escape) := by
  refine @ahead_run chunks (Presenting.start state) maxBytes scanCap
    (turnBound chunks) budget rfl rfl cap (fun _ _ => Nat.zero_le _) some
    ?_ whole
  rw [turnBound]
  omega

/-! ## Runs of calls -/

/-- What a caller has: the bytes left, the parser state and the output. -/
structure Presentation where
  left : List UInt8
  state : Option LogPresentationState
  emitted : List UInt8
  deriving DecidableEq

/-- One call: the chunks the bytes are split into, and its budgets. -/
structure Call where
  chunks : List (List UInt8)
  maxBytes : Nat
  scanCap : Nat

/--
A call on what is left, in whatever chunks; the caller goes on from the
consumed bytes.  Budgets that are too small are refused.
-/
def Presentation.call (presentation : Presentation) (call : Call) :
    Option Presentation :=
  if call.chunks.flatten = presentation.left ∧ minBudget ≤ call.maxBytes ∧
      1 ≤ call.scanCap then
    let result := presentLogChunks call.chunks presentation.state
      call.maxBytes call.scanCap
    some
      { left := presentation.left.drop result.consumedRawBytes
        state := some result.state
        emitted := presentation.emitted ++ result.data }
  else
    none

def presentations (input : List UInt8) : Machine Presentation Call where
  initial presentation :=
    presentation = { left := input, state := none, emitted := [] }
  step := Presentation.call

/--
An input whose control sequences are tracked and whose text does not end
inside a character.
-/
structure Regular (input : List UInt8) : Prop where
  tracked : ∀ piece ∈ pieces input, piece.Tracked
  whole : ∀ place ∈ places input, ∀ lead ∈ place.head?,
    utf8Width lead ≤ place.length

/-- A call that cuts no character of the text harmfully and scans enough. -/
structure Call.Clean (input : List UInt8) (call : Call) : Prop where
  carried : ∀ place ∈ places input, Carried call.chunks place
  scans : ∀ place ∈ places input, ∀ lead ∈ place.head?,
    utf8Width lead ≤ call.scanCap

/-- What is emitted and what the parser still shows make up the text. -/
def Presentation.Faithful (input : List UInt8)
    (presentation : Presentation) : Prop :=
  ∃ done,
    places input =
      done ++ AnsiGrammar.shown (copyState presentation.state)
        presentation.left ∧
    presentation.emitted = bytesAt done

/-- What calls have to do yet: an escape under way may take a call of its own. -/
def Presentation.owed (presentation : Presentation) : Nat :=
  2 * presentation.left.length +
    if (copyState presentation.state).mode = .escape then 1 else 0

theorem copyState_of_bounded {state : LogPresentationState}
    (bounded : Bounded state) : copyState (some state) = state := by
  rw [copyState]
  dsimp only [Option.getD_some]
  rw [Nat.min_eq_left bounded.csiLength, Nat.min_eq_left bounded.oscLength,
    Nat.min_eq_left bounded.controlLength]

section Calls

variable {input : List UInt8} {presentation next : Presentation} {call : Call}

theorem faithful_start (regular : Regular input) :
    Presentation.Faithful input
      { left := input, state := none, emitted := [] } :=
  ⟨[], (shown_eq_places regular.tracked).symm, rfl⟩

/-- A call that is accepted is one of `presentLogChunks`. -/
theorem call_some (called : presentation.call call = some next) :
    call.chunks.flatten = presentation.left ∧ 4 ≤ call.maxBytes ∧
      1 ≤ call.scanCap ∧
        next =
          { left := presentation.left.drop
              (presentLogChunks call.chunks presentation.state call.maxBytes
                call.scanCap).consumedRawBytes
            state := some
              (presentLogChunks call.chunks presentation.state call.maxBytes
                call.scanCap).state
            emitted := presentation.emitted ++
              (presentLogChunks call.chunks presentation.state call.maxBytes
                call.scanCap).data } := by
  rw [Presentation.call] at called
  split at called
  · rename_i accepted
    rw [Option.some.injEq] at called
    exact ⟨accepted.1, accepted.2.1, accepted.2.2, called.symm⟩
  · cases called

/-- A clean call keeps what is emitted faithful. -/
theorem Presentation.Faithful.kept
    (faithful : Presentation.Faithful input presentation)
    (clean : call.Clean input)
    (called : presentation.call call = some next) :
    Presentation.Faithful input next := by
  rcases faithful with ⟨done, shown, emitted⟩
  rcases call_some called with ⟨whole, -, -, rfl⟩
  have carried :
      CarriedAll (copyState presentation.state) call.chunks [] := by
    intro place member
    rw [List.append_nil, List.append_nil] at member
    refine clean.carried place ?_
    rw [shown, ← whole]
    exact List.mem_append_right _ member
  rcases presentLogChunks_shows call.chunks [] presentation.state
      call.maxBytes call.scanCap carried with ⟨-, more, shows_, output, -⟩
  rw [List.append_nil, List.append_nil] at shows_
  refine ⟨done ++ more, ?_, ?_⟩
  · rw [shown, copyState_of_bounded (bounded_presentLogChunks _ _ _ _),
      ← whole, shows_, List.append_assoc]
  · rw [emitted, output, bytesAt_append]

/-- A clean call leaves less to do. -/
theorem Presentation.Faithful.less
    (faithful : Presentation.Faithful input presentation)
    (regular : Regular input) (clean : call.Clean input)
    (some : presentation.left ≠ [])
    (called : presentation.call call = .some next) :
    next.owed < presentation.owed := by
  rcases faithful with ⟨done, shown, -⟩
  rcases call_some called with ⟨split, budget, cap, rfl⟩
  have ahead := presentLogChunks_ahead presentation.state budget cap
    (split.symm ▸ some) (by
      intro byte first ground ordinary
      rcases List.head?_eq_some_iff.mp first with ⟨rest, whole⟩
      rw [split] at whole
      have member : byte :: rest ∈ places input := by
        rw [shown, whole, shown_of_ground ground, if_neg ordinary]
        exact List.mem_append_right _ List.mem_cons_self
      rw [split, whole]
      exact ⟨regular.whole _ member byte rfl,
        clean.scans _ member byte rfl⟩)
  have nonempty := List.length_pos_iff.mpr some
  rw [Presentation.owed, Presentation.owed,
    copyState_of_bounded (bounded_presentLogChunks _ _ _ _),
    List.length_drop]
  rcases ahead with more | ⟨none, escaped, plain⟩
  · split <;> split <;> omega
  · rw [none, if_neg plain, if_pos escaped]
    omega

end Calls

/-- The output of calls on a regular input is its text, call by call. -/
theorem presentations_show_the_text {input : List UInt8}
    (regular : Regular input) {presentation : Presentation}
    (reachable : (presentations input).Reachable
      (fun _ call => call.Clean input) presentation) :
    presentation.emitted <+: stripped input ∧
      (presentation.left = [] → presentation.emitted = stripped input) ∧
      ∀ call next, call.Clean input → presentation.left ≠ [] →
        presentation.call call = some next →
          next.owed < presentation.owed := by
  have faithful : Presentation.Faithful input presentation := by
    refine @Machine.Reachable.invariant _ _ _ _
      (Presentation.Faithful input) ?_ ?_ _ reachable
    · rintro start rfl
      exact faithful_start regular
    · intro state call next faithful clean called
      exact faithful.kept clean called
  refine ⟨?_, ?_, ?_⟩
  · rcases faithful with ⟨done, shown, emitted⟩
    rw [stripped, shown, bytesAt_append, emitted]
    exact List.prefix_append _ _
  · intro ended
    rcases faithful with ⟨done, shown, emitted⟩
    rw [ended, AnsiGrammar.shown, List.append_nil] at shown
    rw [stripped, shown, emitted]
  · intro call next clean some called
    exact faithful.less regular clean some called

/-- In one chunk no character is cut. -/
theorem carried_single (bytes place : List UInt8) :
    Carried [bytes] place := by
  intro before chunk after offset split inside isPlace width whole
  obtain ⟨rfl, rfl, rfl⟩ : before = [] ∧ bytes = chunk ∧ after = [] := by
    cases before with
    | nil => exact ⟨rfl, (List.cons.inj split).1, (List.cons.inj split).2.symm⟩
    | cons first more =>
      have nothing : more ++ chunk :: after = [] :=
        (List.cons.inj split).2.symm
      exact absurd (List.append_eq_nil_iff.mp nothing).2
        (List.cons_ne_nil _ _)
  refine Or.inl ?_
  have bound := whole.inside
  rw [isPlace, List.flatten_nil, List.append_nil, List.length_drop] at bound
  exact bound

/-- Red text, and the colour taken back. -/
def redText : List UInt8 :=
  [0x1B, 0x5B, 0x33, 0x31, 0x6D, 0x61, 0x1B, 0x5B, 0x6D]

theorem regular_redText : Regular redText where
  tracked := by
    have split : pieces redText =
        [.csi [0x33, 0x31, 0x6D], .ordinary (redText.drop 5),
          .csi [0x6D]] := by
      decide
    rw [split]
    intro piece member
    rcases List.mem_cons.mp member with rfl | member
    · exact csiTracked_of_short (by decide)
    · rcases List.mem_cons.mp member with rfl | member
      · trivial
      · rw [List.mem_singleton.mp member]
        exact csiTracked_of_short (by decide)
  whole := by
    decide +kernel

/-- A call with everything that is left and more than enough budget. -/
theorem clean_redText : Call.Clean redText ⟨[redText], 4, 4⟩ where
  carried place _ := carried_single redText place
  scans := by
    decide +kernel

theorem presentations_show_the_text_red :
    ∃ presentation : Presentation,
      presentation.emitted <+: stripped redText ∧
        (presentation.left = [] →
          presentation.emitted = stripped redText) ∧
        ∀ call next, call.Clean redText → presentation.left ≠ [] →
          presentation.call call = some next →
            next.owed < presentation.owed := by
  refine ⟨_, presentations_show_the_text regular_redText
    (@Machine.Reachable.next _ _ _ _ _ _ ⟨[redText], 4, 4⟩
      (.start rfl) clean_redText rfl)⟩

/-- A title whose terminator stands behind one more escape, and a letter. -/
def escapedTitle : List UInt8 :=
  [0x1B, 0x5D, 0x1B, 0x1B, 0x5C, 0x41]

/-- Everything is consumed, and the letter behind the title is lost. -/
theorem presentations_lose_text :
    ∃ presentation,
      (presentations escapedTitle).Reachable (fun _ _ => True)
        presentation ∧
      (∀ piece ∈ pieces escapedTitle, piece = .ordinary [0x41] ∨
        piece = .osc [0x1B, 0x1B, 0x5C]) ∧
      presentation.left = [] ∧ presentation.emitted = [] ∧
      stripped escapedTitle = [0x41] := by
  refine ⟨_, @Machine.Reachable.next _ _ _ _ _ _
    (⟨[escapedTitle], 4, 6⟩ : Call) (.start rfl) trivial rfl, ?_, ?_, ?_, ?_⟩
  · decide
  · decide +kernel
  · decide +kernel
  · decide

end Rbo.Executor.PresentationRuns
