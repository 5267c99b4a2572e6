import Rbo.Foundation.Framing
import Rbo.Foundation.Utf8

/-!
# Decoding UTF-8 in pieces

A streaming decoder keeps the bytes at the end of a piece that may still become
a character, and decodes them with the next piece.  Where the bytes of a text
are cut makes no difference, and a text of which only the first bytes arrive is
decoded to its first characters.
-/

namespace Rbo.Foundation.Utf8

/-- The bytes after a lead byte end inside what may become a character. -/
def needsMore (lead : UInt8) (rest : List UInt8) : Bool :=
  if lead < 0x80 then
    false
  else if inRange 0xC2 0xDF lead then
    rest.isEmpty
  else if inRange 0xE0 0xEF lead then
    match rest with
    | [] => true
    | second :: more => isSecondOfThree lead second && more.isEmpty
  else if inRange 0xF0 0xF4 lead then
    match rest with
    | [] => true
    | [second] => isSecondOfFour lead second
    | second :: third :: further =>
      isSecondOfFour lead second && isContinuation third &&
        further.isEmpty
  else
    false

/-- The first character, once its bytes are there. -/
def nextChar : List UInt8 → Option (Char × List UInt8)
  | [] => none
  | lead :: rest =>
    if needsMore lead rest then none
    else
      some ((decodeOne lead rest).1, rest.drop (decodeOne lead rest).2)

/-- What the decoder makes of bytes that may need more is one replacement
character for all of them. -/
theorem decodeOne_of_needsMore {lead : UInt8} {rest : List UInt8}
    (more : needsMore lead rest = true) :
    decodeOne lead rest = (replacement, rest.length) := by
  unfold needsMore at more
  unfold decodeOne
  split at more
  · cases more
  · rename_i notOne
    rw [if_neg notOne]
    split at more
    · rename_i two
      rw [if_pos two]
      obtain rfl := List.isEmpty_iff.mp more
      rfl
    · rename_i notTwo
      rw [if_neg notTwo]
      split at more
      · rename_i three
        rw [if_pos three]
        rcases rest with _ | ⟨second, further⟩
        · rfl
        · rw [Bool.and_eq_true] at more
          obtain rfl := List.isEmpty_iff.mp more.2
          dsimp only
          rw [if_pos more.1]
          rfl
      · rename_i notThree
        rw [if_neg notThree]
        split at more
        · rename_i four
          rw [if_pos four]
          rcases rest with _ | ⟨second, _ | ⟨third, further⟩⟩
          · rfl
          · dsimp only at more ⊢
            rw [if_pos more]
            rfl
          · simp only [Bool.and_eq_true] at more
            obtain rfl := List.isEmpty_iff.mp more.2
            dsimp only
            rw [if_pos more.1.1, if_pos more.1.2]
            rfl
        · cases more

/-- Bytes that do not need more are decoded the same whatever follows. -/
theorem decodeOne_append {lead : UInt8} {rest : List UInt8}
    (enough : needsMore lead rest = false) (further : List UInt8) :
    needsMore lead (rest ++ further) = false ∧
      decodeOne lead (rest ++ further) = decodeOne lead rest ∧
      (decodeOne lead rest).2 ≤ rest.length := by
  unfold needsMore at enough ⊢
  unfold decodeOne
  by_cases one : lead < 0x80
  · simp [one]
  by_cases two : inRange 0xC2 0xDF lead = true
  · rcases rest with _ | ⟨second, rest⟩
    · simp [one, two] at enough
    · by_cases continues : isContinuation second = true <;>
        simp [one, two, continues]
  by_cases three : inRange 0xE0 0xEF lead = true
  · rcases rest with _ | ⟨second, rest⟩
    · simp [one, two, three] at enough
    · by_cases valid : isSecondOfThree lead second = true
      · rcases rest with _ | ⟨third, rest⟩
        · simp [one, two, three, valid] at enough
        · by_cases continues : isContinuation third = true <;>
            simp [one, two, three, valid, continues]
      · simp [one, two, three, valid]
  by_cases four : inRange 0xF0 0xF4 lead = true
  · rcases rest with _ | ⟨second, rest⟩
    · simp [one, two, three, four] at enough
    · by_cases valid : isSecondOfFour lead second = true
      · rcases rest with _ | ⟨third, rest⟩
        · simp [one, two, three, four, valid] at enough
        · by_cases continues : isContinuation third = true
          · rcases rest with _ | ⟨fourth, rest⟩
            · simp [one, two, three, four, valid, continues] at enough
            · by_cases last : isContinuation fourth = true <;>
                simp [one, two, three, four, valid, continues, last]
          · simp [one, two, three, four, valid, continues]
      · rcases rest with _ | ⟨third, rest⟩
        · cases further <;> simp [one, two, three, four, valid]
        · simp [one, two, three, four, valid]
  · simp [one, two, three, four]

/-- The characters of a stream of bytes. -/
def charFraming : Framing UInt8 Char where
  next := nextChar
  shorter := by
    intro buffer char rest cut
    cases buffer with
    | nil => cases cut
    | cons lead bytes =>
      obtain ⟨-, is⟩ := Option.ite_none_left_eq_some.mp cut
      cases is
      rw [List.length_drop, List.length_cons]
      omega
  stable := by
    intro buffer char rest more cut
    cases buffer with
    | nil => cases cut
    | cons lead bytes =>
      obtain ⟨enough, is⟩ := Option.ite_none_left_eq_some.mp cut
      cases is
      obtain ⟨still, same, within⟩ :=
        decodeOne_append (Bool.eq_false_iff.mpr enough) more
      rw [List.cons_append, nextChar, still, same,
        if_neg Bool.false_ne_true, List.drop_append_of_le_length within]

/-- A whole character is cut off, whatever follows. -/
theorem nextChar_encodeChar (char : Char) (rest : List UInt8) :
    nextChar (String.utf8EncodeChar char ++ rest) = some (char, rest) := by
  obtain ⟨lead, tail, shape, reads⟩ := decodeOne_encodeChar char
  rw [shape, List.cons_append, nextChar, reads]
  dsimp only
  rw [if_neg, List.drop_left]
  intro more
  have all := decodeOne_of_needsMore more
  rw [reads] at all
  -- Only the replacement character itself, at the end, could look like this.
  obtain ⟨rfl, length⟩ := Prod.mk.inj all
  rw [List.length_append] at length
  obtain rfl := List.length_eq_zero_iff.mp
    (show rest.length = 0 by omega)
  have own : lead :: tail = [0xEF, 0xBF, 0xBD] := by
    rw [← shape]
    decide +kernel
  cases own
  exact absurd more (by decide +kernel)

theorem drain_encode (text : List Char) :
    charFraming.drain (encode text) = (text, []) := by
  induction text with
  | nil => rfl
  | cons char text inductionHypothesis =>
    have cut : charFraming.next (encode (char :: text)) =
        some (char, encode text) := nextChar_encodeChar char _
    rw [Framing.drain_of_some cut, inductionHypothesis]

/-- From the first bytes of a text its first characters are decoded. -/
theorem drain_of_front {text : List Char} {front back : List UInt8}
    (cut : encode text = front ++ back) :
    (charFraming.drain front).1 <+: text := by
  have whole := drain_encode text
  rw [cut, Framing.drain_append] at whole
  exact ⟨_, congrArg Prod.fst whole⟩

/-- The first bytes of a character are one replacement character. -/
theorem decode_part {char : Char} {lead : UInt8} {part back : List UInt8}
    (cut : String.utf8EncodeChar char = lead :: part ++ back)
    (some : back ≠ []) : decode (lead :: part) = [replacement] := by
  have more : needsMore lead part = true := by
    by_contra enough
    rw [Bool.not_eq_true] at enough
    -- what is read of the part would be read of the whole
    have read : nextChar (lead :: part) = .some ((decodeOne lead part).1,
        part.drop (decodeOne lead part).2) := by
      rw [nextChar, enough, if_neg Bool.false_ne_true]
    have whole : nextChar (lead :: part ++ back) =
        .some ((decodeOne lead part).1,
          part.drop (decodeOne lead part).2 ++ back) :=
      charFraming.stable (lead :: part) _ _ back read
    have own := nextChar_encodeChar char []
    rw [List.append_nil, cut] at own
    have rest := congrArg Prod.snd (Option.some.inj (whole.symm.trans own))
    exact some (List.append_eq_nil_iff.mp rest).2
  rw [decode_cons, decodeOne_of_needsMore more, List.drop_length, decode_nil]

/-- The first bytes of a text are decoded to its first characters, and to a
replacement character where a character is cut. -/
theorem decode_front {text : List Char} {front back : List UInt8}
    (cut : encode text = front ++ back) :
    ∃ chars more, text = chars ++ more ∧
      ((decode front = chars ∧ front = encode chars) ∨
        (decode front = chars ++ [replacement] ∧
          ∃ char ∈ more.head?, 1 < (String.utf8EncodeChar char).length)) := by
  induction text generalizing front with
  | nil =>
    rcases List.append_eq_nil_iff.mp cut.symm with ⟨rfl, rfl⟩
    exact ⟨[], [], rfl, Or.inl ⟨rfl, rfl⟩⟩
  | cons char text inductionHypothesis =>
    have layout : encode (char :: text) =
        String.utf8EncodeChar char ++ encode text := rfl
    rw [layout] at cut
    rcases List.append_eq_append_iff.mp cut with
      ⟨later, rfl, rest⟩ | ⟨part, shape, _⟩
    · rcases inductionHypothesis rest with ⟨chars, more, rfl, read⟩
      refine ⟨char :: chars, more, rfl, ?_⟩
      rw [decode_encodeChar]
      rcases read with ⟨same, rfl⟩ | ⟨same, some⟩
      · exact Or.inl ⟨congrArg (char :: ·) same, rfl⟩
      · exact Or.inr ⟨congrArg (char :: ·) same, some⟩
    · cases front with
      | nil => exact ⟨[], char :: text, rfl, Or.inl ⟨rfl, rfl⟩⟩
      | cons lead front =>
        by_cases whole : part = []
        · subst whole
          rw [List.append_nil] at shape
          refine ⟨[char], text, rfl, Or.inl ?_⟩
          have read := decode_encode [char]
          have alone : encode [char] = lead :: front := by
            rw [← shape]
            exact List.append_nil _
          rw [alone] at read
          exact ⟨read, alone.symm⟩
        · have long : 1 < (String.utf8EncodeChar char).length := by
            have some := List.length_pos_of_ne_nil whole
            rw [shape, List.length_append, List.length_cons]
            omega
          exact ⟨[], char :: text, rfl,
            Or.inr ⟨decode_part shape whole, char, rfl, long⟩⟩

end Rbo.Foundation.Utf8
