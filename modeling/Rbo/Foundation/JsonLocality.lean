import Rbo.Foundation.JsonRoundTrip
import Rbo.Foundation.Texts

/-!
# What the reader of JSON texts looks at

The reader takes the front of a text and leaves the rest.  With another rest
that begins alike it takes the same front, and the length of the front is fuel
enough.  So blank space behind an object has no influence on what the object
is read as.
-/

namespace Rbo.Foundation.Json

/-- The reader takes a front of the text, also before another rest that begins
with the same character. -/
def TakesFront {Result : Type} (read : List Char → Option (Result × List Char))
    (text rest : List Char) (result : Result) : Prop :=
  ∃ front, text = front ++ rest ∧
    ∀ other : List Char, other.head? = rest.head? →
      read (front ++ other) = some (result, other)

variable {rest : List Char}

theorem head?_append_congr {other : List Char}
    (alike : other.head? = rest.head?) (front : List Char) :
    (front ++ other).head? = (front ++ rest).head? := by
  cases front with
  | nil => exact alike
  | cons => rfl

theorem head?_append_cons {char : Char} {other : List Char}
    (front : List Char) :
    (front ++ char :: other).head? = (front ++ char :: rest).head? := by
  cases front <;> rfl

/-! ## Blank space -/

theorem skipWhitespace_split (text : List Char) :
    ∃ blank, text = blank ++ skipWhitespace text ∧
      ∀ char ∈ blank, isWhitespace char = true :=
  ⟨text.takeWhile isWhitespace, (List.takeWhile_append_dropWhile).symm,
    fun _ => List.mem_takeWhile_imp⟩

theorem skipWhitespace_blank {blank : List Char}
    (all : ∀ char ∈ blank, isWhitespace char = true) (rest : List Char) :
    skipWhitespace (blank ++ rest) = skipWhitespace rest :=
  List.dropWhile_append_of_pos all

variable {text : List Char}

/-- The first character after blank space is not blank. -/
theorem not_isWhitespace_of_skip {char : Char}
    (found : skipWhitespace text = char :: rest) :
    isWhitespace char = false := by
  have first := List.head?_dropWhile_not isWhitespace text
  have same : (text.dropWhile isWhitespace).head? = some char :=
    congrArg List.head? found
  rw [same] at first
  exact first

/-- The blank space before a text is also skipped before another text that
begins alike. -/
theorem skipWhitespace_alike {found : List Char}
    (skips : skipWhitespace text = found) :
    ∃ blank, text = blank ++ found ∧
      ∀ other : List Char, other.head? = found.head? →
        skipWhitespace (blank ++ other) = other := by
  rcases skipWhitespace_split text with ⟨blank, split, all⟩
  refine ⟨blank, skips ▸ split, fun other alike => ?_⟩
  rw [skipWhitespace_blank all]
  cases other with
  | nil => rfl
  | cons char other =>
    cases found with
    | nil => cases alike
    | cons first found =>
      cases alike
      exact skipWhitespace_cons (not_isWhitespace_of_skip skips) other

/-- A text that goes on with a character after blank space does so before any
rest. -/
theorem skipWhitespace_front {char : Char}
    (found : skipWhitespace text = char :: rest) :
    ∃ blank, text = blank ++ char :: rest ∧
      ∀ other, skipWhitespace (blank ++ char :: other) = char :: other := by
  rcases skipWhitespace_alike found with ⟨blank, split, skips⟩
  exact ⟨blank, split, fun other => skips _ rfl⟩

/-! ## Strings -/

theorem parseString_front {units : List Nat}
    (parsed : parseString text = some (units, rest)) :
    ∃ front, text = front ++ rest ∧
      ∀ other, parseString (front ++ other) = some (units, other) := by
  fun_induction parseString text generalizing units rest with
  | case1 after =>
    cases parsed
    exact ⟨['"'], rfl, fun _ => rfl⟩
  | case2 first second third fourth after inductionHypothesis =>
    simp only [Option.bind_eq_bind, Option.bind_eq_some_iff,
      Option.some.injEq, Prod.exists, Prod.mk.injEq] at parsed
    obtain ⟨a, isA, b, isB, c, isC, d, isD, _, _, inner, rfl, rfl⟩ := parsed
    rcases inductionHypothesis inner with ⟨front, rfl, reads⟩
    refine ⟨'\\' :: 'u' :: first :: second :: third :: fourth :: front,
      rfl, fun other => ?_⟩
    simp only [List.cons_append, parseString, isA, isB, isC, isD,
      reads other, Option.bind_eq_bind, Option.bind_some]
  | case3 escape after long inductionHypothesis =>
    simp only [Option.bind_eq_bind, Option.bind_eq_some_iff,
      Option.some.injEq, Prod.exists, Prod.mk.injEq] at parsed
    obtain ⟨unit, isUnit, _, _, inner, rfl, rfl⟩ := parsed
    rcases inductionHypothesis inner with ⟨front, rfl, reads⟩
    refine ⟨'\\' :: escape :: front, rfl, fun other => ?_⟩
    rw [List.cons_append, List.cons_append, parseString_simple isUnit,
      reads other]
    rfl
  | case4 => cases parsed
  | case5 char after notQuote _ _ control inductionHypothesis =>
    simp only [Option.bind_eq_bind, Option.bind_eq_some_iff,
      Option.some.injEq, Prod.exists, Prod.mk.injEq] at parsed
    obtain ⟨_, _, inner, rfl, rfl⟩ := parsed
    rcases inductionHypothesis inner with ⟨front, rfl, reads⟩
    rw [not_or] at control
    have plain : IsPlain char :=
      ⟨Nat.le_of_not_lt control.1, notQuote, control.2⟩
    refine ⟨char :: front, rfl, fun other => ?_⟩
    rw [List.cons_append, parseString_char plain, reads other]
    rfl
  | case6 => cases parsed

/-! ## Numbers -/

theorem spanDigits_front (text : List Char) :
    text = (spanDigits text).1 ++ (spanDigits text).2 ∧
      ∀ other : List Char, other.head? = (spanDigits text).2.head? →
        spanDigits ((spanDigits text).1 ++ other) =
          ((spanDigits text).1, other) := by
  refine ⟨(List.takeWhile_append_dropWhile).symm, fun other alike => ?_⟩
  refine spanDigits_of _ (fun _ => List.mem_takeWhile_imp) ?_
  intro char first
  have stops := List.head?_dropWhile_not Char.isDigit text
  have same : (text.dropWhile Char.isDigit).head? = some char :=
    alike.symm.trans first
  rw [same] at stops
  exact stops

theorem parseInteger_front {digits : List Char}
    (parsed : parseInteger text = some (digits, rest)) :
    TakesFront parseInteger text rest digits := by
  unfold parseInteger at parsed
  split at parsed
  · cases parsed
    exact ⟨['0'], rfl, fun _ _ => rfl⟩
  · rename_i notZero
    dsimp only at parsed
    split at parsed
    · cases parsed
    · rename_i some_
      rcases spanDigits_front text with ⟨split, reads⟩
      have both := Option.some.inj parsed
      rw [both] at split reads some_
      refine ⟨digits, split, fun other alike => ?_⟩
      unfold parseInteger
      split
      · rename_i after equal
        cases digits with
        | nil => exact absurd rfl some_
        | cons first digits =>
          rw [List.cons_append, List.cons.injEq] at equal
          rw [equal.1, List.cons_append] at split
          exact absurd split (notZero _)
      · rw [reads other alike]
        exact if_neg some_

theorem parseFraction_front {text digits rest : List Char}
    (parsed : parseFraction text = some (digits, rest)) :
    TakesFront parseFraction text rest digits := by
  unfold parseFraction at parsed
  split at parsed
  · rename_i after
    dsimp only at parsed
    split at parsed
    · cases parsed
    · rename_i some_
      rcases spanDigits_front after with ⟨split, reads⟩
      have both := Option.some.inj parsed
      rw [both] at split reads some_
      refine ⟨'.' :: digits, congrArg ('.' :: ·) split, fun other alike => ?_⟩
      rw [List.cons_append, parseFraction, reads other alike]
      exact if_neg some_
  · rename_i noPoint
    cases parsed
    refine ⟨[], rfl, fun other alike => ?_⟩
    rw [List.nil_append]
    unfold parseFraction
    split
    · rename_i after
      cases text with
      | nil => cases alike
      | cons char text =>
        cases alike
        exact absurd rfl (noPoint text)
    · rfl

theorem exponentSign_front (text : List Char) :
    ∃ sign, text = sign ++ (exponentSign text).2 ∧
      ∀ other : List Char, other.head? = (exponentSign text).2.head? →
        exponentSign (sign ++ other) = ((exponentSign text).1, other) := by
  unfold exponentSign
  split
  · exact ⟨['+'], rfl, fun _ _ => rfl⟩
  · exact ⟨['-'], rfl, fun _ _ => rfl⟩
  · rename_i noPlus noMinus
    refine ⟨[], rfl, fun other alike => ?_⟩
    rw [List.nil_append]
    split
    · cases text with
      | nil => cases alike
      | cons char text =>
        cases alike
        exact absurd rfl (noPlus text)
    · cases text with
      | nil => cases alike
      | cons char text =>
        cases alike
        exact absurd rfl (noMinus text)
    · rfl

theorem parseExponent_front {value : Int}
    (parsed : parseExponent text = some (value, rest)) :
    TakesFront parseExponent text rest value := by
  unfold parseExponent at parsed
  split at parsed
  · rename_i marker after
    split at parsed
    · rename_i isMarker
      dsimp only at parsed
      split at parsed
      · cases parsed
      · rename_i some_
        rcases exponentSign_front after with ⟨sign, signSplit, signReads⟩
        rcases spanDigits_front (exponentSign after).2 with ⟨split, reads⟩
        rcases Prod.mk.inj (Option.some.inj parsed) with ⟨isValue, isRest⟩
        rw [isRest] at split reads
        refine ⟨marker :: (sign ++ (spanDigits (exponentSign after).2).1), ?_,
          fun other alike => ?_⟩
        · rw [List.cons_append, List.append_assoc, ← split, ← signSplit]
        · have signed := signReads
            ((spanDigits (exponentSign after).2).1 ++ other) (by
              rw [head?_append_congr alike, ← split])
          rw [List.cons_append, List.append_assoc, parseExponent,
            if_pos isMarker]
          dsimp only
          rw [signed, reads other alike, if_neg some_, isValue]
    · rename_i noMarker
      cases parsed
      refine ⟨[], rfl, fun other alike => ?_⟩
      cases other with
      | nil => cases alike
      | cons char other =>
        cases alike
        exact if_neg noMarker
  · cases parsed
    refine ⟨[], rfl, fun other alike => ?_⟩
    cases other with
    | nil => rfl
    | cons char other => cases alike

theorem parseUnsigned_front {negative : Bool} {value : Number}
    (parsed : parseUnsigned negative text = some (value, rest)) :
    TakesFront (parseUnsigned negative) text rest value := by
  simp only [parseUnsigned, Option.bind_eq_bind, Option.bind_eq_some_iff,
    Option.some.injEq, Prod.exists, Prod.mk.injEq] at parsed
  obtain ⟨digits, _, integer, decimals, _, fraction, power, _, exponent,
    isValue, rfl⟩ := parsed
  rcases parseInteger_front integer with ⟨first, rfl, readsInteger⟩
  rcases parseFraction_front fraction with ⟨second, rfl, readsFraction⟩
  rcases parseExponent_front exponent with ⟨third, rfl, readsExponent⟩
  refine ⟨first ++ (second ++ third), by simp only [List.append_assoc],
    fun other alike => ?_⟩
  have atThird := head?_append_congr alike third
  have atSecond := head?_append_congr atThird second
  simp only [parseUnsigned, List.append_assoc, readsInteger _ atSecond,
    readsFraction _ atThird, readsExponent _ alike, Option.bind_eq_bind,
    Option.bind_some, isValue]

theorem parseNumber_front {value : Number}
    (parsed : parseNumber text = some (value, rest)) :
    TakesFront parseNumber text rest value := by
  unfold parseNumber at parsed
  split at parsed
  · rcases parseUnsigned_front parsed with ⟨front, rfl, reads⟩
    exact ⟨'-' :: front, rfl, reads⟩
  · rename_i noMinus
    rcases parseUnsigned_front parsed with ⟨front, rfl, reads⟩
    refine ⟨front, rfl, fun other alike => ?_⟩
    unfold parseNumber
    split
    · rename_i after equal
      have first := head?_append_congr alike front
      rw [equal] at first
      cases whole : front ++ rest with
      | nil =>
        rw [whole] at first
        cases first
      | cons char more =>
        rw [whole] at first
        cases first
        exact absurd whole (noMinus more)
    · exact reads other alike

theorem parseNumber_head {value : Number}
    (parsed : parseNumber text = some (value, rest)) :
    ∃ first more, text = first :: more ∧
      (first.isDigit = true ∨ first = '-') := by
  unfold parseNumber at parsed
  split at parsed
  · exact ⟨'-', _, rfl, Or.inr rfl⟩
  · simp only [parseUnsigned, Option.bind_eq_bind, Option.bind_eq_some_iff,
      Prod.exists] at parsed
    obtain ⟨_, _, integer, _⟩ := parsed
    unfold parseInteger at integer
    split at integer
    · exact ⟨'0', _, rfl, Or.inl rfl⟩
    · dsimp only at integer
      split at integer
      · cases integer
      · rename_i some_
        cases text with
        | nil => exact absurd rfl some_
        | cons first more =>
          refine ⟨first, more, rfl, Or.inl ?_⟩
          by_contra notDigit
          exact some_ (List.takeWhile_cons_of_neg notDigit)

/-! ## Values -/

/-- What the parts of the reader take, with fuel for the length of the front. -/
structure Local (fuel : Nat) : Prop where
  value : ∀ {text rest : List Char} {value : Value},
    parseValue fuel text = some (value, rest) →
      ∃ front, text = front ++ rest ∧ ∀ more (other : List Char),
        front.length < more → other.head? = rest.head? →
          parseValue more (front ++ other) = some (value, other)
  members : ∀ {text rest : List Char} {members : List (List Nat × Value)},
    parseMembers fuel text = some (members, rest) →
      ∃ front, text = '"' :: front ++ '}' :: rest ∧ ∀ more (other : List Char),
        front.length + 1 < more →
          parseMembers more ('"' :: front ++ '}' :: other) =
            some (members, other)
  elements : ∀ {text rest : List Char} {items : List Value},
    parseElements fuel text = some (items, rest) →
      ∃ front, text = front ++ ']' :: rest ∧ ∀ more (other : List Char),
        front.length + 1 < more →
          parseElements more (front ++ ']' :: other) = some (items, other)

theorem fuel_of_lt {length more : Nat} (enough : length < more) :
    ∃ fuel, more = fuel + 1 :=
  Nat.exists_eq_add_one.mpr (Nat.zero_lt_of_lt enough)

theorem parseValue_empty {text after : List Char} (fuel : Nat)
    (skips : skipWhitespace text = '}' :: after) :
    parseValue (fuel + 1) ('{' :: text) = some (.object [], after) := by
  rw [parseValue, skips]
  rfl

theorem parseValue_members {inner : List Char} (fuel : Nat)
    (skips : skipWhitespace text = '"' :: inner) :
    parseValue (fuel + 1) ('{' :: text) =
      (parseMembers fuel ('"' :: inner)).map fun parsed =>
        (.object parsed.1, parsed.2) := by
  rw [parseValue, skips]
  rfl

theorem parseValue_noElements {text after : List Char} (fuel : Nat)
    (skips : skipWhitespace text = ']' :: after) :
    parseValue (fuel + 1) ('[' :: text) = some (.array [], after) := by
  rw [parseValue, skips]
  rfl

theorem parseValue_elements {text inner : List Char} (fuel : Nat)
    (skips : skipWhitespace text = inner)
    (some_ : ∀ after, inner ≠ ']' :: after) :
    parseValue (fuel + 1) ('[' :: text) =
      (parseElements fuel inner).map fun parsed =>
        (.array parsed.1, parsed.2) := by
  rw [parseValue, skips]
  split
  · exact absurd rfl (some_ _)
  · rfl

/-- An object is read from its brace to its brace. -/
theorem object_front {fuel : Nat} (previous : Local fuel)
    {inside rest : List Char} {value : Value}
    (parsed : parseValue (fuel + 1) ('{' :: inside) = some (value, rest)) :
    ∃ front, '{' :: inside = '{' :: front ++ '}' :: rest ∧
      ∀ more (other : List Char), front.length + 1 < more →
        parseValue more ('{' :: front ++ '}' :: other) =
          some (value, other) := by
  rw [parseValue] at parsed
  split at parsed
  · rename_i found
    cases parsed
    rcases skipWhitespace_front found with ⟨blank, rfl, skips⟩
    refine ⟨blank, rfl, ?_⟩
    intro more other enough
    obtain ⟨more, rfl⟩ := fuel_of_lt enough
    exact parseValue_empty more (skips other)
  · obtain ⟨⟨members, after⟩, inner, ⟨⟩⟩ := Option.map_eq_some_iff.mp parsed
    rcases previous.members inner with ⟨front, split, reads⟩
    rw [List.cons_append] at split
    rcases skipWhitespace_front split with ⟨blank, rfl, skips⟩
    refine ⟨blank ++ '"' :: front, by simp, ?_⟩
    intro more other enough
    obtain ⟨more, rfl⟩ := fuel_of_lt enough
    have shorter : front.length + 1 < more := by
      simp only [List.length_cons, List.length_append] at enough
      omega
    have whole : '{' :: (blank ++ '"' :: front) ++ '}' :: other =
        '{' :: (blank ++ '"' :: (front ++ '}' :: other)) := by
      simp
    have inner := reads more other shorter
    rw [List.cons_append] at inner
    rw [whole, parseValue_members more (skips _), inner]
    rfl

/-- The reader of a value, from the readers of its parts. -/
theorem local_value {fuel : Nat} (previous : Local fuel) {value : Value}
    (parsed : parseValue (fuel + 1) text = some (value, rest)) :
    ∃ front, text = front ++ rest ∧ ∀ more (other : List Char),
      front.length < more → other.head? = rest.head? →
        parseValue more (front ++ other) = some (value, other) := by
  unfold parseValue at parsed
  split at parsed
  · rename_i inside
    have braces : parseValue (fuel + 1) ('{' :: inside) =
        some (value, rest) := by
      rw [parseValue]
      exact parsed
    rcases object_front previous braces with ⟨front, split, reads⟩
    refine ⟨'{' :: front ++ ['}'], by simpa using split, ?_⟩
    intro more other enough _
    have shorter : front.length + 1 < more := by
      simp only [List.cons_append, List.length_cons, List.length_append,
        List.length_nil] at enough
      omega
    rw [List.append_assoc]
    exact reads more other shorter
  · rename_i inside
    split at parsed
    · rename_i found
      cases parsed
      rcases skipWhitespace_front found with ⟨blank, rfl, skips⟩
      refine ⟨'[' :: (blank ++ [']']), by simp, ?_⟩
      intro more other enough _
      obtain ⟨more, rfl⟩ := fuel_of_lt enough
      rw [List.cons_append, List.append_assoc]
      exact parseValue_noElements more (skips other)
    · rename_i notEmpty
      obtain ⟨⟨items, after⟩, inner, ⟨⟩⟩ := Option.map_eq_some_iff.mp parsed
      rcases previous.elements inner with ⟨front, split, reads⟩
      cases front with
      | nil => exact absurd split (notEmpty _)
      | cons first front =>
        rw [List.cons_append] at split
        rcases skipWhitespace_front split with ⟨blank, rfl, skips⟩
        refine ⟨'[' :: (blank ++ first :: front ++ [']']), by simp, ?_⟩
        intro more other enough _
        obtain ⟨more, rfl⟩ := fuel_of_lt enough
        have shorter : (first :: front).length + 1 < more := by
          simp only [List.length_cons, List.length_append,
            List.length_nil] at enough ⊢
          omega
        have whole : '[' :: (blank ++ first :: front ++ [']']) ++ other =
            '[' :: (blank ++ first :: (front ++ ']' :: other)) := by
          simp
        have inner := reads more other shorter
        rw [List.cons_append] at inner
        rw [whole, parseValue_elements more (skips _), inner]
        · rfl
        · rintro after same
          exact notEmpty _
            (split.trans (congrArg (· :: _) (List.cons.inj same).1))
  · rename_i inside
    obtain ⟨⟨units, after⟩, inner, ⟨⟩⟩ := Option.map_eq_some_iff.mp parsed
    rcases parseString_front inner with ⟨front, rfl, reads⟩
    refine ⟨'"' :: front, rfl, ?_⟩
    intro more other enough _
    obtain ⟨more, rfl⟩ := fuel_of_lt enough
    rw [List.cons_append, parseValue, reads other]
    rfl
  · rename_i noBrace noBracket noQuote
    split at parsed
    · rename_i found
      cases parsed
      unfold parseLiteral at found
      split at found
      · cases found
        exact ⟨"true".toList, rfl, fun more other enough _ => by
          obtain ⟨more, rfl⟩ := fuel_of_lt enough
          rfl⟩
      · cases found
        exact ⟨"false".toList, rfl, fun more other enough _ => by
          obtain ⟨more, rfl⟩ := fuel_of_lt enough
          rfl⟩
      · cases found
        exact ⟨"null".toList, rfl, fun more other enough _ => by
          obtain ⟨more, rfl⟩ := fuel_of_lt enough
          rfl⟩
      · cases found
    · obtain ⟨⟨number, after⟩, inner, ⟨⟩⟩ := Option.map_eq_some_iff.mp parsed
      rcases parseNumber_head inner with ⟨first, tail, starts, numeric⟩
      rcases parseNumber_front inner with ⟨front, rfl, reads⟩
      refine ⟨front, rfl, ?_⟩
      intro more other enough alike
      obtain ⟨more, rfl⟩ := fuel_of_lt enough
      have same := head?_append_congr alike front
      rw [starts] at same
      cases whole : front ++ other with
      | nil =>
        rw [whole] at same
        cases same
      | cons char later =>
        rw [whole] at same
        cases same
        rw [parseValue_number more numeric, ← whole, reads other alike]
        rfl

theorem parseMembers_close {rest afterKey afterColon afterValue after :
      List Char} {key : List Nat} {value : Value} {fuel : Nat}
    (name : parseString rest = some (key, afterKey))
    (colon : skipWhitespace afterKey = ':' :: afterColon)
    (read : parseValue fuel (skipWhitespace afterColon) =
      some (value, afterValue))
    (brace : skipWhitespace afterValue = '}' :: after) :
    parseMembers (fuel + 1) ('"' :: rest) = some ([(key, value)], after) := by
  rw [parseMembers, name]
  simp only [colon, read, brace]

theorem parseMembers_more
    {afterKey afterColon afterValue afterComma : List Char} {key : List Nat}
    {value : Value} {fuel : Nat}
    (name : parseString rest = some (key, afterKey))
    (colon : skipWhitespace afterKey = ':' :: afterColon)
    (read : parseValue fuel (skipWhitespace afterColon) =
      some (value, afterValue))
    (comma : skipWhitespace afterValue = ',' :: afterComma) :
    parseMembers (fuel + 1) ('"' :: rest) =
      (parseMembers fuel (skipWhitespace afterComma)).map fun parsed =>
        ((key, value) :: parsed.1, parsed.2) := by
  rw [parseMembers, name]
  simp only [colon, read, comma]

/-- The reader of members, from the readers of its parts. -/
theorem local_members {fuel : Nat} (previous : Local fuel)
    {members : List (List Nat × Value)}
    (parsed : parseMembers (fuel + 1) text = some (members, rest)) :
    ∃ front, text = '"' :: front ++ '}' :: rest ∧ ∀ more (other : List Char),
      front.length + 1 < more →
        parseMembers more ('"' :: front ++ '}' :: other) =
          some (members, other) := by
  unfold parseMembers at parsed
  split at parsed
  · rename_i inside
    split at parsed
    · cases parsed
    · rename_i key afterKey name
      rcases parseString_front name with ⟨keyFront, rfl, readsKey⟩
      split at parsed
      · rename_i afterColon colon
        rcases skipWhitespace_front colon with ⟨blank, rfl, skips⟩
        split at parsed
        · cases parsed
        · rename_i value afterValue read
          rcases previous.value read with ⟨valueFront, split, readsValue⟩
          rcases skipWhitespace_alike split with ⟨blankTwo, rfl, skipsTwo⟩
          split at parsed
          · rename_i after brace
            cases parsed
            rcases skipWhitespace_front brace with
              ⟨blankThree, rfl, skipsThree⟩
            refine ⟨keyFront ++ (blank ++ ':' :: (blankTwo ++ (valueFront ++
              blankThree))), by simp, ?_⟩
            intro more other enough
            obtain ⟨more, rfl⟩ := fuel_of_lt enough
            have shorter : valueFront.length < more := by
              simp only [List.length_cons, List.length_append] at enough
              omega
            have whole : '"' :: (keyFront ++ (blank ++ ':' :: (blankTwo ++
                (valueFront ++ blankThree)))) ++ '}' :: other =
                  '"' :: (keyFront ++ (blank ++ ':' :: (blankTwo ++
                    (valueFront ++ (blankThree ++ '}' :: other))))) := by
              simp
            have alike : (blankThree ++ '}' :: other).head? =
                (blankThree ++ '}' :: rest).head? :=
              head?_append_cons _
            have readHere := readsValue more _ shorter alike
            rw [← skipsTwo _ (head?_append_congr alike _)] at readHere
            rw [whole, parseMembers_close (readsKey _) (skips _) readHere
              (skipsThree _)]
          · rename_i afterComma comma
            obtain ⟨⟨later, rest⟩, inner, ⟨⟩⟩ :=
              Option.map_eq_some_iff.mp parsed
            rcases skipWhitespace_front comma with
              ⟨blankThree, rfl, skipsThree⟩
            rcases previous.members inner with ⟨front, splitLater, reads⟩
            rcases skipWhitespace_alike splitLater with
              ⟨blankFour, rfl, skipsFour⟩
            refine ⟨keyFront ++ (blank ++ ':' :: (blankTwo ++ (valueFront ++
              (blankThree ++ ',' :: (blankFour ++ '"' :: front))))),
              by simp, ?_⟩
            intro more other enough
            obtain ⟨more, rfl⟩ := fuel_of_lt enough
            have shorter : valueFront.length < more ∧
                front.length + 1 < more := by
              simp only [List.length_cons, List.length_append] at enough
              omega
            have whole : '"' :: (keyFront ++ (blank ++ ':' :: (blankTwo ++
                (valueFront ++ (blankThree ++ ',' :: (blankFour ++
                  '"' :: front)))))) ++ '}' :: other =
                  '"' :: (keyFront ++ (blank ++ ':' :: (blankTwo ++
                    (valueFront ++ (blankThree ++ ',' :: (blankFour ++
                      ('"' :: front ++ '}' :: other))))))) := by
              simp
            have alike : (blankThree ++ ',' :: (blankFour ++
                ('"' :: front ++ '}' :: other))).head? =
                  (blankThree ++ ',' :: (blankFour ++
                    ('"' :: front ++ '}' :: rest))).head? :=
              head?_append_cons _
            have readHere := readsValue more _ shorter.1 alike
            rw [← skipsTwo _ (head?_append_congr alike _)] at readHere
            rw [whole, parseMembers_more (readsKey _) (skips _) readHere
              (skipsThree _), skipsFour ('"' :: front ++ '}' :: other) rfl,
              reads more other shorter.2]
            rfl
          · cases parsed
      · cases parsed
  · cases parsed

theorem parseElements_close {text afterValue after : List Char} {value : Value}
    {fuel : Nat} (read : parseValue fuel text = some (value, afterValue))
    (bracket : skipWhitespace afterValue = ']' :: after) :
    parseElements (fuel + 1) text = some ([value], after) := by
  rw [parseElements, read]
  simp only [bracket]

theorem parseElements_more {afterValue afterComma : List Char} {value : Value}
    {fuel : Nat} (read : parseValue fuel text = some (value, afterValue))
    (comma : skipWhitespace afterValue = ',' :: afterComma) :
    parseElements (fuel + 1) text =
      (parseElements fuel (skipWhitespace afterComma)).map fun parsed =>
        (value :: parsed.1, parsed.2) := by
  rw [parseElements, read]
  simp only [comma]

/-- The reader of items, from the readers of its parts. -/
theorem local_elements {fuel : Nat} (previous : Local fuel)
    {items : List Value}
    (parsed : parseElements (fuel + 1) text = some (items, rest)) :
    ∃ front, text = front ++ ']' :: rest ∧ ∀ more (other : List Char),
      front.length + 1 < more →
        parseElements more (front ++ ']' :: other) = some (items, other) := by
  unfold parseElements at parsed
  split at parsed
  · cases parsed
  · rename_i value afterValue read
    rcases previous.value read with ⟨valueFront, rfl, readsValue⟩
    split at parsed
    · rename_i after bracket
      cases parsed
      rcases skipWhitespace_front bracket with ⟨blank, rfl, skips⟩
      refine ⟨valueFront ++ blank, by simp, ?_⟩
      intro more other enough
      obtain ⟨more, rfl⟩ := fuel_of_lt enough
      have shorter : valueFront.length < more := by
        rw [List.length_append] at enough
        omega
      have readHere := readsValue more (blank ++ ']' :: other) shorter
        (head?_append_cons _)
      rw [List.append_assoc, parseElements_close readHere (skips _)]
    · rename_i afterComma comma
      obtain ⟨⟨later, _⟩, inner, ⟨⟩⟩ := Option.map_eq_some_iff.mp parsed
      rcases skipWhitespace_front comma with ⟨blank, rfl, skips⟩
      rcases previous.elements inner with ⟨front, split, reads⟩
      rcases skipWhitespace_alike split with ⟨blankTwo, rfl, skipsTwo⟩
      refine ⟨valueFront ++ (blank ++ ',' :: (blankTwo ++ front)), by simp, ?_⟩
      intro more other enough
      obtain ⟨more, rfl⟩ := fuel_of_lt enough
      have shorter : valueFront.length < more ∧
          front.length + 1 < more := by
        simp only [List.length_append, List.length_cons] at enough
        omega
      have whole : valueFront ++ (blank ++ ',' :: (blankTwo ++ front)) ++
          ']' :: other = valueFront ++ (blank ++ ',' :: (blankTwo ++
            (front ++ ']' :: other))) := by
        simp
      have readHere := readsValue more (blank ++ ',' :: (blankTwo ++
        (front ++ ']' :: other))) shorter.1 (head?_append_cons _)
      rw [whole, parseElements_more readHere (skips _),
        skipsTwo _ (head?_append_cons _), reads more other shorter.2]
      rfl
    · cases parsed

/-- The reader only looks at the front it takes. -/
theorem local_ (fuel : Nat) : Local fuel := by
  induction fuel with
  | zero =>
    constructor
    · intro text rest value parsed
      unfold parseValue at parsed
      cases parsed
    · intro text rest members parsed
      unfold parseMembers at parsed
      cases parsed
    · intro text rest items parsed
      unfold parseElements at parsed
      cases parsed
  | succ fuel previous =>
    exact
      { value := local_value previous
        members := local_members previous
        elements := local_elements previous }

/-! ## Blank space around an object -/

/-- Blank space around the text of an object has no influence. -/
theorem parse_blank {members : List (List Nat × Value)}
    (parsed : parse text = some (.object members)) :
    ∃ before front after, text = before ++ '{' :: front ++ '}' :: after ∧
      (∀ char ∈ before, isWhitespace char = true) ∧
      (∀ char ∈ after, isWhitespace char = true) ∧
      parse ('{' :: front ++ ['}']) = some (.object members) := by
  unfold parse at parsed
  split at parsed
  · rename_i value rest read
    split at parsed
    · rename_i blankRest
      cases parsed
      rcases parseValue_object read with ⟨inner, starts, _⟩
      rw [starts] at read
      rcases object_front (local_ _) read with ⟨front, split, reads⟩
      rcases skipWhitespace_split text with ⟨before, whole, blank⟩
      refine ⟨before, front, rest, ?_, blank, ?_, ?_⟩
      · rw [List.append_assoc, ← split, ← starts]
        exact whole
      · exact List.dropWhile_eq_nil_iff.mp blankRest
      · have again := reads (('{' :: front ++ ['}']).length + 1) [] (by
          simp only [List.cons_append, List.length_cons, List.length_append,
            List.length_nil]
          omega)
        unfold parse
        rw [List.cons_append, skipWhitespace_cons rfl, ← List.cons_append,
          again]
        rfl
    · cases parsed
  · cases parsed

theorem isTrimmed_of_isWhitespace {char : Char}
    (blank : isWhitespace char = true) :
    Foundation.isTrimmed char = true := by
  simp only [isWhitespace, Bool.or_eq_true, decide_eq_true_eq] at blank
  rcases blank with ((rfl | rfl) | rfl) | rfl
  all_goals rfl

/-- Trimming takes the blank space around an object. -/
theorem trim_object {before front after : List Char}
    (blankBefore : ∀ char ∈ before, isWhitespace char = true)
    (blankAfter : ∀ char ∈ after, isWhitespace char = true) :
    trim (before ++ '{' :: front ++ '}' :: after) = '{' :: front ++ ['}'] := by
  unfold trim trimStart
  have start : (before ++ '{' :: front ++ '}' :: after).dropWhile
      Foundation.isTrimmed = '{' :: front ++ '}' :: after := by
    rw [List.append_assoc, List.dropWhile_append_of_pos fun char inside =>
      isTrimmed_of_isWhitespace (blankBefore char inside)]
    rfl
  have stop : ('{' :: front ++ '}' :: after).reverse.dropWhile
      Foundation.isTrimmed = '}' :: ('{' :: front).reverse := by
    rw [List.reverse_append, List.reverse_cons, List.append_assoc,
      List.dropWhile_append_of_pos fun char inside =>
        isTrimmed_of_isWhitespace (blankAfter char (List.mem_reverse.mp inside))]
    rfl
  rw [start, stop, List.reverse_cons, List.reverse_reverse]

/-- Trimming a text that begins with a brace takes its end. -/
theorem trim_brace (inside : List Char) :
    ∃ kept blank, '{' :: inside = '{' :: kept ++ blank ∧
      trim ('{' :: inside) = '{' :: kept ∧
      ∀ char ∈ blank, Foundation.isTrimmed char = true := by
  have start : trimStart ('{' :: inside) = '{' :: inside := rfl
  have split : (('{' :: inside).reverse.dropWhile
      Foundation.isTrimmed).reverse ++ (('{' :: inside).reverse.takeWhile
        Foundation.isTrimmed).reverse = '{' :: inside := by
    rw [← List.reverse_append, List.takeWhile_append_dropWhile,
      List.reverse_reverse]
  have trimmed : trim ('{' :: inside) = (('{' :: inside).reverse.dropWhile
      Foundation.isTrimmed).reverse := by
    rw [trim, start, trimStart]
  rw [← trimmed] at split
  cases shape : trim ('{' :: inside) with
  | nil =>
    have all : ∀ char ∈ ('{' :: inside).reverse,
        Foundation.isTrimmed char = true := by
      rw [trimmed, List.reverse_eq_nil_iff, List.dropWhile_eq_nil_iff]
        at shape
      exact shape
    exact absurd (all '{' (List.mem_reverse.mpr List.mem_cons_self))
      (by decide)
  | cons first kept =>
    rw [shape] at split
    cases (List.cons.inj split).1
    refine ⟨kept, _, split.symm, rfl, fun char member => ?_⟩
    exact List.mem_takeWhile_imp (List.mem_reverse.mp member)

/-- The beginning of the text of an object is no text, also with a mark where
a character is cut. -/
theorem parse_torn {body front back mark : List Char} {value : Value}
    (parsed : parse ('{' :: body ++ ['}']) = some value)
    (cut : '{' :: body ++ ['}'] = front ++ back) (torn : back ≠ [])
    (marked : mark = [] ∨ mark = [Utf8.replacement]) :
    parse (trim (front ++ mark)) = none := by
  cases front with
  | nil =>
    rcases marked with rfl | rfl
    · decide
    · decide
  | cons first inside =>
    cases (List.cons.inj cut).1
    rcases trim_brace (inside ++ mark) with ⟨kept, blank, split, trimmed, all⟩
    rw [List.cons_append, trimmed]
    by_contra found
    rcases Option.ne_none_iff_exists'.mp found with ⟨other, read⟩
    unfold parse at read
    rw [skipWhitespace_cons rfl] at read
    split at read
    · rename_i result rest inner
      split at read
      · rename_i blankRest
        rcases object_front (local_ _) inner with ⟨object, shape, reads⟩
        have blanks : ∀ char ∈ rest, isWhitespace char = true :=
          List.dropWhile_eq_nil_iff.mp blankRest
        rw [shape, List.append_assoc, List.cons_append] at split
        rcases marked with rfl | rfl
        · -- the whole text would go on behind the closing brace
          have whole : '{' :: body ++ ['}'] =
              '{' :: object ++ '}' :: (rest ++ (blank ++ back)) := by
            rw [cut]
            rw [List.append_nil] at split
            rw [split]
            simp
          have again := reads (('{' :: body ++ ['}']).length + 1)
            (rest ++ (blank ++ back)) (by
              rw [whole]
              simp only [List.cons_append, List.length_cons,
                List.length_append]
              omega)
          unfold parse at parsed
          rw [List.cons_append, skipWhitespace_cons rfl,
            ← List.cons_append, whole] at parsed
          rw [whole] at again
          rw [again] at parsed
          dsimp only at parsed
          split at parsed
          · rename_i blankAll
            have last : ('{' :: body ++ ['}']).getLast? = some '}' :=
              List.getLast?_concat
            rw [cut, List.getLast?_append_of_ne_nil _ torn] at last
            have member := List.mem_of_getLast? last
            have white := List.dropWhile_eq_nil_iff.mp blankAll '}'
              (List.mem_append_right _ (List.mem_append_right _ member))
            exact absurd white (by decide)
          · cases parsed
        · have last : ('{' :: (inside ++ [Utf8.replacement])).getLast? =
              some Utf8.replacement := by
            rw [← List.cons_append]
            exact List.getLast?_concat
          have layout : '{' :: (object ++ ('}' :: rest ++ blank)) =
              '{' :: object ++ '}' :: (rest ++ blank) := rfl
          rw [split, layout, List.getLast?_append_of_ne_nil _
            (List.cons_ne_nil _ _)] at last
          rcases List.mem_cons.mp (List.mem_of_getLast? last) with
            brace | later
          · exact absurd brace (by decide)
          · rcases List.mem_append.mp later with inRest | inBlank
            · exact absurd (blanks _ inRest) (by decide)
            · exact absurd (all _ inBlank) (by decide)
      · cases read
    · cases read

end Rbo.Foundation.Json
