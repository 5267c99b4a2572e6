import Rbo.Snapshot.Containment

/-!
# Globs

`globMatch` turns a pattern into a regular expression by one replacement after
another: `**` becomes two section signs, `*` a run without slashes, two section
signs become `.*`, and `?` a symbol that is no slash.  The artifact rules and
the additional roots have a copy of it each.

A pattern is read here as a sequence of pieces.  The translation keeps them
apart unless the pattern has section signs of its own next to a placeholder,
and `.*` does not run over the end of a line.
-/

namespace Rbo.Executor.ArtifactGlobs

open Rbo.Foundation
open Rbo.Foundation.Wildcards (Token test runThen)
open Rbo.Snapshot.SecretPolicy (forwardSlashes)
open Rbo.Snapshot.Capture (unitOf replaceDoubleStars notSlash
  unitNotLineTerminator globTokens)

/-- `globMatch` of the artifact rules. -/
def globMatch (pattern value : List Char) : Bool :=
  test (globTokens (replaceDoubleStars pattern))
    (Utf16.encode (forwardSlashes value))

/-! ## Patterns and what they stand for -/

inductive Piece where
  /-- `**` -/
  | anything
  /-- `*` -/
  | within
  /-- `?` -/
  | one
  | literal (char : Char)
  deriving DecidableEq

def readPattern : List Char → List Piece
  | '*' :: '*' :: rest => .anything :: readPattern rest
  | '*' :: rest => .within :: readPattern rest
  | '?' :: rest => .one :: readPattern rest
  | char :: rest => .literal char :: readPattern rest
  | [] => []

/-- The path can be cut along the pieces. -/
inductive Matches : List Piece → List Char → Prop where
  | nil : Matches [] []
  | anything (front : List Char) {pieces : List Piece} {rest : List Char}
      (matches_ : Matches pieces rest) :
      Matches (.anything :: pieces) (front ++ rest)
  | within (front : List Char) (noSlash : '/' ∉ front)
      {pieces : List Piece} {rest : List Char}
      (matches_ : Matches pieces rest) :
      Matches (.within :: pieces) (front ++ rest)
  | one (char : Char) (noSlash : char ≠ '/')
      {pieces : List Piece} {rest : List Char}
      (matches_ : Matches pieces rest) :
      Matches (.one :: pieces) (char :: rest)
  | literal (char : Char) {pieces : List Piece} {rest : List Char}
      (matches_ : Matches pieces rest) :
      Matches (.literal char :: pieces) (char :: rest)

/-- A character that `.` matches. -/
def isInline (char : Char) : Bool :=
  char ∉ ['\n', '\r', '\u2028', '\u2029']

/-- No section sign of the pattern stands before another one or a `**`, a `**`
meets no end of a line, and a `?` no character of two units. -/
structure Regular (pattern path : List Char) : Prop where
  apart : ¬ ['§', '§'] <:+: pattern
  unstarred : ¬ ['§', '*', '*'] <:+: pattern
  inline_ : ['*', '*'] <:+: pattern → ∀ char ∈ path, isInline char = true
  basic : '?' ∈ pattern → ∀ char ∈ path, char.toNat < 0x10000

/-! ## The translation -/

def tokensOf : Piece → List (Token UInt16)
  | .anything => [.run unitNotLineTerminator]
  | .within => [.run notSlash]
  | .one => [.one notSlash]
  | .literal char => (Utf16.encodeChar char).map .literal

variable {char : Char}

/-- A character that is no placeholder stands for itself. -/
theorem globTokens_cons {text : List Char} (star : char ≠ '*')
    (question : char ≠ '?') (plain : char = '§' → ∀ rest, text ≠ '§' :: rest) :
    globTokens (char :: text) =
      tokensOf (.literal char) ++ globTokens text := by
  conv_lhs => unfold globTokens
  split
  · rename_i rest same
    rcases List.cons.inj same with ⟨rfl, follows⟩
    exact absurd follows (plain rfl rest)
  · rename_i same
    exact absurd (List.cons.inj same).1 star
  · rename_i same
    exact absurd (List.cons.inj same).1 question
  · rename_i same
    rcases List.cons.inj same with ⟨rfl, rfl⟩
    rfl
  · rename_i same
    cases same

theorem replaceDoubleStars_ne_section {text : List Char}
    (unsigned : ∀ rest, text ≠ '§' :: rest)
    (unstarred : ∀ rest, text ≠ '*' :: '*' :: rest) (rest : List Char) :
    replaceDoubleStars text ≠ '§' :: rest := by
  unfold replaceDoubleStars
  split
  · exact absurd rfl (unstarred _)
  · rename_i char others _
    intro same
    exact unsigned others (by rw [(List.cons.inj same).1])
  · nofun

theorem replaceDoubleStars_cons {rest : List Char}
    (single : ∀ others, char = '*' → rest ≠ '*' :: others) :
    replaceDoubleStars (char :: rest) = char :: replaceDoubleStars rest := by
  conv_lhs => unfold replaceDoubleStars
  split
  · rename_i others same
    rcases List.cons.inj same with ⟨rfl, follows⟩
    exact absurd follows (single others rfl)
  · rename_i same
    rcases List.cons.inj same with ⟨rfl, rfl⟩
    rfl
  · rename_i same
    cases same

variable {pattern : List Char}

/-- The pieces of the pattern are not mixed up. -/
theorem globTokens_of_apart (apart : ¬ ['§', '§'] <:+: pattern)
    (unstarred : ¬ ['§', '*', '*'] <:+: pattern) :
    globTokens (replaceDoubleStars pattern) =
      (readPattern pattern).flatMap tokensOf := by
  induction pattern using readPattern.induct with
  | case1 rest inductionHypothesis =>
    have later := inductionHypothesis
      (fun inside => apart (inside.trans (List.suffix_append ['*', '*'] _).isInfix))
      (fun inside =>
        unstarred (inside.trans (List.suffix_append ['*', '*'] _).isInfix))
    rw [replaceDoubleStars, globTokens, readPattern, List.flatMap_cons, later]
    rfl
  | case2 rest single inductionHypothesis =>
    have later := inductionHypothesis
      (fun inside => apart (inside.trans (List.suffix_cons _ _).isInfix))
      (fun inside => unstarred (inside.trans (List.suffix_cons _ _).isInfix))
    rw [replaceDoubleStars_cons (fun others _ => single others), globTokens,
      readPattern, List.flatMap_cons, later]
    · rfl
    · exact single
  | case3 rest inductionHypothesis =>
    have later := inductionHypothesis
      (fun inside => apart (inside.trans (List.suffix_cons _ _).isInfix))
      (fun inside => unstarred (inside.trans (List.suffix_cons _ _).isInfix))
    rw [replaceDoubleStars_cons (by nofun), globTokens, readPattern,
      List.flatMap_cons, later]
    rfl
  | case4 char rest other star question inductionHypothesis =>
    have later := inductionHypothesis
      (fun inside => apart (inside.trans (List.suffix_cons _ _).isInfix))
      (fun inside => unstarred (inside.trans (List.suffix_cons _ _).isInfix))
    rw [replaceDoubleStars_cons (fun _ same => absurd same star),
      globTokens_cons star question, readPattern, List.flatMap_cons, later]
    · exact other
    · exact star
    · exact question
    · rintro rfl
      refine replaceDoubleStars_ne_section ?_ ?_
      · rintro others rfl
        exact apart ⟨[], others, rfl⟩
      · rintro others rfl
        exact unstarred ⟨[], others, rfl⟩
  | case5 => rfl

/-! ## Characters and their units -/

theorem encodeChar_cases (char : Char) :
    (char.toNat < 0x10000 ∧
        Utf16.encodeChar char = [UInt16.ofNat char.toNat]) ∨
      ∃ high low, ¬ char.toNat < 0x10000 ∧
        Utf16.encodeChar char = [high, low] ∧
        Utf16.isHigh high = true ∧ Utf16.isLow low = true := by
  have scalar : char.toNat < 0xD800 ∨
      0xDFFF < char.toNat ∧ char.toNat < 0x110000 := char.valid
  unfold Utf16.encodeChar
  by_cases basic : char.toNat < 0x10000
  · rw [if_pos basic]
    exact Or.inl ⟨basic, rfl⟩
  · rw [if_neg basic]
    refine Or.inr ⟨_, _, basic, rfl, ?_, ?_⟩
    · rw [Utf16.isHigh_iff, UInt16.toNat_ofNat']
      omega
    · rw [Utf16.isLow_iff, UInt16.toNat_ofNat']
      omega

variable {path : List Char}

/-- A text that begins with the units of a character begins with it. -/
theorem encode_eq_append {units : List UInt16}
    (same : Utf16.encode path = Utf16.encodeChar char ++ units) :
    ∃ rest, path = char :: rest ∧ units = Utf16.encode rest := by
  have read : path = char :: Utf16.decode units := by
    rw [← Utf16.decode_encode path, same, Utf16.decode_encodeChar]
  refine ⟨Utf16.decode units, read, ?_⟩
  rw [read] at same
  exact (List.append_cancel_left same).symm

theorem test_literals {units : List UInt16} {tokens : List (Token UInt16)}
    {text : List UInt16} :
    test (units.map Token.literal ++ tokens) text = true ↔
      ∃ rest, text = units ++ rest ∧ test tokens rest = true := by
  induction units generalizing text with
  | nil => exact ⟨fun passes => ⟨text, rfl, passes⟩,
      fun ⟨_, same, passes⟩ => same ▸ passes⟩
  | cons unit units inductionHypothesis =>
    cases text with
    | nil =>
      refine ⟨nofun, ?_⟩
      rintro ⟨_, same, _⟩
      cases same
    | cons head text =>
      rw [List.map_cons, List.cons_append, Wildcards.test_literal_cons,
        Bool.and_eq_true, beq_iff_eq, inductionHypothesis]
      constructor
      · rintro ⟨rfl, rest, rfl, passes⟩
        exact ⟨rest, rfl, passes⟩
      · rintro ⟨rest, same, passes⟩
        rcases List.cons.inj same with ⟨rfl, rfl⟩
        exact ⟨rfl, rest, rfl, passes⟩

/-! ## Runs -/

theorem runThen_of_next {allowed : UInt16 → Bool}
    {next : List UInt16 → Bool} {text : List UInt16}
    (passes : next text = true) : runThen allowed next text = true := by
  cases text with
  | nil => exact passes
  | cons head text => rw [runThen, passes, Bool.true_or]

/-- A pattern without `?` that matches the second half of a character and what
follows matches what follows. -/
theorem test_of_low {pieces : List Piece} (noOne : Piece.one ∉ pieces)
    {low : UInt16} (second : Utf16.isLow low = true) {text : List UInt16}
    (passes : test (pieces.flatMap tokensOf) (low :: text) = true) :
    test (pieces.flatMap tokensOf) text = true := by
  induction pieces with
  | nil => cases passes
  | cons piece pieces inductionHypothesis =>
    have later := inductionHypothesis
      (fun inside => noOne (List.mem_cons_of_mem _ inside))
    rw [List.flatMap_cons] at passes ⊢
    cases piece with
    | one => exact absurd List.mem_cons_self noOne
    | literal char =>
      rcases test_literals.mp passes with ⟨rest, same, _⟩
      rcases encodeChar_cases char with ⟨basic, units⟩ |
        ⟨high, _, _, units, isHigh, _⟩
      · rw [units] at same
        rcases List.cons.inj same with ⟨rfl, _⟩
        have scalar : char.toNat < 0xD800 ∨
            0xDFFF < char.toNat ∧ char.toNat < 0x110000 := char.valid
        rw [Utf16.isLow_iff, UInt16.toNat_ofNat'] at second
        omega
      · rw [units] at same
        rcases List.cons.inj same with ⟨rfl, _⟩
        exact absurd second (Utf16.isLow_of_isHigh isHigh)
    | anything =>
      rcases Bool.or_eq_true _ _ ▸ passes with first | goesOn
      · exact runThen_of_next (later first)
      · exact (Bool.and_eq_true _ _ ▸ goesOn).2
    | within =>
      rcases Bool.or_eq_true _ _ ▸ passes with first | goesOn
      · exact runThen_of_next (later first)
      · exact (Bool.and_eq_true _ _ ▸ goesOn).2

/-- A run over the units is a run over the characters. -/
theorem runThen_encode {allowed : UInt16 → Bool} {keeps : Char → Prop}
    (basic : ∀ char, char.toNat < 0x10000 →
      (allowed (UInt16.ofNat char.toNat) = true ↔ keeps char))
    (paired : ∀ char, ¬ char.toNat < 0x10000 → keeps char)
    (surrogate : ∀ unit, Utf16.isHigh unit = true ∨ Utf16.isLow unit = true →
      allowed unit = true)
    {next : List UInt16 → Bool} {path : List Char}
    (skips : (∀ char ∈ path, char.toNat < 0x10000) ∨
      ∀ low text, Utf16.isLow low = true → next (low :: text) = true →
        next text = true) :
    runThen allowed next (Utf16.encode path) = true ↔
      ∃ front rest, path = front ++ rest ∧ (∀ char ∈ front, keeps char) ∧
        next (Utf16.encode rest) = true := by
  induction path with
  | nil =>
    constructor
    · exact fun passes => ⟨[], [], rfl, nofun, passes⟩
    · rintro ⟨front, rest, same, _, passes⟩
      rcases List.append_eq_nil_iff.mp same.symm with ⟨rfl, rfl⟩
      exact passes
  | cons char path inductionHypothesis =>
    have later := inductionHypothesis (skips.imp_left fun all other inside =>
      all other (List.mem_cons_of_mem _ inside))
    -- a run either ends before the character or takes it whole
    have split : (∃ front rest, char :: path = front ++ rest ∧
        (∀ char ∈ front, keeps char) ∧
          next (Utf16.encode rest) = true) ↔
        next (Utf16.encode (char :: path)) = true ∨ (keeps char ∧
          runThen allowed next (Utf16.encode path) = true) := by
      rw [later]
      constructor
      · rintro ⟨front, rest, same, kept, passes⟩
        cases front with
        | nil =>
          exact Or.inl (same ▸ passes)
        | cons head front =>
          rcases List.cons.inj same with ⟨rfl, rfl⟩
          exact Or.inr ⟨kept _ List.mem_cons_self, front, rest, rfl,
            fun other inside => kept other (List.mem_cons_of_mem _ inside),
            passes⟩
      · rintro (passes | ⟨keep, front, rest, rfl, kept, passes⟩)
        · exact ⟨[], char :: path, rfl, nofun, passes⟩
        · exact ⟨char :: front, rest, rfl,
            List.forall_mem_cons.mpr ⟨keep, kept⟩, passes⟩
    rw [split]
    have units : Utf16.encode (char :: path) =
        Utf16.encodeChar char ++ Utf16.encode path := rfl
    rcases encodeChar_cases char with ⟨small, alone⟩ |
      ⟨high, low, large, both, isHigh, isLow⟩
    · rw [units, alone, List.singleton_append, runThen, Bool.or_eq_true,
        Bool.and_eq_true, basic char small]
    · have skip : next (low :: Utf16.encode path) = true →
          next (Utf16.encode path) = true := by
        rcases skips with all | skips
        · exact absurd (all char List.mem_cons_self) large
        · exact skips low _ isLow
      rw [units, both, List.cons_append, List.singleton_append, runThen,
        runThen, surrogate high (Or.inl isHigh),
        surrogate low (Or.inr isLow), Bool.true_and, Bool.true_and,
        Bool.or_eq_true, Bool.or_eq_true]
      constructor
      · rintro (passes | passes | passes)
        · exact Or.inl passes
        · exact Or.inr ⟨paired char large, runThen_of_next (skip passes)⟩
        · exact Or.inr ⟨paired char large, passes⟩
      · rintro (passes | ⟨_, passes⟩)
        · exact Or.inl passes
        · exact Or.inr (Or.inr passes)

/-! ## Matching -/

theorem unitOf_ne {other : Char} (basic : char.toNat < 0x10000)
    (small : other.toNat < 0x10000) :
    (UInt16.ofNat char.toNat != unitOf other) = true ↔ char ≠ other := by
  rw [bne_iff_ne, not_iff_not]
  constructor
  · intro same
    have values := congrArg UInt16.toNat same
    have front : (UInt16.ofNat char.toNat).toNat = char.toNat := by
      rw [UInt16.toNat_ofNat']
      omega
    have back : (unitOf other).toNat = other.toNat := by
      unfold unitOf
      rw [Nat.toUInt16_eq, UInt16.toNat_ofNat']
      omega
    exact Char.toNat_inj.mp (front ▸ back ▸ values)
  · rintro rfl
    rfl

/-- The class of `*` and `?` on the characters of one unit. -/
theorem notSlash_iff (basic : char.toNat < 0x10000) :
    notSlash (UInt16.ofNat char.toNat) = true ↔ char ≠ '/' :=
  unitOf_ne basic (by decide)

/-- The class of `.*` on the characters of one unit. -/
theorem unitNotLineTerminator_iff (basic : char.toNat < 0x10000) :
    unitNotLineTerminator (UInt16.ofNat char.toNat) = true ↔
      isInline char = true := by
  unfold unitNotLineTerminator isInline
  rw [Bool.and_eq_true, Bool.and_eq_true, Bool.and_eq_true,
    unitOf_ne basic (by decide), unitOf_ne basic (by decide),
    unitOf_ne basic (by decide), unitOf_ne basic (by decide),
    decide_eq_true_iff, List.mem_cons, List.mem_cons, List.mem_cons,
    List.mem_singleton]
  tauto

/-- No unit of a pair is the unit of a character. -/
theorem surrogate_ne {unit : UInt16}
    (surrogate : Utf16.isHigh unit = true ∨ Utf16.isLow unit = true)
    (other : Char) (small : other.toNat < 0x10000) :
    (unit != unitOf other) = true := by
  have scalar : other.toNat < 0xD800 ∨
      0xDFFF < other.toNat ∧ other.toNat < 0x110000 := other.valid
  rw [bne_iff_ne]
  rintro rfl
  have value : (unitOf other).toNat = other.toNat := by
    unfold unitOf
    rw [Nat.toUInt16_eq, UInt16.toNat_ofNat']
    omega
  rw [Utf16.isHigh_iff, Utf16.isLow_iff, value] at surrogate
  omega

theorem notSlash_surrogate (unit : UInt16)
    (surrogate : Utf16.isHigh unit = true ∨ Utf16.isLow unit = true) :
    notSlash unit = true :=
  surrogate_ne surrogate '/' (by decide)

theorem unitNotLineTerminator_surrogate (unit : UInt16)
    (surrogate : Utf16.isHigh unit = true ∨ Utf16.isLow unit = true) :
    unitNotLineTerminator unit = true := by
  unfold unitNotLineTerminator
  rw [surrogate_ne surrogate _ (by decide),
    surrogate_ne surrogate _ (by decide),
    surrogate_ne surrogate _ (by decide),
    surrogate_ne surrogate _ (by decide)]
  rfl

theorem ne_of_large {other : Char} (large : ¬ char.toNat < 0x10000)
    (small : other.toNat < 0x10000) : char ≠ other := by
  rintro rfl
  exact large small

theorem isInline_of_large (char : Char) (large : ¬ char.toNat < 0x10000) :
    isInline char = true := by
  unfold isInline
  rw [decide_eq_true_iff, List.mem_cons, List.mem_cons, List.mem_cons,
    List.mem_singleton]
  rintro (same | same | same | same)
  all_goals exact ne_of_large large (by decide) same

/-- The tokens of some pieces match the texts that can be cut along them. -/
theorem test_pieces {pieces : List Piece}
    (lines : Piece.anything ∈ pieces → ∀ char ∈ path, isInline char = true)
    (basic : Piece.one ∈ pieces → ∀ char ∈ path, char.toNat < 0x10000) :
    test (pieces.flatMap tokensOf) (Utf16.encode path) = true ↔
      Matches pieces path := by
  induction pieces generalizing path with
  | nil =>
    cases path with
    | nil => exact iff_of_true rfl .nil
    | cons char path =>
      refine iff_of_false ?_ nofun
      intro passes
      rcases encodeChar_cases char with ⟨_, units⟩ | ⟨_, _, _, units, _⟩
      all_goals
        rw [Utf16.encode, List.flatMap_cons, units] at passes
        cases passes
  | cons piece pieces inductionHypothesis =>
    have later : ∀ {rest : List Char}, (∀ char ∈ rest, char ∈ path) →
        (test (pieces.flatMap tokensOf) (Utf16.encode rest) = true ↔
          Matches pieces rest) := fun part => inductionHypothesis
      (fun inside char from_ =>
        lines (List.mem_cons_of_mem _ inside) char (part char from_))
      (fun inside char from_ =>
        basic (List.mem_cons_of_mem _ inside) char (part char from_))
    have skips : (∀ char ∈ path, char.toNat < 0x10000) ∨
        ∀ low text, Utf16.isLow low = true →
          test (pieces.flatMap tokensOf) (low :: text) = true →
            test (pieces.flatMap tokensOf) text = true := by
      by_cases one : Piece.one ∈ pieces
      · exact Or.inl (basic (List.mem_cons_of_mem _ one))
      · exact Or.inr fun low text isLow => test_of_low one isLow
    rw [List.flatMap_cons]
    cases piece with
    | anything =>
      have inlined := lines List.mem_cons_self
      refine (runThen_encode (fun _ => unitNotLineTerminator_iff)
        isInline_of_large unitNotLineTerminator_surrogate skips).trans ?_
      constructor
      · rintro ⟨front, rest, rfl, _, passes⟩
        exact .anything front ((later fun _ =>
          List.mem_append_right _).mp passes)
      · rintro (_ | ⟨front, matches_⟩)
        exact ⟨front, _, rfl, fun char inside =>
          inlined char (List.mem_append_left _ inside),
          (later fun _ => List.mem_append_right _).mpr matches_⟩
    | within =>
      refine (@runThen_encode notSlash (· ≠ '/') (fun _ => notSlash_iff)
        (fun _ large => ne_of_large large (by decide))
        notSlash_surrogate _ _ skips).trans ?_
      constructor
      · rintro ⟨front, rest, rfl, kept, passes⟩
        exact .within front (fun slash => kept _ slash rfl)
          ((later fun _ => List.mem_append_right _).mp passes)
      · rintro (_ | _ | ⟨front, noSlash, matches_⟩)
        exact ⟨front, _, rfl, fun char inside same =>
          noSlash (same ▸ inside),
          (later fun _ => List.mem_append_right _).mpr matches_⟩
    | one =>
      cases path with
      | nil => exact iff_of_false nofun nofun
      | cons char rest =>
        have small := basic List.mem_cons_self char List.mem_cons_self
        rcases encodeChar_cases char with ⟨_, units⟩ | ⟨_, _, large, _⟩
        · have step : test (tokensOf .one ++ pieces.flatMap tokensOf)
              (UInt16.ofNat char.toNat :: Utf16.encode rest) =
                (notSlash (UInt16.ofNat char.toNat) && test
                  (pieces.flatMap tokensOf) (Utf16.encode rest)) := rfl
          have whole : Utf16.encode (char :: rest) =
              UInt16.ofNat char.toNat :: Utf16.encode rest :=
            congrArg (· ++ Utf16.encode rest) units
          rw [whole, step, Bool.and_eq_true, notSlash_iff small,
            later fun _ => List.mem_cons_of_mem _]
          constructor
          · exact fun ⟨noSlash, matches_⟩ => .one char noSlash matches_
          · rintro (_ | _ | _ | ⟨_, noSlash, matches_⟩)
            exact ⟨noSlash, matches_⟩
        · exact absurd small large
    | literal char =>
      rw [tokensOf, test_literals]
      constructor
      · rintro ⟨units, same, passes⟩
        rcases encode_eq_append same with ⟨rest, rfl, rfl⟩
        exact .literal char ((later fun _ =>
          List.mem_cons_of_mem _).mp passes)
      · rintro (_ | _ | _ | _ | ⟨_, matches_⟩)
        exact ⟨_, rfl, (later fun _ =>
          List.mem_cons_of_mem _).mpr matches_⟩

theorem infix_of_anything (inside : Piece.anything ∈ readPattern pattern) :
    ['*', '*'] <:+: pattern := by
  induction pattern using readPattern.induct with
  | case1 rest _ => exact (List.prefix_append ['*', '*'] rest).isInfix
  | case2 rest single inductionHypothesis =>
    rw [readPattern] at inside
    · exact List.IsInfix.trans (inductionHypothesis
        ((List.mem_cons.mp inside).resolve_left nofun))
        (List.suffix_cons _ _).isInfix
    · exact single
  | case3 rest inductionHypothesis =>
    rw [readPattern] at inside
    exact List.IsInfix.trans (inductionHypothesis
      ((List.mem_cons.mp inside).resolve_left nofun))
      (List.suffix_cons _ _).isInfix
  | case4 char rest other star question inductionHypothesis =>
    rw [readPattern] at inside
    · exact List.IsInfix.trans (inductionHypothesis
        ((List.mem_cons.mp inside).resolve_left nofun))
        (List.suffix_cons _ _).isInfix
    · exact other
    · exact star
    · exact question
  | case5 => cases inside

theorem mem_of_one (inside : Piece.one ∈ readPattern pattern) :
    '?' ∈ pattern := by
  induction pattern using readPattern.induct with
  | case1 rest inductionHypothesis =>
    rw [readPattern] at inside
    exact List.mem_cons_of_mem _ (List.mem_cons_of_mem _
      (inductionHypothesis ((List.mem_cons.mp inside).resolve_left nofun)))
  | case2 rest single inductionHypothesis =>
    rw [readPattern] at inside
    · exact List.mem_cons_of_mem _ (inductionHypothesis
        ((List.mem_cons.mp inside).resolve_left nofun))
    · exact single
  | case3 rest inductionHypothesis => exact List.mem_cons_self
  | case4 char rest other star question inductionHypothesis =>
    rw [readPattern] at inside
    · exact List.mem_cons_of_mem _ (inductionHypothesis
        ((List.mem_cons.mp inside).resolve_left nofun))
    · exact other
    · exact star
    · exact question
  | case5 => cases inside

/-- The translated pattern decides whether the path matches the pattern. -/
theorem test_of_regular (regular : Regular pattern path) :
    test (globTokens (replaceDoubleStars pattern)) (Utf16.encode path) = true ↔
      Matches (readPattern pattern) path := by
  rw [globTokens_of_apart regular.apart regular.unstarred]
  exact test_pieces (fun inside => regular.inline_ (infix_of_anything inside))
    (fun inside => regular.basic (mem_of_one inside))

theorem Matches.mem_of_literal {pieces : List Piece}
    (matches_ : Matches pieces path) (inside : Piece.literal char ∈ pieces) :
    char ∈ path := by
  induction matches_ with
  | nil => cases inside
  | anything front _ inductionHypothesis =>
    exact List.mem_append_right _ (inductionHypothesis
      ((List.mem_cons.mp inside).resolve_left nofun))
  | within front _ _ inductionHypothesis =>
    exact List.mem_append_right _ (inductionHypothesis
      ((List.mem_cons.mp inside).resolve_left nofun))
  | one head _ _ inductionHypothesis =>
    exact List.mem_cons_of_mem _ (inductionHypothesis
      ((List.mem_cons.mp inside).resolve_left nofun))
  | literal head _ inductionHypothesis =>
    rcases List.mem_cons.mp inside with same | later
    · cases same
      exact List.mem_cons_self
    · exact List.mem_cons_of_mem _ (inductionHypothesis later)

theorem matches_anything (path : List Char) :
    Matches (readPattern ['*', '*']) path := by
  have whole := Matches.anything path .nil
  rwa [List.append_nil] at whole

/-- The pattern of everything below a directory asks for a slash. -/
theorem matches_below (slash : '/' ∈ path) :
    Matches (readPattern ['*', '*', '/', '*']) path := by
  induction path with
  | nil => cases slash
  | cons char rest inductionHypothesis =>
    by_cases later : '/' ∈ rest
    · rcases inductionHypothesis later with _ | ⟨front, matches_⟩
      exact .anything (char :: front) matches_
    · rcases List.mem_cons.mp slash with rfl | inside
      · have whole := Matches.within rest later .nil
        rw [List.append_nil] at whole
        exact .anything [] (.literal '/' whole)
      · exact absurd inside later

/-- The patterns and paths that the copy of the additional roots reads as
they are written.  A pattern of two stars, a slash and a star passes
everything there. -/
def RegularForRoots (pattern path : List Char) : Prop :=
  pattern = ['*', '*'] ∨
    (pattern = ['*', '*', '/', '*'] ∧ '/' ∈ path) ∨
    (pattern ≠ ['*', '*', '/', '*'] ∧ Regular pattern path)

/-- Both copies follow the reading of a regular pattern. -/
theorem globMatch_iff_matches (pattern path : List Char) :
    (Regular pattern path → '\\' ∉ path →
        (globMatch pattern path = true ↔
          Matches (readPattern pattern) path)) ∧
      (RegularForRoots pattern path →
        (Snapshot.Capture.globMatch path pattern = true ↔
          Matches (readPattern pattern) path)) := by
  constructor
  · intro regular plain
    unfold globMatch
    rw [Snapshot.Containment.forwardSlashes_of_notMem plain]
    exact test_of_regular regular
  · rintro (rfl | ⟨rfl, slash⟩ | ⟨other, regular⟩)
    · exact iff_of_true rfl (matches_anything path)
    · exact iff_of_true rfl (matches_below slash)
    · unfold Snapshot.Capture.globMatch
      rw [Bool.or_eq_true, Bool.or_eq_true, beq_iff_eq, beq_iff_eq,
        test_of_regular regular]
      constructor
      · rintro ((rfl | same) | matches_)
        · exact matches_anything path
        · exact absurd same other
        · exact matches_
      · exact Or.inr

theorem globMatch_iff_matches_source :
    (globMatch "src/*.ts".toList "src/a.ts".toList = true ↔
        Matches (readPattern "src/*.ts".toList) "src/a.ts".toList) ∧
      (Snapshot.Capture.globMatch "src/a.ts".toList "**/*".toList = true ↔
        Matches (readPattern "**/*".toList) "src/a.ts".toList) :=
  ⟨(globMatch_iff_matches _ _).1
      ⟨by decide, by decide, by decide, by decide⟩ (by decide),
    (globMatch_iff_matches _ _).2 (Or.inr (Or.inl ⟨rfl, by decide⟩))⟩

/-- A section sign before two stars takes their place, two stars do not match
the end of a line, and a file of the root matches the pattern of everything
below a directory. -/
theorem globMatch_misreads :
    (globMatch ['§', '*', '*'] ['§', 'x'] = false ∧
        Snapshot.Capture.globMatch ['§', 'x'] ['§', '*', '*'] = false ∧
        Matches (readPattern ['§', '*', '*']) ['§', 'x']) ∧
      (globMatch ['*', '*'] ['\n'] = false ∧
        Matches (readPattern ['*', '*']) ['\n']) ∧
      (Snapshot.Capture.globMatch ['a'] ['*', '*', '/', '*'] = true ∧
        ¬ Matches (readPattern ['*', '*', '/', '*']) ['a']) := by
  refine ⟨⟨by decide, by decide, ?_⟩, ⟨by decide, ?_⟩, by decide, ?_⟩
  · exact .literal '§' (.anything ['x'] .nil)
  · exact .anything ['\n'] .nil
  · intro matches_
    have slash : '/' ∈ ['a'] := matches_.mem_of_literal (by decide)
    exact absurd slash (by decide)

end Rbo.Executor.ArtifactGlobs
