import Rbo.Foundation.CommandLines
import Rbo.Foundation.Utf16

/-!
# The command line of a Windows child

`build_command_line` writes the command in quotes and the arguments behind it,
each behind a space.  An argument with a space or a quote in it is put in
quotes, and its quotes get a backslash each.  The line is handed over in UTF-16
with a NUL behind it.

The child reads its arguments back when none is empty, none holds a NUL or, out
of quotes, a tab, and no backslash of a quoted argument stands in front of a
quote or at the end.
-/

namespace Rbo.Executor.WindowsCommandLine

open Rbo.Foundation
open Rbo.Foundation.CommandLines

/-! ## The program -/

/-- The marks among characters. -/
def charMarks : Marks Char where
  space := ' '
  tab := '\t'
  quote := '"'
  backslash := '\\'
  nul := '\x00'
  quote_ne_backslash := by decide
  space_ne_quote := by decide
  space_ne_backslash := by decide
  tab_ne_quote := by decide
  tab_ne_backslash := by decide
  nul_ne_space := by decide
  nul_ne_quote := by decide
  nul_ne_backslash := by decide

/-- The marks among UTF-16 code units. -/
def wideMarks : Marks UInt16 where
  space := 0x20
  tab := 0x09
  quote := 0x22
  backslash := 0x5C
  nul := 0
  quote_ne_backslash := by decide
  space_ne_quote := by decide
  space_ne_backslash := by decide
  tab_ne_quote := by decide
  tab_ne_backslash := by decide
  nul_ne_space := by decide
  nul_ne_quote := by decide
  nul_ne_backslash := by decide

section Line

variable {Symbol : Type} [DecidableEq Symbol] (marks : Marks Symbol)

/-- The argument is put in quotes. -/
def NeedsQuotes (arg : List Symbol) : Prop :=
  marks.space ∈ arg ∨ marks.quote ∈ arg

instance (arg : List Symbol) : Decidable (NeedsQuotes marks arg) := by
  unfold NeedsQuotes
  infer_instance

/-- A backslash in front of every quote. -/
def escape (arg : List Symbol) : List Symbol :=
  arg.flatMap fun symbol =>
    if symbol = marks.quote then [marks.backslash, symbol] else [symbol]

/-- What is written for an argument, behind the space. -/
def writeArg (arg : List Symbol) : List Symbol :=
  if NeedsQuotes marks arg then
    marks.quote :: escape marks arg ++ [marks.quote]
  else
    arg

/-- The arguments, each behind a space. -/
def writeArgs (args : List (List Symbol)) : List Symbol :=
  args.flatMap fun arg => marks.space :: writeArg marks arg

/-- The line of `build_command_line`. -/
def writeLine (command : List Symbol) (args : List (List Symbol)) :
    List Symbol :=
  marks.quote :: command ++ marks.quote :: writeArgs marks args

end Line

def toWide (value : List Char) : List UInt16 :=
  Utf16.encode value ++ [0]

def buildCommandLine (command : List Char) (args : List (List Char)) :
    List UInt16 :=
  toWide (writeLine charMarks command args)

/-- The arguments that a child finds; with `pairs`, by the C runtime. -/
def commandLineToArgv (pairs : Bool) (wide : List UInt16) :
    List (List UInt16) :=
  split wideMarks pairs wide

/-! ## When the arguments are read back -/

section Survival

variable {Symbol : Type} [DecidableEq Symbol] (marks : Marks Symbol)

/-- The argument is not empty and has no NUL.  In quotes, no backslash stands
in front of a quote, or of the closing one; out of quotes, there is no tab. -/
structure Survives (arg : List Symbol) : Prop where
  nonempty : arg ≠ []
  nulFree : marks.nul ∉ arg
  unescaped : NeedsQuotes marks arg →
    escaping marks 0 (arg ++ [marks.quote]) = 0
  tabFree : ¬ NeedsQuotes marks arg → marks.tab ∉ arg

/-- The command has no quote and no NUL, and every argument survives. -/
structure LineSurvives (command : List Symbol) (args : List (List Symbol)) :
    Prop where
  quoteFree : marks.quote ∉ command
  nulFree : marks.nul ∉ command
  survive : ∀ arg ∈ args, Survives marks arg

end Survival

/-! ## UTF-16 -/

theorem toNat_ofNat {value : Nat} (small : value < 0x10000) :
    (UInt16.ofNat value).toNat = value := by
  rw [UInt16.toNat_ofNat']
  exact Nat.mod_eq_of_lt small

/-- An ASCII character is one code unit, and no other character has it. -/
theorem mem_encodeChar {ascii char : Char} (small : ascii.toNat < 0x80) :
    UInt16.ofNat ascii.toNat ∈ Utf16.encodeChar char ↔ char = ascii := by
  have unit := @toNat_ofNat ascii.toNat (by omega)
  unfold Utf16.encodeChar
  split
  · rename_i plain
    rw [List.mem_singleton]
    constructor
    · intro same
      have values := congrArg UInt16.toNat same
      rw [unit, toNat_ofNat plain] at values
      rw [← Char.ofNat_toNat char, ← values, Char.ofNat_toNat]
    · rintro rfl
      rfl
  · rename_i high
    have bound : char.toNat < 0x110000 := by
      rcases char.valid with low | range
      · exact Nat.lt_trans low (by decide)
      · exact range.2
    refine iff_of_false ?_ (by rintro rfl; omega)
    rintro inside
    rcases List.mem_pair.mp inside with same | same
    all_goals
      have values := congrArg UInt16.toNat same
      rw [unit, toNat_ofNat (by omega)] at values
      omega

theorem mem_encode {ascii : Char} {text : List Char}
    (small : ascii.toNat < 0x80) :
    UInt16.ofNat ascii.toNat ∈ Utf16.encode text ↔ ascii ∈ text := by
  unfold Utf16.encode
  simp only [List.mem_flatMap, mem_encodeChar small, exists_eq_right]

theorem encode_append (front back : List Char) :
    Utf16.encode (front ++ back) = Utf16.encode front ++ Utf16.encode back :=
  List.flatMap_append

theorem encode_cons (char : Char) (rest : List Char) :
    Utf16.encode (char :: rest) =
      Utf16.encodeChar char ++ Utf16.encode rest :=
  List.flatMap_cons

section Escape

variable {Symbol : Type} [DecidableEq Symbol] {marks : Marks Symbol}

theorem escape_cons (symbol : Symbol) (rest : List Symbol) :
    escape marks (symbol :: rest) =
      (if symbol = marks.quote then [marks.backslash, symbol]
        else [symbol]) ++ escape marks rest :=
  List.flatMap_cons

theorem escape_cons_quote (rest : List Symbol) :
    escape marks (marks.quote :: rest) =
      marks.backslash :: marks.quote :: escape marks rest := by
  rw [escape_cons, if_pos rfl]
  rfl

theorem escape_cons_of_ne {symbol : Symbol} (letter : symbol ≠ marks.quote)
    (rest : List Symbol) :
    escape marks (symbol :: rest) = symbol :: escape marks rest := by
  rw [escape_cons, if_neg letter]
  rfl

theorem escape_append (front back : List Symbol) :
    escape marks (front ++ back) = escape marks front ++ escape marks back :=
  List.flatMap_append

theorem escape_of_quoteFree {arg : List Symbol}
    (quoteFree : marks.quote ∉ arg) : escape marks arg = arg := by
  induction arg with
  | nil => rfl
  | cons symbol rest inductionHypothesis =>
    rw [List.mem_cons, not_or] at quoteFree
    rw [escape_cons_of_ne (Ne.symm quoteFree.1),
      inductionHypothesis quoteFree.2]

end Escape

/-- Escaping and encoding can change places. -/
theorem encode_escape (arg : List Char) :
    Utf16.encode (escape charMarks arg) =
      escape wideMarks (Utf16.encode arg) := by
  induction arg with
  | nil => rfl
  | cons char rest inductionHypothesis =>
    rw [escape_cons, encode_append, inductionHypothesis, encode_cons,
      escape_append]
    refine congrArg (· ++ _) ?_
    by_cases isQuote : char = '"'
    · subst isQuote
      decide
    · have apart : wideMarks.quote ∉ Utf16.encodeChar char := fun inside =>
        isQuote ((@mem_encodeChar '"' char (by decide)).mp inside)
      rw [escape_of_quoteFree apart]
      exact (congrArg Utf16.encode (if_neg isQuote)).trans
        (List.append_nil _)

theorem needsQuotes_encode (arg : List Char) :
    NeedsQuotes wideMarks (Utf16.encode arg) ↔ NeedsQuotes charMarks arg :=
  or_congr (@mem_encode ' ' arg (by decide)) (@mem_encode '"' arg (by decide))

theorem encode_writeArg (arg : List Char) :
    Utf16.encode (writeArg charMarks arg) =
      writeArg wideMarks (Utf16.encode arg) := by
  unfold writeArg
  by_cases needs : NeedsQuotes charMarks arg
  · rw [if_pos needs, if_pos ((needsQuotes_encode arg).mpr needs),
      List.cons_append, encode_cons, encode_append, encode_escape]
    rfl
  · rw [if_neg needs, if_neg fun wide =>
      needs ((needsQuotes_encode arg).mp wide)]

theorem encode_writeArgs (args : List (List Char)) :
    Utf16.encode (writeArgs charMarks args) =
      writeArgs wideMarks (args.map Utf16.encode) := by
  induction args with
  | nil => rfl
  | cons arg args inductionHypothesis =>
    unfold writeArgs at inductionHypothesis ⊢
    rw [List.flatMap_cons, List.map_cons, List.flatMap_cons, encode_append,
      inductionHypothesis, encode_cons, encode_writeArg]
    rfl

theorem encode_writeLine (command : List Char) (args : List (List Char)) :
    Utf16.encode (writeLine charMarks command args) =
      writeLine wideMarks (Utf16.encode command)
        (args.map Utf16.encode) := by
  unfold writeLine
  rw [List.cons_append, encode_cons, encode_append, encode_cons,
    encode_writeArgs]
  rfl

theorem escaping_append_plain {Symbol : Type} [DecidableEq Symbol]
    {marks : Marks Symbol} {slashes : Nat} {plain rest : List Symbol}
    (some : plain ≠ [])
    (letters : marks.backslash ∉ plain ∧ marks.quote ∉ plain) :
    escaping marks slashes (plain ++ rest) = escaping marks 0 rest := by
  induction plain generalizing slashes with
  | nil => exact absurd rfl some
  | cons symbol plain inductionHypothesis =>
    simp only [List.mem_cons, not_or] at letters
    rw [List.cons_append, escaping, if_neg (Ne.symm letters.1.1),
      if_neg (Ne.symm letters.2.1)]
    cases plain with
    | nil => rfl
    | cons next plain =>
      exact inductionHypothesis (List.cons_ne_nil _ _)
        ⟨fun inside => letters.1.2 inside,
          fun inside => letters.2.2 inside⟩

theorem encodeChar_ne_nil (char : Char) : Utf16.encodeChar char ≠ [] := by
  unfold Utf16.encodeChar
  split
  · exact List.cons_ne_nil _ _
  · exact List.cons_ne_nil _ _

/-- The backslashes in front of quotes are as many in UTF-16. -/
theorem escaping_encode (slashes : Nat) (text : List Char) :
    escaping wideMarks slashes (Utf16.encode text) =
      escaping charMarks slashes text := by
  induction text generalizing slashes with
  | nil => rfl
  | cons char rest inductionHypothesis =>
    rw [encode_cons]
    by_cases slash : char = '\\'
    · subst slash
      exact inductionHypothesis (slashes + 1)
    · by_cases isQuote : char = '"'
      · subst isQuote
        exact congrArg (slashes + ·) (inductionHypothesis 0)
      · have letters : wideMarks.backslash ∉ Utf16.encodeChar char ∧
            wideMarks.quote ∉ Utf16.encodeChar char :=
          ⟨fun inside => slash
              ((@mem_encodeChar '\\' char (by decide)).mp inside),
            fun inside => isQuote
              ((@mem_encodeChar '"' char (by decide)).mp inside)⟩
        rw [escaping_append_plain (encodeChar_ne_nil char) letters,
          inductionHypothesis, escaping]
        exact ((if_neg slash).trans (if_neg isQuote)).symm

theorem encode_eq_nil {text : List Char} :
    Utf16.encode text = [] ↔ text = [] := by
  constructor
  · intro empty
    rw [← Utf16.decode_encode text, empty]
    rfl
  · rintro rfl
    rfl

theorem survives_encode {arg : List Char} :
    Survives wideMarks (Utf16.encode arg) ↔ Survives charMarks arg := by
  have closing : Utf16.encode arg ++ [wideMarks.quote] =
      Utf16.encode (arg ++ [charMarks.quote]) :=
    (encode_append arg ['"']).symm
  have nul := @mem_encode '\x00' arg (by decide)
  have tab := @mem_encode '\t' arg (by decide)
  have needs := needsQuotes_encode arg
  constructor
  · intro survives
    refine ⟨fun empty => survives.nonempty (encode_eq_nil.mpr empty),
      fun inside => survives.nulFree (nul.mpr inside), ?_, ?_⟩
    · intro quoted
      rw [← escaping_encode, ← closing]
      exact survives.unescaped (needs.mpr quoted)
    · intro unquoted inside
      exact survives.tabFree (fun quoted => unquoted (needs.mp quoted))
        (tab.mpr inside)
  · intro survives
    refine ⟨fun empty => survives.nonempty (encode_eq_nil.mp empty),
      fun inside => survives.nulFree (nul.mp inside), ?_, ?_⟩
    · intro quoted
      rw [closing, escaping_encode]
      exact survives.unescaped (needs.mp quoted)
    · intro unquoted inside
      exact survives.tabFree (fun quoted => unquoted (needs.mpr quoted))
        (tab.mp inside)

theorem lineSurvives_encode {command : List Char} {args : List (List Char)} :
    LineSurvives wideMarks (Utf16.encode command) (args.map Utf16.encode) ↔
      LineSurvives charMarks command args := by
  have quote := @mem_encode '"' command (by decide)
  have nul := @mem_encode '\x00' command (by decide)
  constructor
  · intro survives
    refine ⟨fun inside => survives.quoteFree (quote.mpr inside),
      fun inside => survives.nulFree (nul.mpr inside), ?_⟩
    intro arg member
    exact survives_encode.mp
      (survives.survive _ (List.mem_map_of_mem member))
  · intro survives
    refine ⟨fun inside => survives.quoteFree (quote.mp inside),
      fun inside => survives.nulFree (nul.mp inside), ?_⟩
    intro wide member
    obtain ⟨arg, listed, rfl⟩ := List.mem_map.mp member
    exact survives_encode.mpr (survives.survive arg listed)

/-! ## Reading the arguments -/

section Reading

variable {Symbol : Type} [DecidableEq Symbol] {marks : Marks Symbol}
  {pairs : Bool} {done : List (List Symbol)}

/-- Inside quotes, with a backslash in front, a quote is part of the
argument. -/
theorem step_escaped {word : Word Symbol} (none : word.slashes = 0) :
    let after := (word.step marks pairs marks.backslash).step marks pairs
      marks.quote
    after.argument marks = word.argument marks ++ [marks.quote] ∧
      after.slashes = 0 ∧ after.quoted = word.quoted ∧
      after.closed = false := by
  unfold Word.step Word.quote Word.argument
  simp [marks.quote_ne_backslash, none]

/-- What is escaped is read back, if no backslash of it is in front of a
quote. -/
theorem read_escape {word : Word Symbol} {arg : List Symbol}
    (quoted : word.quoted = true) (opened : word.closed = false)
    (unescaped : escaping marks word.slashes (arg ++ [marks.quote]) = 0) :
    ∃ after, State.read marks pairs ⟨done, some word⟩ (escape marks arg) =
        ⟨done, some after⟩ ∧
      after.argument marks = word.argument marks ++ arg ∧
      after.slashes = 0 ∧ after.quoted = true ∧ after.closed = false := by
  induction arg generalizing word with
  | nil =>
    have none : word.slashes = 0 := by
      rw [List.nil_append, escaping, if_neg marks.quote_ne_backslash,
        if_pos rfl] at unescaped
      exact (Nat.add_eq_zero_iff.mp unescaped).1
    exact ⟨word, rfl, (List.append_nil _).symm, none, quoted, opened⟩
  | cons symbol rest inductionHypothesis =>
    have goesOn : ∀ (word : Word Symbol) (symbol : Symbol),
        word.quoted = true →
        State.step marks pairs ⟨done, some word⟩ symbol =
          ⟨done, some (word.step marks pairs symbol)⟩ :=
      fun word symbol inside => step_word (.inr inside)
    rw [List.cons_append, escaping] at unescaped
    rw [escape_cons, read_append]
    by_cases isQuote : symbol = marks.quote
    · subst isQuote
      rw [if_neg marks.quote_ne_backslash, if_pos rfl,
        Nat.add_eq_zero_iff] at unescaped
      have escaped := @step_escaped _ _ marks pairs word unescaped.1
      obtain ⟨argument, slashes, stays, closed⟩ := escaped
      rcases inductionHypothesis (stays.trans quoted) closed
        (by rw [slashes]; exact unescaped.2) with
        ⟨after, read, whole, rest⟩
      refine ⟨after, ?_, ?_, rest⟩
      · rw [if_pos rfl, read_cons, read_cons, goesOn _ _ quoted, goesOn]
        · exact read
        · rw [quoted_step marks.quote_ne_backslash.symm]
          exact quoted
      · rw [whole, argument, List.append_assoc, List.singleton_append]
    · have stays := @quoted_step _ _ marks pairs word symbol isQuote
      have closed := @closed_step _ _ marks pairs word symbol isQuote
      have slashes := @slashes_step_word _ _ marks pairs word symbol
      have later : escaping marks (word.step marks pairs symbol).slashes
          (rest ++ [marks.quote]) = 0 := by
        rw [slashes]
        by_cases slash : symbol = marks.backslash
        · rw [if_pos slash] at unescaped ⊢
          exact unescaped
        · rw [if_neg slash, if_neg isQuote] at unescaped
          rw [if_neg slash]
          exact unescaped
      rcases inductionHypothesis (stays.trans quoted) closed later with
        ⟨after, read, whole, rest⟩
      refine ⟨after, ?_, ?_, rest⟩
      · rw [if_neg isQuote, read_cons, goesOn _ _ quoted]
        exact read
      · rw [whole, argument_step isQuote, List.append_assoc,
          List.singleton_append]

/-- An argument in quotes is read back, if no backslash of it is in front of a
quote. -/
theorem read_quoted {arg : List Symbol}
    (unescaped : escaping marks 0 (arg ++ [marks.quote]) = 0) :
    ∃ word : Word Symbol, State.read marks pairs ⟨done, none⟩
        (marks.quote :: escape marks arg ++ [marks.quote]) =
          ⟨done, some word⟩ ∧
      word.argument marks = arg ∧ word.quoted = false := by
  have opens : State.step marks pairs ⟨done, none⟩ marks.quote =
      ⟨done, some ⟨[], 0, true, false⟩⟩ := by
    rw [step_word (.inl isBlank_quote)]
    simp [Word.step, Word.quote, Word.empty, marks.quote_ne_backslash]
  rcases @read_escape _ _ marks pairs done ⟨[], 0, true, false⟩ arg rfl rfl
    unescaped with ⟨word, read, argument, slashes, quoted, closed⟩
  have closes : State.step marks pairs ⟨done, some word⟩ marks.quote =
      ⟨done, some ⟨word.symbols, 0, false, true⟩⟩ := by
    rw [step_word (.inl isBlank_quote)]
    simp [Word.step, Word.quote, marks.quote_ne_backslash, slashes, quoted,
      closed]
  refine ⟨⟨word.symbols, 0, false, true⟩, ?_, ?_, rfl⟩
  · rw [List.cons_append, read_cons, opens, read_append, read, read_cons,
      closes]
    rfl
  · unfold Word.argument at argument
    rw [slashes] at argument
    exact argument

/-- What is read of an argument alone. -/
def outcome (marks : Marks Symbol) (pairs : Bool) (arg : List Symbol) :
    List (List Symbol) :=
  (State.start.read marks pairs (writeArg marks arg)).finish marks

theorem outcome_of_quoted {arg : List Symbol} (needs : NeedsQuotes marks arg)
    (unescaped : escaping marks 0 (arg ++ [marks.quote]) = 0) :
    outcome marks pairs arg = [arg] := by
  obtain ⟨word, read, argument, -⟩ :=
    @read_quoted _ _ marks pairs [] arg unescaped
  unfold outcome writeArg State.start
  rw [if_pos needs, read]
  unfold State.finish
  rw [Option.map_some, argument]
  rfl

theorem outcome_of_survives {arg : List Symbol}
    (survives : Survives marks arg) : outcome marks pairs arg = [arg] := by
  by_cases needs : NeedsQuotes marks arg
  · exact outcome_of_quoted needs (survives.unescaped needs)
  · have tabFree := survives.tabFree needs
    have letters : ∀ symbol ∈ arg, symbol ≠ marks.quote ∧
        isBlank marks symbol = false := by
      intro symbol inside
      refine ⟨?_, ?_⟩
      · rintro rfl
        exact needs (.inr inside)
      · rw [isBlank, Bool.or_eq_false_iff, decide_eq_false_iff_not,
          decide_eq_false_iff_not]
        refine ⟨?_, ?_⟩
        · rintro rfl
          exact needs (.inl inside)
        · rintro rfl
          exact tabFree inside
    unfold outcome writeArg
    rw [if_neg needs]
    exact @read_plain _ _ marks pairs [] arg survives.nonempty letters

theorem quoted_read_writeArg {arg : List Symbol}
    (unescaped : NeedsQuotes marks arg →
      escaping marks 0 (arg ++ [marks.quote]) = 0) :
    (State.read marks pairs ⟨done, none⟩ (writeArg marks arg)).quoted =
      false := by
  unfold writeArg
  by_cases needs : NeedsQuotes marks arg
  · obtain ⟨word, read, -, outside⟩ :=
      @read_quoted _ _ marks pairs done arg (unescaped needs)
    rw [if_pos needs, read]
    exact outside
  · rw [if_neg needs]
    exact quoted_read (fun inside => needs (.inr inside)) rfl

/-- What is read of the arguments, unless a backslash is in front of a
quote. -/
theorem read_writeArgs {state : State Symbol} {args : List (List Symbol)}
    (outside : state.quoted = false)
    (unescaped : ∀ arg ∈ args, NeedsQuotes marks arg →
      escaping marks 0 (arg ++ [marks.quote]) = 0) :
    (state.read marks pairs (writeArgs marks args)).finish marks =
      state.finish marks ++ args.flatMap (outcome marks pairs) := by
  induction args generalizing state with
  | nil => exact (List.append_nil _).symm
  | cons arg args inductionHypothesis =>
    rw [List.forall_mem_cons] at unescaped
    have text : writeArgs marks (arg :: args) =
        marks.space :: (writeArg marks arg ++ writeArgs marks args) :=
      List.flatMap_cons
    rw [text, read_cons, step_blank isBlank_space outside, read_append,
      inductionHypothesis (quoted_read_writeArg unescaped.1) unescaped.2,
      finish_read_frame, List.flatMap_cons, List.append_assoc]
    rfl

end Reading

/-! ## What is not read back -/

section Loss

variable {Symbol : Type} [DecidableEq Symbol] {marks : Marks Symbol}

theorem count_escape (arg : List Symbol) :
    (escape marks arg).count marks.backslash =
      arg.count marks.backslash + arg.count marks.quote := by
  induction arg with
  | nil => rfl
  | cons symbol rest inductionHypothesis =>
    by_cases isQuote : symbol = marks.quote
    · subst isQuote
      rw [escape_cons_quote, List.count_cons_self, List.count_cons_self,
        List.count_cons_of_ne marks.quote_ne_backslash,
        List.count_cons_of_ne marks.quote_ne_backslash,
        inductionHypothesis]
      omega
    · rw [escape_cons_of_ne isQuote, List.count_cons,
        List.count_cons_of_ne isQuote, List.count_cons,
        inductionHypothesis]
      omega

/-- Each quote of an argument is written with a backslash of its own in
front. -/
theorem escaping_escape (slashes : Nat) (arg rest : List Symbol) :
    escaping marks slashes (escape marks arg ++ marks.quote :: rest) =
      arg.count marks.quote +
        escaping marks slashes (arg ++ [marks.quote]) +
        escaping marks 0 rest := by
  induction arg generalizing slashes with
  | nil =>
    change escaping marks slashes (marks.quote :: rest) =
      0 + escaping marks slashes [marks.quote] + _
    rw [escaping, escaping, if_neg marks.quote_ne_backslash, if_pos rfl,
      if_neg marks.quote_ne_backslash, if_pos rfl, escaping]
    omega
  | cons symbol arg inductionHypothesis =>
    rw [List.cons_append, List.count_cons]
    by_cases isQuote : symbol = marks.quote
    · subst isQuote
      have later := inductionHypothesis 0
      rw [escape_cons_quote, List.cons_append, List.cons_append, escaping,
        if_pos rfl, escaping, if_neg marks.quote_ne_backslash, if_pos rfl,
        later, escaping, if_neg marks.quote_ne_backslash, if_pos rfl,
        beq_self_eq_true, if_pos rfl]
      omega
    · rw [escape_cons_of_ne isQuote, List.cons_append, escaping, escaping,
        beq_false_of_ne isQuote, if_neg Bool.false_ne_true,
        inductionHypothesis, inductionHypothesis, if_neg isQuote,
        if_neg isQuote]
      split
      · omega
      · omega

/-- The backslashes of quoted arguments in front of quotes. -/
def unescapedIn (marks : Marks Symbol) : List (List Symbol) → Nat
  | [] => 0
  | arg :: args =>
    (if NeedsQuotes marks arg then
      escaping marks 0 (arg ++ [marks.quote])
    else 0) + unescapedIn marks args

theorem writeArgs_cons (arg : List Symbol) (args : List (List Symbol)) :
    writeArgs marks (arg :: args) =
      marks.space :: (writeArg marks arg ++ writeArgs marks args) :=
  List.flatMap_cons

theorem escaping_space (slashes : Nat) (rest : List Symbol) :
    escaping marks slashes (marks.space :: rest) = escaping marks 0 rest := by
  rw [escaping, if_neg marks.space_ne_backslash, if_neg marks.space_ne_quote]

theorem escaping_plain {arg : List Symbol} (quoteFree : marks.quote ∉ arg)
    (slashes : Nat) (args : List (List Symbol)) :
    escaping marks slashes (arg ++ writeArgs marks args) =
      escaping marks 0 (writeArgs marks args) := by
  induction arg generalizing slashes with
  | nil =>
    cases args with
    | nil => rfl
    | cons arg args =>
      rw [List.nil_append, writeArgs_cons, escaping_space,
        escaping_space]
  | cons symbol arg inductionHypothesis =>
    rw [List.mem_cons, not_or] at quoteFree
    rw [List.cons_append, escaping, inductionHypothesis quoteFree.2,
      inductionHypothesis quoteFree.2, if_neg (Ne.symm quoteFree.1)]
    split <;> rfl

theorem escaping_writeArgs (args : List (List Symbol)) :
    escaping marks 0 (writeArgs marks args) =
      args.flatten.count marks.quote + unescapedIn marks args := by
  induction args with
  | nil => rfl
  | cons arg args inductionHypothesis =>
    rw [writeArgs_cons, escaping_space, List.flatten_cons,
      List.count_append, unescapedIn]
    unfold writeArg
    by_cases needs : NeedsQuotes marks arg
    · rw [if_pos needs, if_pos needs, List.append_assoc, List.cons_append,
        escaping, if_neg marks.quote_ne_backslash, if_pos rfl]
      change 0 + escaping marks 0
        (escape marks arg ++ marks.quote :: writeArgs marks args) = _
      rw [escaping_escape, inductionHypothesis]
      omega
    · have quoteFree : marks.quote ∉ arg := fun inside =>
        needs (.inr inside)
      rw [if_neg needs, if_neg needs, escaping_plain quoteFree,
        inductionHypothesis, List.count_eq_zero.mpr quoteFree]
      omega

theorem count_writeArgs (args : List (List Symbol)) :
    (writeArgs marks args).count marks.backslash =
      args.flatten.count marks.backslash + args.flatten.count marks.quote := by
  induction args with
  | nil => rfl
  | cons arg args inductionHypothesis =>
    rw [writeArgs_cons, List.count_cons, List.count_append,
      inductionHypothesis, List.flatten_cons, List.count_append,
      List.count_append, beq_false_of_ne marks.space_ne_backslash,
      if_neg Bool.false_ne_true]
    unfold writeArg
    by_cases needs : NeedsQuotes marks arg
    · rw [if_pos needs, List.cons_append, List.count_cons,
        List.count_append, count_escape, List.count_singleton,
        beq_false_of_ne marks.quote_ne_backslash,
        if_neg Bool.false_ne_true]
      omega
    · have quoteFree : marks.quote ∉ arg := fun inside =>
        needs (.inr inside)
      rw [if_neg needs, List.count_eq_zero.mpr quoteFree]
      omega

theorem unescaped_of_unescapedIn {args : List (List Symbol)}
    (none : unescapedIn marks args = 0) :
    ∀ arg ∈ args, NeedsQuotes marks arg →
      escaping marks 0 (arg ++ [marks.quote]) = 0 := by
  induction args with
  | nil => exact nofun
  | cons arg args inductionHypothesis =>
    rw [unescapedIn, Nat.add_eq_zero_iff] at none
    refine List.forall_mem_cons.mpr ⟨?_, inductionHypothesis none.2⟩
    intro needs
    rw [if_pos needs] at none
    exact none.1

/-- Arguments that are read back have no backslash in front of a quote: each
one would be missing. -/
theorem unescaped_of_read {args : List (List Symbol)}
    (same : (State.start.read marks false (writeArgs marks args)).finish
      marks = args) :
    ∀ arg ∈ args, NeedsQuotes marks arg →
      escaping marks 0 (arg ++ [marks.quote]) = 0 := by
  have kept := @weight_read _ _ marks State.start (writeArgs marks args)
  have start : (State.start.finish marks).flatten = [] := rfl
  have slashes : (State.start : State Symbol).current.slashes = 0 := rfl
  rw [same, slashes, start, escaping_writeArgs, count_writeArgs] at kept
  unfold weight at kept
  rw [List.count_nil, List.count_nil] at kept
  exact unescaped_of_unescapedIn (by omega)

/-- Arguments that are read back are put in quotes, or are not empty and have
no tab. -/
theorem isPiece_of_read {pairs : Bool} {args : List (List Symbol)}
    (same : args.flatMap (outcome marks pairs) = args)
    (unescaped : ∀ arg ∈ args, NeedsQuotes marks arg →
      escaping marks 0 (arg ++ [marks.quote]) = 0)
    {arg : List Symbol} (member : arg ∈ args)
    (unquoted : ¬ NeedsQuotes marks arg) : IsPiece marks arg := by
  rw [← same] at member
  obtain ⟨other, isOther, member⟩ := List.mem_flatMap.mp member
  by_cases needs : NeedsQuotes marks other
  · rw [outcome_of_quoted needs (unescaped other isOther needs)] at member
    rw [List.mem_singleton.mp member] at unquoted
    exact absurd needs unquoted
  · unfold outcome writeArg at member
    rw [if_neg needs] at member
    refine isPiece_of_mem_read (fun inside => needs (.inr inside)) rfl ?_
      arg member
    exact fun _ none => absurd none List.not_mem_nil

end Loss

/-! ## The round trip -/

section RoundTrip

variable {Symbol : Type} [DecidableEq Symbol] {marks : Marks Symbol}
  {pairs : Bool} {command : List Symbol} {args : List (List Symbol)}

theorem tail_writeArgs (args : List (List Symbol)) :
    (State.start.read marks pairs (writeArgs marks args).tail).finish marks =
      (State.start.read marks pairs (writeArgs marks args)).finish marks := by
  cases args with
  | nil => rfl
  | cons arg args =>
    rw [writeArgs_cons, read_cons, step_blank isBlank_space rfl]
    rfl

/-- Without a NUL and with a command without quotes, the command is read back,
and the arguments are what is read behind it. -/
theorem split_writeLine (quoteFree : marks.quote ∉ command)
    (nulFree : marks.nul ∉ writeLine marks command args) :
    split marks pairs (writeLine marks command args ++ [marks.nul]) =
      command ::
        (State.start.read marks pairs (writeArgs marks args)).finish marks := by
  have whole : (writeLine marks command args ++ [marks.nul]).takeWhile
      (· ≠ marks.nul) = writeLine marks command args := by
    rw [List.takeWhile_append_of_pos, List.takeWhile_cons_of_neg (by simp),
      List.append_nil]
    intro symbol inside
    rw [decide_eq_true_iff]
    rintro rfl
    exact nulFree inside
  have apart : ∀ symbol ∈ (writeArgs marks args).head?,
      symbol = marks.space := by
    cases args with
    | nil => exact nofun
    | cons arg args =>
      rw [writeArgs_cons]
      rintro _ ⟨⟩
      rfl
  unfold split
  rw [whole]
  unfold writeLine
  dsimp only
  rw [splitProgram_quoted quoteFree apart, tail_writeArgs]

theorem mem_escape {arg : List Symbol} {symbol : Symbol}
    (inside : symbol ∈ escape marks arg) :
    symbol ∈ arg ∨ symbol = marks.backslash := by
  obtain ⟨own, member, written⟩ := List.mem_flatMap.mp inside
  split at written
  · rcases List.mem_pair.mp written with slash | rfl
    · exact .inr slash
    · exact .inl member
  · rw [List.mem_singleton.mp written]
    exact .inl member

theorem nul_mem_writeArg {arg : List Symbol}
    (inside : marks.nul ∈ writeArg marks arg) : marks.nul ∈ arg := by
  unfold writeArg at inside
  split at inside
  · rw [List.cons_append, List.mem_cons, List.mem_append,
      List.mem_singleton] at inside
    rcases inside with quote | escaped | quote
    · exact absurd quote marks.nul_ne_quote
    · exact (mem_escape escaped).resolve_right marks.nul_ne_backslash
    · exact absurd quote marks.nul_ne_quote
  · exact inside

theorem nul_mem_writeLine (inside : marks.nul ∈ writeLine marks command args) :
    marks.nul ∈ (command :: args).flatten := by
  unfold writeLine at inside
  rw [List.cons_append, List.mem_cons, List.mem_append, List.mem_cons]
    at inside
  rw [List.flatten_cons, List.mem_append]
  rcases inside with quote | program | quote | later
  · exact absurd quote marks.nul_ne_quote
  · exact .inl program
  · exact absurd quote marks.nul_ne_quote
  · obtain ⟨arg, member, written⟩ := List.mem_flatMap.mp later
    rcases List.mem_cons.mp written with space | written
    · exact absurd space marks.nul_ne_space
    · exact .inr (List.mem_flatten.mpr
        ⟨arg, member, nul_mem_writeArg written⟩)

/-- Under either rule, a line that survives is read back. -/
theorem split_of_survives (survives : LineSurvives marks command args) :
    split marks pairs (writeLine marks command args ++ [marks.nul]) =
      command :: args := by
  have nulFree : marks.nul ∉ writeLine marks command args := by
    intro inside
    have nul := nul_mem_writeLine inside
    rw [List.flatten_cons, List.mem_append, List.mem_flatten] at nul
    rcases nul with program | ⟨arg, member, nul⟩
    · exact survives.nulFree program
    · exact (survives.survive arg member).nulFree nul
  have each : args.flatMap (outcome marks pairs) = args := by
    have alone := List.map_congr_left fun arg member =>
      @outcome_of_survives _ _ marks pairs arg (survives.survive arg member)
    rw [List.flatMap_def, alone, ← List.flatMap_def, List.flatMap_singleton']
  rw [split_writeLine survives.quoteFree nulFree,
    read_writeArgs rfl fun arg member =>
      (survives.survive arg member).unescaped, each]
  rfl

/-- By the rules of `CommandLineToArgvW` no other line is read back. -/
theorem survives_of_split
    (same : split marks false (writeLine marks command args ++ [marks.nul]) =
      command :: args) :
    LineSurvives marks command args := by
  have nulFree : marks.nul ∉ (command :: args).flatten := by
    rw [← same]
    exact nul_notMem_split _
  have quoteFree : marks.quote ∉ command := by
    intro inside
    have program := (List.cons.inj same).1
    rw [← program] at inside
    exact (mem_program inside).2 rfl
  rw [split_writeLine quoteFree fun inside =>
    nulFree (nul_mem_writeLine inside)] at same
  have back := (List.cons.inj same).2
  have unescaped := unescaped_of_read back
  rw [read_writeArgs rfl unescaped] at back
  rw [List.flatten_cons, List.mem_append, not_or, List.mem_flatten] at nulFree
  refine ⟨quoteFree, nulFree.1, ?_⟩
  intro arg member
  have noNul : marks.nul ∉ arg := fun nul =>
    nulFree.2 ⟨arg, member, nul⟩
  by_cases needs : NeedsQuotes marks arg
  · refine ⟨?_, noNul, unescaped arg member, fun unquoted =>
      absurd needs unquoted⟩
    rintro rfl
    exact needs.elim List.not_mem_nil List.not_mem_nil
  · have piece := isPiece_of_read back unescaped member needs
    refine ⟨piece.1, noNul, fun quoted => absurd quoted needs, ?_⟩
    intro _ tab
    have letter := piece.2 _ tab
    simp [isBlank] at letter

end RoundTrip

/-- A child reads back the command and the arguments when the command has no
quote and no NUL, and each argument is not empty, has no NUL, and has no
backslash in front of a quote or at its end, when it is put in quotes, or no
tab, when it is not.  By the rules of `CommandLineToArgvW` it reads back no
others. -/
theorem buildCommandLine_round_trip_iff (command : List Char)
    (args : List (List Char)) :
    (LineSurvives charMarks command args → ∀ pairs,
      commandLineToArgv pairs (buildCommandLine command args) =
        (command :: args).map Utf16.encode) ∧
    (commandLineToArgv false (buildCommandLine command args) =
        (command :: args).map Utf16.encode ↔
      LineSurvives charMarks command args) := by
  have wide : buildCommandLine command args =
      writeLine wideMarks (Utf16.encode command) (args.map Utf16.encode) ++
        [wideMarks.nul] :=
    congrArg (· ++ _) (encode_writeLine command args)
  unfold commandLineToArgv
  rw [wide, List.map_cons, ← lineSurvives_encode]
  exact ⟨fun survives _ => split_of_survives survives,
    survives_of_split, split_of_survives⟩

/-- An argument that is empty is lost, under either rule. -/
theorem buildCommandLine_loses_empty :
    ¬ ∃ pairs, ∀ (command : List Char) (args : List (List Char)),
      commandLineToArgv pairs (buildCommandLine command args) =
        (command :: args).map Utf16.encode := by
  rintro ⟨pairs, reads⟩
  have lost := reads ['c'] [[]]
  cases pairs with
  | false => exact absurd lost (by decide +kernel)
  | true => exact absurd lost (by decide +kernel)

end Rbo.Executor.WindowsCommandLine
