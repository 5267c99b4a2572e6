import Mathlib.Data.List.TakeWhile

/-!
# Splitting a command line into arguments

The documented rules of `CommandLineToArgvW`.  Blanks outside quotes end an
argument.  Backslashes count only in front of a quote: every two of them stand
for one, and an odd one makes the quote a character of the argument; a quote
that is none begins or ends quoting.  The C runtime has one more rule, that two
quotes inside quotes are one quote of the argument; it is a parameter here.

The first argument is the program, in which quotes quote and backslashes are
backslashes.

Each backslash and each quote of the text is found again in the arguments,
apart from the backslashes that stand in front of a quote.
-/

namespace Rbo.Foundation.CommandLines

/-- The symbols with a meaning. -/
structure Marks (Symbol : Type) where
  space : Symbol
  tab : Symbol
  quote : Symbol
  backslash : Symbol
  nul : Symbol
  quote_ne_backslash : quote ≠ backslash
  space_ne_quote : space ≠ quote
  space_ne_backslash : space ≠ backslash
  tab_ne_quote : tab ≠ quote
  tab_ne_backslash : tab ≠ backslash
  nul_ne_space : nul ≠ space
  nul_ne_quote : nul ≠ quote
  nul_ne_backslash : nul ≠ backslash

variable {Symbol : Type}

/-! ## The rules -/

/-- An argument that is being read: its symbols, the backslashes behind them,
whether the reading is inside quotes, and whether it has just left them. -/
structure Word (Symbol : Type) where
  symbols : List Symbol
  slashes : Nat
  quoted : Bool
  closed : Bool

/-- The arguments that were read, and the one that is being read. -/
structure State (Symbol : Type) where
  done : List (List Symbol)
  word : Option (Word Symbol)

def Word.empty : Word Symbol := ⟨[], 0, false, false⟩

def State.start : State Symbol := ⟨[], none⟩

variable [DecidableEq Symbol] (marks : Marks Symbol)

/-- What the word is if it ends here. -/
def Word.argument (word : Word Symbol) : List Symbol :=
  word.symbols ++ List.replicate word.slashes marks.backslash

def Word.quote (pairs : Bool) (word : Word Symbol) : Word Symbol :=
  let front := word.symbols ++
    List.replicate (word.slashes / 2) marks.backslash
  if word.slashes % 2 = 1 then
    ⟨front ++ [marks.quote], 0, word.quoted, false⟩
  else if pairs && word.closed then
    ⟨front ++ [marks.quote], 0, true, false⟩
  else
    ⟨front, 0, !word.quoted, word.quoted⟩

/-- The word with one more symbol. -/
def Word.step (pairs : Bool) (word : Word Symbol) (symbol : Symbol) :
    Word Symbol :=
  if symbol = marks.backslash then
    ⟨word.symbols, word.slashes + 1, word.quoted, false⟩
  else if symbol = marks.quote then
    word.quote marks pairs
  else
    ⟨word.argument marks ++ [symbol], 0, word.quoted, false⟩

/-- A space or a tab. -/
def isBlank (symbol : Symbol) : Bool :=
  symbol = marks.space || symbol = marks.tab

/-- The arguments if the text ends here. -/
def State.finish (state : State Symbol) : List (List Symbol) :=
  state.done ++ (state.word.map (Word.argument marks)).toList

/-- The reading is inside quotes. -/
def State.quoted (state : State Symbol) : Bool :=
  state.word.any Word.quoted

/-- The reading of one more symbol. -/
def State.step (pairs : Bool) (state : State Symbol) (symbol : Symbol) :
    State Symbol :=
  if isBlank marks symbol && !state.quoted then
    ⟨state.finish marks, none⟩
  else
    ⟨state.done,
      some ((state.word.getD Word.empty).step marks pairs symbol)⟩

/-- The reading of a text. -/
def State.read (pairs : Bool) (state : State Symbol) (text : List Symbol) :
    State Symbol :=
  text.foldl (State.step marks pairs) state

/-- The program name and the text behind it. -/
def splitProgram : Bool → List Symbol → List Symbol × List Symbol
  | _, [] => ([], [])
  | quoted, symbol :: rest =>
    if symbol = marks.quote then
      splitProgram (!quoted) rest
    else if isBlank marks symbol && !quoted then
      ([], rest)
    else
      (symbol :: (splitProgram quoted rest).1, (splitProgram quoted rest).2)

/-- The program and its arguments; the text ends at its first NUL. -/
def split (pairs : Bool) (wide : List Symbol) : List (List Symbol) :=
  let text := wide.takeWhile (· ≠ marks.nul)
  let parts := splitProgram marks false text
  parts.1 :: (State.start.read marks pairs parts.2).finish marks

/-! ## Reading in parts -/

section Reading

variable {marks} {pairs : Bool} {state : State Symbol}

theorem read_append (front back : List Symbol) :
    state.read marks pairs (front ++ back) =
      (state.read marks pairs front).read marks pairs back :=
  List.foldl_append

theorem read_cons (symbol : Symbol) (rest : List Symbol) :
    state.read marks pairs (symbol :: rest) =
      (state.step marks pairs symbol).read marks pairs rest :=
  rfl

/-- A blank outside quotes ends an argument. -/
theorem step_blank {symbol : Symbol} (blank : isBlank marks symbol = true)
    (outside : state.quoted = false) :
    state.step marks pairs symbol = ⟨state.finish marks, none⟩ := by
  unfold State.step
  rw [blank, outside]
  rfl

theorem step_word {symbol : Symbol}
    (goesOn : isBlank marks symbol = false ∨ state.quoted = true) :
    state.step marks pairs symbol =
      ⟨state.done,
        some ((state.word.getD Word.empty).step marks pairs symbol)⟩ := by
  unfold State.step
  rcases goesOn with letter | inside
  · rw [letter, Bool.false_and, if_neg Bool.false_ne_true]
  · rw [inside, Bool.not_true, Bool.and_false, if_neg Bool.false_ne_true]

theorem isBlank_quote : isBlank marks marks.quote = false := by
  simp [isBlank, marks.space_ne_quote.symm, marks.tab_ne_quote.symm]

theorem isBlank_backslash : isBlank marks marks.backslash = false := by
  simp [isBlank, marks.space_ne_backslash.symm, marks.tab_ne_backslash.symm]

theorem isBlank_space : isBlank marks marks.space = true := by
  simp [isBlank]

/-- The arguments that were read stay in front. -/
theorem step_frame (done : List (List Symbol)) (symbol : Symbol) :
    State.step marks pairs ⟨done ++ state.done, state.word⟩ symbol =
      ⟨done ++ (state.step marks pairs symbol).done,
        (state.step marks pairs symbol).word⟩ := by
  have quoted : State.quoted ⟨done ++ state.done, state.word⟩ =
      state.quoted := rfl
  unfold State.step State.finish
  rw [quoted]
  split
  · rw [List.append_assoc]
  · rfl

theorem read_frame (done : List (List Symbol)) (text : List Symbol) :
    State.read marks pairs ⟨done ++ state.done, state.word⟩ text =
      ⟨done ++ (state.read marks pairs text).done,
        (state.read marks pairs text).word⟩ := by
  induction text generalizing state with
  | nil => rfl
  | cons symbol rest inductionHypothesis =>
    rw [read_cons, read_cons, step_frame, inductionHypothesis]

theorem finish_read_frame (done : List (List Symbol)) (text : List Symbol) :
    (State.read marks pairs ⟨done, none⟩ text).finish marks =
      done ++ (State.start.read marks pairs text).finish marks := by
  have framed : State.read marks pairs ⟨done ++ [], none⟩ text = _ :=
    @read_frame Symbol _ marks pairs State.start done text
  rw [List.append_nil] at framed
  rw [framed]
  exact List.append_assoc _ _ _

end Reading

/-! ## What is lost -/

section Counting

variable {marks} {state : State Symbol}

/-- The backslashes in front of quotes, after some that were already read. -/
def escaping (marks : Marks Symbol) : Nat → List Symbol → Nat
  | _, [] => 0
  | slashes, symbol :: rest =>
    if symbol = marks.backslash then escaping marks (slashes + 1) rest
    else if symbol = marks.quote then slashes + escaping marks 0 rest
    else escaping marks 0 rest

/-- Twice the backslashes, and the quotes. -/
def weight (marks : Marks Symbol) (text : List Symbol) : Nat :=
  2 * text.count marks.backslash + text.count marks.quote

/-- The word that a symbol is added to. -/
def State.current (state : State Symbol) : Word Symbol :=
  state.word.getD Word.empty

theorem weight_append (front back : List Symbol) :
    weight marks (front ++ back) = weight marks front + weight marks back := by
  unfold weight
  rw [List.count_append, List.count_append]
  omega

theorem weight_singleton {symbol : Symbol} (letter : symbol ≠ marks.backslash)
    (other : symbol ≠ marks.quote) : weight marks [symbol] = 0 := by
  unfold weight
  rw [List.count_singleton, List.count_singleton,
    beq_false_of_ne letter, beq_false_of_ne other]
  rfl

theorem weight_quote : weight marks [marks.quote] = 1 := by
  unfold weight
  rw [List.count_singleton_self, List.count_singleton,
    beq_false_of_ne marks.quote_ne_backslash]
  rfl

theorem weight_replicate (count : Nat) :
    weight marks (List.replicate count marks.backslash) = 2 * count := by
  unfold weight
  rw [List.count_replicate_self, List.count_replicate,
    beq_false_of_ne marks.quote_ne_backslash.symm]
  rfl

theorem weight_argument (word : Word Symbol) :
    weight marks (word.argument marks) =
      weight marks word.symbols + 2 * word.slashes := by
  unfold Word.argument
  rw [weight_append, weight_replicate]

omit [DecidableEq Symbol] in
theorem flatten_finish (state : State Symbol) :
    (state.finish marks).flatten =
      state.done.flatten ++ state.current.argument marks := by
  unfold State.finish State.current
  rw [List.flatten_append]
  cases state.word with
  | none => rfl
  | some word => exact congrArg _ (List.append_nil _)

theorem weight_finish (state : State Symbol) :
    weight marks (state.finish marks).flatten =
      weight marks state.done.flatten +
        weight marks (state.current.argument marks) := by
  rw [flatten_finish, weight_append]

/-- A quote takes away the backslashes in front of it. -/
theorem weight_step_quote (word : Word Symbol) :
    weight marks ((word.quote marks false).argument marks) + word.slashes =
      weight marks (word.argument marks) := by
  have half := Nat.div_add_mod word.slashes 2
  rw [weight_argument word]
  unfold Word.quote
  dsimp only
  rw [Bool.false_and, if_neg Bool.false_ne_true]
  split
  · rw [weight_argument, weight_append, weight_append, weight_replicate,
      weight_quote]
    dsimp only
    omega
  · rw [weight_argument, weight_append, weight_replicate]
    dsimp only
    omega

theorem weight_step_word (word : Word Symbol) (symbol : Symbol) :
    weight marks ((word.step marks false symbol).argument marks) +
        (if symbol = marks.quote then word.slashes else 0) =
      weight marks (word.argument marks) +
        if symbol = marks.backslash then 2 else 0 := by
  unfold Word.step
  by_cases slash : symbol = marks.backslash
  · subst slash
    rw [if_pos rfl, if_pos rfl, if_neg marks.quote_ne_backslash.symm,
      weight_argument, weight_argument]
    dsimp only
    omega
  · rw [if_neg slash, if_neg slash]
    by_cases isQuote : symbol = marks.quote
    · rw [if_pos isQuote, if_pos isQuote, weight_step_quote]
      rfl
    · rw [if_neg isQuote, if_neg isQuote, weight_argument, weight_append,
        weight_singleton slash isQuote]
      rfl

theorem slashes_step_word (pairs : Bool) (word : Word Symbol)
    (symbol : Symbol) :
    (word.step marks pairs symbol).slashes =
      if symbol = marks.backslash then word.slashes + 1 else 0 := by
  unfold Word.step Word.quote
  dsimp only
  split
  · rfl
  · split
    · split
      · rfl
      · split <;> rfl
    · rfl

theorem not_backslash_of_blank {symbol : Symbol}
    (blank : isBlank marks symbol = true) : symbol ≠ marks.backslash := by
  rintro rfl
  rw [isBlank_backslash] at blank
  cases blank

theorem not_quote_of_blank {symbol : Symbol}
    (blank : isBlank marks symbol = true) : symbol ≠ marks.quote := by
  rintro rfl
  rw [isBlank_quote] at blank
  cases blank

/-- A symbol ends an argument, or is added to a word. -/
theorem step_cases (pairs : Bool) (state : State Symbol) (symbol : Symbol) :
    (isBlank marks symbol = true ∧
      state.step marks pairs symbol = ⟨state.finish marks, none⟩) ∨
    state.step marks pairs symbol =
      ⟨state.done, some (state.current.step marks pairs symbol)⟩ := by
  by_cases blank : isBlank marks symbol = true
  · by_cases inside : state.quoted = true
    · exact .inr (step_word (.inr inside))
    · exact .inl ⟨blank, step_blank blank (Bool.eq_false_iff.mpr inside)⟩
  · exact .inr (step_word (.inl (Bool.eq_false_iff.mpr blank)))

theorem slashes_step (pairs : Bool) (state : State Symbol)
    (symbol : Symbol) :
    (state.step marks pairs symbol).current.slashes =
      if symbol = marks.backslash then state.current.slashes + 1 else 0 := by
  rcases step_cases pairs state symbol with ⟨blank, ends⟩ | goesOn
  · rw [ends, if_neg (not_backslash_of_blank blank)]
    rfl
  · rw [goesOn]
    exact slashes_step_word pairs state.current symbol

/-- What one symbol does to the weight. -/
theorem weight_step (state : State Symbol) (symbol : Symbol) :
    weight marks ((state.step marks false symbol).finish marks).flatten +
        (if symbol = marks.quote then state.current.slashes else 0) =
      weight marks (state.finish marks).flatten +
        if symbol = marks.backslash then 2 else 0 := by
  rcases step_cases false state symbol with ⟨blank, ends⟩ | goesOn
  · rw [ends, if_neg (not_quote_of_blank blank),
      if_neg (not_backslash_of_blank blank)]
    unfold State.finish
    simp
  · have word := @weight_step_word _ _ marks state.current symbol
    rw [goesOn, weight_finish, weight_finish state]
    change _ + weight marks
      ((state.current.step marks false symbol).argument marks) + _ = _
    dsimp only
    omega

/-- The backslashes in front of quotes are lost, and nothing else. -/
theorem weight_read (state : State Symbol) (text : List Symbol) :
    weight marks ((state.read marks false text).finish marks).flatten +
        escaping marks state.current.slashes text =
      weight marks (state.finish marks).flatten +
        2 * text.count marks.backslash := by
  induction text generalizing state with
  | nil => rfl
  | cons symbol rest inductionHypothesis =>
    have later := inductionHypothesis (state.step marks false symbol)
    have now := @weight_step _ _ marks state symbol
    rw [slashes_step] at later
    rw [read_cons, List.count_cons, escaping]
    by_cases slash : symbol = marks.backslash
    · rw [if_pos slash] at later now ⊢
      rw [if_neg (slash ▸ marks.quote_ne_backslash.symm)] at now
      rw [beq_iff_eq.mpr slash, if_pos rfl]
      omega
    · rw [if_neg slash] at later now ⊢
      rw [beq_false_of_ne slash, if_neg Bool.false_ne_true]
      by_cases isQuote : symbol = marks.quote
      · rw [if_pos isQuote] at now ⊢
        omega
      · rw [if_neg isQuote] at now ⊢
        omega

end Counting

/-! ## Texts that are read as they are -/

section Plain

variable {marks} {pairs : Bool} {done : List (List Symbol)}

/-- A symbol that is no quote is added to the word. -/
theorem argument_step {word : Word Symbol} {symbol : Symbol}
    (letter : symbol ≠ marks.quote) :
    (word.step marks pairs symbol).argument marks =
      word.argument marks ++ [symbol] := by
  unfold Word.step Word.argument
  by_cases slash : symbol = marks.backslash
  · subst slash
    rw [if_pos rfl, List.replicate_succ', List.append_assoc]
  · rw [if_neg slash, if_neg letter]
    exact List.append_nil _

theorem quoted_step {word : Word Symbol} {symbol : Symbol}
    (letter : symbol ≠ marks.quote) :
    (word.step marks pairs symbol).quoted = word.quoted := by
  unfold Word.step
  rw [if_neg letter]
  split <;> rfl

theorem closed_step {word : Word Symbol} {symbol : Symbol}
    (letter : symbol ≠ marks.quote) :
    (word.step marks pairs symbol).closed = false := by
  unfold Word.step
  rw [if_neg letter]
  split <;> rfl

/-- Symbols that neither are quotes nor end the word are added to it. -/
theorem read_word {word : Word Symbol} {text : List Symbol}
    (letters : ∀ symbol ∈ text, symbol ≠ marks.quote ∧
      (isBlank marks symbol = false ∨ word.quoted = true)) :
    ∃ after, State.read marks pairs ⟨done, some word⟩ text =
        ⟨done, some after⟩ ∧
      after.argument marks = word.argument marks ++ text ∧
      after.quoted = word.quoted := by
  induction text generalizing word with
  | nil => exact ⟨word, rfl, (List.append_nil _).symm, rfl⟩
  | cons symbol rest inductionHypothesis =>
    rw [List.forall_mem_cons] at letters
    have quoted := @quoted_step _ _ marks pairs word symbol letters.1.1
    have step : State.step marks pairs ⟨done, some word⟩ symbol =
        ⟨done, some (word.step marks pairs symbol)⟩ :=
      step_word letters.1.2
    rcases @inductionHypothesis (word.step marks pairs symbol)
      (by rw [quoted]; exact letters.2) with ⟨after, read, argument, same⟩
    refine ⟨after, ?_, ?_, same.trans quoted⟩
    · rw [read_cons, step, read]
    · rw [argument, argument_step letters.1.1, List.append_assoc,
        List.singleton_append]

/-- A text without blanks and quotes is one argument. -/
theorem read_plain {text : List Symbol} (some : text ≠ [])
    (letters : ∀ symbol ∈ text, symbol ≠ marks.quote ∧
      isBlank marks symbol = false) :
    (State.read marks pairs ⟨done, none⟩ text).finish marks =
      done ++ [text] := by
  cases text with
  | nil => exact absurd rfl some
  | cons symbol rest =>
    rw [List.forall_mem_cons] at letters
    have step : State.step marks pairs ⟨done, none⟩ symbol =
        ⟨done, .some (Word.empty.step marks pairs symbol)⟩ :=
      step_word (.inl letters.1.2)
    rcases @read_word _ _ marks pairs done
      (Word.empty.step marks pairs symbol) rest
      (fun other member => ⟨(letters.2 other member).1,
        .inl (letters.2 other member).2⟩) with ⟨after, read, argument, -⟩
    rw [read_cons, step, read]
    unfold State.finish
    rw [Option.map_some, argument, argument_step letters.1.1]
    rfl

/-- Without a quote the reading stays outside quotes. -/
theorem quoted_read {state : State Symbol} {text : List Symbol}
    (quoteFree : marks.quote ∉ text) (outside : state.quoted = false) :
    (state.read marks pairs text).quoted = false := by
  induction text generalizing state with
  | nil => exact outside
  | cons symbol rest inductionHypothesis =>
    rw [List.mem_cons, not_or] at quoteFree
    refine inductionHypothesis quoteFree.2 ?_
    rcases step_cases pairs state symbol with ⟨-, ends⟩ | goesOn
    · rw [ends]
      rfl
    · rw [goesOn]
      refine (quoted_step (Ne.symm quoteFree.1)).trans ?_
      unfold State.quoted at outside
      unfold State.current
      cases word : state.word with
      | none => rfl
      | some word =>
        rw [word] at outside
        exact outside

/-- An argument that is not empty and has no blank. -/
def IsPiece (marks : Marks Symbol) (arg : List Symbol) : Prop :=
  arg ≠ [] ∧ ∀ symbol ∈ arg, isBlank marks symbol = false

/-- Without quotes the arguments are pieces between blanks. -/
theorem isPiece_of_mem_read {state : State Symbol} {text : List Symbol}
    (quoteFree : marks.quote ∉ text) (outside : state.quoted = false)
    (pieces : ∀ arg ∈ state.finish marks, IsPiece marks arg) :
    ∀ arg ∈ (state.read marks pairs text).finish marks,
      IsPiece marks arg := by
  induction text generalizing state with
  | nil => exact pieces
  | cons symbol rest inductionHypothesis =>
    have first : symbol ≠ marks.quote := by
      rintro rfl
      exact quoteFree List.mem_cons_self
    have stays := @quoted_read _ _ marks pairs state [symbol]
      (by simpa using Ne.symm first) outside
    refine inductionHypothesis
      (fun inside => quoteFree (List.mem_cons_of_mem _ inside)) stays ?_
    by_cases blank : isBlank marks symbol = true
    · rw [step_blank blank outside]
      unfold State.finish at pieces ⊢
      simpa using pieces
    · have letter := Bool.eq_false_iff.mpr blank
      rw [step_word (.inl letter)]
      intro arg member
      rcases List.mem_append.mp member with early | last
      · exact pieces arg (List.mem_append_left _ early)
      · have isLast : arg = state.current.argument marks ++ [symbol] :=
          (List.mem_singleton.mp last).trans (argument_step first)
        subst isLast
        refine ⟨List.append_ne_nil_of_right_ne_nil _
          (List.cons_ne_nil _ _), ?_⟩
        intro other inside
        rcases List.mem_append.mp inside with old | new
        · unfold State.current at old
          unfold State.finish at pieces
          cases word : state.word with
          | none =>
            rw [word] at old
            exact nomatch old
          | some word =>
            rw [word] at old pieces
            exact (pieces _ (List.mem_append_right _
              List.mem_cons_self)).2 other old
        · rw [List.mem_singleton.mp new]
          exact letter

end Plain

/-! ## What is kept out -/

section Absent

variable {marks} {pairs : Bool}

omit [DecidableEq Symbol] in
variable {symbol : Symbol}

theorem mem_argument {word : Word Symbol} (letter : symbol ≠ marks.backslash) :
    symbol ∈ word.argument marks ↔ symbol ∈ word.symbols := by
  unfold Word.argument
  rw [List.mem_append, List.mem_replicate]
  constructor
  · rintro (inside | ⟨-, slash⟩)
    · exact inside
    · exact absurd slash letter
  · exact .inl

/-- A symbol of a word was in it, or was added. -/
theorem mem_step_word {word : Word Symbol} {added : Symbol}
    (letter : symbol ≠ marks.backslash) (other : symbol ≠ marks.quote)
    (inside : symbol ∈ (word.step marks pairs added).argument marks) :
    symbol ∈ word.argument marks ∨ symbol = added := by
  rw [mem_argument letter] at inside ⊢
  unfold Word.step at inside
  split at inside
  · exact .inl inside
  · split at inside
    · refine .inl ?_
      have front : ∀ count : Nat,
          symbol ∈ word.symbols ++ List.replicate count marks.backslash →
            symbol ∈ word.symbols := by
        intro count member
        rw [List.mem_append, List.mem_replicate] at member
        exact member.resolve_right fun slash => letter slash.2
      unfold Word.quote at inside
      dsimp only at inside
      split at inside
      · rw [List.mem_append, List.mem_singleton] at inside
        exact front _ (inside.resolve_right other)
      · split at inside
        · rw [List.mem_append, List.mem_singleton] at inside
          exact front _ (inside.resolve_right other)
        · exact front _ inside
    · rw [List.mem_append, List.mem_singleton, mem_argument letter] at inside
      exact inside

/-- A symbol of the arguments is one of the text. -/
theorem mem_finish_read {state : State Symbol} {text : List Symbol}
    (letter : symbol ≠ marks.backslash) (other : symbol ≠ marks.quote)
    (inside : symbol ∈ ((state.read marks pairs text).finish marks).flatten) :
    symbol ∈ (state.finish marks).flatten ∨ symbol ∈ text := by
  induction text generalizing state with
  | nil => exact .inl inside
  | cons added rest inductionHypothesis =>
    rw [List.mem_cons]
    rcases inductionHypothesis inside with now | later
    · rcases step_cases pairs state added with ⟨-, ends⟩ | goesOn
      · refine .inl ?_
        rw [ends, flatten_finish] at now
        exact (List.mem_append.mp now).resolve_right List.not_mem_nil
      · rw [goesOn, flatten_finish] at now
        rw [flatten_finish]
        rcases List.mem_append.mp now with early | current
        · exact .inl (List.mem_append_left _ early)
        · rcases mem_step_word letter other current with old | new
          · exact .inl (List.mem_append_right _ old)
          · exact .inr (.inl new)
    · exact .inr (.inr later)

/-- The program name holds symbols of the text, but no quote. -/
theorem mem_program {quoted : Bool} {text : List Symbol}
    (inside : symbol ∈ (splitProgram marks quoted text).1) :
    symbol ∈ text ∧ symbol ≠ marks.quote := by
  induction text generalizing quoted with
  | nil => exact nomatch inside
  | cons first rest inductionHypothesis =>
    rw [splitProgram] at inside
    split at inside
    · have found := inductionHypothesis inside
      exact ⟨List.mem_cons_of_mem _ found.1, found.2⟩
    · rename_i letter
      split at inside
      · exact nomatch inside
      · rcases List.mem_cons.mp inside with rfl | later
        · exact ⟨List.mem_cons_self, letter⟩
        · have found := inductionHypothesis later
          exact ⟨List.mem_cons_of_mem _ found.1, found.2⟩

theorem mem_behind_program {quoted : Bool} {text : List Symbol}
    (inside : symbol ∈ (splitProgram marks quoted text).2) :
    symbol ∈ text := by
  induction text generalizing quoted with
  | nil => exact nomatch inside
  | cons first rest inductionHypothesis =>
    rw [splitProgram] at inside
    split at inside
    · exact List.mem_cons_of_mem _ (inductionHypothesis inside)
    · split at inside
      · exact List.mem_cons_of_mem _ inside
      · exact List.mem_cons_of_mem _ (inductionHypothesis inside)

/-- No argument holds a NUL. -/
theorem nul_notMem_split (wide : List Symbol) :
    marks.nul ∉ (split marks pairs wide).flatten := by
  have cut : marks.nul ∉ wide.takeWhile (· ≠ marks.nul) := by
    intro inside
    have passed := List.mem_takeWhile_imp inside
    simp at passed
  intro inside
  unfold split at inside
  dsimp only at inside
  rw [List.flatten_cons, List.mem_append] at inside
  rcases inside with program | later
  · exact cut (mem_program program).1
  · rcases mem_finish_read marks.nul_ne_backslash marks.nul_ne_quote later
      with start | text
    · exact nomatch start
    · exact cut (mem_behind_program text)

end Absent

/-! ## The program -/

section Program

variable {marks}

/-- A name in quotes is the program, and the next blank is passed over. -/
theorem splitProgram_quoted {name rest : List Symbol}
    (plain : marks.quote ∉ name)
    (apart : ∀ symbol ∈ rest.head?, symbol = marks.space) :
    splitProgram marks false (marks.quote :: name ++ marks.quote :: rest) =
      (name, rest.tail) := by
  have closes : splitProgram marks true (marks.quote :: rest) =
      ([], rest.tail) := by
    rw [splitProgram, if_pos rfl]
    cases rest with
    | nil => rfl
    | cons symbol rest =>
      have isSpace := apart symbol rfl
      subst isSpace
      rw [splitProgram, if_neg marks.space_ne_quote, isBlank_space]
      rfl
  have inside : splitProgram marks true (name ++ marks.quote :: rest) =
      (name, rest.tail) := by
    induction name with
    | nil => exact closes
    | cons symbol name inductionHypothesis =>
      rw [List.mem_cons, not_or] at plain
      rw [List.cons_append, splitProgram, if_neg (Ne.symm plain.1),
        inductionHypothesis plain.2, Bool.not_true, Bool.and_false,
        if_neg Bool.false_ne_true]
  rw [List.cons_append, splitProgram, if_pos rfl]
  exact inside

end Program

end Rbo.Foundation.CommandLines
