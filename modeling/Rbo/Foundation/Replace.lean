import Mathlib.Data.List.Basic
import Mathlib.Data.List.Infix
import Mathlib.Data.Option.Basic

/-!
# Replacing words in a text

A text is read from the left.  Where one of the words begins, the whole word
is replaced, and the reading goes on behind it.  Words are apart when no two
different ones can overlap.  For such words it makes no difference whether
they are replaced one after the other or all at once, and a text that was
already replaced may be extended and replaced again.
-/

namespace Rbo.Foundation

universe symbolLevel

variable {Sym : Type symbolLevel}

section Definitions

variable [DecidableEq Sym]

/-- The first of the words that begins a text. -/
def wordAt (words : List (List Sym)) (text : List Sym) :
    Option (List Sym) :=
  words.find? fun word => word.isPrefixOf text

/-- Skip so many symbols, and then replace the words. -/
def replaceFrom (words : List (List Sym)) (marker : List Sym) :
    Nat → List Sym → List Sym
  | _, [] => []
  | skip + 1, _ :: rest => replaceFrom words marker skip rest
  | 0, symbol :: rest =>
    match wordAt words (symbol :: rest) with
    | none => symbol :: replaceFrom words marker 0 rest
    | some word => marker ++ replaceFrom words marker (word.length - 1) rest

/-- Replace every word of a text by the marker. -/
def replaceAny (words : List (List Sym)) (marker : List Sym)
    (text : List Sym) : List Sym :=
  replaceFrom words marker 0 text

end Definitions

/-! ## Equations -/

section Equations

variable [DecidableEq Sym] {words : List (List Sym)} {marker text : List Sym}

theorem wordAt_eq_none :
    wordAt words text = none ↔ ∀ word ∈ words, ¬ word <+: text := by
  unfold wordAt
  rw [List.find?_eq_none]
  simp only [List.isPrefixOf_iff_prefix]

theorem wordAt_eq_some {word : List Sym}
    (begins : wordAt words text = some word) :
    word ∈ words ∧ word <+: text := by
  constructor
  · exact List.mem_of_find?_eq_some begins
  · have holds := List.find?_some begins
    exact List.isPrefixOf_iff_prefix.mp holds

theorem wordAt_of_unique {word : List Sym} (member : word ∈ words)
    (begins : word <+: text)
    (unique : ∀ other ∈ words, other <+: text → other = word) :
    wordAt words text = some word := by
  cases found : wordAt words text with
  | none => exact absurd begins (wordAt_eq_none.mp found word member)
  | some other =>
    rcases wordAt_eq_some found with ⟨otherMember, otherBegins⟩
    rw [unique other otherMember otherBegins]

theorem replaceFrom_eq_drop (skip : Nat) (text : List Sym) :
    replaceFrom words marker skip text =
      replaceAny words marker (text.drop skip) := by
  induction text generalizing skip with
  | nil =>
    rw [List.drop_nil]
    unfold replaceAny
    cases skip <;> rfl
  | cons symbol rest induction =>
    cases skip with
    | zero => rfl
    | succ skip => exact induction skip

theorem replaceAny_miss {symbol : Sym} {rest : List Sym}
    (misses : ∀ word ∈ words, ¬ word <+: symbol :: rest) :
    replaceAny words marker (symbol :: rest) =
      symbol :: replaceAny words marker rest := by
  show replaceFrom words marker 0 (symbol :: rest) = _
  unfold replaceFrom
  rw [wordAt_eq_none.mpr misses]
  rfl

theorem replaceAny_word {word : List Sym} (nonempty : word ≠ [])
    (rest : List Sym) (begins : wordAt words (word ++ rest) = some word) :
    replaceAny words marker (word ++ rest) =
      marker ++ replaceAny words marker rest := by
  cases word with
  | nil => exact absurd rfl nonempty
  | cons symbol tail =>
    show replaceFrom words marker 0 (symbol :: (tail ++ rest)) = _
    unfold replaceFrom
    rw [List.cons_append] at begins
    rw [begins]
    show marker ++ replaceFrom words marker tail.length (tail ++ rest) = _
    rw [replaceFrom_eq_drop, List.drop_left]

end Equations

/-! ## Words that are apart -/

/-- No two different ones of the words overlap in a text. -/
structure Apart (words : List (List Sym)) (text : List Sym) : Prop where
  nonempty : ∀ word ∈ words, word ≠ []
  notInside : ∀ word ∈ words, ∀ other ∈ words, other <:+: text →
    word <:+: other → word = other
  noOverlap : ∀ word ∈ words, ∀ other ∈ words, ∀ front shared back,
    shared ≠ [] → word = front ++ shared → other = shared ++ back →
      front ++ other <:+: text → word = other

namespace Apart

variable {words : List (List Sym)} {text : List Sym}

theorem of_infix (apart : Apart words text) {part : List Sym}
    (inside : part <:+: text) : Apart words part where
  nonempty := apart.nonempty
  notInside word member other otherMember occurs :=
    apart.notInside word member other otherMember (occurs.trans inside)
  noOverlap word member other otherMember front shared back some left right
      occurs :=
    apart.noOverlap word member other otherMember front shared back some left
      right (occurs.trans inside)

variable {word : List Sym}

/-- At most one of the words begins a text. -/
theorem unique (apart : Apart words text) {other : List Sym}
    (member : word ∈ words) (otherMember : other ∈ words)
    (begins : word <+: text) (otherBegins : other <+: text) :
    word = other := by
  rcases List.prefix_or_prefix_of_prefix begins otherBegins with
    inside | inside
  · exact apart.notInside word member other otherMember
      otherBegins.isInfix inside.isInfix
  · exact (apart.notInside other otherMember word member begins.isInfix
      inside.isInfix).symm

theorem of_cons (apart : Apart (word :: words) text) :
    Apart words text where
  nonempty other member :=
    apart.nonempty other (List.mem_cons_of_mem _ member)
  notInside first firstMember second secondMember :=
    apart.notInside first (List.mem_cons_of_mem _ firstMember) second
      (List.mem_cons_of_mem _ secondMember)
  noOverlap first firstMember second secondMember :=
    apart.noOverlap first (List.mem_cons_of_mem _ firstMember) second
      (List.mem_cons_of_mem _ secondMember)

theorem singleton (nonempty : word ≠ []) (text : List Sym) :
    Apart [word] text := by
  constructor
  · intro other member
    rw [List.mem_singleton.mp member]
    exact nonempty
  · intro first firstMember second secondMember _ _
    rw [List.mem_singleton.mp firstMember, List.mem_singleton.mp secondMember]
  · intro first firstMember second secondMember _ _ _ _ _ _ _
    rw [List.mem_singleton.mp firstMember, List.mem_singleton.mp secondMember]

/-- Words that can overlap nowhere are apart in every text. -/
theorem of_disjoint (nonempty : ∀ word ∈ words, word ≠ [])
    (disjoint : ∀ word ∈ words, ∀ other ∈ words, word ≠ other →
      ¬ word <:+: other ∧
        ∀ shared ∈ word.tails, shared ≠ [] → ¬ shared <+: other)
    (text : List Sym) : Apart words text := by
  constructor
  · exact nonempty
  · intro word member other otherMember _ inside
    apply Classical.byContradiction
    intro different
    exact (disjoint word member other otherMember different).1 inside
  · intro word member other otherMember front shared back some left right _
    apply Classical.byContradiction
    intro different
    refine (disjoint word member other otherMember different).2 shared ?_
      some ⟨back, right.symm⟩
    rw [List.mem_tails, left]
    exact List.suffix_append front shared

/-- A word without the gap does not begin with it. -/
theorem not_prefix_gap (apart : Apart words text) {gap : Sym}
    (member : word ∈ words) (without : gap ∉ word) (rest : List Sym) :
    ¬ word <+: gap :: rest := by
  intro begins
  cases word with
  | nil => exact apart.nonempty [] member rfl
  | cons first word =>
    rw [(List.cons_prefix_cons.mp begins).1] at without
    exact without List.mem_cons_self

variable [DecidableEq Sym]

theorem wordAt_eq (apart : Apart words text) (member : word ∈ words)
    (begins : word <+: text) : wordAt words text = some word :=
  wordAt_of_unique member begins fun _ otherMember otherBegins =>
    apart.unique otherMember member otherBegins begins

theorem replace {rest : List Sym} (apart : Apart words (word ++ rest))
    (member : word ∈ words) (marker : List Sym) :
    replaceAny words marker (word ++ rest) =
      marker ++ replaceAny words marker rest :=
  replaceAny_word (apart.nonempty word member) rest
    (apart.wordAt_eq member (List.prefix_append word rest))

end Apart

/-! ## Replacing by a gap -/

section Gap

variable [DecidableEq Sym] {words : List (List Sym)} {gap : Sym}

/-- Reading a text: a word begins it, or its first symbol is passed. -/
theorem replaceAny_cases (marker : List Sym)
    {motive : ∀ text, Apart words text → Prop}
    (nil : ∀ apart, motive [] apart)
    (word : ∀ word rest (apart : Apart words (word ++ rest))
      (later : Apart words rest), word ∈ words → motive rest later →
      replaceAny words marker (word ++ rest) =
        marker ++ replaceAny words marker rest → motive (word ++ rest) apart)
    (symbol : ∀ symbol rest (apart : Apart words (symbol :: rest))
      (later : Apart words rest),
      (∀ word ∈ words, ¬ word <+: symbol :: rest) → motive rest later →
      replaceAny words marker (symbol :: rest) =
        symbol :: replaceAny words marker rest →
      motive (symbol :: rest) apart)
    (text : List Sym) (apart : Apart words text) : motive text apart := by
  induction size : text.length using Nat.strongRecOn generalizing text with
  | ind length induction =>
    subst size
    cases text with
    | nil => exact nil apart
    | cons first rest =>
      by_cases begins : ∃ word ∈ words, word <+: first :: rest
      · rcases begins with ⟨found, member, after, equal⟩
        generalize whole : first :: rest = text at *
        subst equal
        have later : Apart words after :=
          apart.of_infix (List.suffix_append found after).isInfix
        refine word found after apart later member ?_
          (apart.replace member _)
        refine induction after.length ?_ after later rfl
        rw [List.length_append]
        have some := List.length_pos_iff.mpr (apart.nonempty found member)
        omega
      · have misses : ∀ word ∈ words, ¬ word <+: first :: rest := by
          intro other member begin
          exact begins ⟨other, member, begin⟩
        have later : Apart words rest :=
          apart.of_infix (List.suffix_cons first rest).isInfix
        refine symbol first rest apart later misses ?_
          (replaceAny_miss misses)
        exact induction rest.length (Nat.lt_succ_self _) rest later rfl

variable {text : List Sym}

/-- A text without the gap that begins what is left began the text. -/
theorem prefix_of_prefix_append (apart : Apart words text) {more : List Sym} :
    ∀ {raw : List Sym}, gap ∉ raw →
      raw <+: replaceAny words [gap] text ++ more → raw <+: text ++ more := by
  induction text, apart using replaceAny_cases [gap] with
  | nil _ =>
    intro raw _ begins
    exact begins
  | word word rest _ _ member _ equation =>
    intro raw without begins
    rw [equation] at begins
    cases raw with
    | nil => exact List.nil_prefix
    | cons first raw =>
      rw [List.singleton_append, List.cons_append,
        List.cons_prefix_cons] at begins
      rw [begins.1] at without
      exact absurd List.mem_cons_self without
  | symbol symbol rest _ _ _ induction equation =>
    intro raw without begins
    rw [equation] at begins
    cases raw with
    | nil => exact List.nil_prefix
    | cons first raw =>
      rw [List.cons_append, List.cons_prefix_cons] at begins ⊢
      refine ⟨begins.1, induction ?_ begins.2⟩
      exact fun there => without (List.mem_cons_of_mem _ there)

theorem prefix_of_prefix_replaceAny {raw : List Sym}
    (apart : Apart words text) (without : gap ∉ raw)
    (begins : raw <+: replaceAny words [gap] text) : raw <+: text := by
  rw [← List.append_nil (replaceAny words [gap] text)] at begins
  have began := prefix_of_prefix_append apart without begins
  rwa [List.append_nil] at began

/-- A text without the gap that is left somewhere was there before. -/
theorem infix_of_infix_append (apart : Apart words text) {more raw : List Sym}
    (without : gap ∉ raw) :
    raw <:+: replaceAny words [gap] text ++ more →
      raw <:+: text ++ more := by
  induction text, apart using replaceAny_cases [gap] with
  | nil _ => exact id
  | word word rest _ _ member induction equation =>
    rw [equation, List.singleton_append, List.cons_append,
      List.infix_cons_iff]
    rintro (begins | inside)
    · cases raw with
      | nil => exact List.nil_infix
      | cons first raw =>
        rw [(List.cons_prefix_cons.mp begins).1] at without
        exact absurd List.mem_cons_self without
    · rw [List.append_assoc]
      exact (induction inside).trans (List.suffix_append _ _).isInfix
  | symbol symbol rest apart _ _ induction equation =>
    rw [equation, List.cons_append, List.cons_append,
      List.infix_cons_iff, List.infix_cons_iff]
    rintro (begins | inside)
    · left
      rw [← List.cons_append, ← equation] at begins
      exact prefix_of_prefix_append apart without begins
    · exact Or.inr (induction inside)

/-- Words stay apart where some of them are replaced. -/
theorem Apart.of_replaced {others : List (List Sym)} {more : List Sym}
    (apart : Apart others (text ++ more)) (front : Apart words text)
    (gapless : ∀ word ∈ others, gap ∉ word) :
    Apart others (replaceAny words [gap] text ++ more) := by
  constructor
  · exact apart.nonempty
  · intro word member other otherMember occurs
    exact apart.notInside word member other otherMember
      (infix_of_infix_append front (gapless other otherMember) occurs)
  · intro word member other otherMember ahead shared back some left right
      occurs
    refine apart.noOverlap word member other otherMember ahead shared back
      some left right (infix_of_infix_append front ?_ occurs)
    intro there
    rcases List.mem_append.mp there with inWord | inOther
    · apply gapless word member
      rw [left]
      exact List.mem_append_left _ inWord
    · exact gapless other otherMember inOther

/-- A text in which nothing was replaced is left as it was. -/
theorem replaceAny_eq_self_of_gap (apart : Apart words text) :
    gap ∉ replaceAny words [gap] text →
      replaceAny words [gap] text = text := by
  induction text, apart using replaceAny_cases [gap] with
  | nil _ => exact fun _ => rfl
  | word word rest _ _ member _ equation =>
    rw [equation]
    intro without
    exact absurd List.mem_cons_self without
  | symbol symbol rest _ _ _ induction equation =>
    rw [equation]
    intro without
    rw [induction fun there => without (List.mem_cons_of_mem _ there)]

theorem replaceAny_eq_self {marker : List Sym}
    (absent : ∀ word ∈ words, ¬ word <:+: text) :
    replaceAny words marker text = text := by
  induction text with
  | nil => rfl
  | cons symbol rest induction =>
    rw [replaceAny_miss, induction]
    · exact fun word member inside =>
        absent word member (List.infix_cons_iff.mpr (Or.inr inside))
    · exact fun word member begins =>
        absent word member begins.isInfix

/-- No word is left where the words were. -/
theorem not_infix_replaceAny (apart : Apart words text)
    (gapless : ∀ word ∈ words, gap ∉ word) {word : List Sym}
    (member : word ∈ words) : ¬ word <:+: replaceAny words [gap] text := by
  induction text, apart using replaceAny_cases [gap] with
  | nil apart =>
    intro inside
    exact apart.nonempty word member (List.infix_nil.mp inside)
  | word other rest apart _ otherMember induction equation =>
    rw [equation, List.singleton_append, List.infix_cons_iff]
    rintro (begins | inside)
    · exact apart.not_prefix_gap member (gapless word member) _ begins
    · exact induction inside
  | symbol symbol rest apart _ misses induction equation =>
    rw [equation, List.infix_cons_iff]
    rintro (begins | inside)
    · rw [← equation] at begins
      exact misses word member
        (prefix_of_prefix_replaceAny apart (gapless word member) begins)
    · exact induction inside

/-- A different word is passed over when only one word is replaced. -/
theorem replaceAny_pass {word other rest : List Sym} {marker : List Sym}
    (apart : Apart (word :: words) (other ++ rest)) (member : other ∈ words)
    (different : word ≠ other) :
    replaceAny [word] marker (other ++ rest) =
      other ++ replaceAny [word] marker rest := by
  have otherMember := List.mem_cons_of_mem word member
  have wordMember : word ∈ word :: words := List.mem_cons_self
  suffices pass : ∀ tail, tail <:+ other →
      replaceAny [word] marker (tail ++ rest) =
        tail ++ replaceAny [word] marker rest from
    pass other (List.suffix_refl other)
  intro tail
  induction tail with
  | nil => exact fun _ => rfl
  | cons symbol tail induction =>
    intro ends
    have shorter : tail <:+ other :=
      (List.suffix_cons symbol tail).trans ends
    rw [List.cons_append, replaceAny_miss, induction shorter,
      List.cons_append]
    intro found foundMember begins
    rw [List.mem_singleton.mp foundMember] at begins
    have occurs : other <:+: other ++ rest :=
      (List.prefix_append other rest).isInfix
    -- The word ends inside the other one, or reaches over its end.
    rcases List.prefix_or_prefix_of_prefix begins
        (List.prefix_append (symbol :: tail) rest) with
      inside | ⟨back, reaches⟩
    · exact different
        (apart.notInside word wordMember other otherMember occurs
          (inside.isInfix.trans ends.isInfix))
    · rcases ends with ⟨front, split⟩
      rcases begins with ⟨after, whole⟩
      apply different
      refine (apart.noOverlap other otherMember word wordMember front
        (symbol :: tail) back (List.cons_ne_nil _ _) split.symm
        reaches.symm ?_).symm
      refine List.IsPrefix.isInfix ⟨after, ?_⟩
      rw [List.append_assoc, whole, ← split, List.append_assoc,
        List.cons_append]

/-- A word is replaced first, and then the others: that is all at once. -/
theorem replaceAny_first {word : List Sym}
    (apart : Apart (word :: words) text)
    (gapless : ∀ other ∈ word :: words, gap ∉ other) :
    replaceAny words [gap] (replaceAny [word] [gap] text) =
      replaceAny (word :: words) [gap] text := by
  have nonempty := apart.nonempty word List.mem_cons_self
  have noGap : ∀ rest, ∀ other ∈ words, ¬ other <+: gap :: rest :=
    fun rest other member =>
      apart.of_cons.not_prefix_gap member
        (gapless other (List.mem_cons_of_mem word member)) rest
  induction text, apart using replaceAny_cases [gap] with
  | nil _ => rfl
  | word found rest apart _ member induction equation =>
    rw [equation]
    by_cases same : word = found
    · subst same
      rw [(Apart.singleton nonempty _).replace List.mem_cons_self,
        List.singleton_append, replaceAny_miss (noGap _), induction,
        List.singleton_append]
    · have later : found ∈ words := by
        rcases List.mem_cons.mp member with equal | later
        · exact absurd equal.symm same
        · exact later
      have passed :
          replaceAny [word] [gap] (found ++ rest) =
            found ++ replaceAny [word] [gap] rest :=
        replaceAny_pass apart later same
      rw [passed, replaceAny_word (apart.nonempty found member), induction]
      apply wordAt_of_unique later (List.prefix_append _ _)
      intro other otherLater begins
      have otherMember := List.mem_cons_of_mem word otherLater
      rw [← passed] at begins
      have raw : other <+: found ++ rest :=
        prefix_of_prefix_replaceAny (Apart.singleton nonempty _)
          (gapless other otherMember) begins
      exact apart.unique otherMember member raw (List.prefix_append _ _)
  | symbol symbol rest apart _ misses induction equation =>
    have missesWord : ∀ other ∈ [word], ¬ other <+: symbol :: rest := by
      intro other member
      rw [List.mem_singleton.mp member]
      exact misses word List.mem_cons_self
    have passed :
        replaceAny [word] [gap] (symbol :: rest) =
          symbol :: replaceAny [word] [gap] rest :=
      replaceAny_miss missesWord
    rw [equation, passed, replaceAny_miss, induction]
    intro other member begins
    have otherMember := List.mem_cons_of_mem word member
    rw [← passed] at begins
    exact misses other otherMember
      (prefix_of_prefix_replaceAny (Apart.singleton nonempty _)
        (gapless other otherMember) begins)

/-- Words that are apart may be replaced one after the other. -/
theorem foldl_replaceAny (apart : Apart words text)
    (gapless : ∀ word ∈ words, gap ∉ word) :
    words.foldl (fun text word => replaceAny [word] [gap] text) text =
      replaceAny words [gap] text := by
  induction words generalizing text with
  | nil =>
    rw [List.foldl_nil, replaceAny_eq_self]
    intro word member
    cases member
  | cons word words induction =>
    have nonempty := apart.nonempty word List.mem_cons_self
    have later : ∀ other ∈ words, gap ∉ other :=
      fun other member => gapless other (List.mem_cons_of_mem _ member)
    have whole : Apart words (text ++ []) := by
      rw [List.append_nil]
      exact apart.of_cons
    have left : Apart words (replaceAny [word] [gap] text ++ []) :=
      whole.of_replaced (Apart.singleton nonempty text) later
    rw [List.append_nil] at left
    rw [List.foldl_cons, induction left later]
    exact replaceAny_first apart gapless

/-- A text that was replaced may be extended and replaced again. -/
theorem replaceAny_again {more : List Sym}
    (apart : Apart words (text ++ more))
    (gapless : ∀ word ∈ words, gap ∉ word) :
    replaceAny words [gap] (replaceAny words [gap] text ++ more) =
      replaceAny words [gap] (text ++ more) := by
  have noGap : ∀ rest, ∀ word ∈ words, ¬ word <+: gap :: rest :=
    fun rest word member =>
      apart.not_prefix_gap member (gapless word member) rest
  have front : Apart words text :=
    apart.of_infix (List.prefix_append text more).isInfix
  revert apart
  induction text, front using replaceAny_cases [gap] with
  | nil _ => exact fun _ => rfl
  | word word rest _ _ member induction equation =>
    intro apart
    rw [List.append_assoc] at apart
    have later : Apart words (rest ++ more) :=
      apart.of_infix (List.suffix_append word _).isInfix
    rw [equation, List.singleton_append, List.cons_append,
      replaceAny_miss (noGap _), induction later, List.append_assoc,
      apart.replace member, List.singleton_append]
  | symbol symbol rest front _ misses induction equation =>
    intro apart
    have later : Apart words (rest ++ more) :=
      apart.of_infix (List.suffix_cons symbol _).isInfix
    rw [equation]
    by_cases begins : ∃ word ∈ words, word <+: (symbol :: rest) ++ more
    · -- The word reaches over the end, so nothing was replaced before it.
      rcases begins with ⟨word, member, begins⟩
      have outside : symbol :: rest <+: word := by
        rcases List.prefix_or_prefix_of_prefix begins
            (List.prefix_append (symbol :: rest) more) with inside | outside
        · exact absurd inside (misses word member)
        · exact outside
      have kept : replaceAny words [gap] rest = rest := by
        apply replaceAny_eq_self
        intro other otherMember inside
        have within : other <:+: word :=
          (inside.trans (List.suffix_cons symbol rest).isInfix).trans
            outside.isInfix
        have same :=
          apart.notInside other otherMember word member begins.isInfix
            within
        have longer := outside.length_le
        have shorter := inside.length_le
        rw [same] at shorter
        rw [List.length_cons] at longer
        omega
      rw [kept]
    · have missesMore :
          ∀ word ∈ words, ¬ word <+: symbol :: (rest ++ more) := by
        intro word member begin
        exact begins ⟨word, member, begin⟩
      rw [List.cons_append, List.cons_append, replaceAny_miss missesMore,
        replaceAny_miss, induction later]
      intro word member begin
      rcases List.prefix_or_prefix_of_prefix begin
          (List.prefix_append
            (symbol :: replaceAny words [gap] rest) more) with
        inside | outside
      · rw [← equation] at inside
        exact misses word member
          (prefix_of_prefix_replaceAny front (gapless word member) inside)
      · have without : gap ∉ replaceAny words [gap] rest := by
          intro there
          exact gapless word member
            (outside.subset (List.mem_cons_of_mem _ there))
        have behind : Apart words rest :=
          front.of_infix (List.suffix_cons symbol rest).isInfix
        rw [replaceAny_eq_self_of_gap behind without] at begin
        exact missesMore word member begin

/-- Symbols at which no word begins are passed. -/
theorem replaceAny_append {marker front rest : List Sym}
    (misses : ∀ tail, tail ≠ [] → tail <:+ front →
      ∀ word ∈ words, ¬ word <+: tail ++ rest) :
    replaceAny words marker (front ++ rest) =
      front ++ replaceAny words marker rest := by
  induction front with
  | nil => rfl
  | cons symbol front induction =>
    rw [List.cons_append, replaceAny_miss, induction, List.cons_append]
    · exact fun tail nonempty ends =>
        misses tail nonempty (ends.trans (List.suffix_cons symbol front))
    · exact misses (symbol :: front) (List.cons_ne_nil _ _)
        (List.suffix_refl _)

end Gap

/-! ## Markers of several symbols -/

/-- A word that can neither overlap nor contain the marker, nor be inside. -/
structure Clear (marker word : List Sym) : Prop where
  notInside : ¬ word <:+: marker
  notAround : ¬ marker <:+: word
  noFront : ∀ shared, shared ≠ [] → shared <:+ marker → ¬ shared <+: word
  noBack : ∀ shared, shared ≠ [] → shared <+: marker → ¬ shared <:+ word

/-- A word that shares no symbol with the marker. -/
theorem Clear.of_disjoint {marker word : List Sym} (some : word ≠ [])
    (marks : marker ≠ []) (disjoint : ∀ symbol ∈ word, symbol ∉ marker) :
    Clear marker word := by
  have shares : ∀ shared : List Sym, shared ≠ [] → shared ⊆ word →
      ¬ shared ⊆ marker := by
    intro shared nonempty inWord inMarker
    rcases List.exists_mem_of_ne_nil shared nonempty with ⟨symbol, there⟩
    exact disjoint symbol (inWord there) (inMarker there)
  constructor
  · intro inside
    exact shares word some (List.Subset.refl _) inside.subset
  · intro around
    exact shares marker marks around.subset (List.Subset.refl _)
  · intro shared nonempty inMarker inWord
    exact shares shared nonempty inWord.subset inMarker.subset
  · intro shared nonempty inMarker inWord
    exact shares shared nonempty inWord.subset inMarker.subset

/-- A text with gaps, each of which stands for a marker. -/
def render (marker : List Sym) (pieces : List (Option Sym)) : List Sym :=
  pieces.flatMap fun piece =>
    match piece with
    | none => marker
    | some symbol => [symbol]

section Render

variable {marker : List Sym}

@[simp]
theorem render_nil : render marker [] = [] :=
  rfl

@[simp]
theorem render_none (pieces : List (Option Sym)) :
    render marker (none :: pieces) = marker ++ render marker pieces :=
  List.flatMap_cons

@[simp]
theorem render_some (symbol : Sym) (pieces : List (Option Sym)) :
    render marker (some symbol :: pieces) =
      symbol :: render marker pieces :=
  List.flatMap_cons

@[simp]
theorem render_append (first second : List (Option Sym)) :
    render marker (first ++ second) =
      render marker first ++ render marker second :=
  List.flatMap_append

@[simp]
theorem render_map_some (text : List Sym) :
    render marker (text.map some) = text := by
  induction text with
  | nil => rfl
  | cons symbol text induction =>
    rw [List.map_cons, render_some, induction]

/-- A part of a word in a text with markers touches no marker. -/
theorem Clear.prefix_pieces {word : List Sym} (clear : Clear marker word)
    {pieces : List (Option Sym)} {part : List Sym} (ends : part <:+ word)
    (begins : part <+: render marker pieces) : part.map some <+: pieces := by
  induction pieces generalizing part with
  | nil =>
    rw [render_nil, List.prefix_nil] at begins
    rw [begins]
    exact List.nil_prefix
  | cons piece pieces induction =>
    cases part with
    | nil => exact List.nil_prefix
    | cons first part =>
      cases piece with
      | none =>
        rw [render_none] at begins
        rcases List.prefix_or_prefix_of_prefix begins
            (List.prefix_append marker _) with inside | around
        · exact absurd ends
            (clear.noBack _ (List.cons_ne_nil _ _) inside)
        · exact absurd (around.isInfix.trans ends.isInfix)
            clear.notAround
      | some symbol =>
        rw [render_some, List.cons_prefix_cons] at begins
        rw [List.map_cons, List.cons_prefix_cons]
        refine ⟨congrArg some begins.1, induction ?_ begins.2⟩
        exact (List.suffix_cons first part).trans ends

/-- A word in a text with markers lies between them. -/
theorem Clear.infix_pieces {word : List Sym} (clear : Clear marker word)
    {pieces : List (Option Sym)} (inside : word <:+: render marker pieces) :
    word.map some <:+: pieces := by
  induction pieces with
  | nil =>
    rw [List.infix_nil.mp inside]
    exact List.nil_infix
  | cons piece pieces induction =>
    rw [List.infix_cons_iff]
    cases piece with
    | none =>
      rw [render_none, List.infix_append_iff_ne_nil] at inside
      rcases inside with within | later |
        ⟨shared, rest, some, _, rfl, ends, _⟩
      · exact absurd within clear.notInside
      · exact Or.inr (induction later)
      · exact absurd (List.prefix_append shared rest)
          (clear.noFront shared some ends)
    | some symbol =>
      rw [render_some, List.infix_cons_iff] at inside
      rcases inside with begins | later
      · rw [← render_some] at begins
        exact Or.inl (clear.prefix_pieces (List.suffix_refl word) begins)
      · exact Or.inr (induction later)

/-- The places at which a text with markers can be cut. -/
theorem exists_cut (pieces : List (Option Sym)) (size : Nat) :
    ∃ before after front,
      pieces = before ++ after ∧ front <:+ marker ∧
        (render marker pieces).drop size = front ++ render marker after ∧
        (front = [] ∨ ∃ shorter, before = shorter ++ [none]) := by
  induction pieces generalizing size with
  | nil =>
    refine ⟨[], [], [], rfl, List.nil_suffix, ?_, Or.inl rfl⟩
    rw [render_nil, List.drop_nil, List.append_nil]
  | cons piece pieces induction =>
    cases size with
    | zero =>
      exact ⟨[], piece :: pieces, [], rfl, List.nil_suffix, rfl,
        Or.inl rfl⟩
    | succ size =>
      cases piece with
      | some symbol =>
        rcases induction size with
          ⟨before, after, front, equal, ends, cut, last⟩
        refine ⟨some symbol :: before, after, front, ?_, ends, ?_, ?_⟩
        · rw [equal, List.cons_append]
        · rw [render_some, List.drop_succ_cons, cut]
        · rcases last with empty | ⟨shorter, same⟩
          · exact Or.inl empty
          · exact Or.inr ⟨some symbol :: shorter, by rw [same]; rfl⟩
      | none =>
        by_cases inside : size + 1 ≤ marker.length
        · refine ⟨[none], pieces, marker.drop (size + 1), rfl,
            List.drop_suffix _ _, ?_, Or.inr ⟨[], rfl⟩⟩
          rw [render_none, List.drop_append_of_le_length inside]
        · rcases induction (size + 1 - marker.length) with
            ⟨before, after, front, equal, ends, cut, last⟩
          refine ⟨none :: before, after, front, ?_, ends, ?_, ?_⟩
          · rw [equal, List.cons_append]
          · rw [render_none, List.drop_append,
              List.drop_eq_nil_of_le (by omega), List.nil_append, cut]
          · rcases last with empty | ⟨shorter, same⟩
            · exact Or.inl empty
            · exact Or.inr ⟨none :: shorter, by rw [same]; rfl⟩

theorem infix_of_map_some {part text : List Sym}
    (inside : part.map some <:+: text.map some) : part <:+: text := by
  rcases List.infix_map_iff.mp inside with ⟨found, there, same⟩
  have equal : part = found :=
    List.map_injective_iff.mpr (Option.some_injective Sym) same
  rw [equal]
  exact there

/-- Words that are apart are apart as pieces. -/
theorem Apart.map_some {words : List (List Sym)} {text : List Sym}
    (apart : Apart words text) :
    Apart (words.map (List.map some)) (text.map some) := by
  constructor
  · intro pieces member
    rcases List.mem_map.mp member with ⟨word, there, rfl⟩
    intro empty
    exact apart.nonempty word there (List.map_eq_nil_iff.mp empty)
  · intro pieces member otherPieces otherMember occurs inside
    rcases List.mem_map.mp member with ⟨word, there, rfl⟩
    rcases List.mem_map.mp otherMember with ⟨other, otherThere, rfl⟩
    rw [apart.notInside word there other otherThere
      (infix_of_map_some occurs) (infix_of_map_some inside)]
  · intro pieces member otherPieces otherMember front shared back some left
      right occurs
    rcases List.mem_map.mp member with ⟨word, there, rfl⟩
    rcases List.mem_map.mp otherMember with ⟨other, otherThere, rfl⟩
    rcases List.map_eq_append_iff.mp left with
      ⟨ahead, middle, split, rfl, rfl⟩
    rcases List.map_eq_append_iff.mp right with
      ⟨start, behind, otherSplit, same, rfl⟩
    have equal : start = middle :=
      List.map_injective_iff.mpr (Option.some_injective Sym) same
    subst equal
    rw [← List.map_append] at occurs
    rw [apart.noOverlap word there other otherThere ahead start behind
      (fun empty => some (List.map_eq_nil_iff.mpr empty)) split otherSplit
      (infix_of_map_some occurs)]

theorem gapless_map_some (words : List (List Sym)) :
    ∀ pieces ∈ words.map (List.map some), (none : Option Sym) ∉ pieces := by
  intro pieces member there
  rcases List.mem_map.mp member with ⟨word, _, rfl⟩
  rcases List.mem_map.mp there with ⟨symbol, _, absurd⟩
  cases absurd

variable [DecidableEq Sym]

/-- The end of a marker is passed. -/
theorem Clear.pass {word : List Sym} (clear : Clear marker word)
    {front : List Sym} (ends : front <:+ marker) (rest : List Sym) :
    replaceAny [word] marker (front ++ rest) =
      front ++ replaceAny [word] marker rest := by
  apply replaceAny_append
  intro tail nonempty tailEnds found member begins
  rw [List.mem_singleton.mp member] at begins
  have inMarker := tailEnds.trans ends
  rcases List.prefix_or_prefix_of_prefix begins
      (List.prefix_append tail rest) with inside | around
  · exact clear.notInside (inside.isInfix.trans inMarker.isInfix)
  · exact clear.noFront tail nonempty inMarker around

/-- Replacing a word of a text with markers replaces it between them. -/
theorem Clear.render_replace {word : List Sym} (clear : Clear marker word)
    (nonempty : word ≠ []) (pieces : List (Option Sym)) :
    replaceAny [word] marker (render marker pieces) =
      render marker (replaceAny [word.map some] [none] pieces) := by
  have apart : Apart [word.map some] pieces := by
    apply Apart.singleton
    exact fun empty => nonempty (List.map_eq_nil_iff.mp empty)
  induction pieces, apart using
    @replaceAny_cases (Option Sym) inferInstance [word.map some] [none]
    with
  | nil _ => rfl
  | word found rest _ _ member induction equation =>
    rw [equation, List.mem_singleton.mp member, render_append,
      render_map_some,
      (Apart.singleton nonempty _).replace List.mem_cons_self, induction,
      List.singleton_append, render_none]
  | symbol piece rest _ _ misses induction equation =>
    rw [equation]
    cases piece with
    | none =>
      rw [render_none, clear.pass (List.suffix_refl marker), induction,
        render_none]
    | some symbol =>
      rw [render_some, replaceAny_miss, induction, render_some]
      intro found member begins
      rw [List.mem_singleton.mp member, ← render_some] at begins
      exact misses _ List.mem_cons_self
        (clear.prefix_pieces (List.suffix_refl word) begins)

/-- Words are replaced one after the other in a text with markers. -/
theorem foldl_render {words : List (List Sym)} {front : List Sym}
    {pieces : List (Option Sym)}
    (apart : Apart (words.map (List.map some)) pieces)
    (clear : ∀ word ∈ words, Clear marker word) (ends : front <:+ marker) :
    words.foldl (fun text word => replaceAny [word] marker text)
        (front ++ render marker pieces) =
      front ++
        render marker
          (replaceAny (words.map (List.map some)) [none] pieces) := by
  have each :
      words.foldl (fun text word => replaceAny [word] marker text)
          (front ++ render marker pieces) =
        front ++
          render marker
            ((words.map (List.map some)).foldl
              (fun text word => replaceAny [word] [none] text) pieces) := by
    have nonempty : ∀ word ∈ words, word ≠ [] := by
      rintro word member rfl
      exact apart.nonempty [] (List.mem_map.mpr ⟨[], member, rfl⟩) rfl
    clear apart
    induction words generalizing pieces with
    | nil => rfl
    | cons word words induction =>
      rw [List.forall_mem_cons] at clear nonempty
      rw [List.foldl_cons, List.map_cons, List.foldl_cons,
        clear.1.pass ends, clear.1.render_replace nonempty.1,
        induction clear.2 nonempty.2]
  rw [each, foldl_replaceAny apart (gapless_map_some words)]

end Render

end Rbo.Foundation
