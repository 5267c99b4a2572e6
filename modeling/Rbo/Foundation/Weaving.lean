import Mathlib.Data.List.Infix

/-!
# Sequences woven into one

Two sequences grow, and what is added to either is put behind a third one.
When a sequence ends with a mark wherever the other one goes on, then a word
without the mark occurs in the third sequence exactly when it occurs in one of
the two.  A word that is new in a sequence occurs close to its end.
-/

namespace Rbo.Foundation.Weaving

variable {Item : Type} {mark : Item} {word : List Item}

/-- The sequence is empty or ends with the mark. -/
def Marked (mark : Item) (items : List Item) : Prop :=
  items = [] ∨ ∃ front, items = front ++ [mark]

/-- The third sequence holds the other two, each of which ends with the mark
wherever the other one goes on. -/
inductive Woven (mark : Item) :
    List Item → List Item → List Item → Prop where
  | start : Woven mark [] [] []
  | first {first second all : List Item} (added : List Item)
      (woven : Woven mark first second all)
      (marked : added ≠ [] → Marked mark second) :
      Woven mark (first ++ added) second (all ++ added)
  | second {first second all : List Item} (added : List Item)
      (woven : Woven mark first second all)
      (marked : added ≠ [] → Marked mark first) :
      Woven mark first (second ++ added) (all ++ added)

variable {first second all : List Item}

theorem Woven.swap (woven : Woven mark first second all) :
    Woven mark second first all := by
  induction woven with
  | start => exact .start
  | first added _ marked induction => exact .second added induction marked
  | second added _ marked induction => exact .first added induction marked

/-- No word without the mark crosses it. -/
theorem infix_of_marked {front back : List Item} (plain : mark ∉ word)
    (marked : Marked mark front) (occurs : word <:+: front ++ back) :
    word <:+: front ∨ word <:+: back := by
  rcases marked with rfl | ⟨items, rfl⟩
  · exact Or.inr occurs
  · rcases List.infix_append_iff_ne_nil.mp occurs with
      before | behind | ⟨left, right, nonempty, -, rfl, reaches, -⟩
    · exact Or.inl before
    · exact Or.inr behind
    · rcases List.suffix_concat_iff.mp reaches with rfl | ⟨rest, rfl, -⟩
      · exact absurd rfl nonempty
      · simp at plain

/-! ## Occurrences -/

/-- While the second sequence ends with the mark, the end of the whole is the
end of the first, and both begin behind a mark. -/
theorem Woven.end_run (woven : Woven mark first second all)
    (marked : Marked mark second) :
    ∃ front before run, all = front ++ run ∧ first = before ++ run ∧
      Marked mark front ∧ Marked mark before := by
  induction woven with
  | start => exact ⟨[], [], [], rfl, rfl, Or.inl rfl, Or.inl rfl⟩
  | first added _ _ induction =>
    obtain ⟨front, before, run, rfl, rfl, ends, stops⟩ := induction marked
    exact ⟨front, before, run ++ added, List.append_assoc ..,
      List.append_assoc .., ends, stops⟩
  | @second first second all added _ goesOn induction =>
    by_cases empty : added = []
    · subst empty
      rw [List.append_nil] at marked ⊢
      exact induction marked
    · refine ⟨all ++ added, first, [], (List.append_nil _).symm,
        (List.append_nil _).symm, Or.inr ?_, goesOn empty⟩
      obtain ⟨front, last, rfl⟩ : ∃ front last, added = front ++ [last] :=
        ⟨_, _, (List.dropLast_append_getLast empty).symm⟩
      rcases marked with none_ | ⟨items, shape⟩
      · simp at none_
      · rw [← List.append_assoc] at shape ⊢
        obtain ⟨-, same⟩ := List.append_inj' shape rfl
        exact ⟨all ++ front, same ▸ rfl⟩

theorem Woven.grow (woven : Woven mark first second all)
    {added : List Item} (marked : added ≠ [] → Marked mark second)
    (plain : mark ∉ word)
    (known : word <:+: all ↔ word <:+: first ∨ word <:+: second) :
    word <:+: all ++ added ↔ word <:+: first ++ added ∨ word <:+: second := by
  by_cases empty : added = []
  · rw [empty, List.append_nil, List.append_nil]
    exact known
  obtain ⟨front, before, run, rfl, rfl, ends, stops⟩ :=
    woven.end_run (marked empty)
  have inFirst : word <:+: run ++ added →
      word <:+: before ++ run ++ added := fun occurs => by
    rw [List.append_assoc]
    exact occurs.trans (List.suffix_append _ _).isInfix
  have inAll : word <:+: run ++ added →
      word <:+: front ++ run ++ added := fun occurs => by
    rw [List.append_assoc]
    exact occurs.trans (List.suffix_append _ _).isInfix
  constructor
  · intro occurs
    rw [List.append_assoc] at occurs
    rcases infix_of_marked plain ends occurs with old | new
    · rcases known.mp (old.trans (List.prefix_append _ _).isInfix) with
        inside | other
      · exact Or.inl (inside.trans (List.prefix_append _ _).isInfix)
      · exact Or.inr other
    · exact Or.inl (inFirst new)
  · rintro (occurs | other)
    · rw [List.append_assoc] at occurs
      rcases infix_of_marked plain stops occurs with old | new
      · exact (known.mpr (Or.inl (old.trans
          (List.prefix_append _ _).isInfix))).trans
            (List.prefix_append _ _).isInfix
      · exact inAll new
    · exact (known.mpr (Or.inr other)).trans (List.prefix_append _ _).isInfix

/-- A word without the mark occurs in the whole exactly when it occurs in one
of the two sequences. -/
theorem Woven.infix_iff (woven : Woven mark first second all)
    (plain : mark ∉ word) :
    word <:+: all ↔ word <:+: first ∨ word <:+: second := by
  induction woven with
  | start => exact (or_self_iff).symm
  | first added woven marked induction =>
    exact woven.grow marked plain induction
  | second added woven marked induction =>
    rw [or_comm]
    exact woven.swap.grow marked plain (induction.trans or_comm)

/-! ## The end of a sequence -/

/-- The last items, at most as many as the bound. -/
def lastOf (bound : Nat) (items : List Item) : List Item :=
  items.drop (items.length - bound)

theorem lastOf_append (bound : Nat) (items added : List Item) :
    lastOf bound (lastOf bound items ++ added) =
      lastOf bound (items ++ added) := by
  unfold lastOf
  rw [← List.drop_append_of_le_length (Nat.sub_le ..), List.drop_drop]
  congr 1
  simp only [List.length_drop, List.length_append]
  omega

/-- A word that is new occurs among the last items, if these hold what was
added besides the word. -/
theorem infix_lastOf_of_new {items added : List Item} {bound : Nat}
    (occurs : word <:+: items ++ added) (new : ¬ word <:+: items)
    (fits : word.length + added.length ≤ bound + 1) :
    word <:+: lastOf bound (items ++ added) := by
  obtain ⟨front, back, shape⟩ := occurs
  have reaches : items.length < front.length + word.length := by
    refine Nat.lt_of_not_le fun inside => new ?_
    have begins : front ++ word <+: items := by
      refine List.prefix_of_prefix_length_le ⟨back, shape⟩
        (List.prefix_append _ _) ?_
      rwa [List.length_append]
    exact (List.suffix_append front word).isInfix.trans begins.isInfix
  unfold lastOf
  rw [← shape, List.append_assoc, List.drop_append_of_le_length ?_]
  · exact ⟨_, back, List.append_assoc ..⟩
  · have lengths := congrArg List.length shape
    simp only [List.length_append] at lengths ⊢
    omega

end Rbo.Foundation.Weaving
