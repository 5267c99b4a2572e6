import Mathlib.Data.List.Forall2

/-!
# Successful computations

What the success of a computation that may fail says about its parts.
-/

namespace Rbo.Foundation.Results

variable {Failure Answer Next : Type}

theorem bind_eq_ok {first : Except Failure Answer}
    {next : Answer → Except Failure Next} {result : Next} :
    (first >>= next) = .ok result ↔
      ∃ answer, first = .ok answer ∧ next answer = .ok result := by
  cases first with
  | error failure => simp [bind, Except.bind]
  | ok answer => simp [bind, Except.bind]

/-- A guard at the head of a computation was passed. -/
theorem guard_eq_ok {condition : Prop} [Decidable condition]
    {failure : Failure} {next : Except Failure Next} {result : Next} :
    (do
      if condition then
        throw failure
      next : Except Failure Next) = .ok result ↔
      ¬ condition ∧ next = .ok result := by
  by_cases holds : condition
  · simp [holds, throw, throwThe, MonadExceptOf.throw, bind, Except.bind]
  · simp [holds]

/-- A computed success with what was checked of its answer. -/
theorem exists_ok_of_any {computed : Except Failure Answer}
    {check : Answer → Bool}
    (passes : computed.toOption.any check = true) :
    ∃ answer, computed = .ok answer ∧ check answer = true := by
  cases computed with
  | error failure => cases passes
  | ok answer => exact ⟨answer, rfl, passes⟩

/-- A list was worked through: its items and the answers correspond. -/
theorem mapM_eq_ok {Item : Type} {work : Item → Except Failure Answer}
    {items : List Item} {answers : List Answer}
    (worked : items.mapM work = .ok answers) :
    List.Forall₂ (fun item answer => work item = .ok answer) items answers := by
  induction items generalizing answers with
  | nil =>
    rw [List.mapM_nil] at worked
    cases worked
    exact .nil
  | cons item rest inductionHypothesis =>
    rw [List.mapM_cons, bind_eq_ok] at worked
    obtain ⟨answer, first, later⟩ := worked
    rw [bind_eq_ok] at later
    obtain ⟨others, done, returned⟩ := later
    cases returned
    exact .cons first (inductionHypothesis done)

section Forall₂

variable {Left Right : Type} {related : Left → Right → Prop}
  {lefts : List Left} {rights : List Right}

theorem exists_right_of_mem (all : List.Forall₂ related lefts rights)
    {left : Left} (member : left ∈ lefts) :
    ∃ right ∈ rights, related left right := by
  induction all with
  | nil => cases member
  | cons pair others inductionHypothesis =>
    rcases List.mem_cons.mp member with rfl | later
    · exact ⟨_, List.mem_cons_self, pair⟩
    · obtain ⟨right, inside, pair⟩ := inductionHypothesis later
      exact ⟨right, List.mem_cons_of_mem _ inside, pair⟩

theorem exists_left_of_mem (all : List.Forall₂ related lefts rights)
    {right : Right} (member : right ∈ rights) :
    ∃ left ∈ lefts, related left right :=
  exists_right_of_mem all.flip member

end Forall₂

end Rbo.Foundation.Results
