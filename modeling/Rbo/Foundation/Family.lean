import Mathlib.Logic.Function.Basic
import Rbo.Foundation.Run

/-!
# Families of machines and pools of tasks

A family has one machine for every key; a step is a step of one of them.  What
the machine of a key reaches in a run of the family, it reaches in a run of its
own.

A pool is a list of tasks in any order.  A step takes a task out and may put
its successor back.
-/

namespace Rbo.Foundation

universe keyLevel stateLevel labelLevel taskLevel

namespace Machine

variable {Key : Type keyLevel} [DecidableEq Key]
  {State : Type stateLevel} {Label : Type labelLevel}

/-- One machine for every key. -/
def family (Key : Type keyLevel) [DecidableEq Key]
    (machine : Machine State Label) : Machine (Key → State) (Key × Label) where
  initial states := ∀ key, machine.initial (states key)
  step states label :=
    (machine.step (states label.1) label.2).map
      (Function.update states label.1)

/-- The condition on a step, for the machine that makes it. -/
def everywhere (allowed : State → Label → Prop) (states : Key → State)
    (label : Key × Label) : Prop :=
  allowed (states label.1) label.2

variable {machine : Machine State Label} {allowed : State → Label → Prop}

/-- A step of the family is a step of one machine, or none of it. -/
theorem reachable_of_family_step {states next : Key → State}
    {label : Key × Label} {key : Key}
    (reachable : machine.Reachable allowed (states key))
    (meets : everywhere allowed states label)
    (step : (machine.family Key).step states label = some next) :
    machine.Reachable allowed (next key) := by
  rcases Option.map_eq_some_iff.mp step with ⟨state, stepped, rfl⟩
  by_cases same : key = label.1
  · subst same
    rw [Function.update_self]
    exact reachable.next meets stepped
  · rw [Function.update_of_ne same]
    exact reachable

/-- The machines of a family run on their own. -/
theorem Reachable.member {states : Key → State}
    (reachable : (machine.family Key).Reachable (everywhere allowed) states)
    (key : Key) : machine.Reachable allowed (states key) := by
  rcases reachable with ⟨start, initial, steps⟩
  induction steps with
  | refl => exact .start (initial key)
  | tail _ last induction =>
    rcases last with ⟨label, meets, step⟩
    exact reachable_of_family_step induction meets step

/-- A run of one machine is a run of the family that leaves the others as they
are. -/
theorem Steps.family {state next : State} {states : Key → State} {key : Key}
    (steps : machine.Steps allowed state next) (there : states key = state) :
    (machine.family Key).Steps (everywhere allowed) states
      (Function.update states key next) := by
  induction steps with
  | refl =>
    rw [← there, Function.update_eq_self]
  | tail _ last induction =>
    rcases last with ⟨label, meets, step⟩
    refine induction.tail ⟨(key, label), ?_, ?_⟩
    · unfold everywhere
      rw [Function.update_self]
      exact meets
    · change ((machine.step (Function.update states key _ key) label).map
        (Function.update (Function.update states key _) key)) = _
      rw [Function.update_self, step, Option.map_some,
        Function.update_idem]

end Machine

section Pools

variable {Task : Type taskLevel} [DecidableEq Task]
  {tasks : List Task} {old : Task}

/-- A task is taken out, and its successor is put back. -/
def succeed (tasks : List Task) (old : Task) (next : Option Task) :
    List Task :=
  next.toList ++ tasks.erase old

theorem perm_taken (member : old ∈ tasks) :
    tasks.Perm (old :: tasks.erase old) :=
  List.perm_cons_erase member

end Pools

section Successors

variable {Task : Type taskLevel} {Value : Type keyLevel}
  {next : Option Task} {rest : List Task}

theorem mem_successor {task : Task} :
    task ∈ next.toList ++ rest ↔ next = some task ∨ task ∈ rest := by
  rw [List.mem_append, Option.mem_toList]

theorem countP_successor {counts : Task → Bool} :
    (next.toList ++ rest).countP counts =
      (if next.any counts then 1 else 0) + rest.countP counts := by
  rw [List.countP_append]
  cases next with
  | none => rfl
  | some task =>
    rw [Option.toList_some, List.countP_singleton, Option.any_some]

theorem filterMap_successor {value : Task → Option Value} :
    (next.toList ++ rest).filterMap value =
      (next.bind value).toList ++ rest.filterMap value := by
  rw [List.filterMap_append]
  cases next with
  | none => rfl
  | some task =>
    rw [Option.toList_some, Option.bind_some]
    cases is : value task with
    | none => rw [List.filterMap_cons_none is]; rfl
    | some held => rw [List.filterMap_cons_some is]; rfl

end Successors

end Rbo.Foundation
