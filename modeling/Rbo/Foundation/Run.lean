import Mathlib.Logic.Relation

/-!
# Runs of a machine

A machine steps from a state under a label to at most one next state.  A
condition on steps restricts the runs that are considered: an invariant is
shown to survive every step that meets the condition, and then holds in every
state such a run reaches.
-/

namespace Rbo.Foundation

universe stateLevel labelLevel

/-- A machine whose steps are computed from a state and a label. -/
structure Machine (State : Type stateLevel) (Label : Type labelLevel) where
  initial : State → Prop
  step : State → Label → Option State

namespace Machine

variable {State : Type stateLevel} {Label : Type labelLevel}

/-- One step that meets the condition. -/
def Next (machine : Machine State Label) (allowed : State → Label → Prop)
    (state next : State) : Prop :=
  ∃ label, allowed state label ∧ machine.step state label = some next

/-- Finitely many steps that each meet the condition. -/
abbrev Steps (machine : Machine State Label)
    (allowed : State → Label → Prop) : State → State → Prop :=
  Relation.ReflTransGen (machine.Next allowed)

/-- The states of the runs all of whose steps meet the condition. -/
def Reachable (machine : Machine State Label)
    (allowed : State → Label → Prop) (state : State) : Prop :=
  ∃ start, machine.initial start ∧ machine.Steps allowed start state

variable {machine : Machine State Label} {allowed : State → Label → Prop}

theorem Reachable.start {state : State} (initial : machine.initial state) :
    machine.Reachable allowed state :=
  ⟨state, initial, .refl⟩

theorem Reachable.next {state next : State} {label : Label}
    (reachable : machine.Reachable allowed state)
    (meets : allowed state label)
    (step : machine.step state label = some next) :
    machine.Reachable allowed next := by
  rcases reachable with ⟨start, initial, steps⟩
  exact ⟨start, initial, steps.tail ⟨label, meets, step⟩⟩

theorem Reachable.steps {state next : State}
    (reachable : machine.Reachable allowed state)
    (steps : machine.Steps allowed state next) :
    machine.Reachable allowed next := by
  rcases reachable with ⟨start, initial, before⟩
  exact ⟨start, initial, before.trans steps⟩

/-- What every allowed step preserves is preserved by every run. -/
theorem Steps.preserves {invariant : State → Prop}
    (preserved : ∀ state label next, invariant state →
      allowed state label → machine.step state label = some next →
      invariant next)
    {state next : State} (steps : machine.Steps allowed state next)
    (holds : invariant state) : invariant next := by
  induction steps with
  | refl => exact holds
  | tail _ last induction =>
    rcases last with ⟨label, meets, step⟩
    exact preserved _ label _ induction meets step

/-- An invariant that holds at the start holds in every reachable state. -/
theorem Reachable.invariant {invariant : State → Prop}
    (initially : ∀ state, machine.initial state → invariant state)
    (preserved : ∀ state label next, invariant state →
      allowed state label → machine.step state label = some next →
      invariant next)
    {state : State} (reachable : machine.Reachable allowed state) :
    invariant state := by
  rcases reachable with ⟨start, initial, steps⟩
  exact steps.preserves preserved (initially start initial)

/-- The state after a list of labels, when every step is defined. -/
def run (machine : Machine State Label) (state : State) :
    List Label → Option State
  | [] => some state
  | label :: labels => do
    let next ← machine.step state label
    machine.run next labels

theorem run_single {state : State} {label : Label} :
    machine.run state [label] = machine.step state label := by
  rw [run]
  cases machine.step state label with
  | none => rfl
  | some next => rfl

theorem run_append {state : State} {first second : List Label} :
    machine.run state (first ++ second) =
      (machine.run state first).bind fun next => machine.run next second := by
  induction first generalizing state with
  | nil => rfl
  | cons label labels induction =>
    rw [List.cons_append, run, run]
    cases machine.step state label with
    | none => rfl
    | some next => exact induction

/-- Do the steps of a list of labels all meet a decidable condition? -/
def runMeets (machine : Machine State Label)
    (meets : State → Label → Bool) (state : State) :
    List Label → Bool
  | [] => true
  | label :: labels =>
    meets state label &&
      match machine.step state label with
      | none => false
      | some next => machine.runMeets meets next labels

/-- A list of labels whose steps meet the condition is a run. -/
theorem steps_of_run (meets : State → Label → Bool)
    (sound : ∀ state label, meets state label = true → allowed state label)
    {labels : List Label} {state final : State}
    (met : machine.runMeets meets state labels = true)
    (ran : machine.run state labels = some final) :
    machine.Steps allowed state final := by
  induction labels generalizing state with
  | nil =>
    rw [run, Option.some.injEq] at ran
    rw [ran]
  | cons label labels induction =>
    rw [runMeets, Bool.and_eq_true] at met
    cases stepped : machine.step state label with
    | none =>
      rw [run, stepped] at ran
      cases ran
    | some next =>
      rw [stepped] at met
      rw [run, stepped] at ran
      exact (induction met.2 ran).head
        ⟨label, sound state label met.1, stepped⟩

/-- Any list of labels that can be followed is a run. -/
theorem steps_of_run_eq_some {labels : List Label} {state final : State}
    (ran : machine.run state labels = some final) :
    machine.Steps (fun _ _ => True) state final := by
  induction labels generalizing state with
  | nil =>
    rw [run, Option.some.injEq] at ran
    rw [ran]
  | cons label labels induction =>
    obtain ⟨next, stepped, later⟩ := Option.bind_eq_some_iff.mp ran
    exact (induction later).head ⟨label, trivial, stepped⟩

theorem reachable_of_run {labels : List Label} {start final : State}
    (initial : machine.initial start)
    (ran : machine.run start labels = some final) :
    machine.Reachable (fun _ _ => True) final :=
  ⟨start, initial, steps_of_run_eq_some ran⟩

end Machine

end Rbo.Foundation
