import Mathlib.Data.List.Forall2

/-!
# Programs that change a state and may fail

A program reads and changes a state and ends with an answer or a failure.
What it did before a failure stays done.

A program is specified by a condition on how it ends and on the state it
leaves.  Sequences, loops and caught failures have one rule each.
-/

namespace Rbo.Foundation

/-- A program that keeps what it did when it fails. -/
abbrev Effect (State Failure : Type) (Answer : Type) :=
  ExceptT Failure (StateM State) Answer

namespace Effect

variable {State Failure Answer Next Item : Type}

/-- How a program ends, and the state it leaves. -/
def ended (program : Effect State Failure Answer) (state : State) :
    Except Failure Answer × State :=
  program.run.run state

/-- The program ends as the condition says. -/
def Ends (program : Effect State Failure Answer)
    (condition : Except Failure Answer → State → Prop) (state : State) :
    Prop :=
  condition (program.ended state).1 (program.ended state).2

/-- A part of a program that only reads the state and may fail. -/
def reading (read : State → Except Failure Answer) :
    Effect State Failure Answer :=
  ExceptT.mk fun state => (read state, state)

/-- One change of the state, made as a whole or refused. -/
def changing (change : State → Except Failure State) :
    Effect State Failure Unit :=
  ExceptT.mk fun state =>
    match change state with
    | .ok next => (.ok (), next)
    | .error failure => (.error failure, state)

/-- The failures of the program are passed over. -/
def ignoring (program : Effect State Failure Unit) :
    Effect State Failure Unit :=
  ExceptT.mk fun state => (.ok (), (program.ended state).2)

/-- The program with its failures told in other words. -/
def failingAs (rename : Failure → Failure)
    (program : Effect State Failure Answer) : Effect State Failure Answer :=
  ExceptT.mk fun state =>
    ((program.ended state).1.mapError rename, (program.ended state).2)

variable {program : Effect State Failure Answer}
  {condition weaker : Except Failure Answer → State → Prop} {state : State}

theorem Ends.imp (ends : program.Ends condition state)
    (weakens : ∀ ending after, condition ending after →
      weaker ending after) :
    program.Ends weaker state :=
  weakens _ _ ends

theorem ends_pure {answer : Answer} :
    Ends (pure answer) condition state ↔ condition (.ok answer) state :=
  Iff.rfl

theorem ends_throw {failure : Failure} :
    Ends (throw failure) condition state ↔
      condition (.error failure) state :=
  Iff.rfl

theorem ends_reading {read : State → Except Failure Answer} :
    Ends (reading read) condition state ↔ condition (read state) state :=
  Iff.rfl

theorem ends_changing {change : State → Except Failure State}
    {condition : Except Failure Unit → State → Prop} :
    Ends (changing change) condition state ↔
      (∀ failure, change state = .error failure →
        condition (.error failure) state) ∧
      ∀ next, change state = .ok next → condition (.ok ()) next := by
  unfold Ends ended changing
  cases changed : change state with
  | ok next => simp [ExceptT.run, ExceptT.mk, StateT.run, changed]
  | error failure => simp [ExceptT.run, ExceptT.mk, StateT.run, changed]

theorem ends_ignoring {program : Effect State Failure Unit}
    {condition : Except Failure Unit → State → Prop} :
    Ends (ignoring program) condition state ↔
      program.Ends (fun _ after => condition (.ok ()) after) state :=
  Iff.rfl

theorem ends_failingAs {rename : Failure → Failure} :
    Ends (failingAs rename program) condition state ↔
      program.Ends (fun ending after =>
        condition (ending.mapError rename) after) state :=
  Iff.rfl

/-- A sequence: the rest runs on the state that the first part left. -/
theorem ends_bind {first : Effect State Failure Answer}
    {rest : Answer → Effect State Failure Next}
    {condition : Except Failure Next → State → Prop} :
    Ends (first >>= rest) condition state ↔
      first.Ends (fun ending after =>
        match ending with
        | .ok answer => (rest answer).Ends condition after
        | .error failure => condition (.error failure) after) state := by
  unfold Ends ended
  rw [ExceptT.run_bind, StateT.run_bind]
  cases result : first.run.run state with
  | mk ending after =>
    cases ending with
    | ok answer => rfl
    | error failure => rfl

/-! ## What programs keep -/

/-- However the program ends, the invariant survives, and an answer is as the
condition says. -/
def Keeps (invariant : State → Prop) (answers : Answer → Prop)
    (program : Effect State Failure Answer) : Prop :=
  ∀ state, invariant state →
    program.Ends (fun ending after =>
      invariant after ∧ ∀ answer, ending = .ok answer → answers answer) state

variable {invariant : State → Prop} {answers : Answer → Prop}

theorem keeps_pure {answer : Answer} (holds : answers answer) :
    Keeps invariant answers (pure answer : Effect State Failure Answer) := by
  intro state kept
  refine ends_pure.mpr ⟨kept, ?_⟩
  rintro _ ⟨⟩
  exact holds

theorem keeps_throw {failure : Failure} :
    Keeps invariant answers (throw failure : Effect State Failure Answer) := by
  intro state kept
  exact ends_throw.mpr ⟨kept, nofun⟩

theorem keeps_reading {read : State → Except Failure Answer}
    (holds : ∀ state answer, invariant state → read state = .ok answer →
      answers answer) :
    Keeps invariant answers (reading read) := by
  intro state kept
  exact ends_reading.mpr ⟨kept, fun answer found =>
    holds state answer kept found⟩

theorem keeps_changing {change : State → Except Failure State}
    {answers : Unit → Prop} (answered : answers ())
    (holds : ∀ state next, invariant state → change state = .ok next →
      invariant next) :
    Keeps invariant answers (changing change) := by
  intro state kept
  refine ends_changing.mpr ⟨fun failure _ => ⟨kept, nofun⟩, ?_⟩
  intro next changed
  exact ⟨holds state next kept changed, fun _ _ => answered⟩

theorem Keeps.ignoring {program : Effect State Failure Unit}
    {answers after : Unit → Prop} (keeps : Keeps invariant answers program)
    (answered : after ()) :
    Keeps invariant after (ignoring program) := by
  intro state kept
  refine ends_ignoring.mpr ((keeps state kept).imp ?_)
  exact fun _ _ holds => ⟨holds.1, fun _ _ => answered⟩

theorem Keeps.failingAs {rename : Failure → Failure}
    (keeps : Keeps invariant answers program) :
    Keeps invariant answers (failingAs rename program) := by
  intro state kept
  refine ends_failingAs.mpr ((keeps state kept).imp ?_)
  intro ending after holds
  refine ⟨holds.1, fun answer found => ?_⟩
  cases ending with
  | ok value => exact holds.2 answer found
  | error failure => cases found

theorem Keeps.bind {first : Effect State Failure Answer}
    {rest : Answer → Effect State Failure Next} {final : Next → Prop}
    (keeps : Keeps invariant answers first)
    (later : ∀ answer, answers answer →
      Keeps invariant final (rest answer)) :
    Keeps invariant final (first >>= rest) := by
  intro state kept
  refine ends_bind.mpr ((keeps state kept).imp ?_)
  intro ending after holds
  cases ending with
  | ok answer => exact later answer (holds.2 answer rfl) after holds.1
  | error failure => exact ⟨holds.1, nofun⟩

theorem keeps_forM {items : List Item}
    {body : Item → Effect State Failure Unit} {answers : Unit → Prop}
    (answered : answers ())
    (turn : ∀ item ∈ items, Keeps invariant answers (body item)) :
    Keeps invariant answers (items.forM body) := by
  induction items with
  | nil => exact keeps_pure answered
  | cons item rest inductionHypothesis =>
    refine (turn item List.mem_cons_self).bind fun _ _ => ?_
    exact inductionHypothesis fun other member =>
      turn other (List.mem_cons_of_mem _ member)

end Effect

end Rbo.Foundation
