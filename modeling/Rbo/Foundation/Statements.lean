import Mathlib.Order.Defs.Unbundled

/-!
# Programs over tables whose statements may fail

A program reads and writes tables one statement at a time.  Every statement
may fail before it takes effect, and a failure is thrown to the program like
any other exception; what the earlier statements wrote stays.  A transaction
restores the tables when its body throws or when its commit fails.

Programs are specified by what they guarantee for the tables they start with,
whichever of their statements fail.
-/

namespace Rbo.Foundation

/-- The tables, and the failures that the next statements will meet. -/
structure Session (Tables Failure : Type) where
  tables : Tables
  failures : List (Option Failure)

/-- A program that throws failures and keeps its tables when it throws. -/
abbrev Program (Tables Failure : Type) (Answer : Type) :=
  ExceptT Failure (StateM (Session Tables Failure)) Answer

namespace Program

variable {Tables Failure Answer Next : Type}

/-- The answer of a program and the tables it leaves. -/
def execute (program : Program Tables Failure Answer) (tables : Tables)
    (failures : List (Option Failure)) :
    Except Failure Answer × Tables :=
  let result := program.run.run ⟨tables, failures⟩
  (result.1, result.2.tables)

/-- The effect of one statement that was not interrupted. -/
def perform (effect : Tables → Except Failure (Answer × Tables))
    (session : Session Tables Failure) :
    Except Failure Answer × Session Tables Failure :=
  match effect session.tables with
  | .ok (answer, tables) => (.ok answer, { session with tables := tables })
  | .error failure => (.error failure, session)

/-- One statement: it fails as announced, or takes effect as a whole. -/
def statement (effect : Tables → Except Failure (Answer × Tables)) :
    Program Tables Failure Answer :=
  ExceptT.mk fun session =>
    match session.failures with
    | [] => perform effect session
    | none :: failures =>
      perform effect { session with failures := failures }
    | some failure :: failures =>
      (.error failure, { session with failures := failures })

/-- A statement that only reads. -/
def query (read : Tables → Answer) : Program Tables Failure Answer :=
  statement fun tables => .ok (read tables, tables)

/-- A statement that always succeeds and answers nothing. -/
def command (write : Tables → Tables) : Program Tables Failure Unit :=
  statement fun tables => .ok ((), write tables)

/-- Run the body and commit; any failure restores the tables. -/
def transaction (body : Program Tables Failure Answer) :
    Program Tables Failure Answer :=
  ExceptT.mk fun session =>
    match (do
        let answer ← body
        command id
        return answer : Program Tables Failure Answer).run.run session with
    | (.ok answer, after) => (.ok answer, after)
    | (.error failure, after) =>
      (.error failure, { after with tables := session.tables })

/-! ## What a program guarantees -/

/-- Whichever statements fail, the answer and the tables left behind satisfy
the condition. -/
def Guarantees (program : Program Tables Failure Answer)
    (condition : Except Failure Answer → Tables → Prop)
    (tables : Tables) : Prop :=
  ∀ failures, condition (program.execute tables failures).1
    (program.execute tables failures).2

variable {program : Program Tables Failure Answer}
variable {condition weaker : Except Failure Answer → Tables → Prop}
variable {tables : Tables}

theorem Guarantees.imp (guarantees : program.Guarantees condition tables)
    (weakens : ∀ answer after, condition answer after →
      weaker answer after) :
    program.Guarantees weaker tables :=
  fun failures => weakens _ _ (guarantees failures)

theorem guarantees_pure (answer : Answer)
    (holds : condition (.ok answer) tables) :
    Guarantees (pure answer) condition tables :=
  fun _ => holds

theorem guarantees_throw (failure : Failure)
    (holds : condition (.error failure) tables) :
    Guarantees (throw failure) condition tables :=
  fun _ => holds

variable {rest : Answer → Program Tables Failure Next}

/-- A sequence: the rest runs on the tables the first part left. -/
theorem guarantees_bind {first : Program Tables Failure Answer}
    {condition : Except Failure Next → Tables → Prop}
    (guarantees : first.Guarantees
      (fun answer after => match answer with
        | .ok value => (rest value).Guarantees condition after
        | .error failure => condition (.error failure) after) tables) :
    Guarantees (first >>= rest) condition tables := by
  intro failures
  have reached := guarantees failures
  simp only [execute, ExceptT.run_bind, StateT.run_bind] at reached ⊢
  cases result : first.run.run ⟨tables, failures⟩ with
  | mk answer session =>
    rw [result] at reached
    cases answer with
    | ok value => exact reached session.failures
    | error failure => exact reached

theorem guarantees_map {make : Answer → Next}
    {condition : Except Failure Next → Tables → Prop}
    (guarantees : program.Guarantees
      (fun answer after => condition (answer.map make) after) tables) :
    Guarantees (make <$> program) condition tables := by
  rw [map_eq_pure_bind]
  apply guarantees_bind
  refine guarantees.imp ?_
  intro answer after holds
  cases answer with
  | ok value => exact guarantees_pure _ holds
  | error failure => exact holds

theorem guarantees_statement
    {effect : Tables → Except Failure (Answer × Tables)}
    (fails : ∀ failure, condition (.error failure) tables)
    (succeeds : ∀ answer after, effect tables = .ok (answer, after) →
      condition (.ok answer) after) :
    Guarantees (statement effect) condition tables := by
  have performed : ∀ failures : List (Option Failure),
      condition (perform effect ⟨tables, failures⟩).1
        (perform effect ⟨tables, failures⟩).2.tables := by
    intro failures
    unfold perform
    cases result : effect tables with
    | ok value => exact succeeds value.1 value.2 result
    | error failure => exact fails failure
  intro failures
  rcases failures with _ | ⟨_ | failure, failures⟩
  · exact performed []
  · exact performed failures
  · exact fails failure

theorem guarantees_query {read : Tables → Answer}
    (fails : ∀ failure, condition (.error failure) tables)
    (succeeds : condition (.ok (read tables)) tables) :
    Guarantees (query read) condition tables := by
  apply guarantees_statement fails
  intro answer after result
  simp only [Except.ok.injEq, Prod.mk.injEq] at result
  rw [← result.1, ← result.2]
  exact succeeds

/-- A statement and what follows it on the tables it leaves. -/
theorem guarantees_statement_bind
    {effect : Tables → Except Failure (Answer × Tables)}
    {condition : Except Failure Next → Tables → Prop}
    (fails : ∀ failure, condition (.error failure) tables)
    (succeeds : ∀ answer after, effect tables = .ok (answer, after) →
      (rest answer).Guarantees condition after) :
    Guarantees (statement effect >>= rest) condition tables := by
  apply guarantees_bind
  apply guarantees_statement
  · intro failure
    exact fails failure
  · intro answer after result
    exact succeeds answer after result

/-- A query and what follows it. -/
theorem guarantees_query_bind {read : Tables → Answer}
    {condition : Except Failure Next → Tables → Prop}
    (fails : ∀ failure, condition (.error failure) tables)
    (succeeds : (rest (read tables)).Guarantees condition tables) :
    Guarantees (query read >>= rest) condition tables := by
  apply guarantees_bind
  apply guarantees_query
  · intro failure
    exact fails failure
  · exact succeeds

theorem guarantees_liftExcept {outcome : Except Failure Answer}
    (holds : condition outcome tables) :
    Guarantees (liftExcept outcome) condition tables := by
  cases outcome with
  | ok answer => exact guarantees_pure answer holds
  | error failure => exact guarantees_throw failure holds

/-! ## What a program returns -/

/-- If the program returns, its answer and the tables it leaves satisfy the
condition; nothing is said of the tables when it throws. -/
def Returns (program : Program Tables Failure Answer)
    (condition : Answer → Tables → Prop) (tables : Tables) : Prop :=
  program.Guarantees
    (fun answer after => ∀ value, answer = .ok value →
      condition value after) tables

section Returns

variable {good better : Answer → Tables → Prop}

theorem Returns.imp (returns : program.Returns better tables)
    (weakens : ∀ value after, better value after → good value after) :
    program.Returns good tables :=
  fun failures value same => weakens _ _ (returns failures value same)

theorem returns_pure (answer : Answer) (holds : good answer tables) :
    Returns (pure answer : Program Tables Failure Answer) good tables := by
  intro failures value same
  cases same
  exact holds

theorem returns_throw (failure : Failure) :
    Returns (throw failure : Program Tables Failure Answer) good
      tables := by
  intro failures value absurd
  cases absurd

theorem returns_bind {first : Program Tables Failure Answer}
    {rest : Answer → Program Tables Failure Next}
    {condition : Next → Tables → Prop}
    (returns : first.Returns
      (fun value after => (rest value).Returns condition after) tables) :
    Returns (first >>= rest) condition tables := by
  apply guarantees_bind
  intro failures
  have reached := returns failures
  revert reached
  generalize first.execute tables failures = result
  rcases result with ⟨failure | value, after⟩
  · intro reached value absurd
    cases absurd
  · intro reached
    exact reached value rfl

theorem returns_statement
    {effect : Tables → Except Failure (Answer × Tables)}
    (succeeds : ∀ answer after, effect tables = .ok (answer, after) →
      good answer after) :
    Returns (statement effect) good tables := by
  apply guarantees_statement
  · intro failure value absurd
    cases absurd
  · intro answer after result value same
    cases same
    exact succeeds answer after result

theorem returns_query {read : Tables → Answer}
    (succeeds : good (read tables) tables) :
    Returns (query read : Program Tables Failure Answer) good tables := by
  apply returns_statement
  intro answer after result
  cases result
  exact succeeds

theorem returns_liftExcept {outcome : Except Failure Answer}
    (succeeds : ∀ answer, outcome = .ok answer → good answer tables) :
    Returns (liftExcept outcome : Program Tables Failure Answer) good
      tables := by
  cases outcome with
  | error failure => exact returns_throw failure
  | ok answer => exact returns_pure answer (succeeds answer rfl)

theorem returns_map {make : Answer → Next}
    {condition : Next → Tables → Prop}
    (returns : program.Returns
      (fun value after => condition (make value) after) tables) :
    Returns (make <$> program) condition tables := by
  rw [map_eq_pure_bind]
  apply returns_bind
  exact returns.imp fun value after holds => returns_pure _ holds

/-- A program says nothing of its answer, so anything may follow. -/
theorem returns_true (program : Program Tables Failure Answer) :
    program.Returns (fun _ _ => True) tables :=
  fun _ _ _ => trivial

/-- Nothing of a failed transaction stays. -/
theorem guarantees_transaction
    (fails : ∀ failure, condition (.error failure) tables)
    (succeeds : program.Returns
      (fun value after => condition (.ok value) after) tables) :
    Guarantees (transaction program) condition tables := by
  have commits : Returns (do
      let answer ← program
      command id
      return answer)
      (fun value after => condition (.ok value) after) tables := by
    apply returns_bind
    refine succeeds.imp ?_
    intro value after holds
    apply returns_bind
    apply returns_statement
    intro done left result
    cases result
    exact returns_pure value holds
  intro failures
  have committed := commits failures
  unfold transaction execute at *
  simp only [ExceptT.run_mk]
  rw [StateT.run]
  split
  next value left result =>
    rw [result] at committed
    exact committed value rfl
  next failure left result =>
    exact fails failure

end Returns

/-! ## Relations that every statement respects -/

/-- Whatever happens, the tables before and after are related. -/
def Respects (relation : Tables → Tables → Prop)
    (program : Program Tables Failure Answer) : Prop :=
  ∀ tables, program.Guarantees (fun _ after => relation tables after) tables

variable {relation : Tables → Tables → Prop}

theorem Respects.execute (respects : program.Respects relation)
    (tables : Tables) (failures : List (Option Failure)) :
    relation tables (program.execute tables failures).2 :=
  respects tables failures

section Preorder

variable [IsPreorder Tables relation]

theorem respects_pure (answer : Answer) :
    Respects relation (pure answer : Program Tables Failure Answer) :=
  fun tables => guarantees_pure answer (refl_of relation tables)

theorem respects_throw (failure : Failure) :
    Respects relation (throw failure : Program Tables Failure Answer) :=
  fun tables => guarantees_throw failure (refl_of relation tables)

theorem respects_liftExcept (outcome : Except Failure Answer) :
    Respects relation
      (liftExcept outcome : Program Tables Failure Answer) :=
  fun tables => guarantees_liftExcept (refl_of relation tables)

theorem respects_bind {first : Program Tables Failure Answer}
    {rest : Answer → Program Tables Failure Next}
    (respects : first.Respects relation)
    (others : ∀ answer, (rest answer).Respects relation) :
    Respects relation (first >>= rest) := by
  intro tables
  apply guarantees_bind
  refine (respects tables).imp ?_
  intro answer after related
  cases answer with
  | error failure => exact related
  | ok value =>
    refine (others value after).imp ?_
    intro _ final next
    exact trans_of relation related next

theorem respects_map (make : Answer → Next)
    (respects : program.Respects relation) :
    Respects relation (make <$> program) := by
  rw [map_eq_pure_bind]
  exact respects_bind respects fun answer => respects_pure (make answer)

theorem respects_statement
    {effect : Tables → Except Failure (Answer × Tables)}
    (related : ∀ tables answer after,
      effect tables = .ok (answer, after) → relation tables after) :
    Respects relation (statement effect) :=
  fun tables => guarantees_statement (fun _ => refl_of relation tables)
    fun answer after => related tables answer after

theorem respects_query (read : Tables → Answer) :
    Respects relation (query read : Program Tables Failure Answer) :=
  fun tables => guarantees_query (fun _ => refl_of relation tables)
    (refl_of relation tables)

end Preorder

end Program

end Rbo.Foundation
