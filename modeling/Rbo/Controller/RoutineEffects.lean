import Rbo.Controller.SegmentShapes

/-!
# Routine effects

Only `job_started` and an adoption store the identity of a process, only a
remote dispatch offers a lease, and only a report is answered by an adoption.
Every other segment of the Controller has routine effects.
-/

namespace Rbo.Controller.Execution

open Rbo.Controller.Lifecycle

/-! ## Routine effects -/

/-- Does an effect store the identity of a process? -/
def Effect.identifies : Effect → Bool
  | .write (.updateAttempt _ fields) => fields.processIdentity.isSome
  | .write (.insertAttempt row) => row.processIdentity.isSome
  | _ => false

/-- Does an effect offer a lease? -/
def Effect.offers : Effect → Bool
  | .send _ .leaseOffer _ => true
  | _ => false

/-- Does an effect adopt an attempt? -/
def Effect.adopts : Effect → Bool
  | .send _ (.reconcileDecision adopt) _ => adopt
  | _ => false

/-- Effects that store no identity, offer no lease and adopt no attempt. -/
abbrev Routine (effects : List Effect) : Prop :=
  effects.any (fun effect =>
    effect.identifies || effect.offers || effect.adopts) = false

section Segments

variable {state : ControllerState}

theorem routine_of_plain {effect : Effect} (plain : effect.plain = true) :
    (effect.identifies || effect.offers || effect.adopts) = false := by
  cases effect with
  | write statement =>
    cases statement with
    | insertJob row => cases plain
    | insertAttempt row => cases plain
    | updateAttempt attemptId fields =>
      rcases of_decide_eq_true plain with ⟨_, _, identity, _⟩
      simp [Effect.identifies, Effect.offers, Effect.adopts, identity]
    | _ => rfl
  | send agentId frame header =>
    cases frame with
    | leaseOffer => cases plain
    | reconcileDecision adopt =>
      cases adopt with
      | true => cases plain
      | false => rfl
    | _ => rfl
  | file attemptId file => rfl

/-- Of the causes only `job_started` and an adoption are not routine. -/
theorem routine_of_caused {event : Event} {effects : List Effect}
    (frame : ∀ agentId header identity,
      event ≠ .frame agentId header (.jobStarted identity))
    (report : ∀ agentId report, event ≠ .recoveryReport agentId report)
    (caused : Caused state event effects) : Routine effects := by
  unfold Routine
  rw [List.any_eq_false]
  intro effect member
  rw [Bool.not_eq_true]
  cases caused effect member with
  | plain is => exact routine_of_plain is
  | identified => exact absurd rfl (frame _ _ _)
  | adopted => exact absurd rfl (report _ _)
  | adopts => exact absurd rfl (report _ _)
  | _ => rfl

/-- A remote dispatch offers the lease of the attempt that it creates. -/
theorem initiateRemoteAttempt_eq_some {jobId agentId : Nat}
    {effects : List Effect}
    (initiated : state.initiateRemoteAttempt jobId agentId = some effects) :
    agentId ∈ state.memory.connectedAgents ∧
      effects =
        [.write (.insertAttempt (state.remoteAttempt jobId agentId)),
          transitionJobState jobId .leasing {},
          .send agentId .leaseOffer
            { attemptId := state.db.attempts.length
              leaseId := state.db.attempts.length
              leaseEpoch := state.db.nextLeaseEpochForJob jobId }] := by
  unfold ControllerState.initiateRemoteAttempt at initiated
  split at initiated
  · cases initiated
  next ready =>
    rw [not_or, Decidable.not_not] at ready
    cases initiated
    exact ⟨ready.2, rfl⟩

/-- The effects of a segment are routine, or those of a remote dispatch. -/
def RoutineOrDispatch (state : ControllerState) (effects : List Effect) :
    Prop :=
  Routine effects ∨ ∃ jobId agentId,
    state.initiateRemoteAttempt jobId agentId = some effects

/-- Apart from `job_started` and `recovery_report`, an event has routine
effects or those of a remote dispatch. -/
theorem routine_segment {event : Event} {segment : Segment}
    (frame : ∀ agentId header identity,
      event ≠ .frame agentId header (.jobStarted identity))
    (report : ∀ agentId report, event ≠ .recoveryReport agentId report)
    (taken : state.segment event = some segment) :
    RoutineOrDispatch state segment.effects := by
  cases shape_segment taken with
  | calm effects _ => exact Or.inl (routine_of_caused frame report effects)
  | remote found initiated => exact Or.inr ⟨_, _, initiated⟩
  | _ => exact Or.inl rfl

/-- A report of the agent offers no lease. -/
theorem offers_onRecoveryReport (agentId : Nat) (report : RecoveryReport) :
    (state.onRecoveryReport agentId report).effects.any Effect.offers =
      false := by
  cases shape_onRecoveryReport agentId report with
  | calm effects _ =>
    rw [List.any_eq_false]
    intro effect member
    rw [Bool.not_eq_true]
    cases effects effect member with
    | plain is =>
      have routine := routine_of_plain is
      rw [Bool.or_eq_false_iff, Bool.or_eq_false_iff] at routine
      exact routine.1.2
    | _ => rfl

end Segments

end Rbo.Controller.Execution
