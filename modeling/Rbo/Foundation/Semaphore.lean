import Mathlib.Data.List.Basic
import Mathlib.Tactic.Tauto

/-!
# Semaphores with a queue

A bounded number of slots.  Who finds none waits in a queue; whoever gives a
slot back wakes the first in the queue, which then tries again.  Between the
two, someone else may have taken the slot, and the woken one waits again.
-/

namespace Rbo.Foundation

universe waiterLevel

/-- The slots that are taken, who waits, and who was woken and has not tried
again. -/
structure Semaphore (Waiter : Type waiterLevel) where
  active : Nat
  waiters : List Waiter
  woken : List Waiter
  deriving DecidableEq

namespace Semaphore

variable {Waiter : Type waiterLevel}

/-- Nobody is there. -/
def free : Semaphore Waiter where
  active := 0
  waiters := []
  woken := []

/-- Take a slot, or wait when none is left. -/
def enter (limit : Nat) (waiter : Waiter) (semaphore : Semaphore Waiter) :
    Semaphore Waiter :=
  if limit ≤ semaphore.active then
    { semaphore with waiters := semaphore.waiters ++ [waiter] }
  else
    { semaphore with active := semaphore.active + 1 }

/-- One that was woken tries again. -/
def retry [DecidableEq Waiter] (limit : Nat) (waiter : Waiter)
    (semaphore : Semaphore Waiter) : Semaphore Waiter :=
  { semaphore with woken := semaphore.woken.erase waiter }.enter limit waiter

/-- Give a slot back and wake the first in the queue. -/
def release (semaphore : Semaphore Waiter) : Semaphore Waiter :=
  match semaphore.waiters with
  | [] => { semaphore with active := semaphore.active - 1 }
  | waiter :: waiters =>
    { active := semaphore.active - 1
      waiters := waiters
      woken := semaphore.woken ++ [waiter] }

/-- No more slots are taken than there are, and whoever waits does so for
slots that are taken or promised to the woken ones. -/
structure Fair (limit : Nat) (semaphore : Semaphore Waiter) : Prop where
  bounded : semaphore.active ≤ limit
  waits : semaphore.waiters ≠ [] →
    limit ≤ semaphore.active + semaphore.woken.length

variable {limit : Nat} {waiter : Waiter} {semaphore : Semaphore Waiter}

theorem fair_free : Fair limit (free : Semaphore Waiter) :=
  ⟨Nat.zero_le limit, fun waits => absurd rfl waits⟩

/-- Entering succeeds exactly when a slot is left. -/
theorem enter_active :
    (semaphore.enter limit waiter).active =
      if limit ≤ semaphore.active then semaphore.active
      else semaphore.active + 1 := by
  unfold enter
  split <;> rfl

theorem fair_enter (bounded : semaphore.active ≤ limit)
    (waits : semaphore.waiters ≠ [] →
      limit ≤ semaphore.active + 1 + semaphore.woken.length) :
    Fair limit (semaphore.enter limit waiter) := by
  unfold enter
  split
  next full =>
    refine ⟨bounded, fun _ => ?_⟩
    exact Nat.le_trans full (Nat.le_add_right _ _)
  next room =>
    refine ⟨Nat.lt_of_not_le room, fun waiting => ?_⟩
    exact waits waiting

theorem Fair.enter (fair : Fair limit semaphore) :
    Fair limit (semaphore.enter limit waiter) := by
  apply fair_enter fair.bounded
  intro waiting
  have taken := fair.waits waiting
  omega

theorem Fair.retry [DecidableEq Waiter] (fair : Fair limit semaphore)
    (woken : waiter ∈ semaphore.woken) :
    Fair limit (semaphore.retry limit waiter) := by
  have promised : (semaphore.woken.erase waiter).length + 1 =
      semaphore.woken.length := List.length_erase_add_one woken
  apply fair_enter
  · exact fair.bounded
  · intro waiting
    have taken := fair.waits waiting
    show limit ≤
      semaphore.active + 1 + (semaphore.woken.erase waiter).length
    omega

theorem Fair.release (fair : Fair limit semaphore) :
    Fair limit semaphore.release := by
  unfold Semaphore.release
  split
  next empty =>
    refine ⟨Nat.le_trans (Nat.sub_le _ _) fair.bounded, ?_⟩
    exact fun waiting => absurd empty waiting
  next first rest queue =>
    refine ⟨Nat.le_trans (Nat.sub_le _ _) fair.bounded, fun _ => ?_⟩
    have taken := fair.waits (by rw [queue]; exact List.cons_ne_nil _ _)
    show limit ≤ semaphore.active - 1 + (semaphore.woken ++ [first]).length
    rw [List.length_append, List.length_singleton]
    omega

theorem release_active :
    semaphore.release.active = semaphore.active - 1 := by
  unfold release
  split <;> rfl

/-! ## Who is in the queue -/

/-- One that waits or was woken. -/
def queued (semaphore : Semaphore Waiter) (waiter : Waiter) : Prop :=
  waiter ∈ semaphore.waiters ∨ waiter ∈ semaphore.woken

theorem queued_release :
    semaphore.release.queued waiter ↔ semaphore.queued waiter := by
  unfold Semaphore.release queued
  split
  · exact Iff.rfl
  next first rest queue =>
    rw [queue, List.mem_append, List.mem_singleton, List.mem_cons]
    tauto

theorem queued_enter {other : Waiter} (queued : semaphore.queued waiter) :
    (semaphore.enter limit other).queued waiter := by
  unfold Semaphore.enter
  split
  · exact queued.imp_left (List.mem_append_left _)
  · exact queued

theorem queued_enter_self (full : limit ≤ semaphore.active) :
    (semaphore.enter limit waiter).queued waiter := by
  unfold Semaphore.enter
  rw [if_pos full]
  exact Or.inl (List.mem_append_right _ (List.mem_singleton.mpr rfl))

theorem queued_retry [DecidableEq Waiter] {other : Waiter}
    (different : waiter ≠ other) (queued : semaphore.queued waiter) :
    (semaphore.retry limit other).queued waiter := by
  apply queued_enter
  exact queued.imp_right (List.mem_erase_of_ne different).mpr

theorem queued_retry_self [DecidableEq Waiter]
    (full : limit ≤ semaphore.active) :
    (semaphore.retry limit waiter).queued waiter :=
  queued_enter_self full

end Semaphore

end Rbo.Foundation
