import Mathlib.Data.List.Basic
import Mathlib.Data.List.Perm.Basic

/-!
# Slots that hold keys

A list of slots, some of which hold a key.  A slot is refilled or removed,
and the keys that are held change accordingly.
-/

namespace Rbo.Foundation

universe slotLevel keyLevel

variable {Slot : Type slotLevel} {Key : Type keyLevel}
  {key : Slot → Option Key} {slots : List Slot} {old new : Slot}
  {index : Nat}

/-- A refilled slot that holds what it held changes nothing. -/
theorem keys_set_same (found : slots[index]? = some old)
    (same : key new = key old) :
    (slots.set index new).filterMap key = slots.filterMap key := by
  induction slots generalizing index with
  | nil => rfl
  | cons slot slots induction =>
    cases index with
    | zero =>
      rw [List.getElem?_cons_zero, Option.some.injEq] at found
      rw [List.set_cons_zero, List.filterMap_cons, List.filterMap_cons,
        same, found]
    | succ index =>
      rw [List.getElem?_cons_succ] at found
      rw [List.set_cons_succ, List.filterMap_cons, List.filterMap_cons,
        induction found]

/-- A slot refilled without a key is as good as removed. -/
theorem keys_set_none (empty : key new = none) :
    (slots.set index new).filterMap key =
      (slots.eraseIdx index).filterMap key := by
  induction slots generalizing index with
  | nil => rfl
  | cons slot slots induction =>
    cases index with
    | zero =>
      rw [List.set_cons_zero, List.eraseIdx_cons_zero,
        List.filterMap_cons_none empty]
    | succ index =>
      rw [List.set_cons_succ, List.eraseIdx_cons_succ,
        List.filterMap_cons, List.filterMap_cons, induction]

theorem keys_eraseIdx_sublist :
    ((slots.eraseIdx index).filterMap key).Sublist (slots.filterMap key) :=
  (List.eraseIdx_sublist slots index).filterMap key

/-- A removed slot takes its key with it. -/
theorem keys_perm_eraseIdx {held : Key}
    (found : slots[index]? = some old) (holds : key old = some held) :
    (slots.filterMap key).Perm
      (held :: (slots.eraseIdx index).filterMap key) := by
  rw [List.getElem?_eq_some_iff] at found
  rcases found with ⟨inside, there⟩
  have removed := List.getElem_cons_eraseIdx_perm inside
  rw [there] at removed
  have keys := removed.symm.filterMap key
  rwa [List.filterMap_cons_some holds] at keys

/-- A slot without a key is refilled with one. -/
theorem keys_set_some {held : Key}
    (found : slots[index]? = some old) (empty : key old = none)
    (holds : key new = some held) :
    ((slots.set index new).filterMap key).Perm
      (held :: slots.filterMap key) := by
  have inside : index < slots.length := by
    rw [List.getElem?_eq_some_iff] at found
    exact found.1
  have refilled : (slots.set index new)[index]? = some new := by
    rw [List.getElem?_set_self inside]
  have keys :
      ((slots.set index new).filterMap key).Perm
        (held :: ((slots.set index new).eraseIdx index).filterMap key) :=
    keys_perm_eraseIdx refilled holds
  have cleared :
      (slots.set index old).filterMap key =
        (slots.eraseIdx index).filterMap key :=
    keys_set_none empty
  rw [keys_set_same found rfl] at cleared
  rw [List.eraseIdx_set_eq, ← cleared] at keys
  exact keys

end Rbo.Foundation
