import Mathlib.Data.List.Basic

/-!
# Comparisons item by item

Two lists are compared at the first place at which their items differ, and a
list that is too short goes on with an item of its own.  Such a comparison is
consistent when the comparison of the items is; both may be so for some items
only.
-/

namespace Rbo.Foundation

/-! ## Consistent comparisons -/

/-- A comparison that is a total preorder on some values. -/
structure PreorderOn {Value : Type} (cmp : Value → Value → Ordering)
    (allowed : Value → Prop) : Prop where
  swap : ∀ first second, allowed first → allowed second →
    cmp second first = (cmp first second).swap
  trans : ∀ first second third, allowed first → allowed second →
    allowed third → (cmp first second).isLE → (cmp second third).isLE →
    (cmp first third).isLE

namespace PreorderOn

variable {Value : Type} {cmp : Value → Value → Ordering}
  {allowed : Value → Prop} (preorder : PreorderOn cmp allowed)
  {first second third : Value} (one : allowed first) (two : allowed second)
  (three : allowed third)

include preorder one in
theorem refl : cmp first first = .eq := by
  have same := preorder.swap first first one one
  cases compared : cmp first first with
  | eq => rfl
  | lt =>
    rw [compared] at same
    cases same
  | gt =>
    rw [compared] at same
    cases same

include preorder one two in
/-- Of two values one precedes the other. -/
theorem total : (cmp first second).isLE ∨ (cmp second first).isLE := by
  rw [preorder.swap first second one two]
  cases cmp first second <;> decide

include preorder one two three in
theorem trans_lt (before : cmp first second = .lt)
    (after : (cmp second third).isLE) : cmp first third = .lt := by
  rcases preorder.total three one with back | forth
  · have looped : (cmp second first).isLE :=
      preorder.trans second third first two three one after back
    rw [preorder.swap first second one two, before] at looped
    cases looped
  · cases compared : cmp first third with
    | lt => rfl
    | gt =>
      rw [compared] at forth
      cases forth
    | eq =>
      have back : (cmp third first).isLE := by
        rw [preorder.swap first third one three, compared]
        rfl
      have looped : (cmp second first).isLE :=
        preorder.trans second third first two three one after back
      rw [preorder.swap first second one two, before] at looped
      cases looped

include preorder one two three in
theorem trans_eq (before : cmp first second = .eq)
    (after : cmp second third = .eq) : cmp first third = .eq := by
  have forth : (cmp first third).isLE :=
    preorder.trans first second third one two three
      (by rw [before]; rfl) (by rw [after]; rfl)
  have back : (cmp third first).isLE :=
    preorder.trans third second first three two one
      (by rw [preorder.swap second third two three, after]; rfl)
      (by rw [preorder.swap first second one two, before]; rfl)
  rw [preorder.swap first third one three] at back
  cases compared : cmp first third with
  | eq => rfl
  | lt =>
    rw [compared] at back
    cases back
  | gt =>
    rw [compared] at forth
    cases forth

include preorder one two three in
theorem trans_eq_lt (before : cmp first second = .eq)
    (after : cmp second third = .lt) : cmp first third = .lt := by
  have backwards : (cmp second first).isLE := by
    rw [preorder.swap first second one two, before]
    rfl
  rcases preorder.total three one with back | forth
  · have looped : (cmp third second).isLE :=
      preorder.trans third first second three one two back
        (by rw [before]; rfl)
    rw [preorder.swap second third two three, after] at looped
    cases looped
  · cases compared : cmp first third with
    | lt => rfl
    | gt =>
      rw [compared] at forth
      cases forth
    | eq =>
      have looped : (cmp third second).isLE :=
        preorder.trans third first second three one two
          (by rw [preorder.swap first third one three, compared]; rfl)
          (by rw [before]; rfl)
      rw [preorder.swap second third two three, after] at looped
      cases looped

end PreorderOn

/-! ## Lists -/

/-- The padding against a list. -/
def comparePad {Item : Type} (cmp : Item → Item → Ordering) (pad : Item) :
    List Item → Ordering
  | [] => .eq
  | item :: items => (cmp pad item).then (comparePad cmp pad items)

/-- The first difference decides; a list that is too short goes on with the
padding. -/
def comparePadded {Item : Type} (cmp : Item → Item → Ordering) (pad : Item) :
    List Item → List Item → Ordering
  | [], items => comparePad cmp pad items
  | item :: items, [] => (cmp item pad).then (comparePadded cmp pad items [])
  | first :: firsts, second :: seconds =>
    (cmp first second).then (comparePadded cmp pad firsts seconds)

section Lists

variable {Item : Type} {cmp : Item → Item → Ordering} {pad : Item}
  {allowed : Item → Prop}

/-- One place after another. -/
theorem comparePadded_step (same : cmp pad pad = .eq)
    (firsts seconds : List Item) :
    comparePadded cmp pad firsts seconds =
      (cmp (firsts.headD pad) (seconds.headD pad)).then
        (comparePadded cmp pad firsts.tail seconds.tail) := by
  cases firsts with
  | nil =>
    cases seconds with
    | nil =>
      rw [List.headD_nil, same]
      rfl
    | cons => rfl
  | cons =>
    cases seconds with
    | nil => rfl
    | cons => rfl

theorem allowed_headD {items : List Item} (padded : allowed pad)
    (all : ∀ item ∈ items, allowed item) : allowed (items.headD pad) := by
  cases items with
  | nil => exact padded
  | cons item items => exact all item List.mem_cons_self

theorem isLE_then_iff {order next : Ordering} :
    (order.then next).isLE = true ↔
      order = .lt ∨ order = .eq ∧ next.isLE = true := by
  cases order <;> cases next <;> decide

theorem comparePadded_swap (preorder : PreorderOn cmp allowed)
    (padded : allowed pad) (bound : Nat) :
    ∀ firsts seconds : List Item, firsts.length ≤ bound →
      seconds.length ≤ bound → (∀ item ∈ firsts, allowed item) →
      (∀ item ∈ seconds, allowed item) →
      comparePadded cmp pad seconds firsts =
        (comparePadded cmp pad firsts seconds).swap := by
  have same := preorder.refl padded
  induction bound with
  | zero =>
    intro firsts seconds short shorter _ _
    obtain rfl := List.length_eq_zero_iff.mp (Nat.le_zero.mp short)
    obtain rfl := List.length_eq_zero_iff.mp (Nat.le_zero.mp shorter)
    rfl
  | succ bound inductionHypothesis =>
    intro firsts seconds short shorter one two
    rw [comparePadded_step same firsts seconds,
      comparePadded_step same seconds firsts,
      preorder.swap _ _ (allowed_headD padded one)
        (allowed_headD padded two),
      inductionHypothesis firsts.tail seconds.tail
        (by rw [List.length_tail]; omega) (by rw [List.length_tail]; omega)
        (fun item member => one item (List.mem_of_mem_tail member))
        (fun item member => two item (List.mem_of_mem_tail member)),
      Ordering.swap_then]

theorem comparePadded_trans (preorder : PreorderOn cmp allowed)
    (padded : allowed pad) (bound : Nat) :
    ∀ firsts seconds thirds : List Item, firsts.length ≤ bound →
      seconds.length ≤ bound → thirds.length ≤ bound →
      (∀ item ∈ firsts, allowed item) → (∀ item ∈ seconds, allowed item) →
      (∀ item ∈ thirds, allowed item) →
      (comparePadded cmp pad firsts seconds).isLE →
      (comparePadded cmp pad seconds thirds).isLE →
      (comparePadded cmp pad firsts thirds).isLE := by
  have same := preorder.refl padded
  induction bound with
  | zero =>
    intro firsts seconds thirds short _ shorter _ _ _ _ _
    obtain rfl := List.length_eq_zero_iff.mp (Nat.le_zero.mp short)
    obtain rfl := List.length_eq_zero_iff.mp (Nat.le_zero.mp shorter)
    rfl
  | succ bound inductionHypothesis =>
    intro firsts seconds thirds short middle shorter one two three
      before after
    have first := allowed_headD padded one
    have second := allowed_headD padded two
    have third := allowed_headD padded three
    rw [comparePadded_step same, isLE_then_iff] at before after ⊢
    rcases before with less | ⟨equal, before⟩
    · refine Or.inl (preorder.trans_lt first second third less ?_)
      rcases after with later | ⟨also, -⟩
      · rw [later]
        rfl
      · rw [also]
        rfl
    · rcases after with later | ⟨also, after⟩
      · exact Or.inl (preorder.trans_eq_lt first second third equal later)
      · refine Or.inr ⟨preorder.trans_eq first second third equal also,
          inductionHypothesis firsts.tail seconds.tail thirds.tail
            (by rw [List.length_tail]; omega)
            (by rw [List.length_tail]; omega)
            (by rw [List.length_tail]; omega)
            (fun item member => one item (List.mem_of_mem_tail member))
            (fun item member => two item (List.mem_of_mem_tail member))
            (fun item member => three item (List.mem_of_mem_tail member))
            before after⟩

/-- Lists of comparable items are comparable. -/
theorem PreorderOn.padded (preorder : PreorderOn cmp allowed)
    (padded : allowed pad) :
    PreorderOn (comparePadded cmp pad) fun items =>
      ∀ item ∈ items, allowed item where
  swap := fun firsts seconds one two =>
    comparePadded_swap preorder padded (max firsts.length seconds.length)
      firsts seconds (Nat.le_max_left _ _) (Nat.le_max_right _ _) one two
  trans := fun firsts seconds thirds one two three =>
    comparePadded_trans preorder padded
      (max firsts.length (max seconds.length thirds.length)) firsts seconds
      thirds (Nat.le_max_left _ _)
      (Nat.le_trans (Nat.le_max_left _ _) (Nat.le_max_right _ _))
      (Nat.le_trans (Nat.le_max_right _ _) (Nat.le_max_right _ _)) one two
      three

end Lists

end Rbo.Foundation
