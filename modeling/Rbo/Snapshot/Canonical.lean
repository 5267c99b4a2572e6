import Mathlib.Algebra.Order.BigOperators.Group.List
import Mathlib.Data.List.Sort
import Rbo.Foundation.JsonRoundTrip

/-!
# The canonical text of a value

`stableStringify` sorts the names of every object.  On values that JSON can
write it tells two values apart exactly when they differ in more than the
order of members: the text is read back as the value in canonical form, and
the canonical form forgets the order and nothing else.

A member whose value is `undefined` is printed, though `JSON.stringify`
leaves it out; so the text survives storage exactly when there is none.
-/

namespace Rbo.Snapshot.Canonical

open Rbo.Foundation

/-! ## `stableStringify` -/

/-- The order in which `sort` puts names. -/
def byName {Value : Type} (left right : JsString × Value) : Bool :=
  decide (left.1 ≤ right.1)

mutual

/-- `stableStringify`; `JSON.stringify(undefined)` is not a text. -/
def stableStringify : JsValue → Option (List Char)
  | .array items => some (bracketed '[' ']' (stableItems items))
  | .object members =>
    some (bracketed '{' '}' (((stableMembers members).mergeSort byName).map
      fun member => quote member.1 ++ ':' :: member.2))
  | value => jsonStringify value

/-- The texts that are joined; `join` prints nothing for `undefined`. -/
def stableItems : List JsValue → List (List Char)
  | [] => []
  | item :: items => (stableStringify item).getD [] :: stableItems items

/-- Names with the texts that a template prints behind them. -/
def stableMembers : List (JsString × JsValue) → List (JsString × List Char)
  | [] => []
  | (key, value) :: members =>
    (key, (stableStringify value).getD "undefined".toList) ::
      stableMembers members

end

/-! ## Equality up to the order of members -/

/-- Equality of numbers, `-0` and `0` being one. -/
def equalNumbers : JsNumber → JsNumber → Prop
  | .zero _, other => ∃ negative, other = .zero negative
  | value, other => value = other

mutual

/-- The values are equal up to the order of members. -/
def Same : JsValue → JsValue → Prop
  | .undefined, other => other = .undefined
  | .null, other => other = .null
  | .bool value, other => other = .bool value
  | .number value, other =>
    ∃ otherValue, other = .number otherValue ∧
      equalNumbers value otherValue
  | .string value, other => other = .string value
  | .array items, other =>
    ∃ others, other = .array others ∧ SameItems items others
  | .object members, other =>
    ∃ others, other = .object others ∧
      (members.map Prod.fst).Perm (others.map Prod.fst) ∧
      SameMembers members others

/-- The items are the same, one by one. -/
def SameItems : List JsValue → List JsValue → Prop
  | [], others => others = []
  | item :: items, others =>
    ∃ first rest, others = first :: rest ∧ Same item first ∧
      SameItems items rest

/-- Every member has a counterpart of its name. -/
def SameMembers :
    List (JsString × JsValue) → List (JsString × JsValue) → Prop
  | [], _ => True
  | (key, value) :: members, others =>
    (∃ other, (key, other) ∈ others ∧ Same value other) ∧
      SameMembers members others

end

/-- A value that JSON can write. -/
structure JsonLike (value : JsValue) : Prop where
  isDefined : value.Everywhere (· ≠ .undefined)
  isFinite : value.Everywhere fun
    | .number number =>
      number ≠ .nan ∧ ∀ negative, number ≠ .infinity negative
    | _ => True
  distinct : value.Distinct

/-! ## The canonical form -/

mutual

/-- The value with every object in order and without a negative zero. -/
def canonicalForm : JsValue → JsValue
  | .number value => storedNumber value
  | .array items => .array (canonicalItems items)
  | .object members => .object ((canonicalMembers members).mergeSort byName)
  | value => value

def canonicalItems : List JsValue → List JsValue
  | [] => []
  | item :: items => canonicalForm item :: canonicalItems items

def canonicalMembers :
    List (JsString × JsValue) → List (JsString × JsValue)
  | [] => []
  | (key, value) :: members =>
    (key, canonicalForm value) :: canonicalMembers members

end

theorem stableItems_eq (items : List JsValue) :
    stableItems items =
      items.map fun item => (stableStringify item).getD [] := by
  induction items with
  | nil => rfl
  | cons item items induction =>
    rw [stableItems, induction, List.map_cons]

theorem stableMembers_eq (members : List (JsString × JsValue)) :
    stableMembers members = members.map fun member =>
      (member.1, (stableStringify member.2).getD "undefined".toList) := by
  induction members with
  | nil => rfl
  | cons member members induction =>
    rw [stableMembers, induction, List.map_cons]

theorem canonicalItems_eq (items : List JsValue) :
    canonicalItems items = items.map canonicalForm := by
  induction items with
  | nil => rfl
  | cons item items induction =>
    rw [canonicalItems, induction, List.map_cons]

theorem canonicalMembers_eq (members : List (JsString × JsValue)) :
    canonicalMembers members =
      members.map fun member => (member.1, canonicalForm member.2) := by
  induction members with
  | nil => rfl
  | cons member members induction =>
    rw [canonicalMembers, induction, List.map_cons]

/-! ## Sorting by name -/

section Sorting

variable {Value Other : Type}

theorem byName_trans (first second third : JsString × Value)
    (below : byName first second = true)
    (alsoBelow : byName second third = true) : byName first third = true := by
  unfold byName at *
  rw [decide_eq_true_eq] at *
  exact List.le_trans below alsoBelow

theorem byName_total (left right : JsString × Value) :
    (byName left right || byName right left) = true := by
  unfold byName
  rw [Bool.or_eq_true, decide_eq_true_eq, decide_eq_true_eq]
  exact List.le_total _ _

theorem map_sortByName (change : JsString × Value → Other)
    (members : List (JsString × Value)) :
    (members.map fun member => (member.1, change member)).mergeSort byName =
      (members.mergeSort byName).map fun member =>
        (member.1, change member) := by
  refine (List.map_mergeSort ?_).symm
  intro left _ right _
  rfl

/-- Lists with distinct names are sorted alike when they are alike. -/
theorem sortByName_eq_iff {members others : List (JsString × Value)}
    (distinct : (members.map Prod.fst).Nodup) :
    members.mergeSort byName = others.mergeSort byName ↔
      members.Perm others := by
  constructor
  · intro same
    exact (List.mergeSort_perm members byName).symm.trans
      (same ▸ List.mergeSort_perm others byName)
  · intro alike
    refine List.Perm.eq_of_pairwise ?_
      (List.pairwise_mergeSort byName_trans byName_total members)
      (List.pairwise_mergeSort byName_trans byName_total others)
      ((List.mergeSort_perm members byName).trans
        (alike.trans (List.mergeSort_perm others byName).symm))
    intro left right leftMember rightMember below above
    unfold byName at below above
    rw [decide_eq_true_eq] at below above
    have inLeft := List.mem_mergeSort.mp leftMember
    have inRight := alike.mem_iff.mpr (List.mem_mergeSort.mp rightMember)
    exact List.inj_on_of_nodup_map distinct inLeft inRight
      (List.le_antisymm below above)

end Sorting

/-! ## The text is read back -/

variable {value : JsValue}

/-- A value that JSON can write has a text, read as the canonical form. -/
theorem readsAs_stableStringify (like : JsonLike value) :
    ∃ text, stableStringify value = some text ∧
      ReadsAs text (canonicalForm value) := by
  rcases like with ⟨isDefined, isFinite, distinct⟩
  induction value using JsValue.induct with
  | undefined => exact absurd rfl isDefined
  | null => exact ⟨_, rfl, readsAs_null⟩
  | bool value => exact ⟨_, rfl, readsAs_bool value⟩
  | number value => exact ⟨_, rfl, readsAs_number value⟩
  | string value => exact ⟨_, rfl, readsAs_string value⟩
  | array items induction =>
    have allDefined := ((everywhere_array items).mp isDefined).2
    have allFinite := ((everywhere_array items).mp isFinite).2
    have allDistinct := ((everywhere_array items).mp distinct).2
    refine ⟨_, rfl, ?_⟩
    rw [canonicalForm, canonicalItems_eq, stableItems_eq]
    refine readsAs_array ?_
    rw [List.forall₂_map_left_iff, List.forall₂_map_right_iff,
      List.forall₂_same]
    intro item member
    rcases induction item member (allDefined item member)
      (allFinite item member) (allDistinct item member) with
      ⟨text, printed, reads⟩
    rwa [printed]
  | object members induction =>
    have allDefined := ((everywhere_object members).mp isDefined).2
    have allFinite := ((everywhere_object members).mp isFinite).2
    rcases (everywhere_object members).mp distinct with
      ⟨names, allDistinct⟩
    refine ⟨_, rfl, ?_⟩
    rw [canonicalForm, canonicalMembers_eq, stableMembers_eq,
      map_sortByName, map_sortByName,
      List.map_map]
    refine readsAs_object ?_ ?_
    · rw [List.forall₂_map_left_iff, List.forall₂_map_right_iff,
        List.forall₂_same]
      intro member inside
      have member' := List.mem_mergeSort.mp inside
      rcases induction member member' (allDefined member member')
        (allFinite member member') (allDistinct member member') with
        ⟨text, printed, reads⟩
      exact ⟨text, by rw [Function.comp_apply, printed]; rfl, reads⟩
    · rw [List.map_map]
      exact ((List.mergeSort_perm members byName).map Prod.fst).nodup_iff.mpr
        names

/-! ## The canonical form forgets the order only -/

theorem sameItems_iff (items others : List JsValue) :
    SameItems items others ↔ List.Forall₂ Same items others := by
  induction items generalizing others with
  | nil => rw [SameItems, List.forall₂_nil_left_iff]
  | cons item items induction =>
    rw [SameItems, List.forall₂_cons_left_iff]
    constructor
    · rintro ⟨first, rest, rfl, same, more⟩
      exact ⟨first, rest, same, (induction rest).mp more, rfl⟩
    · rintro ⟨first, rest, same, more, rfl⟩
      exact ⟨first, rest, rfl, same, (induction rest).mpr more⟩

theorem sameMembers_iff (members others : List (JsString × JsValue)) :
    SameMembers members others ↔ ∀ member ∈ members,
      ∃ other, (member.1, other) ∈ others ∧ Same member.2 other := by
  induction members with
  | nil => simp [SameMembers]
  | cons member members induction =>
    rw [SameMembers, induction, List.forall_mem_cons]

/-- The canonical form is a value of the same kind. -/
theorem kind_of_canonicalForm (like : JsonLike value) :
    match canonicalForm value with
    | .undefined => False
    | .null => value = .null
    | .bool canonical => value = .bool canonical
    | .number canonical => ∃ number, value = .number number ∧
        storedNumber number = .number canonical
    | .string canonical => value = .string canonical
    | .array canonical => ∃ items, value = .array items ∧
        items.map canonicalForm = canonical
    | .object canonical => ∃ members, value = .object members ∧
        (canonicalMembers members).mergeSort byName = canonical := by
  cases value with
  | undefined => exact like.isDefined rfl
  | null => rfl
  | bool value => rfl
  | number number =>
    cases number with
    | nan => exact absurd rfl like.isFinite.1
    | infinity negative => exact absurd rfl (like.isFinite.2 negative)
    | zero negative => exact ⟨_, rfl, rfl⟩
    | finite negative magnitude => exact ⟨_, rfl, rfl⟩
  | string value => rfl
  | array items => exact ⟨items, rfl, (canonicalItems_eq items).symm⟩
  | object members => exact ⟨members, rfl, rfl⟩

theorem JsonLike.item {items : List JsValue} (like : JsonLike (.array items))
    {item : JsValue} (member : item ∈ items) : JsonLike item where
  isDefined := ((everywhere_array items).mp like.isDefined).2 item member
  isFinite := ((everywhere_array items).mp like.isFinite).2 item member
  distinct := ((everywhere_array items).mp like.distinct).2 item member

theorem JsonLike.member {members : List (JsString × JsValue)}
    (like : JsonLike (.object members)) {member : JsString × JsValue}
    (inside : member ∈ members) : JsonLike member.2 where
  isDefined := ((everywhere_object members).mp like.isDefined).2 _ inside
  isFinite := ((everywhere_object members).mp like.isFinite).2 _ inside
  distinct := ((everywhere_object members).mp like.distinct).2 _ inside

theorem canonicalForm_number {value : JsNumber}
    (like : JsonLike (.number value)) :
    ∃ canonical, canonicalForm (.number value) = .number canonical := by
  cases value with
  | nan => exact absurd rfl like.isFinite.1
  | infinity negative => exact absurd rfl (like.isFinite.2 negative)
  | zero negative => exact ⟨_, rfl⟩
  | finite negative magnitude => exact ⟨_, rfl⟩

theorem equalNumbers_of_storedNumber {value other : JsNumber}
    (equal : storedNumber value = storedNumber other)
    (isFinite : value ≠ .nan ∧ ∀ negative, value ≠ .infinity negative) :
    equalNumbers value other := by
  cases value with
  | nan => exact absurd rfl isFinite.1
  | infinity negative => exact absurd rfl (isFinite.2 negative)
  | zero negative =>
    cases other with
    | zero otherNegative => exact ⟨otherNegative, rfl⟩
    | _ => cases equal
  | finite negative magnitude =>
    cases other with
    | finite otherNegative otherMagnitude =>
      cases equal
      rfl
    | _ => cases equal

theorem same_of_canonicalForm {other : JsValue} (like : JsonLike value)
    (alsoLike : JsonLike other)
    (equal : canonicalForm value = canonicalForm other) :
    Same value other := by
  induction value using JsValue.induct generalizing other with
  | undefined => exact absurd rfl like.isDefined
  | null =>
    have kind := kind_of_canonicalForm alsoLike
    rw [← equal] at kind
    exact kind
  | bool value =>
    have kind := kind_of_canonicalForm alsoLike
    rw [← equal] at kind
    exact kind
  | string value =>
    have kind := kind_of_canonicalForm alsoLike
    rw [← equal] at kind
    exact kind
  | number value =>
    rcases canonicalForm_number like with ⟨canonical, is⟩
    have kind := kind_of_canonicalForm alsoLike
    rw [← equal, is] at kind
    rcases kind with ⟨otherValue, rfl, form⟩
    exact ⟨otherValue, rfl, equalNumbers_of_storedNumber equal like.isFinite⟩
  | array items induction =>
    have kind := kind_of_canonicalForm alsoLike
    rw [← equal] at kind
    rcases kind with ⟨others, rfl, forms⟩
    refine ⟨others, rfl, ?_⟩
    rw [canonicalItems_eq] at forms
    have alike : List.Forall₂ (· = ·) (items.map canonicalForm)
        (others.map canonicalForm) := by
      rw [forms, List.forall₂_eq_eq_eq]
    rw [List.forall₂_map_left_iff, List.forall₂_map_right_iff,
      List.forall₂_iff_zip] at alike
    rw [sameItems_iff, List.forall₂_iff_zip]
    refine ⟨alike.1, fun pair => ?_⟩
    rcases List.of_mem_zip pair with ⟨left, right⟩
    exact induction _ left (like.item left) (alsoLike.item right)
      (alike.2 pair)
  | object members induction =>
    have kind := kind_of_canonicalForm alsoLike
    rw [← equal] at kind
    rcases kind with ⟨others, rfl, forms⟩
    have names := ((everywhere_object others).mp alsoLike.distinct).1
    have kept : ∀ list : List (JsString × JsValue),
        (canonicalMembers list).map Prod.fst = list.map Prod.fst := by
      intro list
      rw [canonicalMembers_eq, List.map_map]
      rfl
    have alike : (canonicalMembers others).Perm (canonicalMembers members) :=
      (sortByName_eq_iff ((kept others).symm ▸ names)).mp forms
    refine ⟨others, rfl, ?_, ?_⟩
    · have namesAlike := (alike.map Prod.fst).symm
      rwa [kept, kept] at namesAlike
    · rw [sameMembers_iff]
      intro member inside
      have moved : (member.1, canonicalForm member.2) ∈
          canonicalMembers others := by
        rw [alike.mem_iff, canonicalMembers_eq]
        exact List.mem_map_of_mem inside
      rw [canonicalMembers_eq] at moved
      rcases List.mem_map.mp moved with ⟨other, otherInside, is⟩
      rcases Prod.mk.inj is with ⟨name, form⟩
      exact ⟨other.2, name ▸ otherInside,
        induction member inside (like.member inside)
          (alsoLike.member otherInside) form.symm⟩

theorem stableStringify_of_same {other : JsValue} (distinct : value.Distinct)
    (same : Same value other) :
    stableStringify value = stableStringify other := by
  induction value using JsValue.induct generalizing other with
  | undefined => rw [Same] at same; rw [same]
  | null => rw [Same] at same; rw [same]
  | bool value => rw [Same] at same; rw [same]
  | string value => rw [Same] at same; rw [same]
  | number value =>
    rcases same with ⟨otherValue, rfl, equal⟩
    cases value with
    | zero negative =>
      rcases equal with ⟨otherNegative, rfl⟩
      rfl
    | _ =>
      cases equal
      rfl
  | array items induction =>
    rcases same with ⟨others, rfl, same⟩
    rw [sameItems_iff] at same
    have allDistinct := ((everywhere_array items).mp distinct).2
    have alike : stableItems items = stableItems others := by
      rw [stableItems_eq, stableItems_eq, ← List.forall₂_eq_eq_eq,
        List.forall₂_map_left_iff, List.forall₂_map_right_iff,
        List.forall₂_iff_zip]
      rw [List.forall₂_iff_zip] at same
      refine ⟨same.1, fun pair => ?_⟩
      have left := (List.of_mem_zip pair).1
      rw [induction _ left (allDistinct _ left) (same.2 pair)]
    rw [stableStringify, stableStringify, alike]
  | object members induction =>
    rcases same with ⟨others, rfl, names, same⟩
    rw [sameMembers_iff] at same
    rcases (everywhere_object members).mp distinct with
      ⟨distinctNames, allDistinct⟩
    have kept : ∀ list : List (JsString × JsValue),
        (stableMembers list).map Prod.fst = list.map Prod.fst := by
      intro list
      rw [stableMembers_eq, List.map_map]
      rfl
    have inside : stableMembers members ⊆ stableMembers others := by
      intro printed member
      rw [stableMembers_eq, List.mem_map] at member
      rcases member with ⟨member, inside, rfl⟩
      rcases same member inside with ⟨other, otherInside, alike⟩
      rw [induction member inside (allDistinct member inside) alike,
        stableMembers_eq]
      exact List.mem_map.mpr ⟨_, otherInside, rfl⟩
    have printedNames : ((stableMembers members).map Prod.fst).Nodup :=
      (kept members).symm ▸ distinctNames
    have count : (stableMembers others).length =
        (stableMembers members).length := by
      rw [stableMembers_eq, stableMembers_eq, List.length_map,
        List.length_map, ← List.length_map Prod.fst, ← names.length_eq,
        List.length_map]
    have alike : (stableMembers members).Perm (stableMembers others) :=
      (List.subperm_of_subset (printedNames.of_map _)
        inside).perm_of_length_le count.le
    rw [stableStringify, stableStringify,
      (sortByName_eq_iff printedNames).mpr alike]

/-- Values that JSON can write have one canonical text exactly when they are
equal up to the order of members. -/
theorem stableStringify_eq_iff {other : JsValue} (like : JsonLike value)
    (alsoLike : JsonLike other) :
    stableStringify value = stableStringify other ↔ Same value other := by
  constructor
  · intro equal
    rcases readsAs_stableStringify like with ⟨text, printed, reads⟩
    rcases readsAs_stableStringify alsoLike with
      ⟨otherText, otherPrinted, otherReads⟩
    rw [printed, otherPrinted, Option.some.injEq] at equal
    subst equal
    exact same_of_canonicalForm like alsoLike
      (Option.some.inj (reads.parse.symm.trans otherReads.parse))
  · exact stableStringify_of_same like.distinct

/-! ## What storage keeps -/

/-- Without `undefined` the stored value has the same canonical text. -/
theorem stableStringify_stored (isDefined : value.Everywhere (· ≠ .undefined)) :
    stableStringify (stored value) = stableStringify value := by
  induction value using JsValue.induct with
  | undefined => exact absurd rfl isDefined
  | null => rfl
  | bool value => rfl
  | number value => cases value <;> rfl
  | string value => rfl
  | array items induction =>
    have allDefined := ((everywhere_array items).mp isDefined).2
    rw [stored, stableStringify, stableStringify, storedItems_eq,
      stableItems_eq, stableItems_eq, List.map_map]
    congr 2
    refine List.map_congr_left fun item member => ?_
    rw [Function.comp_apply, induction item member (allDefined item member)]
  | object members induction =>
    have allDefined := ((everywhere_object members).mp isDefined).2
    have kept : members.filter (!·.2.isUndefined) = members := by
      rw [List.filter_eq_self]
      intro member inside
      have here := (allDefined member inside).here
      cases is : member.2 with
      | undefined => exact absurd is here
      | _ => rfl
    rw [stored, stableStringify, stableStringify, storedMembers_eq, kept,
      stableMembers_eq, stableMembers_eq, List.map_map]
    congr 4
    refine List.map_congr_left fun member inside => ?_
    rw [Function.comp_apply,
      induction member inside (allDefined member inside)]

theorem length_bracketed (opening closing : Char) (texts : List (List Char)) :
    (bracketed opening closing texts).length =
      (texts.map (·.length + 1)).sum - 1 + 2 := by
  have inner : ([','].intercalate texts).length =
      (texts.map (·.length + 1)).sum - 1 := by
    induction texts with
    | nil => rfl
    | cons text texts induction =>
      cases texts with
      | nil => simp
      | cons second texts =>
        rw [intercalate_cons_cons, List.length_append, List.length_cons,
          induction]
        simp only [List.map_cons, List.sum_cons]
        omega
  unfold bracketed
  rw [List.length_cons, List.length_append, inner, List.length_singleton]

/-- A sum of smaller numbers is smaller, and equal only number by number. -/
theorem sum_map_le {Item : Type} {items : List Item}
    {small large : Item → Nat}
    (below : ∀ item ∈ items, small item ≤ large item) :
    (items.map small).sum ≤ (items.map large).sum ∧
      ((items.map large).sum ≤ (items.map small).sum →
        ∀ item ∈ items, large item ≤ small item) := by
  induction items with
  | nil => simp
  | cons item items induction =>
    rw [List.forall_mem_cons] at below
    rcases induction below.2 with ⟨least, equal⟩
    simp only [List.map_cons, List.sum_cons]
    refine ⟨by omega, fun reversed => ?_⟩
    rw [List.forall_mem_cons]
    exact ⟨by omega, equal (by omega)⟩

/-- The length of what is printed in an object for the value. -/
def printedLength (value : JsValue) : Nat :=
  ((stableStringify value).getD "undefined".toList).length

theorem printedLength_array {items : List JsValue}
    (allDefined : ∀ item ∈ items, item ≠ .undefined) :
    printedLength (.array items) =
      (items.map (printedLength · + 1)).sum - 1 + 2 := by
  have same : (stableItems items).map (·.length + 1) =
      items.map (printedLength · + 1) := by
    rw [stableItems_eq, List.map_map]
    refine List.map_congr_left fun item member => ?_
    unfold printedLength
    cases item with
    | undefined => exact absurd rfl (allDefined _ member)
    | _ => rfl
  rw [← same]
  exact length_bracketed _ _ _

theorem printedLength_object (members : List (JsString × JsValue)) :
    printedLength (.object members) =
      (members.map fun member =>
        (quote member.1).length + printedLength member.2 + 2).sum - 1 + 2 := by
  have same : ((((stableMembers members).mergeSort byName).map
      fun member => quote member.1 ++ ':' :: member.2).map
        (·.length + 1)).sum =
      (members.map fun member =>
        (quote member.1).length + printedLength member.2 + 2).sum := by
    rw [stableMembers_eq, map_sortByName, List.map_map, List.map_map,
      ((List.mergeSort_perm members byName).map _).sum_nat]
    refine congrArg List.sum (List.map_congr_left fun member _ => ?_)
    simp only [Function.comp_apply, List.length_append, List.length_cons]
    rfl
  rw [← same]
  exact length_bracketed _ _ _

theorem stored_ne_undefined (value : JsValue) : stored value ≠ .undefined := by
  cases value with
  | number value => cases value <;> exact JsValue.noConfusion
  | _ => exact JsValue.noConfusion

theorem ne_undefined_of (isDefined : value.isUndefined = false) :
    value ≠ .undefined := by
  rintro rfl
  cases isDefined

theorem sum_map_filter {Item : Type} (keep : Item → Bool)
    (weight : Item → Nat) (items : List Item) :
    ((items.filter keep).map weight).sum =
      (items.map fun item => if keep item then weight item else 0).sum := by
  induction items with
  | nil => rfl
  | cons item items induction =>
    rw [List.filter_cons, List.map_cons, List.sum_cons, ← induction]
    split
    · rw [List.map_cons, List.sum_cons]
    · rw [Nat.zero_add]

/-- Storage never makes the text longer, and keeps its length only when it
leaves nothing out. -/
theorem printedLength_stored (some : value ≠ .undefined)
    (arrays : value.Everywhere HasDefinedItems) :
    printedLength (stored value) ≤ printedLength value ∧
      (printedLength value ≤ printedLength (stored value) →
        value.Everywhere (· ≠ .undefined)) := by
  induction value using JsValue.induct with
  | undefined => exact absurd rfl some
  | null => exact ⟨Nat.le_refl _, fun _ => some⟩
  | bool value => exact ⟨Nat.le_refl _, fun _ => some⟩
  | number value =>
    have same : printedLength (stored (.number value)) =
        printedLength (.number value) := by
      cases value <;> rfl
    exact ⟨same.le, fun _ => some⟩
  | string value => exact ⟨Nat.le_refl _, fun _ => some⟩
  | array items induction =>
    rcases (everywhere_array items).mp arrays with ⟨allDefined, inside⟩
    have storedDefined : ∀ item ∈ items.map stored, item ≠ .undefined := by
      intro item member
      rcases List.mem_map.mp member with ⟨source, -, rfl⟩
      exact stored_ne_undefined source
    rw [stored, storedItems_eq, printedLength_array allDefined,
      printedLength_array storedDefined, List.map_map]
    have below : ∀ item ∈ items,
        printedLength (stored item) + 1 ≤ printedLength item + 1 :=
      fun item member => Nat.succ_le_succ
        (induction item member (allDefined item member)
          (inside item member)).1
    rcases sum_map_le below with ⟨least, equal⟩
    have same : (items.map ((printedLength · + 1) ∘ stored)).sum =
        (items.map fun item => printedLength (stored item) + 1).sum := rfl
    rw [same]
    refine ⟨by omega, fun reversed => ?_⟩
    rw [everywhere_array]
    refine ⟨some, fun item member => ?_⟩
    have first : 0 < (items.map fun item =>
        printedLength (stored item) + 1).sum := by
      rcases List.exists_cons_of_ne_nil (List.ne_nil_of_mem member) with
        ⟨head, tail, rfl⟩
      rw [List.map_cons, List.sum_cons]
      omega
    exact (induction item member (allDefined item member)
      (inside item member)).2
        (Nat.le_of_succ_le_succ (equal (by omega) item member))
  | object members induction =>
    rcases (everywhere_object members).mp arrays with ⟨-, inside⟩
    rw [stored, storedMembers_eq, printedLength_object,
      printedLength_object, List.map_map, sum_map_filter]
    have below : ∀ member ∈ members,
        (if !member.2.isUndefined then
          (quote member.1).length + printedLength (stored member.2) + 2
        else 0) ≤
          (quote member.1).length + printedLength member.2 + 2 := by
      intro member member'
      cases isUndefined : member.2.isUndefined with
      | true => exact Nat.zero_le _
      | false =>
        have least := (induction member member'
          (ne_undefined_of isUndefined) (inside member member')).1
        simp only [Bool.not_false, if_true]
        omega
    rcases sum_map_le below with ⟨least, equal⟩
    have same : (members.map fun member => if !member.2.isUndefined then
        ((fun member : JsString × JsValue =>
          (quote member.1).length + printedLength member.2 + 2) ∘
            fun member => (member.1, stored member.2)) member
          else 0).sum =
        (members.map fun member => if !member.2.isUndefined then
          (quote member.1).length + printedLength (stored member.2) + 2
        else 0).sum := rfl
    rw [same]
    refine ⟨by omega, fun reversed => ?_⟩
    rw [everywhere_object]
    refine ⟨some, fun member member' => ?_⟩
    have first : 2 ≤ (members.map fun member =>
        (quote member.1).length + printedLength member.2 + 2).sum := by
      refine Nat.le_trans ?_ (List.le_sum_of_mem
        (List.mem_map_of_mem member'))
      omega
    have here := equal (by omega) member member'
    cases isUndefined : member.2.isUndefined with
    | true =>
      rw [isUndefined] at here
      exact absurd here (by simp)
    | false =>
      rw [isUndefined] at here
      refine (induction member member' (ne_undefined_of isUndefined)
        (inside member member')).2 ?_
      simp only [Bool.not_false, if_true] at here
      omega

/-- The stored value has the same canonical text exactly when no `undefined`
is inside the value. -/
theorem stableStringify_stored_iff (some : value ≠ .undefined)
    (arrays : value.Everywhere HasDefinedItems) :
    stableStringify (stored value) = stableStringify value ↔
      value.Everywhere (· ≠ .undefined) := by
  refine ⟨fun same => ?_, stableStringify_stored⟩
  refine (printedLength_stored some arrays).2 ?_
  unfold printedLength
  rw [same]

end Rbo.Snapshot.Canonical
