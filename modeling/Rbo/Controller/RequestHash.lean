import Rbo.Protocol.Schemas
import Rbo.Snapshot.Canonical

/-!
# The request hash of a confirmation token

A submission hashes its request, and the confirmation hashes the request
that it reads back from the job's row.  Both hashes are of the canonical
text, so they agree exactly when storage keeps that text.  A request may
carry an optional field whose value is `undefined`: the canonical text shows
it, and the row does not.
-/

namespace Rbo.Controller.RequestHash

open Rbo.Foundation
open Rbo.Protocol
open Rbo.Snapshot.Canonical

/-! ## The requests of the controller -/

/-- The queue policy that is settled before the request is used. -/
def effectiveQueuePolicy (defaultQueuePolicy : Option JsString)
    (members : List (JsString × JsValue)) : JsValue :=
  match getProperty (jsText "queue_policy") members with
  | .undefined | .null =>
    .string (defaultQueuePolicy.getD (jsText "local_fallback"))
  | policy => policy

/-- `handleJobSubmit`: the request with its queue policy.  Writing a policy
that is there already changes nothing. -/
def resolveQueuePolicy (defaultQueuePolicy : Option JsString) :
    JsValue → JsValue
  | .object members =>
    .object (setProperty (jsText "queue_policy")
      (effectiveQueuePolicy defaultQueuePolicy members) members)
  | request => request

section Digest

variable {Digest : Type} (digest : List Char → Digest)

/-- `requestHash`; hashing what is not a text throws. -/
def requestHash (request : JsValue) : Option Digest :=
  (stableStringify request).map digest

/-- The row that `createJob` writes is read back as a request with the same
canonical text, and so with the hash that the token was issued for. -/
def SurvivesStorage (request : JsValue) : Prop :=
  ∃ requestJson, jsonStringify request = some requestJson ∧
    ∃ confirmed, jsonParse requestJson = some confirmed ∧
      stableStringify confirmed = stableStringify request ∧
      requestHash digest confirmed = requestHash digest request

theorem survivesStorage_iff {request : JsValue}
    (some : request ≠ .undefined)
    (tidy : request.Distinct ∧ request.Everywhere HasDefinedItems) :
    SurvivesStorage digest request ↔
      request.Everywhere (· ≠ .undefined) := by
  rw [← stableStringify_stored_iff some tidy.2]
  constructor
  · rintro ⟨requestJson, written, confirmed, read, same, -⟩
    rw [jsonParse_stringify tidy.1 written, Option.some.injEq] at read
    rw [read, same]
  · intro same
    cases written : jsonStringify request with
    | none =>
      rw [jsonStringify_eq_none_iff] at written
      cases request <;> first | exact absurd rfl some | cases written
    | some requestJson =>
      refine ⟨requestJson, written, stored request,
        jsonParse_stringify tidy.1 written, same, ?_⟩
      unfold requestHash
      rw [same]

end Digest

/-! ## What a submission keeps -/

/-- Setting a member keeps what holds everywhere. -/
theorem everywhere_setProperty {property : JsValue → Prop} {key : JsString}
    {value : JsValue} {members : List (JsString × JsValue)}
    (object : property (.object (setProperty key value members)))
    (new : value.Everywhere property)
    (old : ∀ member ∈ members, member.2.Everywhere property) :
    (JsValue.object (setProperty key value members)).Everywhere property := by
  rw [everywhere_object]
  refine ⟨object, fun member inside => ?_⟩
  rcases mem_setProperty inside with rfl | inside
  · exact new
  · exact old member inside

theorem getProperty_eq_or_mem (key : JsString)
    (members : List (JsString × JsValue)) :
    getProperty key members = .undefined ∨
      (key, getProperty key members) ∈ members := by
  induction members with
  | nil => exact Or.inl rfl
  | cons member members induction =>
    rw [getProperty]
    split
    · rename_i is
      exact Or.inr (is ▸ List.mem_cons_self)
    · exact induction.imp id (List.mem_cons_of_mem _)

/-- The settled policy is a text, or the value that the request has. -/
theorem effectiveQueuePolicy_cases (defaultQueuePolicy : Option JsString)
    (members : List (JsString × JsValue)) :
    (∃ text, effectiveQueuePolicy defaultQueuePolicy members =
        .string text) ∨
      ∃ key, (key, effectiveQueuePolicy defaultQueuePolicy members) ∈
        members := by
  unfold effectiveQueuePolicy
  split
  · exact Or.inl ⟨_, rfl⟩
  · exact Or.inl ⟨_, rfl⟩
  · rename_i notUndefined _
    exact Or.inr ⟨_, (getProperty_eq_or_mem _ members).resolve_left
      notUndefined⟩

theorem tidy_resolveQueuePolicy (defaultQueuePolicy : Option JsString)
    {request : JsValue}
    (tidy : request.Distinct ∧ request.Everywhere HasDefinedItems) :
    (resolveQueuePolicy defaultQueuePolicy request).Distinct ∧
      (resolveQueuePolicy defaultQueuePolicy request).Everywhere
        HasDefinedItems := by
  cases request with
  | object members =>
    rcases (everywhere_object members).mp tidy.1 with ⟨names, distinct⟩
    have arrays := ((everywhere_object members).mp tidy.2).2
    constructor
    · refine everywhere_setProperty (setProperty_names names) ?_ distinct
      rcases effectiveQueuePolicy_cases defaultQueuePolicy members with
        ⟨text, is⟩ | ⟨key, inside⟩
      · rw [is]
        exact trivial
      · exact distinct _ inside
    · refine everywhere_setProperty trivial ?_ arrays
      rcases effectiveQueuePolicy_cases defaultQueuePolicy members with
        ⟨text, is⟩ | ⟨key, inside⟩
      · rw [is]
        exact trivial
      · exact arrays _ inside
  | _ => exact tidy

/-- The canonical text tells values apart exactly up to the order of their
members.  A request survives storage, as it was parsed and as it is hashed,
exactly when no member inside it has the value `undefined`. -/
theorem canonical_and_survives_iff (zod : Zod) {Digest : Type}
    (digest : List Char → Digest) :
    (∀ value other, JsonLike value → JsonLike other →
      (stableStringify value = stableStringify other ↔ Same value other)) ∧
    ∀ raw request, zod.safeParse JobRequestSchema raw = some request →
      (SurvivesStorage digest request ↔
        request.Everywhere (· ≠ .undefined)) ∧
      ∀ defaultQueuePolicy,
        (SurvivesStorage digest
            (resolveQueuePolicy defaultQueuePolicy request) ↔
          (resolveQueuePolicy defaultQueuePolicy request).Everywhere
            (· ≠ .undefined)) := by
  refine ⟨fun value other like alsoLike =>
    stableStringify_eq_iff like alsoLike, ?_⟩
  intro raw request accepted
  have tidy := tidy_of_accepted rfl accepted
  rcases zod.object accepted with ⟨members, rfl, -⟩
  refine ⟨survivesStorage_iff digest JsValue.noConfusion tidy, ?_⟩
  intro defaultQueuePolicy
  exact survivesStorage_iff digest JsValue.noConfusion
    (tidy_resolveQueuePolicy defaultQueuePolicy tidy)

/-! ## A name that is `undefined` -/

/-- The request of a caller that passes on a name that was not given. -/
def namelessRequest : JsValue :=
  .object [(jsText "client_request_id", .string (jsText "r")),
    (jsText "name", .undefined),
    (jsText "source", .object [(jsText "project_root",
      .string (jsText "/p"))]),
    (jsText "execution", .object [(jsText "script",
      .string (jsText "make"))]),
    (jsText "risk_level", .string (jsText "destructive"))]

/-- What the library returns for it. -/
def namelessMembers (source execution : JsValue) :
    List (JsString × JsValue) :=
  [(jsText "client_request_id", .string (jsText "r")),
    (jsText "name", .undefined), (jsText "source", source),
    (jsText "execution", execution),
    (jsText "risk_level", .string (jsText "destructive"))]

/-- The library accepts the request, and its hash is not found again. -/
theorem nameless_lost : ∃ request,
    documentedZod.safeParse JobRequestSchema namelessRequest =
        some request ∧
      ∀ {Digest : Type} (digest : List Char → Digest) defaultQueuePolicy,
        ¬ SurvivesStorage digest
          (resolveQueuePolicy defaultQueuePolicy request) := by
  have accepted : ∃ source execution,
      documentedZod.safeParse JobRequestSchema namelessRequest =
        some (.object (namelessMembers source execution)) :=
    ⟨_, _, rfl⟩
  rcases accepted with ⟨source, execution, accepted⟩
  refine ⟨_, accepted, fun digest defaultQueuePolicy survives => ?_⟩
  have tidy := tidy_resolveQueuePolicy defaultQueuePolicy
    (tidy_of_accepted rfl accepted)
  have all := (survivesStorage_iff digest JsValue.noConfusion tidy).mp survives
  have nameless : (jsText "name", JsValue.undefined) ∈
      setProperty (jsText "queue_policy")
        (effectiveQueuePolicy defaultQueuePolicy
          (namelessMembers source execution))
        (namelessMembers source execution) :=
    List.mem_cons_of_mem _ List.mem_cons_self
  exact ((everywhere_object _).mp all).2 _ nameless rfl

end Rbo.Controller.RequestHash
