import Mathlib.Data.Bool.AllAny
import Rbo.Controller.LogPagination
import Rbo.Controller.SignedTokens

/-!
# Log cursors on the wire

A cursor is packed into an array of eight items and signed; the packed form
leaves out streams without a state or a position.  A token is accepted when
its parts are canonical base64url, its signature is the Controller's and its
array has the shape of a packed cursor.

The version and the presentation profile are the same for every cursor and
are no fields of it here; the packed form has the version.
-/

namespace Rbo.Controller.LogCursors

open Rbo.Foundation
open Rbo.Executor.LogPresentation
open Rbo.Controller.LogPagination
open Rbo.Controller.SignedTokens

/-! ## Cursors of a job -/

/-- What a page of `job_logs` consists of. -/
inductive CursorMode where
  | logs
  | events
  deriving DecidableEq

/-- A cursor with the names it is bound to. -/
structure JobCursor where
  job : JsString
  attempt : JsString
  mode : CursorMode
  place : LogCursor
  deriving DecidableEq

def presentationModes : List PresentationParserMode :=
  [.ground, .escape, .csi, .osc, .oscEscape, .discard]

/-! ## Packing -/

/-- A natural number as a value. -/
def natural (value : Nat) : JsValue :=
  .number (JsNumber.ofNat value)

def encodeState : Option LogPresentationState → JsValue
  | some state =>
    .array
      [natural (presentationModes.idxOf state.mode),
        natural state.csiLength, natural state.oscLength,
        natural state.controlLength]
  | none => .null

def encodePosition : Option StreamPosition → JsValue
  | some position => .array [natural position.seq, natural position.off]
  | none => .null

/-- Does a pair hold a value for one of the streams? -/
def PerStream.inhabited {α : Type} (pair : PerStream (Option α)) : Bool :=
  pair.stdout.isSome || pair.stderr.isSome

/-- The pair of packed values, or zero when there is none. -/
def packStreamPair {α : Type} (encode : Option α → JsValue)
    (pair : Option (PerStream (Option α))) : JsValue :=
  match pair.filter PerStream.inhabited with
  | some both => .array [encode both.stdout, encode both.stderr]
  | none => natural 0

def packCursor (cursor : JobCursor) : JsValue :=
  .array
    [natural 1, .string cursor.job, .string cursor.attempt,
      natural (if cursor.mode = .events then 1 else 0),
      natural cursor.place.seq, natural cursor.place.off,
      packStreamPair encodeState cursor.place.states,
      packStreamPair encodePosition cursor.place.positions]

/-- The second at which cursors expire, in the year 2100. -/
def cursorExpiry : Nat := 4102444800

def cursorClaims (cursor : JobCursor) : List (JsString × JsValue) :=
  [(jsText "sub", .string (jsText "c")), (jsText "aud", .string (jsText "r")),
    (jsText "exp", natural cursorExpiry), (jsText "c", packCursor cursor)]

def cursorOptions : SignEdDsaJwtOptions where
  includeIat := false
  header := .object [(jsText "alg", .string (jsText "EdDSA"))]

def maxTokenLength : Nat := 512

/-- The token of a cursor, if it is short enough. -/
def encodeCursor (keys : SigningKeys) (now : Nat) (cursor : JobCursor) :
    Option JsString :=
  let token := signEdDsaJwt keys now (cursorClaims cursor) cursorOptions
  if token.length ≤ maxTokenLength then some token else none

/-! ## Unpacking -/

/-- A safe integer that is not negative. -/
def safeNatural? : JsValue → Option Nat
  | .number (.zero _) => some 0
  | .number (.finite false magnitude) =>
    if 0 ≤ magnitude.exponent ∧
        magnitude.digits * 10 ^ magnitude.exponent.toNat ≤
          Json.maxSafeInteger then
      some (magnitude.digits * 10 ^ magnitude.exponent.toNat)
    else none
  | _ => none

/-- A counter of the parser. -/
def counter? (value : JsValue) : Option Nat :=
  (safeNatural? value).filter (· ≤ maxControlBytes)

/-- The mode at a number; what is packed there is never anything else. -/
def modeAt (value : JsValue) : Option PresentationParserMode :=
  (safeNatural? value).bind (presentationModes[·]?)

def decodePackedState : JsValue → Option LogPresentationState
  | .array [mode, csiLength, oscLength, controlLength] => do
    let mode ← modeAt mode
    let csiLength ← counter? csiLength
    let oscLength ← counter? oscLength
    let controlLength ← counter? controlLength
    some { mode, csiLength, oscLength, controlLength }
  | _ => none

def decodePackedPosition : JsValue → Option StreamPosition
  | .array [seq, off] => do
    let seq ← safeNatural? seq
    let off ← safeNatural? off
    some { seq, off }
  | _ => none

section Unpack

variable {α : Type} (decode : JsValue → Option α)

/-- A value of one stream, which may be absent. -/
def unpackItem : JsValue → Option (Option α)
  | .null => some none
  | value => (decode value).map some

/-- The values of both streams; nothing when the packed form is wrong. -/
def unpackStreamPair : JsValue → Option (Option (PerStream (Option α)))
  | .undefined => some none
  | .number (.zero _) => some none
  | .array [stdout, stderr] => do
    let stdout ← unpackItem decode stdout
    let stderr ← unpackItem decode stderr
    some (some { stdout, stderr })
  | _ => none

end Unpack

/-- The mode of a packed cursor, which is zero or one. -/
def unpackMode (value : JsValue) : Option CursorMode :=
  if safeNatural? value = some 0 then some .logs
  else if safeNatural? value = some 1 then some .events
  else none

/-- The cursor of a packed array. -/
def unpackCursor : JsValue → Option JobCursor
  | .array [version, .string job, .string attempt, mode, seq, off, states,
      positions] => do
      let mode ← unpackMode mode
      let seq ← safeNatural? seq
      let off ← safeNatural? off
      let states ← unpackStreamPair decodePackedState states
      let positions ← unpackStreamPair decodePackedPosition positions
      if safeNatural? version = some 1 then
        some
          { job, attempt, mode
            place :=
              { seq, off
                states := states.filter PerStream.inhabited
                positions := positions.filter PerStream.inhabited } }
      else none
  | _ => none

/-- `decodeCursor`. -/
def decodeCursor (keys : SigningKeys) (now : Nat) (value : JsString) :
    Option JobCursor :=
  let parts := value.splitOn fullStop
  if maxTokenLength < value.length then none
  else if parts.length ≠ 3 ∨ ∃ part ∈ parts, part = [] ∨ ¬ Canonical part then
    none
  else do
    let claims ← verifyEdDsaJwt keys now value
    if isText "c" (claimOf "sub" claims) = false ∨
        isText "r" (claimOf "aud" claims) = false then
      none
    else unpackCursor (claimOf "c" claims)

/-! ## What was packed is unpacked -/

theorem stored_natural (value : Nat) :
    stored (natural value) = natural value :=
  storedNumber_ofNat value

/-- A number is read back when it is safe. -/
theorem safeNatural?_natural (value : Nat) :
    safeNatural? (natural value) =
      if value ≤ Json.maxSafeInteger then some value else none := by
  unfold natural JsNumber.ofNat JsNumber.ofLiteral
  by_cases positive : 0 < value
  · rw [dif_pos positive]
    rcases Decimal.ofCoefficient_scale value 0 positive with
      ⟨zeros, moved, whole⟩
    dsimp only
    generalize Decimal.ofCoefficient value 0 positive = number at moved whole
    rw [zero_add] at moved
    have same : number.digits * 10 ^ number.exponent.toNat = value := by
      rw [moved, Int.toNat_natCast, ← whole]
    rw [safeNatural?, same]
    have atLeast : 0 ≤ number.exponent := by omega
    simp only [atLeast, true_and]
  · obtain rfl : value = 0 := Nat.eq_zero_of_not_pos positive
    rfl

theorem safeNatural?_eq_some {value result : Nat} :
    safeNatural? (natural value) = some result ↔
      result = value ∧ value ≤ Json.maxSafeInteger := by
  rw [safeNatural?_natural]
  split
  · rename_i safe
    rw [Option.some.injEq]
    exact ⟨fun equal => ⟨equal.symm, safe⟩, fun both => both.1.symm⟩
  · rename_i large
    constructor
    · rintro ⟨⟩
    · exact fun both => absurd both.2 large

/-- A position has safe numbers. -/
structure SafePosition (position : StreamPosition) : Prop where
  seq : position.seq ≤ Json.maxSafeInteger
  off : position.off ≤ Json.maxSafeInteger

theorem maxControlBytes_safe : maxControlBytes ≤ Json.maxSafeInteger := by
  decide

theorem counter?_eq_some {value result : Nat} :
    counter? (natural value) = some result ↔
      result = value ∧ value ≤ maxControlBytes := by
  rw [counter?, Option.filter_eq_some_iff, safeNatural?_eq_some,
    decide_eq_true_iff]
  constructor
  · rintro ⟨⟨rfl, _⟩, small⟩
    exact ⟨rfl, small⟩
  · rintro ⟨rfl, small⟩
    exact ⟨⟨rfl, small.trans maxControlBytes_safe⟩, small⟩

theorem modeAt_idxOf (mode : PresentationParserMode) :
    modeAt (natural (presentationModes.idxOf mode)) = some mode := by
  have read : safeNatural? (natural (presentationModes.idxOf mode)) =
      some (presentationModes.idxOf mode) := by
    refine safeNatural?_eq_some.mpr ⟨rfl, ?_⟩
    cases mode <;> decide
  rw [modeAt, read]
  cases mode <;> rfl

theorem decodePackedState_encodeState
    {state result : LogPresentationState} :
    decodePackedState (encodeState (some state)) = some result ↔
      result = state ∧ Bounded state := by
  rw [encodeState, decodePackedState, modeAt_idxOf]
  simp only [bind, Option.bind_some, Option.bind_eq_some_iff,
    counter?_eq_some]
  constructor
  · rintro ⟨_, ⟨rfl, csi⟩, _, ⟨rfl, osc⟩, _, ⟨rfl, control⟩, equal⟩
    rw [Option.some.injEq] at equal
    exact ⟨equal.symm, csi, osc, control⟩
  · rintro ⟨rfl, bounded⟩
    exact ⟨_, ⟨rfl, bounded.csiLength⟩, _, ⟨rfl, bounded.oscLength⟩, _,
      ⟨rfl, bounded.controlLength⟩, rfl⟩

theorem decodePackedPosition_encodePosition
    {position result : StreamPosition} :
    decodePackedPosition (encodePosition (some position)) = some result ↔
      result = position ∧ SafePosition position := by
  rw [encodePosition, decodePackedPosition]
  simp only [bind, Option.bind_eq_some_iff, safeNatural?_eq_some]
  constructor
  · rintro ⟨_, ⟨rfl, seq⟩, _, ⟨rfl, off⟩, equal⟩
    rw [Option.some.injEq] at equal
    exact ⟨equal.symm, seq, off⟩
  · rintro ⟨rfl, safe⟩
    exact ⟨_, ⟨rfl, safe.seq⟩, _, ⟨rfl, safe.off⟩, rfl⟩

/-- A property of the values of both streams. -/
def PerStream.All {α : Type} (property : α → Prop)
    (pair : PerStream (Option α)) : Prop :=
  (∀ value ∈ pair.stdout, property value) ∧
    ∀ value ∈ pair.stderr, property value

section Pairs

variable {α : Type} {encode : Option α → JsValue}
  {decode : JsValue → Option α} {property : α → Prop}

/-- A packed form that is read back when its value has the property. -/
structure ReadsBack (encode : Option α → JsValue)
    (decode : JsValue → Option α) (property : α → Prop) : Prop where
  absent : encode none = .null
  array : ∀ value, ∃ items, encode (some value) = .array items
  reads : ∀ value result, decode (encode (some value)) = some result ↔
    result = value ∧ property value

theorem unpackItem_encode (codec : ReadsBack encode decode property)
    {value result : Option α} :
    unpackItem decode (encode value) = some result ↔
      result = value ∧ ∀ inside ∈ value, property inside := by
  cases value with
  | none =>
    rw [codec.absent, unpackItem, Option.some.injEq, eq_comm]
    exact (and_iff_left fun inside member => by cases member).symm
  | some value =>
    have read : unpackItem decode (encode (some value)) =
        (decode (encode (some value))).map some := by
      rcases codec.array value with ⟨items, packed⟩
      rw [packed]
      rfl
    rw [read, Option.map_eq_some_iff]
    constructor
    · rintro ⟨inside, decoded, rfl⟩
      rcases (codec.reads _ _).mp decoded with ⟨rfl, holds⟩
      refine ⟨rfl, fun inside member => ?_⟩
      cases member
      exact holds
    · rintro ⟨rfl, holds⟩
      exact ⟨value, (codec.reads _ _).mpr ⟨rfl, holds value rfl⟩, rfl⟩

/-- A packed pair is read back without its empty form. -/
theorem unpackStreamPair_pack (codec : ReadsBack encode decode property)
    {pair result : Option (PerStream (Option α))} :
    unpackStreamPair decode (packStreamPair encode pair) = some result ↔
      result = pair.filter PerStream.inhabited ∧
        ∀ both ∈ pair, PerStream.All property both := by
  rw [packStreamPair]
  cases kept : pair.filter PerStream.inhabited with
  | none =>
    have zero : unpackStreamPair decode (natural 0) = some none := rfl
    dsimp only
    rw [zero, Option.some.injEq, eq_comm]
    refine (and_iff_left fun both member => ?_).symm
    rw [Option.filter_eq_none_iff] at kept
    have empty := kept both member
    rw [PerStream.inhabited, Bool.or_eq_true, not_or,
      Option.not_isSome_iff_eq_none,
      Option.not_isSome_iff_eq_none] at empty
    constructor
    · intro value inside
      rw [empty.1] at inside
      cases inside
    · intro value inside
      rw [empty.2] at inside
      cases inside
  | some both =>
    rcases Option.filter_eq_some_iff.mp kept with ⟨rfl, inhabited⟩
    dsimp only
    rw [unpackStreamPair]
    simp only [bind, Option.bind_eq_some_iff, unpackItem_encode codec]
    constructor
    · rintro ⟨_, ⟨rfl, stdout⟩, _, ⟨rfl, stderr⟩, equal⟩
      refine ⟨(Option.some.inj equal).symm, fun other member => ?_⟩
      cases member
      exact ⟨stdout, stderr⟩
    · rintro ⟨rfl, holds⟩
      exact ⟨_, ⟨rfl, (holds both rfl).1⟩, _,
        ⟨rfl, (holds both rfl).2⟩, rfl⟩

end Pairs

theorem readsBack_state :
    ReadsBack encodeState decodePackedState Bounded where
  absent := rfl
  array _ := ⟨_, rfl⟩
  reads _ _ := decodePackedState_encodeState

theorem readsBack_position :
    ReadsBack encodePosition decodePackedPosition SafePosition where
  absent := rfl
  array _ := ⟨_, rfl⟩
  reads _ _ := decodePackedPosition_encodePosition

/-! ## Whole cursors -/

/-- A cursor whose numbers can be packed. -/
structure Encodable (cursor : JobCursor) : Prop where
  seq : cursor.place.seq ≤ Json.maxSafeInteger
  off : cursor.place.off ≤ Json.maxSafeInteger
  states : ∀ both ∈ cursor.place.states, PerStream.All Bounded both
  positions : ∀ both ∈ cursor.place.positions,
    PerStream.All SafePosition both

/-- A cursor without its empty pairs. -/
def JobCursor.compact (cursor : JobCursor) : JobCursor :=
  { cursor with
    place :=
      { cursor.place with
        states := cursor.place.states.filter PerStream.inhabited
        positions := cursor.place.positions.filter PerStream.inhabited } }

theorem unpackMode_packed (mode : CursorMode) :
    unpackMode (natural (if mode = .events then 1 else 0)) = some mode := by
  have zero : safeNatural? (natural 0) = some 0 :=
    safeNatural?_eq_some.mpr ⟨rfl, by decide⟩
  have one : safeNatural? (natural 1) = some 1 :=
    safeNatural?_eq_some.mpr ⟨rfl, by decide⟩
  cases mode with
  | logs =>
    rw [if_neg (by decide), unpackMode, zero]
    rfl
  | events =>
    rw [if_pos rfl, unpackMode, one]
    rfl

/-- A packed cursor is unpacked exactly when its numbers can be packed. -/
theorem unpackCursor_packCursor {cursor result : JobCursor} :
    unpackCursor (packCursor cursor) = some result ↔
      result = cursor.compact ∧ Encodable cursor := by
  have version : safeNatural? (natural 1) = some 1 :=
    safeNatural?_eq_some.mpr ⟨rfl, by decide⟩
  rw [packCursor, unpackCursor, unpackMode_packed]
  simp only [bind, Option.bind_some, Option.bind_eq_some_iff,
    safeNatural?_eq_some, unpackStreamPair_pack readsBack_state,
    unpackStreamPair_pack readsBack_position, version, if_pos]
  constructor
  · rintro ⟨_, ⟨rfl, seq⟩, _, ⟨rfl, off⟩, _, ⟨rfl, states⟩, _,
      ⟨rfl, positions⟩, equal⟩
    refine ⟨?_, seq, off, states, positions⟩
    rw [← Option.some.inj equal, JobCursor.compact]
    simp only [Option.filter_filter, Bool.and_self]
  · rintro ⟨rfl, encodable⟩
    refine ⟨_, ⟨rfl, encodable.seq⟩, _, ⟨rfl, encodable.off⟩, _,
      ⟨rfl, encodable.states⟩, _, ⟨rfl, encodable.positions⟩, ?_⟩
    rw [JobCursor.compact]
    simp only [Option.filter_filter, Bool.and_self]

theorem packStreamPair_filter {α : Type} (encode : Option α → JsValue)
    (pair : Option (PerStream (Option α))) :
    packStreamPair encode (pair.filter PerStream.inhabited) =
      packStreamPair encode pair := by
  rw [packStreamPair, packStreamPair, Option.filter_filter]
  simp only [Bool.and_self]

/-- Empty pairs do not show in the packed form. -/
theorem packCursor_compact (cursor : JobCursor) :
    packCursor cursor.compact = packCursor cursor := by
  unfold packCursor
  simp only [JobCursor.compact, packStreamPair_filter]
  rfl

theorem stored_encodeState (state : Option LogPresentationState) :
    stored (encodeState state) = encodeState state := by
  cases state with
  | none => rfl
  | some state => simp only [encodeState, stored, storedItems, stored_natural]

theorem stored_encodePosition (position : Option StreamPosition) :
    stored (encodePosition position) = encodePosition position := by
  cases position with
  | none => rfl
  | some position =>
    simp only [encodePosition, stored, storedItems, stored_natural]

theorem stored_packStreamPair {α : Type} {encode : Option α → JsValue}
    (kept : ∀ value, stored (encode value) = encode value)
    (pair : Option (PerStream (Option α))) :
    stored (packStreamPair encode pair) = packStreamPair encode pair := by
  rw [packStreamPair]
  split
  · simp only [stored, storedItems, kept]
  · exact stored_natural 0

/-- A packed cursor is its own JSON value. -/
theorem stored_packCursor (cursor : JobCursor) :
    stored (packCursor cursor) = packCursor cursor := by
  unfold packCursor
  simp only [stored, storedItems, stored_natural,
    stored_packStreamPair stored_encodeState,
    stored_packStreamPair stored_encodePosition]

/-! ## The channel -/

/--
What the Controller signs with its key: the claims of cursors, and others
that name the Controller as their audience.
-/
inductive Issued (controllerId : JsString) : JsValue → JsValue → Prop where
  | cursor (cursor : JobCursor) :
      Issued controllerId cursorOptions.header (.object (cursorClaims cursor))
  | other (header : JsValue) (claims : List (JsString × JsValue))
      (distinct : (JsValue.object claims).Distinct)
      (audience : (jsText "aud", .string controllerId) ∈ claims) :
      Issued controllerId header (.object claims)

/-- The signed channel, before its cursors expire. -/
structure Channel (keys : SigningKeys) (controllerId : JsString)
    (now : Nat) : Prop where
  authentic : Authentic keys (Issued controllerId)
  named : ∃ id, controllerId = jsText "controller_" ++ id
  unexpired : now < cursorExpiry

theorem distinct_packCursor (cursor : JobCursor) :
    (packCursor cursor).Distinct := by
  have item (value : Nat) : (natural value).Distinct := trivial
  have state (value : Option LogPresentationState) :
      (encodeState value).Distinct := by
    cases value with
    | none => trivial
    | some state =>
      exact ⟨trivial, item _, item _, item _, item _, trivial⟩
  have position (value : Option StreamPosition) :
      (encodePosition value).Distinct := by
    cases value with
    | none => trivial
    | some position => exact ⟨trivial, item _, item _, trivial⟩
  have pair {α : Type} (encode : Option α → JsValue)
      (inside : ∀ value, (encode value).Distinct)
      (both : Option (PerStream (Option α))) :
      (packStreamPair encode both).Distinct := by
    rw [packStreamPair]
    split
    · exact ⟨trivial, inside _, inside _, trivial⟩
    · exact item 0
  exact ⟨trivial, item _, trivial, trivial, item _, item _, item _,
    pair _ state _, pair _ position _, trivial⟩

theorem distinct_cursorClaims (cursor : JobCursor) :
    (JsValue.object (cursorClaims cursor)).Distinct := by
  have names : [jsText "sub", jsText "aud", jsText "exp",
      jsText "c"].Nodup := by
    decide
  exact ⟨names, trivial, trivial, trivial, distinct_packCursor cursor,
    trivial⟩

theorem stored_cursorClaims (cursor : JobCursor) :
    stored (.object (cursorClaims cursor)) =
      .object (cursorClaims cursor) := by
  simp only [cursorClaims, stored, storedMembers, stored_packCursor,
    stored_natural, JsValue.isUndefined]
  rfl

/-- A member is found by its name. -/
theorem lookup_of_mem {members : List (JsString × JsValue)}
    (distinct : (members.map Prod.fst).Nodup) {name : JsString}
    {value : JsValue} (member : (name, value) ∈ members) :
    members.lookup name = some value := by
  induction members with
  | nil => cases member
  | cons first members induction =>
    rcases first with ⟨other, otherValue⟩
    rw [List.map_cons, List.nodup_cons] at distinct
    rw [List.lookup_cons]
    rcases List.mem_cons.mp member with equal | later
    · cases equal
      rw [beq_self_eq_true]
    · have apart : name ≠ other := by
        rintro rfl
        exact distinct.1 (List.mem_map.mpr ⟨_, later, rfl⟩)
      rw [beq_false_of_ne apart]
      exact induction distinct.2 later

/-- The audience of other tokens is not that of cursors. -/
theorem audience_other {controllerId : JsString}
    (named : ∃ id, controllerId = jsText "controller_" ++ id)
    {claims : List (JsString × JsValue)}
    (distinct : (JsValue.object claims).Distinct)
    (audience : (jsText "aud", .string controllerId) ∈ claims) :
    isText "r" (claimOf "aud" (stored (.object claims))) = false := by
  rcases (everywhere_object claims).mp distinct with ⟨names, -⟩
  have found : (storedMembers claims).lookup (jsText "aud") =
      some (.string controllerId) := by
    rw [storedMembers_eq]
    refine lookup_of_mem ?_ ?_
    · rw [List.map_map]
      exact names.sublist (List.filter_sublist.map Prod.fst)
    · exact List.mem_map.mpr
        ⟨_, List.mem_filter.mpr ⟨audience, rfl⟩, rfl⟩
  rw [stored, claimOf, found]
  rcases named with ⟨id, rfl⟩
  have apart : jsText "controller_" ++ id ≠ jsText "r" := by
    intro equal
    cases congrArg List.head? equal
  exact decide_eq_false apart

/-! ## Accepted tokens -/

theorem claimOf_cursorClaims (cursor : JobCursor) {name : String}
    {value : JsValue} (member : (jsText name, value) ∈ cursorClaims cursor) :
    claimOf name (.object (cursorClaims cursor)) = value := by
  have names : ((cursorClaims cursor).map Prod.fst).Nodup :=
    (distinct_cursorClaims cursor).here
  rw [claimOf, lookup_of_mem names member, Option.getD_some]

/-- The claims of a cursor hold its packed form. -/
theorem unpack_claims {cursor result : JobCursor} :
    unpackCursor (claimOf "c" (.object (cursorClaims cursor))) =
        some result ↔
      result = cursor.compact ∧ Encodable cursor := by
  rw [@claimOf_cursorClaims cursor "c" (packCursor cursor)
    (by simp [cursorClaims])]
  exact unpackCursor_packCursor

section Tokens

variable {keys : SigningKeys} {controllerId : JsString} {now : Nat}

/-- The token of a cursor, of whatever length. -/
def tokenOf (keys : SigningKeys) (cursor : JobCursor) : JsString :=
  keys.signed (signingInput cursorOptions.header
    (.object (cursorClaims cursor)))

theorem encodeCursor_eq (keys : SigningKeys) (now : Nat)
    (cursor : JobCursor) :
    encodeCursor keys now cursor =
      if (tokenOf keys cursor).length ≤ maxTokenLength then
        some (tokenOf keys cursor)
      else none :=
  rfl

/-- An accepted token is that of a cursor, and decodes to this cursor. -/
theorem tokenOf_of_decodeCursor (channel : Channel keys controllerId now)
    {token : JsString} {decoded : JobCursor}
    (accepted : decodeCursor keys now token = some decoded) :
    token.length ≤ maxTokenLength ∧
      ∃ cursor, token = tokenOf keys cursor ∧ decoded = cursor.compact ∧
        Encodable cursor := by
  rw [decodeCursor] at accepted
  split at accepted
  · cases accepted
  · rename_i short
    split at accepted
    · cases accepted
    · rename_i wellFormed
      refine ⟨Nat.not_lt.mp short, ?_⟩
      rw [not_or] at wellFormed
      have canonical : ∀ part ∈ token.splitOn fullStop, Canonical part := by
        intro part member
        by_contra other
        exact wellFormed.2 ⟨part, member, Or.inr other⟩
      rcases Option.bind_eq_some_iff.mp accepted with
        ⟨claims, verified, accepted⟩
      rcases signed_of_verifyEdDsaJwt channel.authentic canonical verified
        with ⟨header, payload, known, whole, parsed⟩
      split at accepted
      · cases accepted
      · rename_i purpose
        rw [not_or, Bool.not_eq_false, Bool.not_eq_false] at purpose
        cases known with
        | cursor cursor =>
          rw [parsePart_base64UrlJson (distinct_cursorClaims cursor) rfl,
            stored_cursorClaims, Option.some.injEq] at parsed
          subst parsed
          rcases unpack_claims.mp accepted with ⟨same, encodable⟩
          exact ⟨cursor, whole, same, encodable⟩
        | other header members distinct audience =>
          rw [parsePart_base64UrlJson distinct rfl,
            Option.some.injEq] at parsed
          rw [← parsed, audience_other channel.named distinct
            audience] at purpose
          cases purpose.2

/-- The token of a cursor is accepted when it is short enough. -/
theorem decodeCursor_tokenOf (channel : Channel keys controllerId now)
    {cursor : JobCursor} (encodable : Encodable cursor)
    (short : (tokenOf keys cursor).length ≤ maxTokenLength) :
    decodeCursor keys now (tokenOf keys cursor) = some cursor.compact := by
  have headerDistinct : cursorOptions.header.Distinct :=
    ⟨List.nodup_cons.mpr ⟨List.not_mem_nil, List.nodup_nil⟩, trivial, trivial⟩
  have verified : verifyEdDsaJwt keys now (tokenOf keys cursor) =
      some (.object (cursorClaims cursor)) := by
    rw [← stored_cursorClaims cursor]
    refine verifyEdDsaJwt_signed channel.authentic (Issued.cursor cursor)
      headerDistinct rfl (distinct_cursorClaims cursor) rfl ?_ ?_
    · decide
    · rw [stored_cursorClaims,
        @claimOf_cursorClaims cursor "exp" (natural cursorExpiry)
          (by simp [cursorClaims]),
        natural, isAfter, JsNumber.value?_ofNat]
      exact decide_eq_true (by exact_mod_cast channel.unexpired)
  have parts := splitOn_signed keys cursorOptions.header
    (.object (cursorClaims cursor))
  have written {value : JsValue} (distinct : value.Distinct)
      (defined : value.isUndefined = false) : base64UrlJson value ≠ [] := by
    intro empty
    have read := parsePart_base64UrlJson distinct defined
    rw [empty] at read
    cases read
  have wellFormed : ¬ (((tokenOf keys cursor).splitOn fullStop).length ≠ 3 ∨
      ∃ part ∈ (tokenOf keys cursor).splitOn fullStop,
        part = [] ∨ ¬ Canonical part) := by
    rw [tokenOf, parts]
    rintro (count | ⟨part, member, wrong⟩)
    · exact count rfl
    · simp only [List.mem_cons, List.not_mem_nil, or_false] at member
      rcases wrong with empty | other
      · subst empty
        rcases member with header | payload | signature
        · exact written headerDistinct rfl header.symm
        · exact written (distinct_cursorClaims cursor) rfl payload.symm
        · have width := Base64Url.length_encode (keys.sign (Utf16.toBytes
            (signingInput cursorOptions.header
              (.object (cursorClaims cursor)))))
          rw [← signature, channel.authentic.width] at width
          cases width
      · rcases member with rfl | rfl | rfl <;>
          exact other (congrArg Base64Url.encode (Base64Url.decode_encode _))
  have subject : isText "c" (claimOf "sub" (.object (cursorClaims cursor))) =
      true := by
    rw [@claimOf_cursorClaims cursor "sub" (.string (jsText "c"))
      (by simp [cursorClaims])]
    exact (decide_eq_true rfl : decide (jsText "c" = jsText "c") = true)
  have audience : isText "r" (claimOf "aud" (.object (cursorClaims cursor))) =
      true := by
    rw [@claimOf_cursorClaims cursor "aud" (.string (jsText "r"))
      (by simp [cursorClaims])]
    exact (decide_eq_true rfl : decide (jsText "r" = jsText "r") = true)
  rw [decodeCursor, if_neg (Nat.not_lt.mpr short), if_neg wellFormed, verified]
  simp only [bind, Option.bind_some, subject, audience,
    Bool.true_eq_false, or_self, if_false]
  exact unpack_claims.mpr ⟨rfl, encodable⟩

/-- What an accepted token decodes to is encoded as this token. -/
theorem encodeCursor_of_decodeCursor (channel : Channel keys controllerId now)
    {token : JsString} {decoded : JobCursor}
    (accepted : decodeCursor keys now token = some decoded) :
    encodeCursor keys now decoded = some token := by
  rcases tokenOf_of_decodeCursor channel accepted with
    ⟨short, cursor, rfl, rfl, -⟩
  have same : tokenOf keys cursor.compact = tokenOf keys cursor := by
    unfold tokenOf cursorClaims
    rw [packCursor_compact]
  rw [encodeCursor_eq, same, if_pos short]

end Tokens

/-! ## The length of a token -/

/-- The text of a value among the items of an array. -/
def itemText (value : JsValue) : List Char :=
  (jsonStringify value).getD "null".toList

/-- A text with at most so many bytes. -/
def Narrow (limit : Nat) (text : List Char) : Prop :=
  (Utf8.encode text).length ≤ limit

namespace Narrow

variable {limit other : Nat} {text more : List Char}

theorem mono (narrow : Narrow limit text) (le : limit ≤ other) :
    Narrow other text :=
  narrow.trans le

theorem append (first : Narrow limit text) (second : Narrow other more) :
    Narrow (limit + other) (text ++ more) := by
  rw [Narrow, Utf8.encode_append, List.length_append]
  exact Nat.add_le_add first second

theorem ascii (plain : ∀ char ∈ text, char.toNat < 0x80)
    (short : text.length ≤ limit) : Narrow limit text := by
  rw [Narrow, Utf8.length_encode_ascii plain]
  exact short

/-- One byte for each comma and two for the brackets are enough. -/
theorem bracketed {opening closing : Char}
    (ascii : opening.toNat < 0x80 ∧ closing.toNat < 0x80)
    {limits : List Nat} {texts : List (List Char)}
    (narrow : List.Forall₂ Narrow limits texts) :
    Narrow ((limits.map (· + 1)).sum + 2)
      (Foundation.bracketed opening closing texts) := by
  have single (char : Char) (plain : char.toNat < 0x80) : Narrow 1 [char] :=
    Narrow.ascii (fun other member => by
      rw [List.mem_singleton.mp member]
      exact plain) (Nat.le_refl 1)
  have inside : Narrow (limits.map (· + 1)).sum
      ([','].intercalate texts) := by
    induction narrow with
    | nil => exact Nat.le_refl 0
    | @cons limit text limits texts first others induction =>
      rw [List.map_cons, List.sum_cons]
      cases others with
      | nil =>
        rw [List.intercalate_singleton]
        exact first.mono (by simp)
      | cons second others =>
        rw [List.intercalate_cons_cons, List.append_assoc,
          Nat.add_assoc]
        exact first.append ((single ',' (by decide)).append induction)
  have whole := (single opening ascii.1).append
    (inside.append (single closing ascii.2))
  exact whole.mono (by omega)

theorem natural {value width : Nat} (positive : 0 < width)
    (fits : value < 10 ^ width) (short : width ≤ 21) :
    Narrow width (itemText (LogCursors.natural value)) := by
  rcases JsNumber.text_ofNat positive fits short with ⟨length, digits⟩
  refine Narrow.ascii (fun char member => ?_) length
  have digit := digits char member
  rw [Char.isDigit, Bool.and_eq_true, decide_eq_true_iff,
    decide_eq_true_iff, UInt32.le_iff_toNat_le] at digit
  exact Nat.lt_of_le_of_lt digit.2 (by decide)

end Narrow

/-- A unit that is quoted as it is. -/
def PlainUnit (unit : UInt16) : Prop :=
  0x30 ≤ unit ∧ unit < 0x80 ∧ unit ≠ 0x5C

instance (unit : UInt16) : Decidable (PlainUnit unit) :=
  inferInstanceAs (Decidable (_ ∧ _ ∧ _))

theorem escapeUnit_plain {unit : UInt16} (plain : PlainUnit unit) :
    escapeUnit unit = [Utf16.single unit] := by
  rcases plain with ⟨low, high, backslash⟩
  have alone := Utf16.alone_of_ascii high
  have above (other : UInt16) (small : other < 0x30) : unit ≠ other := by
    rintro rfl
    exact absurd (UInt16.lt_of_lt_of_le small low) (UInt16.lt_irrefl _)
  have large : ¬ unit < 0x20 := fun small =>
    absurd (UInt16.lt_of_lt_of_le small
      (UInt16.le_trans (by decide) low)) (UInt16.lt_irrefl _)
  rw [escapeUnit, if_neg (above _ (by decide)), if_neg (above _ (by decide)),
    if_neg (above _ (by decide)), if_neg (above _ (by decide)),
    if_neg (above _ (by decide)), if_neg (above _ (by decide)),
    if_neg backslash, if_neg]
  rw [alone.1, alone.2]
  simp [large]

theorem quoteBody_plain {units : JsString}
    (plain : ∀ unit ∈ units, PlainUnit unit) :
    quoteBody units = units.map Utf16.single := by
  induction units using quoteBody.induct with
  | case1 => rfl
  | case2 unit =>
    exact escapeUnit_plain (plain unit (List.mem_singleton.mpr rfl))
  | case3 first second rest both induction =>
    have alone := Utf16.alone_of_ascii (plain first List.mem_cons_self).2.1
    rw [alone.1, Bool.false_and] at both
    cases both
  | case4 first second rest other induction =>
    rw [List.forall_mem_cons] at plain
    rw [quoteBody, if_neg other, escapeUnit_plain plain.1,
      induction plain.2]
    rfl

theorem narrow_quote {units : JsString}
    (plain : ∀ unit ∈ units, PlainUnit unit) :
    Narrow (units.length + 2) (quote units) := by
  have body : Narrow units.length (quoteBody units) := by
    rw [quoteBody_plain plain]
    refine Narrow.ascii (fun char member => ?_) (by rw [List.length_map])
    rcases List.mem_map.mp member with ⟨unit, inside, rfl⟩
    have small := (plain unit inside).2.1
    rw [Utf16.toNat_single_ascii small]
    exact UInt16.lt_iff_toNat_lt.mp small
  have mark : Narrow 1 ['"'] := Nat.le_refl 1
  exact (mark.append (body.append mark)).mono (by omega)

/-- The alphabet of generated ids. -/
def crockford : JsString :=
  jsText "0123456789ABCDEFGHJKMNPQRSTVWXYZ"

/-- An id that `generateId` makes: its kind and a ULID. -/
def GeneratedId (kind : String) (id : JsString) : Prop :=
  ∃ ulid : JsString, id = jsText kind ++ 0x5F :: ulid ∧ ulid.length = 26 ∧
    ∀ unit ∈ ulid, unit ∈ crockford

theorem GeneratedId.narrow {kind : String} {id : JsString}
    (generated : GeneratedId kind id)
    (plainKind : (jsText kind).all (fun unit => decide (PlainUnit unit)))
    (shortKind : (jsText kind).length = 3) : Narrow 32 (quote id) := by
  rcases generated with ⟨ulid, rfl, length, alphabet⟩
  have letters : crockford.all (fun unit => decide (PlainUnit unit)) = true := by
    decide
  have whole : Narrow ((jsText kind ++ 0x5F :: ulid).length + 2)
      (quote (jsText kind ++ 0x5F :: ulid)) := by
    refine narrow_quote fun unit member => ?_
    rcases List.mem_append.mp member with inKind | rest
    · exact of_decide_eq_true (List.all_eq_true.mp plainKind unit inKind)
    · rcases List.mem_cons.mp rest with rfl | inUlid
      · decide
      · exact of_decide_eq_true
          (List.all_eq_true.mp letters unit (alphabet unit inUlid))
  refine whole.mono ?_
  rw [List.length_append, List.length_cons, shortKind, length]

theorem narrow_array {limits : List Nat} {items : List JsValue}
    (narrow : List.Forall₂ (fun limit item => Narrow limit (itemText item))
      limits items) :
    Narrow ((limits.map (· + 1)).sum + 2) (itemText (.array items)) := by
  rw [itemText, jsonStringify, Option.getD_some, itemTexts_eq]
  refine Narrow.bracketed (by decide) ?_
  rw [List.forall₂_map_right_iff]
  exact narrow

theorem narrow_safe {value : Nat} (safe : value ≤ Json.maxSafeInteger) :
    Narrow 16 (itemText (natural value)) :=
  Narrow.natural (by decide)
    (Nat.lt_of_le_of_lt safe (by decide)) (by decide)

theorem narrow_counter {value : Nat} (small : value ≤ maxControlBytes) :
    Narrow 4 (itemText (natural value)) :=
  Narrow.natural (by decide)
    (Nat.lt_of_le_of_lt small (by decide)) (by decide)

theorem narrow_digit {value : Nat} (small : value < 10) :
    Narrow 1 (itemText (natural value)) :=
  Narrow.natural (by decide) (by simpa using small) (by decide)

theorem narrow_null : Narrow 4 (itemText .null) :=
  Narrow.ascii (List.all_iff_forall_prop.mp (by decide +kernel))
    (by decide +kernel)

theorem narrow_encodeState (state : Option LogPresentationState)
    (bounded : ∀ inside ∈ state, Bounded inside) :
    Narrow 19 (itemText (encodeState state)) := by
  cases state with
  | none => exact narrow_null.mono (by decide)
  | some state =>
    have small := bounded state rfl
    have mode : presentationModes.idxOf state.mode < 10 := by
      cases state.mode <;> decide
    exact @narrow_array [1, 4, 4, 4] _
      (.cons (narrow_digit mode) (.cons (narrow_counter small.csiLength)
        (.cons (narrow_counter small.oscLength)
          (.cons (narrow_counter small.controlLength) .nil))))

theorem narrow_encodePosition (position : Option StreamPosition)
    (safe : ∀ inside ∈ position, SafePosition inside) :
    Narrow 36 (itemText (encodePosition position)) := by
  cases position with
  | none => exact narrow_null.mono (by decide)
  | some position =>
    have numbers := safe position rfl
    exact @narrow_array [16, 16] _
      (.cons (narrow_safe numbers.seq)
        (.cons (narrow_safe numbers.off) .nil))

theorem narrow_packStreamPair {α : Type} {encode : Option α → JsValue}
    {property : α → Prop} {limit : Nat}
    (narrow : ∀ value, (∀ inside ∈ value, property inside) →
      Narrow limit (itemText (encode value)))
    (pair : Option (PerStream (Option α)))
    (holds : ∀ both ∈ pair, PerStream.All property both) :
    Narrow (2 * limit + 4) (itemText (packStreamPair encode pair)) := by
  rw [packStreamPair]
  split
  · rename_i both kept
    have inside := holds both (Option.filter_eq_some_iff.mp kept).1
    refine (@narrow_array [limit, limit] _ (.cons (narrow _ inside.1)
      (.cons (narrow _ inside.2) .nil))).mono ?_
    simp only [List.map_cons, List.map_nil, List.sum_cons, List.sum_nil]
    omega
  · exact (narrow_digit (by decide)).mono (by omega)

/-- A packed cursor has at most 226 bytes. -/
theorem narrow_packCursor {cursor : JobCursor} (encodable : Encodable cursor)
    (job : GeneratedId "job" cursor.job)
    (attempt : GeneratedId "att" cursor.attempt) :
    Narrow 226 (itemText (packCursor cursor)) := by
  have mode : (if cursor.mode = .events then 1 else 0) < 10 := by
    split <;> decide
  exact @narrow_array [1, 32, 32, 1, 16, 16, 42, 76] _
    (.cons (narrow_digit (by decide))
      (.cons (job.narrow (by decide) rfl)
        (.cons (attempt.narrow (by decide) rfl)
          (.cons (narrow_digit mode)
            (.cons (narrow_safe encodable.seq)
              (.cons (narrow_safe encodable.off)
                (.cons (narrow_packStreamPair narrow_encodeState _
                  encodable.states)
                  (.cons (narrow_packStreamPair narrow_encodePosition _
                    encodable.positions) .nil))))))))

/-- A member of an object takes its key, its value and three more bytes. -/
theorem narrow_member {key : JsString} {text : List Char} {limit : Nat}
    (plain : key.all fun unit => decide (PlainUnit unit))
    (narrow : Narrow limit text) :
    Narrow (key.length + 3 + limit) (quote key ++ ':' :: text) := by
  have name := narrow_quote fun unit member =>
    of_decide_eq_true (List.all_eq_true.mp plain unit member)
  have colon : Narrow 1 [':'] := Nat.le_refl 1
  exact (name.append (colon.append narrow)).mono (by omega)

theorem narrow_short {text : String}
    (plain : (jsText text).all fun unit => decide (PlainUnit unit)) :
    Narrow ((jsText text).length + 2)
      (itemText (.string (jsText text))) :=
  narrow_quote fun unit member =>
    of_decide_eq_true (List.all_eq_true.mp plain unit member)

/-- A part of a token is at most four thirds of the text it holds. -/
theorem length_base64UrlJson {members : List (JsString × JsValue)}
    {limit : Nat} (narrow : Narrow limit (itemText (.object members))) :
    (base64UrlJson (.object members)).length ≤ (4 * limit + 2) / 3 := by
  rw [base64UrlJson, Base64Url.length_encode]
  rw [itemText, jsonStringify, Option.getD_some, Narrow] at narrow
  rw [jsonStringify, Option.getD_some]
  omega

/-- Every token of generated ids and packed numbers is short enough. -/
theorem length_tokenOf {keys : SigningKeys}
    (width : ∀ text, (keys.sign text).length = 64) {cursor : JobCursor}
    (encodable : Encodable cursor) (job : GeneratedId "job" cursor.job)
    (attempt : GeneratedId "att" cursor.attempt) :
    (tokenOf keys cursor).length ≤ maxTokenLength := by
  have header : Narrow 16 (itemText cursorOptions.header) :=
    @Narrow.bracketed '{' '}' (by decide) [13] _
      (.cons (@narrow_member (jsText "alg") _ 7 (by decide)
        (narrow_short (by decide))) .nil)
  have payload : Narrow 270
      (itemText (.object (cursorClaims cursor))) :=
    @Narrow.bracketed '{' '}' (by decide) [9, 9, 16, 230] _
      (.cons (@narrow_member (jsText "sub") _ 3 (by decide)
          (narrow_short (by decide)))
        (.cons (@narrow_member (jsText "aud") _ 3 (by decide)
            (narrow_short (by decide)))
          (.cons (@narrow_member (jsText "exp") _ 10 (by decide)
              (@Narrow.natural cursorExpiry 10 (by decide) (by decide)
                (by decide)))
            (.cons (@narrow_member (jsText "c") _ 226 (by decide)
              (narrow_packCursor encodable job attempt)) .nil))))
  have headerLength := length_base64UrlJson header
  have payloadLength := length_base64UrlJson payload
  have signatureLength := Base64Url.length_encode (keys.sign
    (Utf16.toBytes (signingInput cursorOptions.header
      (.object (cursorClaims cursor)))))
  rw [width] at signatureLength
  rw [tokenOf, SigningKeys.signed, dotted, List.length_append,
    List.length_cons, signatureLength, signingInput, dotted,
    List.length_append, List.length_cons, maxTokenLength]
  change (base64UrlJson (.object _)).length + _ + _ ≤ _
  omega

/-! ## Cursors that pages return -/

theorem PerStream.All.set {α : Type} {property : α → Prop}
    {pair : PerStream (Option α)} (all : PerStream.All property pair)
    (stream : Executor.Logs.Stream) {value : α} (holds : property value) :
    PerStream.All property (pair.set stream (some value)) := by
  have one : ∀ inside ∈ some value, property inside := by
    rintro inside ⟨⟩
    exact holds
  cases stream with
  | stdout => exact ⟨one, all.2⟩
  | stderr => exact ⟨all.1, one⟩

theorem settle_states (page : PageState)
    (entry : Executor.Logs.ChunkIndexEntry) (startOffset : Nat)
    (bytes : List UInt8) (rangeCapped : Bool) (needed : Nat)
    (result : PresentLogResult)
    (next : Option (Executor.Logs.ChunkIndexEntry × Nat)) :
    (page.settle entry startOffset bytes rangeCapped needed result
      next).page.states = page.states := by
  unfold PageState.settle
  dsimp only
  split
  · split <;> rfl
  · rcases next with _ | ⟨nextEntry, _ | used⟩
    all_goals
      dsimp only
      split <;> rfl

theorem present_states (page : PageState) (logs : Executor.Logs.AttemptLogs)
    (cursorSeq maxBytes : Nat) (entry : Executor.Logs.ChunkIndexEntry)
    (rest : List Executor.Logs.ChunkIndexEntry) (bytes : List UInt8)
    (rangeCapped : Bool) (needed : Nat) {plain : PresentLogResult}
    (bounded : Bounded plain.state) :
    let presented := page.present logs cursorSeq maxBytes entry rest bytes
      rangeCapped needed plain
    presented.page.states = page.states ∧ Bounded presented.result.state := by
  rw [PageState.present]
  dsimp only
  split
  · split
    · exact ⟨rfl, bounded_presentLogChunks _ _ _ _⟩
    · refine ⟨?_, bounded⟩
      dsimp only
      split <;> rfl
  · exact ⟨rfl, bounded⟩

variable {logs : Executor.Logs.AttemptLogs}

/-- Visiting an entry keeps the states in their bound. -/
theorem bounded_visit {page : PageState} {visit : Visit}
    (bounded : PerStream.All Bounded page.states) {cursorSeq maxBytes : Nat}
    {entry : Executor.Logs.ChunkIndexEntry}
    {rest : List Executor.Logs.ChunkIndexEntry}
    (visited : page.visit logs cursorSeq maxBytes entry rest = some visit) :
    PerStream.All Bounded visit.page.states := by
  rw [PageState.visit] at visited
  split at visited
  · cases visited
    exact bounded
  · dsimp only at visited
    split at visited
    · cases visited
      exact bounded
    · split at visited
      · cases visited
        exact bounded
      · split at visited
        · cases visited
        · cases visited
          exact bounded
        · rename_i bytes _ _
          rw [Option.some.injEq] at visited
          subst visited
          rw [settle_states]
          refine PerStream.All.set ?_ _
            (present_states _ _ _ _ _ _ _ _ _
              (bounded_presentLogChunks _ _ _ _)).2
          rw [(present_states _ _ _ _ _ _ _ _ _
            (bounded_presentLogChunks _ _ _ _)).1]
          exact bounded

theorem bounded_loop {cursorSeq maxBytes limit : Nat}
    {entries : List Executor.Logs.ChunkIndexEntry} {page final : PageState}
    (bounded : PerStream.All Bounded page.states)
    (looped : PageState.loop logs cursorSeq maxBytes limit entries page =
      some final) :
    PerStream.All Bounded final.states := by
  induction limit generalizing entries page with
  | zero =>
    cases looped
    exact bounded
  | succ limit induction =>
    cases entries with
    | nil =>
      cases looped
      exact bounded
    | cons entry rest =>
      rw [PageState.loop] at looped
      split at looped
      · cases looped
      · rename_i left visited
        cases looped
        exact bounded_visit bounded visited
      · rename_i next visited
        exact induction (bounded_visit bounded visited) looped

/-- The cursor of a page has states in their bound. -/
theorem bounded_readJobLogsPage {cursor : LogCursor} {maxBytes : Nat}
    {page : LogPage}
    (bounded : ∀ both ∈ cursor.states, PerStream.All Bounded both)
    (read : readJobLogsPage logs cursor maxBytes = some page) :
    ∀ both ∈ page.next.states, PerStream.All Bounded both := by
  rw [readJobLogsPage] at read
  rcases Option.bind_eq_some_iff.mp read with ⟨final, looped, returned⟩
  rw [Option.some.injEq] at returned
  subst returned
  have start : PerStream.All Bounded (PageState.start cursor).states := by
    dsimp only [PageState.start]
    cases states : cursor.states with
    | none =>
      constructor
      all_goals
        intro state member
        cases member
    | some both => exact bounded both states
  have inside := bounded_loop start looped
  intro both member
  dsimp only [compactStates] at member
  split at member
  · cases member
  · cases member
    exact ⟨fun state member =>
        inside.1 state (Option.filter_eq_some_iff.mp member).1,
      fun state member =>
        inside.2 state (Option.filter_eq_some_iff.mp member).1⟩

/-! ## Cursors survive the wire -/

/--
The cursors that pages are read from: the first one of a job, one that a
token decodes to, and that of an earlier page.
-/
inductive Supplied (keys : SigningKeys) (now : Nat) : JobCursor → Prop where
  | start (job attempt : JsString) (mode : CursorMode) :
      Supplied keys now { job, attempt, mode, place := nullCursor }
  | decoded {token : JsString} {cursor : JobCursor}
      (accepted : decodeCursor keys now token = some cursor) :
      Supplied keys now cursor
  | next {cursor : JobCursor} {logs : Executor.Logs.AttemptLogs}
      {maxBytes : Nat} {page : LogPage} (supplied : Supplied keys now cursor)
      (read : readJobLogsPage logs cursor.place maxBytes = some page) :
      Supplied keys now { cursor with place := page.next }

/-- The positions of a cursor are safe integers. -/
structure SafeNumbers (place : LogCursor) : Prop where
  seq : place.seq ≤ Json.maxSafeInteger
  off : place.off ≤ Json.maxSafeInteger
  positions : ∀ both ∈ place.positions, PerStream.All SafePosition both

theorem all_filter {α : Type} {property : α → Prop}
    {pair : Option (PerStream (Option α))} {keep : PerStream (Option α) → Bool}
    (all : ∀ both ∈ pair, PerStream.All property both) :
    ∀ both ∈ pair.filter keep, PerStream.All property both :=
  fun both member => all both (Option.filter_eq_some_iff.mp member).1

section Wire

variable {keys : SigningKeys} {controllerId : JsString} {now : Nat}

/-- The invariant of the cursors on the way: their counters are bounded. -/
theorem Supplied.bounded (channel : Channel keys controllerId now)
    {cursor : JobCursor} (supplied : Supplied keys now cursor) :
    ∀ both ∈ cursor.place.states, PerStream.All Bounded both := by
  induction supplied with
  | start job attempt mode =>
    intro both member
    cases member
  | decoded accepted =>
    rcases tokenOf_of_decodeCursor channel accepted with
      ⟨-, cursor, -, rfl, encodable⟩
    exact all_filter encodable.states
  | next supplied read induction =>
    exact bounded_readJobLogsPage induction read

theorem getD_filter_inhabited {α : Type}
    (pair : Option (PerStream (Option α))) :
    (pair.filter PerStream.inhabited).getD (PerStream.both none) =
      pair.getD (PerStream.both none) := by
  rcases pair with _ | ⟨_ | _, _ | _⟩ <;> rfl

/-- A page does not depend on empty pairs. -/
theorem readJobLogsPage_compact (cursor : JobCursor)
    (logs : Executor.Logs.AttemptLogs) (maxBytes : Nat) :
    readJobLogsPage logs cursor.compact.place maxBytes =
      readJobLogsPage logs cursor.place maxBytes := by
  have positions : cursor.compact.place.startPositions =
      cursor.place.startPositions :=
    getD_filter_inhabited _
  have entries : pageEntries logs cursor.compact.place =
      pageEntries logs cursor.place := by
    unfold pageEntries LogCursor.firstSequence
    rw [positions]
    rfl
  have start : PageState.start cursor.compact.place =
      PageState.start cursor.place := by
    unfold PageState.start
    rw [positions]
    dsimp only [JobCursor.compact]
    rw [getD_filter_inhabited]
  unfold readJobLogsPage
  rw [entries, start]
  rfl

/--
The cursor of a page is encoded within 512 characters, and pages read from
what its token decodes to are the pages read from the cursor.  A token that is
accepted is the token of the cursor it decodes to.
-/
theorem logCursors_survive_the_wire
    (channel : Channel keys controllerId now) :
    (∀ (cursor : JobCursor) (logs : Executor.Logs.AttemptLogs)
        (maxBytes : Nat) (page : LogPage),
      Supplied keys now cursor →
      readJobLogsPage logs cursor.place maxBytes = some page →
      GeneratedId "job" cursor.job → GeneratedId "att" cursor.attempt →
      SafeNumbers page.next →
      ∃ token decoded,
        encodeCursor keys now { cursor with place := page.next } =
          some token ∧
        token.length ≤ 512 ∧
        decodeCursor keys now token = some decoded ∧
        decoded.job = cursor.job ∧ decoded.attempt = cursor.attempt ∧
        decoded.mode = cursor.mode ∧
        ∀ logs maxBytes, readJobLogsPage logs decoded.place maxBytes =
          readJobLogsPage logs page.next maxBytes) ∧
    ∀ token decoded, decodeCursor keys now token = some decoded →
      encodeCursor keys now decoded = some token := by
  refine ⟨?_, fun token decoded => encodeCursor_of_decodeCursor channel⟩
  intro cursor logs maxBytes page supplied read job attempt safe
  have encodable : Encodable { cursor with place := page.next } :=
    ⟨safe.seq, safe.off, (Supplied.next supplied read).bounded channel,
      safe.positions⟩
  have short := length_tokenOf channel.authentic.width encodable job attempt
  refine ⟨_, _, ?_, short, decodeCursor_tokenOf channel encodable short, rfl,
    rfl, rfl, fun logs maxBytes =>
      readJobLogsPage_compact { cursor with place := page.next } logs
        maxBytes⟩
  rw [encodeCursor_eq, if_pos short]

end Wire

/-- Keys whose signatures are all alike, over the texts of one Controller. -/
noncomputable def plainKeys (controllerId : JsString) : SigningKeys where
  sign _ := List.replicate 64 0
  verify text signature :=
    @decide
      (∃ header payload, Issued controllerId header payload ∧
        text = Utf16.toBytes (signingInput header payload) ∧
          signature = List.replicate 64 0)
      (Classical.propDecidable _)

theorem channel_plainKeys :
    Channel (plainKeys (jsText "controller_1")) (jsText "controller_1")
      0 where
  authentic :=
    { accepts := fun known =>
        @decide_eq_true _ (Classical.propDecidable _)
          ⟨_, _, known, rfl, rfl⟩
      genuine := fun accepted =>
        @of_decide_eq_true _ (Classical.propDecidable _) accepted
      width := fun _ => List.length_replicate }
  named := ⟨jsText "1", by decide⟩
  unexpired := by decide

/-- The first cursor of a job whose ids are all zeros. -/
def zeroCursor : JobCursor where
  job := jsText "job" ++ 0x5F :: List.replicate 26 0x30
  attempt := jsText "att" ++ 0x5F :: List.replicate 26 0x30
  mode := .logs
  place := nullCursor

theorem generatedId_zeros (kind : String) :
    GeneratedId kind (jsText kind ++ 0x5F :: List.replicate 26 0x30) := by
  refine ⟨_, rfl, List.length_replicate, fun unit member => ?_⟩
  rw [List.eq_of_mem_replicate member]
  decide

theorem logCursors_survive_the_wire_zeros :
    ∃ token decoded,
      encodeCursor (plainKeys (jsText "controller_1")) 0
          { zeroCursor with
            place :=
              { seq := 0, off := 0, states := none
                positions := some (PerStream.both none) } } =
        some token ∧
      token.length ≤ 512 ∧
      decodeCursor (plainKeys (jsText "controller_1")) 0 token =
        some decoded ∧
      decoded.job = zeroCursor.job ∧
      decoded.attempt = zeroCursor.attempt ∧
      decoded.mode = zeroCursor.mode ∧
      ∀ logs maxBytes, readJobLogsPage logs decoded.place maxBytes =
        readJobLogsPage logs
          { seq := 0, off := 0, states := none
            positions := some (PerStream.both none) } maxBytes := by
  refine (logCursors_survive_the_wire channel_plainKeys).1 zeroCursor
    Executor.Logs.ensureAttemptLogs 4
    { chunks := []
      next :=
        { seq := 0, off := 0, states := none
          positions := some (PerStream.both none) }
      returned := 0
      hasMore := false
      truncated := false }
    (Supplied.start _ _ _) ?_ (generatedId_zeros _) (generatedId_zeros _)
    ⟨by decide, by decide, ?_⟩
  · decide +kernel
  · rintro both ⟨⟩
    constructor
    all_goals
      intro inside member
      cases member

end Rbo.Controller.LogCursors
