import Rbo.Foundation.Base64Url
import Rbo.Foundation.JsNumbers

/-!
# Tokens that the Controller signs

A token is a header, a payload and a signature in base64url with full stops
between them; the signature is over the first two parts as they stand.  The
Controller signs the tokens of log cursors and, with its own name as their
audience, those of agents, uploads and confirmations.

Ed25519 is a parameter: `Authentic` says what is relied on.
-/

namespace Rbo.Controller.SignedTokens

open Rbo.Foundation

/-! ## Signing -/

/-- The keys of the Controller, as they sign and verify bytes. -/
structure SigningKeys where
  sign : List UInt8 → List UInt8
  verify : List UInt8 → List UInt8 → Bool

def base64UrlJson (value : JsValue) : JsString :=
  Base64Url.encode (Utf8.encode ((jsonStringify value).getD []))

def fullStop : UInt16 := 0x2E

/-- Two texts with a full stop between them. -/
def dotted (front back : JsString) : JsString :=
  front ++ fullStop :: back

/-- What a token has besides its claims. -/
structure SignEdDsaJwtOptions where
  includeIat : Bool := true
  header : JsValue :=
    .object
      [(jsText "alg", .string (jsText "EdDSA")),
        (jsText "typ", .string (jsText "JWT"))]

/-- The payload: the claims, behind the time of issue unless it is left out. -/
def payloadOf (now : Nat) (claims : List (JsString × JsValue))
    (options : SignEdDsaJwtOptions) : JsValue :=
  .object
    (if options.includeIat = false then claims
    else
      claims.foldl (fun members claim => setProperty claim.1 claim.2 members)
        [(jsText "iat", .number (JsNumber.ofNat now))])

/-- The text that is signed. -/
def signingInput (header payload : JsValue) : JsString :=
  dotted (base64UrlJson header) (base64UrlJson payload)

/-- A text with its signature. -/
def SigningKeys.signed (keys : SigningKeys) (text : JsString) : JsString :=
  dotted text (Base64Url.encode (keys.sign (Utf16.toBytes text)))

/-- `signEdDsaJwt`. -/
def signEdDsaJwt (keys : SigningKeys) (now : Nat)
    (claims : List (JsString × JsValue)) (options : SignEdDsaJwtOptions) :
    JsString :=
  keys.signed (signingInput options.header (payloadOf now claims options))

/-! ## Verifying -/

/-- A member of an object. -/
def claimOf (name : String) : JsValue → JsValue
  | .object members => (members.lookup (jsText name)).getD .undefined
  | _ => .undefined

/-- Is the value this text? -/
def isText (text : String) : JsValue → Bool
  | .string value => decide (value = jsText text)
  | _ => false

/-- Is the value a number past that second? -/
def isAfter (now : Nat) : JsValue → Bool
  | .number value =>
    match value.value? with
    | some time => decide ((now : ℚ) < time)
    | none => false
  | _ => false

/-- The value of a part of a token. -/
def parsePart (part : JsString) : Option JsValue :=
  jsonParse (Utf8.decode (Base64Url.decode part))

/-- `verifyEdDsaJwt`: the claims of a token, or nothing. -/
def verifyEdDsaJwt (keys : SigningKeys) (now : Nat) (token : JsString) :
    Option JsValue :=
  match token.splitOn fullStop with
  | [header, payload, signature] => do
    let parsedHeader ← parsePart header
    if isText "EdDSA" (claimOf "alg" parsedHeader) = false then
      none
    else if keys.verify (Utf16.toBytes (dotted header payload))
        (Base64Url.decode signature) = false then
      none
    else do
      let claims ← parsePart payload
      if isAfter now (claimOf "exp" claims) = false then none
      else some claims
  | _ => none

/-! ## Parts of a token -/

section Parts

variable {front back : JsString}

theorem splitOn_dotted (plain : fullStop ∉ front) :
    (dotted front back).splitOn fullStop =
      front :: back.splitOn fullStop :=
  List.splitOn_append_cons_self_of_not_mem plain back

theorem dotted_inj {otherFront otherBack : JsString}
    (plain : fullStop ∉ front) (otherPlain : fullStop ∉ otherFront)
    (same : dotted front back = dotted otherFront otherBack) :
    front = otherFront ∧ back = otherBack := by
  have taken (text rest : JsString) (plain : fullStop ∉ text) :
      (dotted text rest).takeWhile (· ≠ fullStop) = text := by
    rw [dotted, List.takeWhile_append_of_pos, List.takeWhile_cons_of_neg,
      List.append_nil]
    · simp
    · intro unit member
      have other : unit ≠ fullStop := fun equal => plain (equal ▸ member)
      exact decide_eq_true other
  have fronts : front = otherFront := by
    rw [← taken front back plain, same, taken otherFront _ otherPlain]
  subst fronts
  rw [dotted, dotted, List.append_cancel_left_eq, List.cons.injEq] at same
  exact ⟨rfl, same.2⟩

theorem plain_base64UrlJson (value : JsValue) :
    fullStop ∉ base64UrlJson value := fun member =>
  (Base64Url.plain_of_mem_encode member).2 rfl

theorem ascii_dotted (asciiFront : ∀ unit ∈ front, unit < 0x80)
    (asciiBack : ∀ unit ∈ back, unit < 0x80) :
    ∀ unit ∈ dotted front back, unit < 0x80 := by
  intro unit member
  rcases List.mem_append.mp member with inFront | inBack
  · exact asciiFront unit inFront
  · rcases List.mem_cons.mp inBack with rfl | later
    · decide
    · exact asciiBack unit later

theorem ascii_encode (bytes : List UInt8) :
    ∀ unit ∈ Base64Url.encode bytes, unit < 0x80 := fun _ member =>
  (Base64Url.plain_of_mem_encode member).1

end Parts

/-- The parts of a token are the ones it was made of. -/
theorem splitOn_signed (keys : SigningKeys) (header payload : JsValue) :
    (keys.signed (signingInput header payload)).splitOn fullStop =
      [base64UrlJson header, base64UrlJson payload,
        Base64Url.encode
          (keys.sign (Utf16.toBytes (signingInput header payload)))] := by
  have whole : keys.signed (signingInput header payload) =
      dotted (base64UrlJson header)
        (dotted (base64UrlJson payload)
          (Base64Url.encode
            (keys.sign (Utf16.toBytes (signingInput header payload))))) := by
    rw [SigningKeys.signed]
    exact List.append_assoc _ _ _
  rw [whole, splitOn_dotted (plain_base64UrlJson _),
    splitOn_dotted (plain_base64UrlJson _), List.splitOn_eq_singleton]
  exact fun member => (Base64Url.plain_of_mem_encode member).2 rfl

/-- A part is read as what was written. -/
theorem parsePart_base64UrlJson {value : JsValue} (distinct : value.Distinct)
    (defined : value.isUndefined = false) :
    parsePart (base64UrlJson value) = some (stored value) := by
  cases written : jsonStringify value with
  | none =>
    rw [jsonStringify_eq_none_iff, defined] at written
    cases written
  | some text =>
    rw [parsePart, base64UrlJson, written, Option.getD_some,
      Base64Url.decode_encode, Utf8.decode_encode,
      jsonParse_stringify distinct written]

/-! ## The channel -/

/--
What is relied on: the keys accept what they signed, and what they accept is
what they signed.  A signature of Ed25519 has 64 bytes.
-/
structure Authentic (keys : SigningKeys)
    (issued : JsValue → JsValue → Prop) : Prop where
  accepts : ∀ {header payload}, issued header payload →
    keys.verify (Utf16.toBytes (signingInput header payload))
      (keys.sign (Utf16.toBytes (signingInput header payload))) = true
  genuine : ∀ {text signature}, keys.verify text signature = true →
    ∃ header payload, issued header payload ∧
      text = Utf16.toBytes (signingInput header payload) ∧
        signature = keys.sign text
  width : ∀ text, (keys.sign text).length = 64

section Channel

variable {keys : SigningKeys} {issued : JsValue → JsValue → Prop} {now : Nat}

/-- A token that was issued is verified. -/
theorem verifyEdDsaJwt_signed (channel : Authentic keys issued)
    {header payload : JsValue} (known : issued header payload)
    (headerDistinct : header.Distinct)
    (headerDefined : header.isUndefined = false)
    (distinct : payload.Distinct) (defined : payload.isUndefined = false)
    (algorithm : isText "EdDSA" (claimOf "alg" (stored header)) = true)
    (current : isAfter now (claimOf "exp" (stored payload)) = true) :
    verifyEdDsaJwt keys now (keys.signed (signingInput header payload)) =
      some (stored payload) := by
  rw [verifyEdDsaJwt, splitOn_signed]
  dsimp only
  rw [parsePart_base64UrlJson headerDistinct headerDefined,
    parsePart_base64UrlJson distinct defined, Base64Url.decode_encode]
  change (if _ then none else if keys.verify
    (Utf16.toBytes (signingInput header payload)) _ = false then none
      else if _ then none else some _) = _
  rw [algorithm, channel.accepts known, current]
  rfl

/-- The text of a part in base64url has one spelling. -/
def Canonical (part : JsString) : Prop :=
  Base64Url.encode (Base64Url.decode part) = part

instance (part : JsString) : Decidable (Canonical part) :=
  inferInstanceAs (Decidable (_ = _))

/-- A token that is verified and has canonical parts was issued. -/
theorem signed_of_verifyEdDsaJwt (channel : Authentic keys issued)
    {token : JsString} {claims : JsValue}
    (canonical : ∀ part ∈ token.splitOn fullStop, Canonical part)
    (verified : verifyEdDsaJwt keys now token = some claims) :
    ∃ header payload, issued header payload ∧
      token = keys.signed (signingInput header payload) ∧
        parsePart (base64UrlJson payload) = some claims := by
  rw [verifyEdDsaJwt] at verified
  split at verified
  · rename_i header payload signature parts
    rw [parts] at canonical
    simp only [List.forall_mem_cons] at canonical
    rcases canonical with ⟨headerOnce, payloadOnce, signatureOnce, -⟩
    rcases Option.bind_eq_some_iff.mp verified with ⟨parsed, -, verified⟩
    split at verified
    · cases verified
    · split at verified
      · cases verified
      · rename_i accepted
        rcases Option.bind_eq_some_iff.mp verified with
          ⟨found, parsedPayload, verified⟩
        split at verified
        · cases verified
        · rw [Option.some.injEq] at verified
          subst verified
          rw [Bool.not_eq_false] at accepted
          rcases channel.genuine accepted with
            ⟨issuedHeader, issuedPayload, known, text, made⟩
          have headerAscii := ascii_encode (Base64Url.decode header)
          have payloadAscii := ascii_encode (Base64Url.decode payload)
          rw [headerOnce] at headerAscii
          rw [payloadOnce] at payloadAscii
          have signedText := Utf16.toBytes_inj
            (ascii_dotted headerAscii payloadAscii)
            (ascii_dotted (ascii_encode _) (ascii_encode _)) text
          have headerPlain : fullStop ∉ header := fun member =>
            (Base64Url.plain_of_mem_encode (headerOnce.symm ▸ member)).2 rfl
          have whole : token = dotted (dotted header payload) signature := by
            have joined : [fullStop].intercalate (token.splitOn fullStop) =
                token := List.intercalate_splitOn fullStop
            rw [← joined, parts]
            simp [dotted, List.intercalate]
          refine ⟨issuedHeader, issuedPayload, known, ?_, ?_⟩
          · rw [whole, SigningKeys.signed, ← text, ← made, signatureOnce,
              signedText]
            rfl
          · have same := (dotted_inj headerPlain (plain_base64UrlJson _)
              signedText).2
            exact (congrArg parsePart same).symm.trans parsedPayload
  · cases verified

end Channel

end Rbo.Controller.SignedTokens
