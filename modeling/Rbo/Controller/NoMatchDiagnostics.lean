import Rbo.Controller.AgentChoice
import Rbo.Foundation.JsonRoundTrip

/-!
# The diagnostic of a job without agent

`describeNoMatchingAgent` says why no agent matches a request.  The diagnostic
is stored with the job, as JSON, and `readNoMatchDiagnostic` reads it back for
the answer to the caller, within limits on its parts and on its whole.  The
writer counts the bytes of the parts and the reader also those of the text,
where a control character takes six.
-/

namespace Rbo.Controller.NoMatchDiagnostics

open Rbo.Foundation
open Rbo.Controller.Scheduler
open Rbo.Controller.AgentChoice (plainPlatform requestFor)

/-! ## The reader -/

def maxNoMatchDiagnosticBytes : Nat := 512
def maxNoMatchFieldBytes : Nat := 16
def maxNoMatchTargetOs : Nat := 3
def maxNoMatchHintBytes : Nat := 256

/-- The diagnostic of an answer; its category and that the job is not to be
retried are the same in all. -/
structure NoMatchDiagnosticResponse where
  requiredShell : JsString
  targetOs : Option (List JsString)
  hint : JsString
  deriving DecidableEq

/-- The members of a diagnostic, in their order. -/
def NoMatchDiagnosticResponse.members
    (diagnostic : NoMatchDiagnosticResponse) : List (JsString × JsValue) :=
  [(jsText "category", .string (jsText "no_matching_agent")),
    (jsText "retryable", .bool false),
    (jsText "required_shell", .string diagnostic.requiredShell)] ++
    (match diagnostic.targetOs with
      | none => []
      | some names => [(jsText "target_os", .array (names.map .string))]) ++
    [(jsText "hint", .string diagnostic.hint)]

/-- `Buffer.byteLength(JSON.stringify(value), 'utf8')`. -/
def jsonBytes (members : List (JsString × JsValue)) : Nat :=
  (Utf8.encode (bracketed '{' '}' (memberTexts members))).length

/-- The text of a value, when `isBoundedNoMatchString` holds of it. -/
def boundedNoMatchString (maxBytes : Nat) : JsValue → Option JsString
  | .string text =>
    if text ≠ [] ∧ (Utf16.toBytes text).length ≤ maxBytes then some text
    else none
  | _ => none

/-- The target systems of a diagnostic, when they are bounded. -/
def boundedTargetOs : JsValue → Option (Option (List JsString))
  | .undefined => some none
  | .array items =>
    if items.length = 0 ∨ maxNoMatchTargetOs < items.length then none
    else
      (items.mapM (boundedNoMatchString maxNoMatchFieldBytes)).map some
  | _ => none

/-- What is read of the member `no_match`. -/
def readCandidate (candidate : JsValue) :
    Option NoMatchDiagnosticResponse := do
  let isDiagnostic :=
    match propertyOf "category" candidate, propertyOf "retryable" candidate
    with
    | .string category, .bool retryable =>
      category = jsText "no_matching_agent" && !retryable
    | _, _ => false
  if isDiagnostic then
    let requiredShell ←
      boundedNoMatchString maxNoMatchFieldBytes
        (propertyOf "required_shell" candidate)
    let hint ←
      boundedNoMatchString maxNoMatchHintBytes (propertyOf "hint" candidate)
    let targetOs ← boundedTargetOs (propertyOf "target_os" candidate)
    let noMatch : NoMatchDiagnosticResponse :=
      { requiredShell, targetOs, hint }
    if jsonBytes noMatch.members ≤ maxNoMatchDiagnosticBytes then
      some noMatch
    else none
  else none

def readNoMatchDiagnostic (resultJson : Option (List Char)) :
    Option NoMatchDiagnosticResponse := do
  let text ← resultJson
  if text = [] ∨
      maxNoMatchDiagnosticBytes * 2 < (Utf8.encode text).length then none
  else
    let result ← jsonParse text
    readCandidate (propertyOf "no_match" result)

/-! ## What is stored -/

/-- The texts of a diagnostic, as strings of the program. -/
def response (diagnostic : NoMatchingAgentDiagnostic) :
    NoMatchDiagnosticResponse where
  requiredShell := jsText diagnostic.requiredShell
  targetOs := diagnostic.targetOs.map fun names => names.map jsText
  hint := jsText diagnostic.hint

/-- `JSON.stringify({ no_match: … })`, the result of a job that has no
agent. -/
def persisted (diagnostic : NoMatchingAgentDiagnostic) : List Char :=
  bracketed '{' '}'
    (memberTexts
      [(jsText "no_match", .object (response diagnostic).members)])

/-! ## What is read of what is stored -/

theorem propertyOf_noMatch (value : JsValue) :
    propertyOf "no_match" (.object [(jsText "no_match", value)]) = value := by
  rw [propertyOf, memberOf, if_pos rfl]

theorem storedMembers_members (diagnostic : NoMatchDiagnosticResponse) :
    storedMembers diagnostic.members = diagnostic.members := by
  have items (names : List JsString) :
      storedItems (names.map JsValue.string) = names.map .string := by
    rw [storedItems_eq, List.map_map]
    rfl
  cases targetOs : diagnostic.targetOs <;>
    simp [NoMatchDiagnosticResponse.members, targetOs, stored, storedMembers,
      JsValue.isUndefined, items]

theorem distinct_members (diagnostic : NoMatchDiagnosticResponse) :
    (JsValue.object diagnostic.members).Distinct := by
  rw [JsValue.Distinct, everywhere_object]
  cases targetOs : diagnostic.targetOs with
  | none =>
    simp only [NoMatchDiagnosticResponse.members, targetOs]
    constructor
    · show [jsText "category", jsText "retryable", jsText "required_shell",
        jsText "hint"].Nodup
      decide +kernel
    · simp [JsValue.Everywhere, HasDistinctNames]
  | some names =>
    simp only [NoMatchDiagnosticResponse.members, targetOs]
    have inside : (JsValue.array (names.map .string)).Everywhere
        HasDistinctNames := by
      rw [everywhere_array, List.forall_mem_map]
      exact ⟨trivial, fun _ _ => trivial⟩
    constructor
    · show [jsText "category", jsText "retryable", jsText "required_shell",
        jsText "target_os", jsText "hint"].Nodup
      decide +kernel
    · simpa [JsValue.Everywhere, HasDistinctNames] using inside.2

theorem jsonParse_persisted (diagnostic : NoMatchingAgentDiagnostic) :
    jsonParse (persisted diagnostic) =
      some (.object
        [(jsText "no_match", .object (response diagnostic).members)]) := by
  have distinct : (JsValue.object
      [(jsText "no_match",
        .object (response diagnostic).members)]).Distinct := by
    rw [JsValue.Distinct, everywhere_object, List.forall_mem_singleton]
    exact ⟨List.nodup_singleton _, distinct_members _⟩
  have kept : stored (.object
      [(jsText "no_match", .object (response diagnostic).members)]) =
        .object [(jsText "no_match",
          .object (response diagnostic).members)] := by
    simp [stored, storedMembers, JsValue.isUndefined, storedMembers_members]
  rw [← kept]
  exact jsonParse_stringify distinct rfl

/-- The text has thirteen bytes more than the diagnostic in it. -/
theorem length_persisted (diagnostic : NoMatchingAgentDiagnostic) :
    (Utf8.encode (persisted diagnostic)).length =
      jsonBytes (response diagnostic).members + 13 := by
  have wrapped : persisted diagnostic =
      "\x7b\"no_match\":".toList ++
        (bracketed '{' '}' (memberTexts (response diagnostic).members) ++
          ['}']) := by
    have key : quote (jsText "no_match") = "\"no_match\"".toList := by
      decide +kernel
    unfold persisted
    rw [memberTexts, jsonStringify, memberTexts, key, bracketed]
    simp
  rw [wrapped, Utf8.encode_append, Utf8.encode_append, List.length_append,
    List.length_append]
  have front : (Utf8.encode "\x7b\"no_match\":".toList).length = 12 := by
    decide +kernel
  have back : (Utf8.encode ['}']).length = 1 := by decide
  rw [front, back]
  unfold jsonBytes
  omega

/-- A text that `isBoundedNoMatchString` holds of. -/
def IsBounded (maxBytes : Nat) (text : JsString) : Prop :=
  text ≠ [] ∧ (Utf16.toBytes text).length ≤ maxBytes

/-- The reader's limits on the parts of a diagnostic. -/
structure Bounded (diagnostic : NoMatchDiagnosticResponse) : Prop where
  requiredShell : IsBounded maxNoMatchFieldBytes diagnostic.requiredShell
  hint : IsBounded maxNoMatchHintBytes diagnostic.hint
  targetOs : ∀ names ∈ diagnostic.targetOs,
    names ≠ [] ∧ names.length ≤ maxNoMatchTargetOs ∧
      ∀ name ∈ names, IsBounded maxNoMatchFieldBytes name

theorem boundedNoMatchString_eq_some {maxBytes : Nat}
    {text read : JsString} :
    boundedNoMatchString maxBytes (.string text) = some read ↔
      IsBounded maxBytes text ∧ text = read := by
  rw [boundedNoMatchString, Option.ite_none_right_eq_some,
    Option.some.injEq]
  exact Iff.rfl

theorem mapM_bounded {maxBytes : Nat} {names : List JsString} :
    (names.map JsValue.string).mapM (boundedNoMatchString maxBytes) =
        some names ↔ ∀ name ∈ names, IsBounded maxBytes name := by
  induction names with
  | nil => simp
  | cons name names induction =>
    rw [List.forall_mem_cons, ← induction, List.map_cons, List.mapM_cons]
    simp [Option.bind_eq_some_iff, boundedNoMatchString_eq_some]

theorem boundedTargetOs_eq_some {names : List JsString} :
    boundedTargetOs (.array (names.map .string)) = some (some names) ↔
      names ≠ [] ∧ names.length ≤ maxNoMatchTargetOs ∧
        ∀ name ∈ names, IsBounded maxNoMatchFieldBytes name := by
  rw [boundedTargetOs, Option.ite_none_left_eq_some, List.length_map,
    List.length_eq_zero_iff, not_or, Nat.not_lt, and_assoc,
    Option.map_eq_some_iff, ← mapM_bounded]
  simp

theorem propertyOf_members (diagnostic : NoMatchDiagnosticResponse) :
    propertyOf "category" (.object diagnostic.members) =
        .string (jsText "no_matching_agent") ∧
      propertyOf "retryable" (.object diagnostic.members) = .bool false ∧
      propertyOf "required_shell" (.object diagnostic.members) =
        .string diagnostic.requiredShell ∧
      propertyOf "target_os" (.object diagnostic.members) =
        diagnostic.targetOs.elim .undefined
          (fun names => .array (names.map .string)) ∧
      propertyOf "hint" (.object diagnostic.members) =
        .string diagnostic.hint := by
  unfold NoMatchDiagnosticResponse.members
  cases diagnostic.targetOs with
  | none =>
    refine ⟨?_, ?_, ?_, ?_, ?_⟩ <;> rfl
  | some names =>
    refine ⟨?_, ?_, ?_, ?_, ?_⟩ <;> rfl

/-- The reader gives a diagnostic back that is within its limits. -/
theorem readCandidate_members (diagnostic : NoMatchDiagnosticResponse) :
    readCandidate (.object diagnostic.members) = some diagnostic ↔
      Bounded diagnostic ∧
        jsonBytes diagnostic.members ≤ maxNoMatchDiagnosticBytes := by
  rcases propertyOf_members diagnostic with
    ⟨category, retryable, requiredShell, targetOs, hint⟩
  unfold readCandidate
  rw [category, retryable, requiredShell, targetOs, hint]
  have systems : boundedTargetOs (diagnostic.targetOs.elim .undefined
      fun names => .array (names.map .string)) = some diagnostic.targetOs ↔
      ∀ names ∈ diagnostic.targetOs,
        names ≠ [] ∧ names.length ≤ maxNoMatchTargetOs ∧
          ∀ name ∈ names, IsBounded maxNoMatchFieldBytes name := by
    cases diagnostic.targetOs with
    | none => simp [boundedTargetOs]
    | some names => simp [boundedTargetOs_eq_some]
  constructor
  · intro read
    simp only [Option.bind_eq_bind, Option.bind_eq_some_iff,
      boundedNoMatchString_eq_some, Option.ite_none_right_eq_some,
      Option.some.injEq] at read
    obtain ⟨_, shell, ⟨shellFits, rfl⟩, text, ⟨textFits, rfl⟩, names, found,
      small, same⟩ := read
    obtain rfl : names = diagnostic.targetOs :=
      congrArg NoMatchDiagnosticResponse.targetOs same
    exact ⟨⟨shellFits, textFits, systems.mp found⟩, small⟩
  · rintro ⟨bounded, small⟩
    have shell := boundedNoMatchString_eq_some.mpr
      ⟨bounded.requiredShell, rfl⟩
    have text := boundedNoMatchString_eq_some.mpr ⟨bounded.hint, rfl⟩
    simp [shell, text, systems.mpr bounded.targetOs, small]

/-- What is stored is read back when it is within the reader's limits. -/
theorem readNoMatchDiagnostic_persisted
    (diagnostic : NoMatchingAgentDiagnostic) :
    readNoMatchDiagnostic (some (persisted diagnostic)) =
        some (response diagnostic) ↔
      Bounded (response diagnostic) ∧
        jsonBytes (response diagnostic).members ≤
          maxNoMatchDiagnosticBytes := by
  have nonempty : persisted diagnostic ≠ [] := List.cons_ne_nil _ _
  rw [← readCandidate_members]
  unfold readNoMatchDiagnostic
  rw [Option.bind_eq_bind, Option.bind_some, length_persisted,
    jsonParse_persisted, Option.bind_eq_bind, Option.bind_some,
    propertyOf_noMatch]
  constructor
  · intro read
    exact (Option.ite_none_left_eq_some.mp read).2
  · intro read
    have small := ((readCandidate_members _).mp read).2
    rw [if_neg _]
    · exact read
    · rintro (empty | large)
      · exact nonempty empty
      · unfold maxNoMatchDiagnosticBytes at *
        omega

/-! ## The sizes of what is written -/

def textBytes (text : String) : Nat :=
  (Utf8.encode text.toList).length

/-- The bytes of a character between the quotes of JSON. -/
def writtenChar (char : Char) : Nat :=
  if char.toNat ∈ [0x08, 0x09, 0x0A, 0x0C, 0x0D, 0x22, 0x5C] then 2
  else if char.toNat < 0x20 then 6
  else char.utf8Size

/-- The bytes of a text between the quotes of JSON. -/
def writtenBytes (text : String) : Nat :=
  (text.toList.map writtenChar).sum

theorem textBytes_append (first second : String) :
    textBytes (first ++ second) = textBytes first + textBytes second := by
  unfold textBytes
  rw [String.toList_append, Utf8.encode_append, List.length_append]

theorem writtenBytes_append (first second : String) :
    writtenBytes (first ++ second) =
      writtenBytes first + writtenBytes second := by
  unfold writtenBytes
  rw [String.toList_append, List.map_append, List.sum_append]

/-- A literal is made of its characters, which are summed up faster. -/
theorem writtenBytes_one (text : List Char) :
    writtenBytes (String.ofList text) = (text.map writtenChar).sum := by
  unfold writtenBytes
  rw [String.toList_ofList]

theorem writtenBytes_two (front back : List Char) :
    writtenBytes (String.ofList front ++ String.ofList back) =
      ((front ++ back).map writtenChar).sum := by
  rw [← String.ofList_append, writtenBytes_one]

theorem writtenBytes_three (front middle back : List Char) :
    writtenBytes (String.ofList front ++ String.ofList middle ++
        String.ofList back) =
      ((front ++ middle ++ back).map writtenChar).sum := by
  rw [← String.ofList_append, writtenBytes_two]

/-- A character that is written as it is. -/
theorem writtenChar_of_le {char : Char} (printable : 0x20 ≤ char.toNat)
    (notQuote : char.toNat ≠ 0x22) (notEscape : char.toNat ≠ 0x5C) :
    writtenChar char = char.utf8Size := by
  unfold writtenChar
  rw [if_neg _, if_neg (Nat.not_lt.mpr printable)]
  simp only [List.mem_cons, List.not_mem_nil, or_false]
  omega

theorem utf8Size_le_writtenChar (char : Char) :
    char.utf8Size ≤ writtenChar char := by
  have ascii (low : char.toNat < 0x80) : char.utf8Size = 1 := by
    rw [← String.length_utf8EncodeChar, Utf8.length_encodeChar,
      if_pos (by exact Nat.le_of_lt_succ low)]
  unfold writtenChar
  split
  next special =>
    rw [ascii]
    · decide
    · simp only [List.mem_cons, List.not_mem_nil, or_false] at special
      omega
  · split
    next control =>
      rw [ascii (Nat.lt_trans control (by decide))]
      decide
    · exact Nat.le_refl _

theorem textBytes_le_writtenBytes (text : String) :
    textBytes text ≤ writtenBytes text := by
  unfold textBytes writtenBytes
  induction text.toList with
  | nil => exact Nat.le_refl 0
  | cons char rest induction =>
    rw [Utf8.length_encode_cons, List.map_cons, List.sum_cons,
      String.length_utf8EncodeChar]
    exact Nat.add_le_add (utf8Size_le_writtenChar char) induction

theorem length_escapeUnit {unit : UInt16} {char : Char}
    (notHigh : ¬ Utf16.isHigh unit = true)
    (notLow : ¬ Utf16.isLow unit = true)
    (same : Utf16.single unit = char) :
    (Utf8.encode (escapeUnit unit)).length = writtenChar char := by
  have value : char.toNat = unit.toNat :=
    same ▸ toNat_single notHigh notLow
  have hex (value : Nat) : (hexDigit value).toNat < 0x80 := by
    have each : ∀ digit : Fin 16, (Nat.digitChar digit.val).toNat < 0x80 := by
      decide
    exact each ⟨value % 16, Nat.mod_lt _ (by decide)⟩
  have one : (Utf8.encode [char]).length = char.utf8Size := by
    rw [Utf8.length_encode_cons, String.length_utf8EncodeChar]
    rfl
  have two (letter : Char) (ascii : letter.toNat < 0x80) :
      (Utf8.encode ['\\', letter]).length = 2 := by
    apply Utf8.length_encode_ascii
    simp [ascii]
  have six (first second third fourth : Nat) :
      (Utf8.encode ['\\', 'u', hexDigit first, hexDigit second,
        hexDigit third, hexDigit fourth]).length = 6 := by
    apply Utf8.length_encode_ascii
    simp [hex]
  unfold escapeUnit writtenChar
  simp (disch := decide) only [← UInt16.toNat_inj, UInt16.lt_iff_toNat_lt,
    List.mem_cons, List.not_mem_nil, or_false, ← value, same, notHigh, notLow,
    apply_ite Utf8.encode, apply_ite List.length, one, two, six,
    UInt16.reduceToNat, Bool.false_eq_true]
  split_ifs
  all_goals omega

/-- The text of a string has the bytes of its characters. -/
theorem length_quoteBody (text : String) :
    (Utf8.encode (quoteBody (jsText text))).length = writtenBytes text := by
  unfold jsText writtenBytes
  induction text.toList with
  | nil => rfl
  | cons char rest induction =>
    unfold Utf16.encode at *
    rw [List.flatMap_cons, List.map_cons, List.sum_cons, ← induction]
    rcases Utf16.encodeChar_cases char with
      ⟨unit, encoded, notHigh, notLow, same⟩ |
        ⟨high, low, encoded, both, same⟩
    · rw [← length_escapeUnit notHigh notLow same, encoded,
        ← List.length_append, ← Utf8.encode_append]
      cases rest.flatMap Utf16.encodeChar with
      | nil => rw [List.append_nil, quoteBody, quoteBody, List.append_nil]
      | cons second rest =>
        show (Utf8.encode (quoteBody (unit :: second :: rest))).length = _
        rw [quoteBody, if_neg]
        rw [Bool.and_eq_true]
        exact fun both => notHigh both.1
    · rw [encoded, List.cons_append, List.singleton_append, quoteBody,
        if_pos both, same, Utf8.length_encode_cons,
        String.length_utf8EncodeChar, writtenChar_of_le]
      all_goals
        rw [Bool.and_eq_true] at both
        have large := (charUnits_pair both.1 both.2).1
        rw [same] at large
        omega

theorem length_quote (text : String) :
    (Utf8.encode (quote (jsText text))).length = writtenBytes text + 2 := by
  have mark : (Utf8.encode ['"']).length = 1 := by decide
  have split : quote (jsText text) =
      ['"'] ++ (quoteBody (jsText text) ++ ['"']) := rfl
  rw [split, Utf8.encode_append, Utf8.encode_append, List.length_append,
    List.length_append, mark, length_quoteBody]
  omega

/-- Texts in brackets have a comma each but one, and the brackets. -/
theorem length_bracketed {opening closing : Char}
    (opens : opening.toNat < 0x80) (closes : closing.toNat < 0x80)
    (texts : List (List Char)) :
    (Utf8.encode (bracketed opening closing texts)).length =
      (texts.map fun text => (Utf8.encode text).length + 1).sum - 1 + 2 := by
  have one {char : Char} (ascii : char.toNat < 0x80) :
      (Utf8.encode [char]).length = 1 := by
    apply Utf8.length_encode_ascii
    simp [ascii]
  have inside : (Utf8.encode ([','].intercalate texts)).length =
      (texts.map fun text => (Utf8.encode text).length + 1).sum - 1 := by
    induction texts with
    | nil => rfl
    | cons text texts induction =>
      cases texts with
      | nil => simp
      | cons next others =>
        rw [List.intercalate_cons_cons, Utf8.encode_append,
          Utf8.encode_append, List.length_append, List.length_append,
          one (by decide), induction]
        simp only [List.map_cons, List.sum_cons]
        omega
  have split : bracketed opening closing texts =
      [opening] ++ ([','].intercalate texts ++ [closing]) := rfl
  rw [split, Utf8.encode_append, Utf8.encode_append, List.length_append,
    List.length_append, one opens, one closes, inside]
  omega

/-- The bytes of a member: those of its name, the colon and its value. -/
theorem length_member {name : String} {bytes : Nat} (value : List Char)
    (fixed : writtenBytes name = bytes) :
    (Utf8.encode (quote (jsText name) ++ ':' :: value)).length =
      bytes + 3 + (Utf8.encode value).length := by
  have colon : (Utf8.encode [':']).length = 1 := by decide
  rw [← List.singleton_append, Utf8.encode_append, Utf8.encode_append,
    List.length_append, List.length_append, colon, length_quote, fixed]
  omega

/-- The bytes of the target systems in JSON, with their name. -/
def targetBytes : Option (List String) → Nat
  | none => 0
  | some names =>
    15 + (names.map fun name => writtenBytes name + 2).sum +
      (names.length - 1)

theorem length_names (names : List String) :
    (Utf8.encode (bracketed '[' ']'
      (itemTexts ((names.map jsText).map .string)))).length =
      (names.map fun name => writtenBytes name + 2).sum +
        (names.length - 1) + 2 := by
  have commas : (names.map fun name => writtenBytes name + 2 + 1).sum =
      (names.map fun name => writtenBytes name + 2).sum + names.length := by
    induction names with
    | nil => rfl
    | cons name names induction =>
      simp only [List.map_cons, List.sum_cons, List.length_cons,
        induction]
      omega
  have items : itemTexts ((names.map jsText).map .string) =
      names.map fun name => quote (jsText name) := by
    rw [itemTexts_eq, List.map_map, List.map_map]
    rfl
  rw [items, length_bracketed (by decide) (by decide), List.map_map]
  simp only [Function.comp_def, length_quote]
  rw [commas]
  cases names with
  | nil => rfl
  | cons name names =>
    simp only [List.length_cons]
    omega

/-- The size of a diagnostic, by its parts. -/
theorem jsonBytes_response (diagnostic : NoMatchingAgentDiagnostic) :
    jsonBytes (response diagnostic).members =
      80 + writtenBytes diagnostic.requiredShell +
        targetBytes diagnostic.targetOs + writtenBytes diagnostic.hint := by
  have category := length_member (quote (jsText "no_matching_agent"))
    (by decide +kernel : writtenBytes "category" = 8)
  have no := length_member "false".toList
    (by decide +kernel : writtenBytes "retryable" = 9)
  have shell := length_member (quote (jsText diagnostic.requiredShell))
    (by decide +kernel : writtenBytes "required_shell" = 14)
  have hint := length_member (quote (jsText diagnostic.hint))
    (by decide +kernel : writtenBytes "hint" = 4)
  have word : writtenBytes "no_matching_agent" = 17 := by decide +kernel
  have false : (Utf8.encode "false".toList).length = 5 := by decide +kernel
  rw [length_quote] at category shell hint
  unfold jsonBytes
  rw [length_bracketed (by decide) (by decide)]
  cases targetOs : diagnostic.targetOs with
  | none =>
    simp only [response, NoMatchDiagnosticResponse.members, targetOs,
      Option.map_none, List.append_nil, List.cons_append, List.nil_append,
      memberTexts, jsonStringify, Bool.false_eq_true, if_false,
      List.map_cons, List.map_nil, List.sum_cons, List.sum_nil, category,
      no, shell, hint, word, false, targetBytes]
    omega
  | some names =>
    have target := length_member
      (bracketed '[' ']' (itemTexts ((names.map jsText).map .string)))
      (by decide +kernel : writtenBytes "target_os" = 9)
    rw [length_names] at target
    simp only [response, NoMatchDiagnosticResponse.members, targetOs,
      Option.map_some, List.cons_append, List.nil_append,
      memberTexts, jsonStringify, Bool.false_eq_true, if_false,
      List.map_cons, List.map_nil, List.sum_cons, List.sum_nil, category,
      no, shell, hint, target, word, false, targetBytes]
    omega

section Sizes

variable {AgentId : Type} (platform : Platform AgentId)

/-- The target systems in a hint. -/
def targetLabel : Option (List String) → String
  | none => "the requested target OS"
  | some names => " or ".intercalate names

/-- The bytes of the hint in JSON, by what is missing: an agent, one of the
system, one with the shell, one with capacity, or something else. -/
def hintBytes (agents : List (SchedulerAgent AgentId))
    (request : JobRequest AgentId) (registeredAgentCount : Option Nat) :
    Nat :=
  let requestedOs := request.requirements.bind Requirements.os
  let shell := requiredShell platform request
  let shellBytes := writtenBytes (truncateDiagnosticText shell)
  let labelBytes :=
    writtenBytes (targetLabel (normalizedTargetOs platform requestedOs))
  let waits := request.queuePolicy = some .wait
  let osMatches :=
    agents.filter fun agent =>
      matchesOs platform requestedOs agent.capabilities.osFamily
  let shellMatches :=
    osMatches.filter fun agent => agentHasRequiredShell platform agent shell
  if agents = [] then
    if waits then 77 else if 0 < registeredAgentCount.getD 0 then 79 else 76
  else if requestedOs.getD [] ≠ [] ∧ osMatches = [] then
    labelBytes + if waits then 89 else 91
  else if shellMatches = [] then
    shellBytes + labelBytes + if waits then 73 else 87
  else if shellMatches.all agentIsAtCapacity then
    if waits then 80 else 126
  else if waits then 77 else 63

def diagnosticBytes (agents : List (SchedulerAgent AgentId))
    (request : JobRequest AgentId) (registeredAgentCount : Option Nat) :
    Nat :=
  80 + writtenBytes (truncateDiagnosticText (requiredShell platform request)) +
    targetBytes
      (normalizedTargetOs platform
        (request.requirements.bind Requirements.os)) +
    hintBytes platform agents request registeredAgentCount

/-- A hint within the reader's limit, with its bytes in JSON. -/
structure HintSizes (hint : String) (bytes : Nat) : Prop where
  written : writtenBytes hint = bytes
  some : 0 < bytes
  text : textBytes hint ≤ maxNoMatchHintBytes

theorem HintSizes.ne_empty {hint : String} {bytes : Nat}
    (sizes : HintSizes hint bytes) : hint ≠ "" := by
  rintro rfl
  have none : writtenBytes "" = 0 := by decide
  have some := sizes.some
  rw [← sizes.written, none] at some
  exact Nat.lt_irrefl 0 some

theorem hintSizes_fixed {hint : String} {bytes : Nat}
    (written : writtenBytes hint = bytes) (some : 0 < bytes)
    (small : bytes ≤ 160) : HintSizes hint bytes := by
  have most := textBytes_le_writtenBytes hint
  unfold textBytes at most
  exact ⟨written, some, by unfold textBytes maxNoMatchHintBytes; omega⟩

/-- A hint that names something between two fixed texts. -/
theorem hintSizes_around {front back label : String} {bytes : Nat}
    (small : textBytes label ≤ 96)
    (fixed : writtenBytes (front ++ back) = bytes) (some : 0 < bytes)
    (short : bytes ≤ 160) :
    HintSizes (front ++ label ++ back) (writtenBytes label + bytes) := by
  have most := textBytes_le_writtenBytes (front ++ back)
  rw [textBytes_append, fixed] at most
  rw [writtenBytes_append] at fixed
  refine ⟨?_, Nat.add_pos_right _ some, ?_⟩
  · rw [writtenBytes_append, writtenBytes_append]
    omega
  · rw [textBytes_append, textBytes_append]
    unfold maxNoMatchHintBytes
    omega

/-- The same for a hint that names a shell and the target systems. -/
theorem hintSizes_around_both {front back shell label : String} {bytes : Nat}
    (shellSmall : textBytes shell ≤ 16) (labelSmall : textBytes label ≤ 56)
    (fixed : writtenBytes (front ++ " on " ++ back) = bytes)
    (short : bytes ≤ 160) :
    HintSizes (front ++ shell ++ " on " ++ label ++ back)
      (writtenBytes shell + writtenBytes label + bytes) := by
  have most := textBytes_le_writtenBytes (front ++ " on " ++ back)
  have between : 0 < writtenBytes " on " := by decide +kernel
  rw [textBytes_append, textBytes_append, fixed] at most
  rw [writtenBytes_append, writtenBytes_append] at fixed
  refine ⟨?_, by omega, ?_⟩
  · simp only [writtenBytes_append]
    omega
  · simp only [textBytes_append]
    unfold maxNoMatchHintBytes
    omega

theorem textBytes_truncateDiagnosticText (value : String) :
    textBytes (truncateDiagnosticText value) ≤ maxDiagnosticFieldBytes := by
  have fits (room : Nat) (characters : List Char) :
      (Utf8.encode (truncateCharacters room characters)).length ≤ room := by
    induction characters generalizing room with
    | nil => exact Nat.zero_le _
    | cons character rest induction =>
      rw [truncateCharacters]
      split
      · exact Nat.zero_le _
      next fits =>
        rw [Utf8.length_encode_cons, String.length_utf8EncodeChar]
        have more := induction (room - character.utf8Size)
        omega
  unfold textBytes truncateDiagnosticText
  rw [String.toList_ofList]
  exact fits _ _

/-- A text that is not empty keeps its first character, at least. -/
theorem truncateDiagnosticText_ne_empty {value : String} (some : value ≠ "") :
    truncateDiagnosticText value ≠ "" := by
  unfold truncateDiagnosticText
  cases characters : value.toList with
  | nil => exact absurd (String.toList_eq_nil_iff.mp characters) some
  | cons character rest =>
    have small : ¬ maxDiagnosticFieldBytes < character.utf8Size := by
      have most := character.utf8Size_le_four
      unfold maxDiagnosticFieldBytes
      omega
    rw [truncateCharacters, if_neg small]
    intro empty
    exact List.cons_ne_nil _ _ (String.ofList_eq_empty_iff.mp empty)

theorem mem_normalizedTargetOs {requestOs : Option (List String)}
    {names : List String}
    (normalized : normalizedTargetOs platform requestOs = some names) :
    names.length ≤ maxDiagnosticTargetOs ∧
      ∀ name ∈ names, name ≠ "" ∧ textBytes name ≤ maxDiagnosticFieldBytes := by
  unfold normalizedTargetOs at normalized
  split at normalized
  · cases normalized
  · cases normalized
  · cases normalized
    constructor
    · rw [List.length_map]
      exact List.length_take_le _ _
    · rw [List.forall_mem_map]
      intro wish member
      have kept := List.mem_eraseDups.mp (List.mem_of_mem_take member)
      have some := of_decide_eq_true (List.mem_filter.mp kept).2
      exact ⟨truncateDiagnosticText_ne_empty some,
        textBytes_truncateDiagnosticText wish⟩

theorem textBytes_targetLabel (requestOs : Option (List String)) :
    textBytes (targetLabel (normalizedTargetOs platform requestOs)) ≤ 56 := by
  cases normalized : normalizedTargetOs platform requestOs with
  | none =>
    show textBytes "the requested target OS" ≤ 56
    decide +kernel
  | some names =>
    rcases mem_normalizedTargetOs platform normalized with ⟨few, short⟩
    have between : textBytes " or " = 4 := by decide +kernel
    have joined (names : List String)
        (short : ∀ name ∈ names, name ≠ "" ∧ textBytes name ≤ 16) :
        textBytes (" or ".intercalate names) ≤ 20 * names.length - 4 := by
      induction names with
      | nil => decide +kernel
      | cons name rest induction =>
        rw [List.forall_mem_cons] at short
        cases rest with
        | nil =>
          rw [String.intercalate_singleton]
          exact short.1.2
        | cons next others =>
          have more := induction short.2
          have here := short.1.2
          rw [String.intercalate_cons_cons, textBytes_append,
            textBytes_append, between]
          simp only [List.length_cons] at more ⊢
          omega
    have most := joined names short
    unfold maxDiagnosticTargetOs at few
    show textBytes (" or ".intercalate names) ≤ 56
    omega

/-- The hint of a diagnostic is within the reader's limit. -/
theorem hintSizes_describeNoMatchingAgent
    (agents : List (SchedulerAgent AgentId)) (request : JobRequest AgentId)
    (registeredAgentCount : Option Nat) :
    HintSizes
      (describeNoMatchingAgent platform agents request
        registeredAgentCount).hint
      (hintBytes platform agents request registeredAgentCount) := by
  have label := textBytes_targetLabel platform
    (request.requirements.bind Requirements.os)
  have shell := textBytes_truncateDiagnosticText
    (requiredShell platform request)
  have fits : textBytes (targetLabel (normalizedTargetOs platform
      (request.requirements.bind Requirements.os))) ≤ 96 := by
    omega
  unfold describeNoMatchingAgent hintBytes noMatchingAgentHint
  dsimp only
  split_ifs
  · exact hintSizes_fixed ((writtenBytes_two _ _).trans (by decide +kernel))
      (by decide) (by decide)
  · exact hintSizes_fixed ((writtenBytes_two _ _).trans (by decide +kernel))
      (by decide) (by decide)
  · exact hintSizes_fixed ((writtenBytes_two _ _).trans (by decide +kernel))
      (by decide) (by decide)
  · exact hintSizes_around fits
      ((writtenBytes_two _ _).trans (by decide +kernel)) (by decide) (by decide)
  · exact hintSizes_around fits
      ((writtenBytes_two _ _).trans (by decide +kernel)) (by decide) (by decide)
  · exact hintSizes_around_both shell label
      ((writtenBytes_three _ _ _).trans (by decide +kernel)) (by decide)
  · exact hintSizes_around_both shell label
      ((writtenBytes_three _ _ _).trans (by decide +kernel)) (by decide)
  · exact hintSizes_fixed ((writtenBytes_two _ _).trans (by decide +kernel))
      (by decide) (by decide)
  · exact hintSizes_fixed ((writtenBytes_three _ _ _).trans (by decide +kernel))
      (by decide) (by decide)
  · exact hintSizes_fixed ((writtenBytes_two _ _).trans (by decide +kernel))
      (by decide) (by decide)
  · exact hintSizes_fixed ((writtenBytes_one _).trans (by decide +kernel))
      (by decide) (by decide)

/-- The size of a diagnostic, by its parts. -/
theorem jsonBytes_describeNoMatchingAgent
    (agents : List (SchedulerAgent AgentId)) (request : JobRequest AgentId)
    (registeredAgentCount : Option Nat) :
    jsonBytes
        (response (describeNoMatchingAgent platform agents request
          registeredAgentCount)).members =
      diagnosticBytes platform agents request registeredAgentCount := by
  have hint := (hintSizes_describeNoMatchingAgent platform agents request
    registeredAgentCount).written
  rw [jsonBytes_response, hint]
  rfl

/-- The shells that a request may name. -/
def shellIds : List String :=
  ["bash", "zsh", "sh", "powershell", "pwsh", "cmd", "direct"]

/-- One of the requested systems is not blank, if any is requested. -/
def NamesSystem (requestOs : Option (List String)) : Prop :=
  requestOs.getD [] = [] ∨
    ∃ name ∈ requestOs.getD [], platform.toLowerCase (platform.trim name) ≠ ""

theorem normalizedTargetOs_ne_nil_iff (requestOs : Option (List String)) :
    (∀ names ∈ normalizedTargetOs platform requestOs, names ≠ []) ↔
      NamesSystem platform requestOs := by
  unfold NamesSystem
  match requestOs with
  | none => simp [normalizedTargetOs]
  | some [] => simp [normalizedTargetOs]
  | some (first :: rest) =>
    have some : (first :: rest : List String) ≠ [] := List.cons_ne_nil _ _
    have three : maxDiagnosticTargetOs ≠ 0 := by decide
    rw [normalizedTargetOs, Option.getD_some]
    · simp only [Option.mem_def, Option.some.injEq, forall_eq', some,
        false_or, ne_eq, List.map_eq_nil_iff, List.take_eq_nil_iff, three]
      generalize first :: rest = names
      simp [List.eq_nil_iff_forall_not_mem]
    · nofun

theorem requiredShell_ne_empty {request : JobRequest AgentId}
    (lower : ∀ shell ∈ shellIds, platform.toLowerCase shell = shell)
    (accepted : ∀ shell ∈ request.shell, shell ∈ shellIds) :
    requiredShell platform request ≠ "" := by
  have listed : request.shell.getD "bash" ∈ shellIds := by
    cases named : request.shell with
    | none => decide
    | some shell => exact accepted shell named
  have plain : ∀ shell ∈ shellIds, shell ≠ "" ∧
      ¬ isExeSuffix (shell.toList.drop (shell.toList.length - 4)) = true := by
    decide +kernel
  unfold requiredShell normalizedShell
  dsimp only
  rw [if_neg (plain _ listed).2, lower _ listed]
  exact (plain _ listed).1

theorem isBounded_jsText {text : String} {maxBytes : Nat} (some : text ≠ "")
    (small : textBytes text ≤ maxBytes) : IsBounded maxBytes (jsText text) := by
  constructor
  · intro empty
    apply some
    rw [← String.toList_eq_nil_iff, ← Utf16.decode_encode text.toList]
    exact congrArg Utf16.decode empty
  · rw [jsText, Utf16.toBytes_encode]
    exact small

theorem bounded_describeNoMatchingAgent
    {agents : List (SchedulerAgent AgentId)} {request : JobRequest AgentId}
    {registeredAgentCount : Option Nat}
    (lower : ∀ shell ∈ shellIds, platform.toLowerCase shell = shell)
    (accepted : ∀ shell ∈ request.shell, shell ∈ shellIds)
    (named : NamesSystem platform
      (request.requirements.bind Requirements.os)) :
    Bounded (response (describeNoMatchingAgent platform agents request
      registeredAgentCount)) := by
  have hint := hintSizes_describeNoMatchingAgent platform agents request
    registeredAgentCount
  constructor
  · exact isBounded_jsText
      (truncateDiagnosticText_ne_empty
        (requiredShell_ne_empty platform lower accepted))
      (textBytes_truncateDiagnosticText _)
  · exact isBounded_jsText hint.ne_empty hint.text
  · intro texts listed
    rcases Option.map_eq_some_iff.mp listed with ⟨names, normalized, rfl⟩
    rcases mem_normalizedTargetOs platform normalized with ⟨few, each⟩
    rw [← normalizedTargetOs_ne_nil_iff] at named
    refine ⟨?_, ?_, ?_⟩
    · exact fun empty => named names normalized (List.map_eq_nil_iff.mp empty)
    · rw [List.length_map]
      exact few
    · rw [List.forall_mem_map]
      exact fun name member =>
        isBounded_jsText (each name member).1 (each name member).2

end Sizes

def blankRequest : JobRequest Nat :=
  { requestFor .linux with
    requirements := some { Requirements.none with os := some [" "] } }

/-- The platform, for texts without blanks but one. -/
def blankPlatform : Platform Nat :=
  { plainPlatform with trim := fun text => if text = " " then "" else text }

end Rbo.Controller.NoMatchDiagnostics
