import Rbo.Foundation.JsonRoundTrip
import Rbo.Snapshot.Capture

/-!
# The schema of a job request

The schemas are data, written with the combinators of the validation
library.  The library itself is a parameter: `Zod` says what it documents
about the values that it returns, one rule for each combinator.  Whatever
the library is, what it accepts for a schema without optional array items
has distinct names in its objects and no `undefined` in its arrays.
-/

namespace Rbo.Protocol

open Rbo.Foundation
open Rbo.Snapshot.SecretPolicy (forwardSlashes)

/-! ## Combinators -/

/-- The combinators that the request schema uses. -/
inductive Schema where
  | string
  | number
  | boolean
  | literal (value : JsString)
  | enum (values : List JsString)
  | min (schema : Schema) (length : Nat)
  | positive (schema : Schema)
  | refine (schema : Schema) (check : List Char → Bool) (message : String)
  | optional (schema : Schema)
  | nullable (schema : Schema)
  | default (schema : Schema) (value : JsValue)
  | array (item : Schema)
  | record (value : Schema)
  | object (shape : List (JsString × Schema))
  | discriminatedUnion (key : JsString) (options : List Schema)

/-- The library: what it returns for a value that a schema accepts. -/
structure Zod where
  safeParse : Schema → JsValue → Option JsValue
  string : ∀ {value data}, safeParse .string value = some data →
    ∃ text, data = .string text
  number : ∀ {value data}, safeParse .number value = some data →
    ∃ number, data = .number number
  boolean : ∀ {value data}, safeParse .boolean value = some data →
    ∃ flag, data = .bool flag
  literal : ∀ {expected value data},
    safeParse (.literal expected) value = some data → data = .string expected
  enum : ∀ {values value data}, safeParse (.enum values) value = some data →
    ∃ text ∈ values, data = .string text
  min : ∀ {schema length value data},
    safeParse (.min schema length) value = some data →
    safeParse schema value = some data
  positive : ∀ {schema value data},
    safeParse (.positive schema) value = some data →
    safeParse schema value = some data
  refine : ∀ {schema check message value data},
    safeParse (.refine schema check message) value = some data →
    safeParse schema value = some data
  optional : ∀ {schema value data},
    safeParse (.optional schema) value = some data →
    data = .undefined ∨ safeParse schema value = some data
  nullable : ∀ {schema value data},
    safeParse (.nullable schema) value = some data →
    data = .null ∨ safeParse schema value = some data
  default : ∀ {schema fallback value data},
    safeParse (.default schema fallback) value = some data →
    safeParse schema fallback = some data ∨
      safeParse schema value = some data
  array : ∀ {item value data}, safeParse (.array item) value = some data →
    ∃ items, data = .array items ∧
      ∀ element ∈ items, ∃ source, safeParse item source = some element
  record : ∀ {schema value data},
    safeParse (.record schema) value = some data →
    ∃ members, data = .object members ∧ (members.map Prod.fst).Nodup ∧
      ∀ member ∈ members, ∃ source, safeParse schema source = some member.2
  object : ∀ {shape value data},
    safeParse (.object shape) value = some data →
    ∃ members, data = .object members ∧ (members.map Prod.fst).Nodup ∧
      ∀ member ∈ members, ∃ field ∈ shape, member.1 = field.1 ∧
        ∃ source, safeParse field.2 source = some member.2
  discriminatedUnion : ∀ {key options value data},
    safeParse (.discriminatedUnion key options) value = some data →
    ∃ option ∈ options, safeParse option value = some data

/-! ## A library that does what is documented -/

/-- A property of an object. -/
def getProperty (key : JsString) : List (JsString × JsValue) → JsValue
  | [] => .undefined
  | (other, value) :: members =>
    if other = key then value else getProperty key members

/-- The name is there, with whatever value. -/
def hasProperty (key : JsString) (members : List (JsString × JsValue)) :
    Bool :=
  members.any (·.1 = key)

def textCheck (check : JsString → Bool) : JsValue → Bool
  | .string text => check text
  | _ => true

/-- The number is above zero. -/
def isPositive : JsValue → Bool
  | .number (.infinity negative) => !negative
  | .number (.finite negative _) => !negative
  | _ => false

/-- The option is for the value's discriminator. -/
def isOptionFor (key : JsString) (members : List (JsString × JsValue)) :
    Schema → Bool
  | .object shape => shape.any fun field =>
    field.1 = key &&
      match field.2, getProperty key members with
      | .literal expected, .string text => text = expected
      | _, _ => false
  | _ => false

/-- The parsed members of a record; `__proto__` is dropped. -/
def parseRecord (parse : JsValue → Option JsValue)
    (done : List (JsString × JsValue)) :
    List (JsString × JsValue) → Option (List (JsString × JsValue))
  | [] => some done
  | (key, value) :: members => do
    let data ← parse value
    let done := if key = jsText "__proto__" then done
      else setProperty key data done
    parseRecord parse done members

mutual

/-- `safeParse`, as documented. -/
def safeParse : Schema → JsValue → Option JsValue
  | .string, value =>
    match value with
    | .string text => some (.string text)
    | _ => none
  | .number, value =>
    match value with
    | .number number => if number = .nan then none else some (.number number)
    | _ => none
  | .boolean, value =>
    match value with
    | .bool flag => some (.bool flag)
    | _ => none
  | .literal expected, value =>
    match value with
    | .string text => if text = expected then some (.string text) else none
    | _ => none
  | .enum values, value =>
    match value with
    | .string text => if text ∈ values then some (.string text) else none
    | _ => none
  | .min schema length, value =>
    (safeParse schema value).filter (textCheck (length ≤ ·.length))
  | .positive schema, value => (safeParse schema value).filter isPositive
  | .refine schema check _, value =>
    (safeParse schema value).filter
      (textCheck fun text => check (Utf16.decode text))
  | .optional schema, value =>
    if value.isUndefined then some .undefined else safeParse schema value
  | .nullable schema, value =>
    match value with
    | .null => some .null
    | value => safeParse schema value
  | .default schema fallback, value =>
    if value.isUndefined then safeParse schema fallback
    else safeParse schema value
  | .array item, value =>
    match value with
    | .array items => (items.mapM (safeParse item)).map .array
    | _ => none
  | .record schema, value =>
    match value with
    | .object members =>
      (parseRecord (safeParse schema) [] members).map .object
    | _ => none
  | .object shape, value =>
    match value with
    | .object members => (parseShape members [] shape).map .object
    | _ => none
  | .discriminatedUnion key options, value =>
    match value with
    | .object members => parseOption key members options
    | _ => none

/-- The parsed members that a shape names; other members are dropped. -/
def parseShape (members done : List (JsString × JsValue)) :
    List (JsString × Schema) → Option (List (JsString × JsValue))
  | [] => some done
  | (key, schema) :: shape => do
    let data ← safeParse schema (getProperty key members)
    let done := if data.isUndefined && !hasProperty key members then done
      else setProperty key data done
    parseShape members done shape

/-- The option whose discriminator the value has. -/
def parseOption (key : JsString) (members : List (JsString × JsValue)) :
    List Schema → Option JsValue
  | [] => none
  | option :: options =>
    if isOptionFor key members option then
      safeParse option (.object members)
    else
      parseOption key members options

end

variable {value : JsValue} {members : List (JsString × JsValue)}

theorem setProperty_names {key : JsString}
    (distinct : (members.map Prod.fst).Nodup) :
    ((setProperty key value members).map Prod.fst).Nodup := by
  by_cases inside : key ∈ members.map Prod.fst
  · have same : (setProperty key value members).map Prod.fst =
        members.map Prod.fst := by
      clear distinct
      induction members with
      | nil => cases inside
      | cons member members induction =>
        rw [setProperty]
        split
        · rename_i is
          rw [List.map_cons, List.map_cons, is]
        · rename_i other
          rw [List.map_cons, List.mem_cons] at inside
          rw [List.map_cons, List.map_cons,
            induction (inside.resolve_left (Ne.symm other))]
    rwa [same]
  · rw [setProperty_new inside, List.map_append]
    refine distinct.append (List.nodup_singleton key) ?_
    intro name member alsoMember
    have is : name = key := List.mem_singleton.mp alsoMember
    exact inside (is ▸ member)

theorem mem_setProperty {key : JsString} {member : JsString × JsValue}
    (inside : member ∈ setProperty key value members) :
    member = (key, value) ∨ member ∈ members := by
  induction members with
  | nil => exact Or.inl (List.mem_singleton.mp inside)
  | cons first members induction =>
    rw [setProperty] at inside
    split at inside
    · rcases List.mem_cons.mp inside with is | inside
      · exact Or.inl is
      · exact Or.inr (List.mem_cons_of_mem _ inside)
    · rcases List.mem_cons.mp inside with is | inside
      · exact Or.inr (is ▸ List.mem_cons_self)
      · exact (induction inside).imp id (List.mem_cons_of_mem _)

/-- Members that were made one by one from what a parser returned. -/
structure MadeBy (made : JsString × JsValue → Prop)
    (members : List (JsString × JsValue)) : Prop where
  names : (members.map Prod.fst).Nodup
  made : ∀ member ∈ members, made member

theorem MadeBy.nil {made : JsString × JsValue → Prop} : MadeBy made [] :=
  ⟨List.nodup_nil, fun _ member => nomatch member⟩

theorem MadeBy.set {made : JsString × JsValue → Prop}
    (madeBy : MadeBy made members) {key : JsString} (new : made (key, value)) :
    MadeBy made (setProperty key value members) where
  names := setProperty_names madeBy.names
  made := by
    intro member inside
    rcases mem_setProperty inside with rfl | inside
    · exact new
    · exact madeBy.made member inside

theorem madeBy_parseRecord {parse : JsValue → Option JsValue}
    {done data : List (JsString × JsValue)}
    (sofar : MadeBy (fun member => ∃ source, parse source = some member.2)
      done) (accepted : parseRecord parse done members = some data) :
    MadeBy (fun member => ∃ source, parse source = some member.2) data := by
  induction members generalizing done with
  | nil =>
    cases accepted
    exact sofar
  | cons member members induction =>
    rw [parseRecord, Option.bind_eq_bind, Option.bind_eq_some_iff]
      at accepted
    rcases accepted with ⟨value, parsed, accepted⟩
    refine induction ?_ accepted
    split
    · exact sofar
    · exact sofar.set ⟨_, parsed⟩

theorem madeBy_parseShape {done data : List (JsString × JsValue)}
    {shape fields : List (JsString × Schema)} (known : fields ⊆ shape)
    (sofar : MadeBy (fun member => ∃ field ∈ shape, member.1 = field.1 ∧
      ∃ source, safeParse field.2 source = some member.2) done)
    (accepted : parseShape members done fields = some data) :
    MadeBy (fun member => ∃ field ∈ shape, member.1 = field.1 ∧
      ∃ source, safeParse field.2 source = some member.2) data := by
  induction fields generalizing done with
  | nil =>
    cases accepted
    exact sofar
  | cons field fields induction =>
    rw [parseShape, Option.bind_eq_bind, Option.bind_eq_some_iff]
      at accepted
    rcases accepted with ⟨value, parsed, accepted⟩
    rw [List.cons_subset] at known
    refine induction known.2 ?_ accepted
    split
    · exact sofar
    · exact sofar.set ⟨field, known.1, rfl, _, parsed⟩

theorem source_of_mapM {parse : JsValue → Option JsValue}
    {items elements : List JsValue}
    (parsed : items.mapM parse = some elements) :
    ∀ element ∈ elements, ∃ source, parse source = some element := by
  induction items generalizing elements with
  | nil =>
    cases parsed
    exact fun _ member => nomatch member
  | cons item items induction =>
    rw [List.mapM_cons, Option.bind_eq_bind, Option.bind_eq_some_iff]
      at parsed
    rcases parsed with ⟨first, isFirst, parsed⟩
    rw [Option.bind_eq_bind, Option.bind_eq_some_iff] at parsed
    rcases parsed with ⟨others, areOthers, is⟩
    cases is
    exact List.forall_mem_cons.mpr ⟨⟨item, isFirst⟩, induction areOthers⟩

/-- The documented behaviour keeps the rules. -/
def documentedZod : Zod where
  safeParse := safeParse
  string := by
    intro value data accepted
    cases value <;> cases accepted
    exact ⟨_, rfl⟩
  number := by
    intro value data accepted
    cases value with
    | number number =>
      rw [safeParse] at accepted
      split at accepted
      · cases accepted
      · cases accepted
        exact ⟨_, rfl⟩
    | _ => cases accepted
  boolean := by
    intro value data accepted
    cases value <;> cases accepted
    exact ⟨_, rfl⟩
  literal := by
    intro expected value data accepted
    cases value with
    | string text =>
      rw [safeParse] at accepted
      split at accepted
      · rename_i is
        cases accepted
        rw [is]
      · cases accepted
    | _ => cases accepted
  enum := by
    intro values value data accepted
    cases value with
    | string text =>
      rw [safeParse] at accepted
      split at accepted
      · rename_i member
        cases accepted
        exact ⟨text, member, rfl⟩
      · cases accepted
    | _ => cases accepted
  min := by
    intro schema length value data accepted
    rw [safeParse, Option.filter_eq_some_iff] at accepted
    exact accepted.1
  positive := by
    intro schema value data accepted
    rw [safeParse, Option.filter_eq_some_iff] at accepted
    exact accepted.1
  refine := by
    intro schema check message value data accepted
    rw [safeParse, Option.filter_eq_some_iff] at accepted
    exact accepted.1
  optional := by
    intro schema value data accepted
    rw [safeParse] at accepted
    split at accepted
    · cases accepted
      exact Or.inl rfl
    · exact Or.inr accepted
  nullable := by
    intro schema value data accepted
    cases value with
    | null =>
      cases accepted
      exact Or.inl rfl
    | _ => exact Or.inr accepted
  default := by
    intro schema fallback value data accepted
    rw [safeParse] at accepted
    split at accepted
    · exact Or.inl accepted
    · exact Or.inr accepted
  array := by
    intro item value data accepted
    cases value with
    | array items =>
      rw [safeParse] at accepted
      rw [Option.map_eq_some_iff] at accepted
      rcases accepted with ⟨elements, parsed, rfl⟩
      exact ⟨elements, rfl, source_of_mapM parsed⟩
    | _ => cases accepted
  record := by
    intro schema value data accepted
    cases value with
    | object members =>
      rw [safeParse] at accepted
      rw [Option.map_eq_some_iff] at accepted
      rcases accepted with ⟨parsed, made, rfl⟩
      have madeBy := madeBy_parseRecord .nil made
      exact ⟨parsed, rfl, madeBy.names, madeBy.made⟩
    | _ => cases accepted
  object := by
    intro shape value data accepted
    cases value with
    | object members =>
      rw [safeParse] at accepted
      rw [Option.map_eq_some_iff] at accepted
      rcases accepted with ⟨parsed, made, rfl⟩
      have madeBy := madeBy_parseShape (List.Subset.refl shape)
        .nil made
      exact ⟨parsed, rfl, madeBy.names, madeBy.made⟩
    | _ => cases accepted
  discriminatedUnion := by
    intro key options value data accepted
    cases value with
    | object members =>
      rw [safeParse] at accepted
      induction options with
      | nil => cases accepted
      | cons option options induction =>
        rw [parseOption] at accepted
        split at accepted
        · exact ⟨option, List.mem_cons_self, accepted⟩
        · rcases induction accepted with ⟨other, member, accepted⟩
          exact ⟨other, List.mem_cons_of_mem _ member, accepted⟩
    | _ => cases accepted

/-! ## The schemas of the protocol -/

/-- `z.string().min(1)`. -/
def nonEmpty : Schema :=
  .min .string 1

/-- `isSafeRelativePath`, with `allowDot`. -/
def isSafeRelativePathOrDot (value : List Char) : Bool :=
  let normalized := forwardSlashes value
  normalized = [] || normalized = ['.'] ||
    Snapshot.Capture.isSafeRelativePath value

def RiskLevelSchema : Schema :=
  .enum [jsText "safe", jsText "normal", jsText "destructive",
    jsText "hardware"]

def QueuePolicySchema : Schema :=
  .enum [jsText "local_fallback", jsText "wait", jsText "fail_fast"]

def CompletionPolicySchema : Schema :=
  .discriminatedUnion (jsText "type")
    [.object [(jsText "type", .literal (jsText "run_to_exit"))],
      .object [(jsText "type", .literal (jsText "run_for_duration")),
        (jsText "duration_seconds", .positive .number)],
      .object [(jsText "type", .literal (jsText "run_until_log_match")),
        (jsText "success_pattern", nonEmpty),
        (jsText "failure_pattern", .optional nonEmpty),
        (jsText "max_duration_seconds", .positive .number)]]

def ShellIdSchema : Schema :=
  .enum [jsText "bash", jsText "zsh", jsText "sh", jsText "powershell",
    jsText "pwsh", jsText "cmd", jsText "direct"]

/-- A positive whole number, as a default. -/
def wholeNumber (digits : Nat) (exponent : Int) (normal : digits % 10 ≠ 0) :
    JsValue :=
  .number (.finite false { digits, exponent, normal })

theorem normal_thirtySix : 36 % 10 ≠ 0 := by decide
theorem normal_one : 1 % 10 ≠ 0 := by decide
theorem normal_six : 6 % 10 ≠ 0 := by decide

def ExecutionConfigSchema : Schema :=
  .object [(jsText "shell", .default ShellIdSchema (.string (jsText "bash"))),
    (jsText "script", nonEmpty),
    (jsText "env", .default (.record .string) (.object [])),
    (jsText "secret_refs", .optional (.record .string)),
    (jsText "timeout_seconds",
      .default (.positive .number) (wholeNumber 36 2 normal_thirtySix)),
    (jsText "idle_timeout_seconds", .optional (.positive .number)),
    (jsText "cancel_grace_seconds",
      .default (.positive .number) (wholeNumber 1 1 normal_one)),
    (jsText "cleanup_script", .optional .string),
    (jsText "cleanup_timeout_seconds",
      .default (.positive .number) (wholeNumber 6 1 normal_six)),
    (jsText "tty", .default .boolean (.bool false)),
    (jsText "completion", .default CompletionPolicySchema
      (.object [(jsText "type", .string (jsText "run_to_exit"))]))]

def JobAdditionalRootSchema : Schema :=
  .object [(jsText "source_path", nonEmpty),
    (jsText "mount_path", .refine nonEmpty Snapshot.Capture.isSafeRelativePath
      ("mount_path must be a relative path without '..', absolute, " ++
        "or UNC segments")),
    (jsText "include", .default (.array .string)
      (.array [.string (jsText "**/*")])),
    (jsText "exclude", .default (.array .string) (.array [])),
    (jsText "mode",
      .default (.enum [jsText "read_only", jsText "read_write"])
        (.string (jsText "read_only")))]

def SourceConfigSchema : Schema :=
  .object [(jsText "project_root", nonEmpty),
    (jsText "cwd", .refine (.default .string (.string (jsText ".")))
      isSafeRelativePathOrDot
      "cwd must be a relative path without '..' or absolute segments"),
    (jsText "additional_roots",
      .default (.array JobAdditionalRootSchema) (.array []))]

def SourcePolicySchema : Schema :=
  .object [(jsText "include_untracked", .default .boolean (.bool true)),
    (jsText "include_ignored", .default (.array .string) (.array [])),
    (jsText "secret_policy",
      .default (.enum [jsText "block", jsText "warn", jsText "allow"])
        (.string (jsText "block")))]

def RequirementsConfigSchema : Schema :=
  .object [(jsText "os", .optional (.array .string)),
    (jsText "arch", .optional (.array .string)),
    (jsText "tools", .optional (.record .string)),
    (jsText "labels", .optional (.record .string)),
    (jsText "secret_refs", .optional (.array .string)),
    (jsText "min_memory_mb", .optional (.positive .number)),
    (jsText "min_disk_mb", .optional (.positive .number))]

def PreferencesConfigSchema : Schema :=
  .object [(jsText "agent_ids", .optional (.array .string)),
    (jsText "os_order", .optional (.array .string)),
    (jsText "prefer_repo_cache", .default .boolean (.bool true)),
    (jsText "prefer_build_cache", .default .boolean (.bool true)),
    (jsText "allow_local_fallback", .default .boolean (.bool true))]

def ArtifactRuleSchema : Schema :=
  .object [(jsText "glob", nonEmpty),
    (jsText "required", .default .boolean (.bool false))]

def JobRequestSchema : Schema :=
  .object [(jsText "client_request_id", nonEmpty),
    (jsText "name", .optional .string),
    (jsText "source", SourceConfigSchema),
    (jsText "execution", ExecutionConfigSchema),
    (jsText "requirements", .optional RequirementsConfigSchema),
    (jsText "preferences", .optional PreferencesConfigSchema),
    (jsText "queue_policy", .optional QueuePolicySchema),
    (jsText "risk_level",
      .default RiskLevelSchema (.string (jsText "normal"))),
    (jsText "intent", .optional (.nullable .string)),
    (jsText "source_policy", .optional SourcePolicySchema),
    (jsText "artifacts", .optional (.array ArtifactRuleSchema))]

/-! ## What an accepted value is -/

/-- A schema that never returns `undefined`. -/
def Schema.isSolid : Schema → Bool
  | .min schema _ => schema.isSolid
  | .positive schema => schema.isSolid
  | .refine schema _ _ => schema.isSolid
  | .optional _ => false
  | .nullable schema => schema.isSolid
  | .default schema _ => schema.isSolid
  | .discriminatedUnion _ _ => false
  | _ => true

mutual

/-- Every array of the schema holds items of a solid schema. -/
def Schema.hasSolidItems : Schema → Bool
  | .min schema _ => schema.hasSolidItems
  | .positive schema => schema.hasSolidItems
  | .refine schema _ _ => schema.hasSolidItems
  | .optional schema => schema.hasSolidItems
  | .nullable schema => schema.hasSolidItems
  | .default schema _ => schema.hasSolidItems
  | .array item => item.isSolid && item.hasSolidItems
  | .record value => value.hasSolidItems
  | .object shape => haveSolidItems shape
  | .discriminatedUnion _ options => allHaveSolidItems options
  | _ => true

def haveSolidItems : List (JsString × Schema) → Bool
  | [] => true
  | (_, schema) :: shape => schema.hasSolidItems && haveSolidItems shape

def allHaveSolidItems : List Schema → Bool
  | [] => true
  | schema :: schemas => schema.hasSolidItems && allHaveSolidItems schemas

end

/-- Induction on a schema, with a hypothesis for every part. -/
@[elab_as_elim]
theorem Schema.induct {motive : Schema → Prop} (string : motive .string)
    (number : motive .number) (boolean : motive .boolean)
    (literal : ∀ value, motive (.literal value))
    (enum : ∀ values, motive (.enum values))
    (min : ∀ schema length, motive schema → motive (.min schema length))
    (positive : ∀ schema, motive schema → motive (.positive schema))
    (refine : ∀ schema check message, motive schema →
      motive (.refine schema check message))
    (optional : ∀ schema, motive schema → motive (.optional schema))
    (nullable : ∀ schema, motive schema → motive (.nullable schema))
    (default : ∀ schema value, motive schema →
      motive (.default schema value))
    (array : ∀ item, motive item → motive (.array item))
    (record : ∀ value, motive value → motive (.record value))
    (object : ∀ shape, (∀ field ∈ shape, motive field.2) →
      motive (.object shape))
    (discriminatedUnion : ∀ key options,
      (∀ option ∈ options, motive option) →
      motive (.discriminatedUnion key options))
    (schema : Schema) : motive schema :=
  @Schema.rec motive (fun shape => ∀ field ∈ shape, motive field.2)
    (fun options => ∀ option ∈ options, motive option)
    (fun field => motive field.2)
    string number boolean literal enum min positive refine optional nullable
    default array record object discriminatedUnion
    (fun _ member => nomatch member)
    (fun _ _ first others => List.forall_mem_cons.mpr ⟨first, others⟩)
    (fun _ member => nomatch member)
    (fun _ _ first others => List.forall_mem_cons.mpr ⟨first, others⟩)
    (fun _ _ field => field) schema

theorem haveSolidItems_iff (shape : List (JsString × Schema)) :
    haveSolidItems shape = true ↔
      ∀ field ∈ shape, field.2.hasSolidItems = true := by
  induction shape with
  | nil => simp [haveSolidItems]
  | cons field shape induction =>
    rw [haveSolidItems, Bool.and_eq_true, induction, List.forall_mem_cons]

theorem allHaveSolidItems_iff (schemas : List Schema) :
    allHaveSolidItems schemas = true ↔
      ∀ schema ∈ schemas, schema.hasSolidItems = true := by
  induction schemas with
  | nil => simp [allHaveSolidItems]
  | cons schema schemas induction =>
    rw [allHaveSolidItems, Bool.and_eq_true, induction,
      List.forall_mem_cons]

variable {zod : Zod}

/-- What a solid schema returns is a value. -/
theorem ne_undefined_of_isSolid {schema : Schema}
    (solid : schema.isSolid = true) {data : JsValue}
    (accepted : zod.safeParse schema value = some data) :
    data ≠ .undefined := by
  induction schema using Schema.induct generalizing value with
  | string =>
    rcases zod.string accepted with ⟨text, rfl⟩
    exact JsValue.noConfusion
  | number =>
    rcases zod.number accepted with ⟨number, rfl⟩
    exact JsValue.noConfusion
  | boolean =>
    rcases zod.boolean accepted with ⟨flag, rfl⟩
    exact JsValue.noConfusion
  | literal expected =>
    rw [zod.literal accepted]
    exact JsValue.noConfusion
  | enum values =>
    rcases zod.enum accepted with ⟨text, -, rfl⟩
    exact JsValue.noConfusion
  | min schema length induction => exact induction solid (zod.min accepted)
  | positive schema induction => exact induction solid (zod.positive accepted)
  | refine schema check message induction =>
    exact induction solid (zod.refine accepted)
  | optional schema induction => cases solid
  | nullable schema induction =>
    rcases zod.nullable accepted with rfl | accepted
    · exact JsValue.noConfusion
    · exact induction solid accepted
  | default schema fallback induction =>
    rcases zod.default accepted with accepted | accepted
    all_goals
      exact induction solid accepted
  | array item induction =>
    rcases zod.array accepted with ⟨items, rfl, -⟩
    exact JsValue.noConfusion
  | record schema induction =>
    rcases zod.record accepted with ⟨members, rfl, -⟩
    exact JsValue.noConfusion
  | object shape induction =>
    rcases zod.object accepted with ⟨members, rfl, -⟩
    exact JsValue.noConfusion
  | discriminatedUnion key options induction => cases solid

/-- What is accepted has distinct names and arrays without `undefined`. -/
theorem tidy_of_accepted {schema : Schema}
    (solid : schema.hasSolidItems = true) {data : JsValue}
    (accepted : zod.safeParse schema value = some data) :
    data.Distinct ∧ data.Everywhere HasDefinedItems := by
  induction schema using Schema.induct generalizing value data with
  | string =>
    rcases zod.string accepted with ⟨text, rfl⟩
    exact ⟨trivial, trivial⟩
  | number =>
    rcases zod.number accepted with ⟨number, rfl⟩
    exact ⟨trivial, trivial⟩
  | boolean =>
    rcases zod.boolean accepted with ⟨flag, rfl⟩
    exact ⟨trivial, trivial⟩
  | literal expected =>
    rw [zod.literal accepted]
    exact ⟨trivial, trivial⟩
  | enum values =>
    rcases zod.enum accepted with ⟨text, -, rfl⟩
    exact ⟨trivial, trivial⟩
  | min schema length induction => exact induction solid (zod.min accepted)
  | positive schema induction => exact induction solid (zod.positive accepted)
  | refine schema check message induction =>
    exact induction solid (zod.refine accepted)
  | optional schema induction =>
    rcases zod.optional accepted with rfl | accepted
    · exact ⟨trivial, trivial⟩
    · exact induction solid accepted
  | nullable schema induction =>
    rcases zod.nullable accepted with rfl | accepted
    · exact ⟨trivial, trivial⟩
    · exact induction solid accepted
  | default schema fallback induction =>
    rcases zod.default accepted with accepted | accepted
    all_goals
      exact induction solid accepted
  | array item induction =>
    rw [Schema.hasSolidItems, Bool.and_eq_true] at solid
    rcases zod.array accepted with ⟨items, rfl, inside⟩
    rw [everywhere_array]
    constructor
    · refine (everywhere_array items).mpr
        ⟨trivial, fun element member => ?_⟩
      rcases inside element member with ⟨source, accepted⟩
      exact (induction solid.2 accepted).1
    · refine ⟨fun element member => ?_, fun element member => ?_⟩
      · rcases inside element member with ⟨source, accepted⟩
        exact ne_undefined_of_isSolid solid.1 accepted
      · rcases inside element member with ⟨source, accepted⟩
        exact (induction solid.2 accepted).2
  | record schema induction =>
    rcases zod.record accepted with ⟨members, rfl, names, inside⟩
    constructor
    · refine (everywhere_object members).mpr
        ⟨names, fun member member' => ?_⟩
      rcases inside member member' with ⟨source, accepted⟩
      exact (induction solid accepted).1
    · refine (everywhere_object members).mpr
        ⟨trivial, fun member member' => ?_⟩
      rcases inside member member' with ⟨source, accepted⟩
      exact (induction solid accepted).2
  | object shape induction =>
    rw [Schema.hasSolidItems, haveSolidItems_iff] at solid
    rcases zod.object accepted with ⟨members, rfl, names, inside⟩
    constructor
    · refine (everywhere_object members).mpr
        ⟨names, fun member member' => ?_⟩
      rcases inside member member' with ⟨field, known, -, source, accepted⟩
      exact (induction field known (solid field known) accepted).1
    · refine (everywhere_object members).mpr
        ⟨trivial, fun member member' => ?_⟩
      rcases inside member member' with ⟨field, known, -, source, accepted⟩
      exact (induction field known (solid field known) accepted).2
  | discriminatedUnion key options induction =>
    rw [Schema.hasSolidItems, allHaveSolidItems_iff] at solid
    rcases zod.discriminatedUnion accepted with ⟨option, known, accepted⟩
    exact induction option known (solid option known) accepted

end Rbo.Protocol
