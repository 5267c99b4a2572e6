import Rbo.Controller.Scheduler
import Rbo.Foundation.JsValue

/-!
# The build-cache keys of both sides

The Controller prefers an agent that has a build cache of the job, and derives
the keys of these caches from the row of the snapshot and the request that it
schedules.  The agent derives the keys again from the lease offer and the
prepared source.

The sides agree on how a key is computed.  They disagree on the identity of a
project whose full snapshot names a repository, on a request without tools
whose source needs Git, and on a risk level that the agent does not cache.
-/

namespace Rbo.Agent.BuildCacheKeys

open Rbo.Foundation
open Rbo.Controller.Scheduler
open Rbo.Controller.Submissions (RiskLevel)

/-! ## The key -/

def kindText : BuildCacheKind → String
  | .ccache => "ccache"
  | .sccache => "sccache"
  | .npm => "npm"
  | .pnpm => "pnpm"
  | .pip => "pip"

/-- `canonicalJson` of the material, its names in order. -/
def canonicalJson (input : BuildCacheKeyInput) : List Char :=
  (jsonStringify (.object [
    (jsText "arch", .string (jsText input.arch)),
    (jsText "kind", .string (jsText (kindText input.kind))),
    (jsText "osFamily", .string (jsText input.osFamily.text)),
    (jsText "projectIdentity", .string (jsText input.projectIdentity)),
    (jsText "toolchainFingerprint",
      .string (jsText input.toolchainFingerprint)),
    (jsText "toolchainProfileId",
      .string (jsText input.toolchainProfileId))])).getD []

/-- `computeBuildCacheKey`, over the hash of the runtime. -/
def computeBuildCacheKey (sha256 : List Char → List Char)
    (input : BuildCacheKeyInput) : String :=
  kindText input.kind ++ "_" ++
    String.ofList ((sha256 (canonicalJson input)).take 32)

/-- The scheduler's platform with this key.  No letter but an ASCII one has a
letter of a tool name as its lower case, so that of ASCII is enough. -/
def withKeys {AgentId : Type} (sha256 : List Char → List Char)
    (platform : Platform AgentId) : Platform AgentId :=
  { platform with
      toLowerCase := String.toLower
      computeBuildCacheKey := computeBuildCacheKey sha256 }

/-! ## The agent's kinds -/

structure BuildCacheKindDefinition where
  kind : BuildCacheKind
  cacheDirEnv : String
  extraEnv : List (String × String)
  relativeDir : String
  requiresToolchain : Bool
  deriving DecidableEq

/-- `BUILD_CACHE_KINDS`. -/
def buildCacheKinds : List BuildCacheKindDefinition :=
  [ { kind := .ccache, cacheDirEnv := "CCACHE_DIR",
      extraEnv := [("CCACHE_NOHASHDIR", "1")], relativeDir := "ccache",
      requiresToolchain := true },
    { kind := .sccache, cacheDirEnv := "SCCACHE_DIR", extraEnv := [],
      relativeDir := "sccache", requiresToolchain := true },
    { kind := .npm, cacheDirEnv := "npm_config_cache", extraEnv := [],
      relativeDir := "npm", requiresToolchain := false },
    { kind := .pnpm, cacheDirEnv := "PNPM_STORE_PATH", extraEnv := [],
      relativeDir := "pnpm", requiresToolchain := false },
    { kind := .pip, cacheDirEnv := "PIP_CACHE_DIR", extraEnv := [],
      relativeDir := "pip", requiresToolchain := false } ]

def getBuildCacheKindDefinition (kind : BuildCacheKind) :
    Option BuildCacheKindDefinition :=
  buildCacheKinds.find? fun definition => definition.kind = kind

/-- `TOOL_NAME_TO_KIND`. -/
def toolNameToKind : String → Option BuildCacheKind
  | "ccache" => some .ccache
  | "sccache" => some .sccache
  | "npm" => some .npm
  | "pnpm" => some .pnpm
  | "pip" => some .pip
  | _ => none

/-- The enabled kinds that are relevant to the tools of a request. -/
def resolveRelevantBuildCacheKinds (enabledKinds : List BuildCacheKind)
    (requiredTools : Option (List (String × String))) :
    List BuildCacheKind :=
  let all := buildCacheKinds.map BuildCacheKindDefinition.kind
  match requiredTools.getD [] with
  | [] => all.filter (· ∈ enabledKinds)
  | tools =>
    let fromTools := tools.filterMap fun tool =>
      (toolNameToKind tool.1.toLower).filter (· ∈ enabledKinds)
    all.filter (· ∈ fromTools)

def buildCacheEnvForKind (kind : BuildCacheKind) (absoluteCacheDir : String) :
    List (String × String) :=
  match getBuildCacheKindDefinition kind with
  | none => []
  | some definition =>
    (definition.cacheDirEnv, absoluteCacheDir) :: definition.extraEnv

/-! ## The agent's keys -/

/-- The parts of the configuration that the injection reads. -/
structure BuildCacheConfig where
  enabledKinds : List BuildCacheKind
  allowReadRiskLevels : List RiskLevel

structure ResolveBuildCacheInjectionInput where
  stateDir : String
  config : BuildCacheConfig
  preferBuildCache : Bool
  riskLevel : RiskLevel
  osFamily : OsFamily
  arch : String
  projectIdentity : String
  selectedToolchain : Option ToolchainProfile
  requiredTools : Option (List (String × String))

structure ResolvedBuildCacheTarget where
  kind : BuildCacheKind
  cacheKey : String
  publishedKindDir : String

structure ResolveBuildCacheInjectionResult where
  env : List (String × String)
  injectedKinds : List BuildCacheKind
  cacheDirs : List String
  targets : List ResolvedBuildCacheTarget

/-- What the runtime does for the agent. -/
structure Runtime where
  sha256 : List Char → List Char
  join : List String → String

variable (runtime : Runtime)

/-- The target of a kind, when its cache can be keyed. -/
def buildCacheTarget (input : ResolveBuildCacheInjectionInput)
    (kind : BuildCacheKind) : Option ResolvedBuildCacheTarget :=
  match getBuildCacheKindDefinition kind with
  | none => none
  | some definition =>
    if definition.requiresToolchain ∧ input.selectedToolchain = none then
      none
    else
      let cacheKey := computeBuildCacheKey runtime.sha256
        { kind := kind
          toolchainProfileId :=
            (input.selectedToolchain.map ToolchainProfile.id).getD "none"
          toolchainFingerprint :=
            (input.selectedToolchain.map
              ToolchainProfile.environmentFingerprint).getD "none"
          osFamily := input.osFamily
          arch := input.arch
          projectIdentity := input.projectIdentity }
      some
        { kind := kind
          cacheKey := cacheKey
          publishedKindDir := runtime.join
            [input.stateDir, "build-caches", cacheKey,
              definition.relativeDir] }

def resolveBuildCacheInjection (input : ResolveBuildCacheInjectionInput) :
    ResolveBuildCacheInjectionResult :=
  let nothing : ResolveBuildCacheInjectionResult :=
    { env := [], injectedKinds := [], cacheDirs := [], targets := [] }
  if ¬ input.preferBuildCache then nothing
  else if input.riskLevel ∉ input.config.allowReadRiskLevels then nothing
  else
    let candidates := resolveRelevantBuildCacheKinds input.config.enabledKinds
      input.requiredTools
    let targets := candidates.filterMap (buildCacheTarget runtime input)
    { env := targets.flatMap fun target =>
        buildCacheEnvForKind target.kind target.publishedKindDir
      injectedKinds := targets.map ResolvedBuildCacheTarget.kind
      cacheDirs := targets.map ResolvedBuildCacheTarget.publishedKindDir
      targets := targets }

/-! ## One dispatch -/

/-- The id of a content is the text of a hash. -/
abbrev ContentId := { id : String // id ≠ "" }

/-- The parts of a snapshot's manifest from which the projects are named. -/
inductive SnapshotManifest where
  | full (contentId : ContentId) (canonicalId : Option String)
  | gitOverlay (contentId : ContentId) (canonicalId : String)

def SnapshotManifest.contentId : SnapshotManifest → ContentId
  | .full contentId _ => contentId
  | .gitOverlay contentId _ => contentId

/-- `repo_id` of the row: `manifest.repo?.canonical_id ?? 'local'`. -/
def SnapshotManifest.repoId : SnapshotManifest → String
  | .full _ canonicalId => canonicalId.getD "local"
  | .gitOverlay _ canonicalId => canonicalId

/-- The parts of `prepare_source` and of the offer that the agent reads. -/
inductive PrepareSource where
  | full
  | gitOverlay (canonicalId : String)

structure LeaseOffer (AgentId : Type) where
  jobRequest : JobRequest AgentId
  contentId : String
  selectedToolchainProfiles : Option (List ToolchainProfile)

/-- `buildCacheProjectIdentity` of `submit.ts`. -/
def buildCacheProjectIdentity (repoId contentId : String) : Option String :=
  if repoId ≠ "" ∧ repoId ≠ "local" then some repoId
  else if contentId ≠ "" then some ("local:" ++ contentId)
  else none

/-- `sendPrepareSource` tells the agent the mode of the manifest. -/
def preparedSource : SnapshotManifest → PrepareSource
  | .full _ _ => .full
  | .gitOverlay _ canonicalId => .gitOverlay canonicalId

def resolveProjectIdentity {AgentId : Type} (offer : LeaseOffer AgentId)
    (prepare : PrepareSource) : String :=
  match prepare with
  | .gitOverlay canonicalId => canonicalId
  | .full => "local:" ++ offer.contentId

structure AgentHost where
  /-- `process.platform`. -/
  platform : String
  arch : String
  stateDir : String
  config : BuildCacheConfig

/-- `osFamily` of the probe. -/
def osFamily (platform : String) : OsFamily :=
  if platform = "darwin" then .macos
  else if platform = "win32" then .windows
  else .linux

/-- `agentOsFamily` of the executor. -/
def agentOsFamily (platform : String) : OsFamily :=
  if platform = "darwin" then .macos
  else if platform = "win32" then .windows
  else .linux

/-- A job that is dispatched to an agent: what the client asked for, what was
captured, and the profiles that were chosen for the tools. -/
structure Dispatch (AgentId : Type) where
  request : JobRequest AgentId
  sources : GitSourceRequirements
  manifest : SnapshotManifest
  agent : AgentHost
  report : AgentCapabilityReport
  toolchains : List ToolchainProfile
  options : SchedulerOptions AgentId

variable {AgentId : Type} (platform : Platform AgentId)
  (dispatch : Dispatch AgentId)

namespace Dispatch

/-- The report of the agent, whose system the agent probed. -/
def caps : AgentCapabilityReport :=
  { dispatch.report with
      osFamily := osFamily dispatch.agent.platform
      arch := dispatch.agent.arch }

def schedulingRequest : JobRequest AgentId :=
  mergeGitSourceToolRequirements dispatch.request dispatch.sources

def projectIdentity : Option String :=
  buildCacheProjectIdentity dispatch.manifest.repoId
    dispatch.manifest.contentId

/-- The keys that the score of the agent counts. -/
def expectedKeys : List ExpectedBuildCacheKey :=
  let request := dispatch.schedulingRequest
  if (request.preferences.getD (Preferences.default AgentId)).preferBuildCache
  then
    expectedBuildCacheKeys (withKeys runtime.sha256 platform) dispatch.caps
      dispatch.toolchains (request.requirements.getD Requirements.none)
      { dispatch.options with
          buildCacheKeys := none
          buildCacheProjectIdentity := dispatch.projectIdentity }
  else
    []

/-- `initiateRemoteAttempt` offers the request as it was submitted. -/
def offer : LeaseOffer AgentId where
  jobRequest := dispatch.request
  contentId := dispatch.manifest.contentId
  selectedToolchainProfiles :=
    if dispatch.toolchains = [] then none else some dispatch.toolchains

def agentIdentity : String :=
  resolveProjectIdentity dispatch.offer (preparedSource dispatch.manifest)

def requiredTools : Option (List (String × String)) :=
  dispatch.request.requirements.bind Requirements.tools

/-- What the executor makes of the offer and the prepared source. -/
def injectionInput : ResolveBuildCacheInjectionInput :=
  let request := dispatch.offer.jobRequest
  { stateDir := dispatch.agent.stateDir
    config := dispatch.agent.config
    preferBuildCache := (request.preferences.getD
      (Preferences.default AgentId)).preferBuildCache
    riskLevel := request.riskLevel
    osFamily := agentOsFamily dispatch.agent.platform
    arch := dispatch.agent.arch
    projectIdentity := dispatch.agentIdentity
    selectedToolchain :=
      (dispatch.offer.selectedToolchainProfiles.getD []).head?
    requiredTools := request.requirements.bind Requirements.tools }

def injection : ResolveBuildCacheInjectionResult :=
  resolveBuildCacheInjection runtime dispatch.injectionInput

/-- The expected keys of the enabled kinds are those that the agent uses. -/
def KeysAgree : Prop :=
  ∀ kind key,
    kind ∈ dispatch.agent.config.enabledKinds ∧
        { kind, key } ∈ dispatch.expectedKeys runtime platform ↔
      ∃ target ∈ (dispatch.injection runtime).targets,
        target.kind = kind ∧ target.cacheKey = key

/-! ## When the sides agree -/

/-- The enabled kinds of the request that can be keyed. -/
def relevantKinds : List BuildCacheKind :=
  (resolveRelevantBuildCacheKinds dispatch.agent.config.enabledKinds
      dispatch.requiredTools).filter fun kind =>
    ¬ (needsToolchain kind ∧ dispatch.toolchains = [])

/-- A request without tools, to which the source adds the tools of Git. -/
def OnlyGitTools : Prop :=
  dispatch.requiredTools.getD [] = [] ∧
    (dispatch.sources.submodules = true ∨ dispatch.sources.lfs = true)

/-- The key of a kind for a project. -/
def keyOf (kind : BuildCacheKind) (identity : String) : String :=
  computeBuildCacheKey runtime.sha256
    { kind := kind
      toolchainProfileId :=
        (dispatch.toolchains.head?.map ToolchainProfile.id).getD "none"
      toolchainFingerprint :=
        (dispatch.toolchains.head?.map
          ToolchainProfile.environmentFingerprint).getD "none"
      osFamily := osFamily dispatch.agent.platform
      arch := dispatch.agent.arch
      projectIdentity := identity }

/-- Both sides name the project alike, or so that the keys do not differ. -/
def SameKeys : Prop :=
  ∃ identity, dispatch.projectIdentity = some identity ∧
    ∀ kind ∈ dispatch.relevantKinds,
      dispatch.keyOf runtime kind identity =
        dispatch.keyOf runtime kind dispatch.agentIdentity

/-- No cache is wished or relevant; or the source hides the caches from the
Controller and the risk hides them from the agent; or neither does, and the
keys are the same. -/
def Agreeable : Prop :=
  (dispatch.request.preferences.getD
      (Preferences.default AgentId)).preferBuildCache = false ∨
    dispatch.relevantKinds = [] ∨
    dispatch.OnlyGitTools ∧
      dispatch.request.riskLevel ∉
        dispatch.agent.config.allowReadRiskLevels ∨
    ¬ dispatch.OnlyGitTools ∧
      dispatch.request.riskLevel ∈
        dispatch.agent.config.allowReadRiskLevels ∧
      dispatch.SameKeys runtime

end Dispatch

/-! ## The kinds of the tools -/

/-- The tools of a request leave a kind in question. -/
def Named (tools : Option (List (String × String))) (kind : BuildCacheKind) :
    Prop :=
  tools.getD [] = [] ∨
    ∃ tool ∈ tools.getD [], buildCacheKindOf tool.1.toLower = some kind

theorem toolNameToKind_eq (name : String) :
    toolNameToKind name = buildCacheKindOf name := by
  unfold toolNameToKind buildCacheKindOf
  rfl

theorem mem_buildCacheKinds (kind : BuildCacheKind) :
    kind ∈ buildCacheKinds.map BuildCacheKindDefinition.kind := by
  cases kind <;> decide

/-- Both sides need a toolchain for the same kinds. -/
theorem requiresToolchain_eq (kind : BuildCacheKind) :
    (getBuildCacheKindDefinition kind).map
      BuildCacheKindDefinition.requiresToolchain =
      some (needsToolchain kind) := by
  cases kind <;> decide

variable {kind : BuildCacheKind}

theorem mem_resolveRelevantBuildCacheKinds
    {enabledKinds : List BuildCacheKind}
    {tools : Option (List (String × String))} :
    kind ∈ resolveRelevantBuildCacheKinds enabledKinds tools ↔
      kind ∈ enabledKinds ∧ Named tools kind := by
  unfold resolveRelevantBuildCacheKinds Named
  dsimp only
  split
  · rename_i empty
    rw [List.mem_filter, decide_eq_true_eq, empty]
    exact ⟨fun listed => ⟨listed.2, .inl rfl⟩,
      fun listed => ⟨mem_buildCacheKinds kind, listed.1⟩⟩
  · rename_i some_
    rw [List.mem_filter, decide_eq_true_eq, List.mem_filterMap]
    constructor
    · rintro ⟨-, tool, listed, found⟩
      rw [Option.filter_eq_some_iff, decide_eq_true_eq, toolNameToKind_eq]
        at found
      exact ⟨found.2, .inr ⟨tool, listed, found.1⟩⟩
    · rintro ⟨enabled, empty | ⟨tool, listed, named⟩⟩
      · exact absurd empty some_
      · refine ⟨mem_buildCacheKinds kind, tool, listed, ?_⟩
        rw [Option.filter_eq_some_iff, decide_eq_true_eq, toolNameToKind_eq]
        exact ⟨named, enabled⟩

/-- A tool of Git names no kind, and takes the place of an empty list. -/
theorem named_requireTool {name : String} (tools : List (String × String))
    (plain : buildCacheKindOf name.toLower = none) (kind : BuildCacheKind) :
    Named (some (requireTool name tools)) kind ↔
      tools ≠ [] ∧ Named (some tools) kind := by
  unfold requireTool Named
  split
  · rename_i found
    have nonempty : tools ≠ [] := by
      rintro rfl
      cases found
    simp [nonempty]
  · have unnamed : buildCacheKindOf name.toLower ≠ some kind := by
      rw [plain]
      simp
    simp only [Option.getD_some, List.append_eq_nil_iff, List.cons_ne_nil,
      and_false, false_or, List.mem_append, List.mem_singleton]
    constructor
    · rintro ⟨tool, listed | rfl, named⟩
      · exact ⟨List.ne_nil_of_mem listed, .inr ⟨tool, listed, named⟩⟩
      · exact absurd named unnamed
    · rintro ⟨nonempty, empty | ⟨tool, listed, named⟩⟩
      · exact absurd empty nonempty
      · exact ⟨tool, .inl listed, named⟩

theorem requireTool_ne_nil (name : String) (tools : List (String × String)) :
    requireTool name tools ≠ [] := by
  unfold requireTool
  split
  · rename_i found
    rintro rfl
    cases found
  · simp

theorem schedulingRequest_tools :
    (dispatch.schedulingRequest.requirements.bind Requirements.tools).getD [] =
      (let requested := dispatch.requiredTools.getD []
       let withGit :=
        if dispatch.sources.submodules then requireTool "git" requested
        else requested
       if dispatch.sources.lfs then requireTool "git-lfs" withGit
       else withGit) := by
  unfold Dispatch.schedulingRequest mergeGitSourceToolRequirements
    Dispatch.requiredTools
  cases submodules : dispatch.sources.submodules <;>
    cases lfs : dispatch.sources.lfs
  -- The request is left as it is when it names no tools.
  · by_cases empty :
        (dispatch.request.requirements.bind Requirements.tools).getD [] = []
    · simp [empty]
    · simp [empty]
  · simp [requireTool_ne_nil]
  · simp [requireTool_ne_nil]
  · simp [requireTool_ne_nil]

/-- The tools of Git hide the kinds only of a request that names no tools. -/
theorem named_merged (kind : BuildCacheKind) :
    Named (dispatch.schedulingRequest.requirements.bind Requirements.tools)
        kind ↔
      Named dispatch.requiredTools kind ∧ ¬ dispatch.OnlyGitTools := by
  have git : buildCacheKindOf "git".toLower = none := by decide +kernel
  have lfs : buildCacheKindOf "git-lfs".toLower = none := by decide +kernel
  have tools := schedulingRequest_tools dispatch
  have read : ∀ (requested : Option (List (String × String)))
      (list : List (String × String)), requested.getD [] = list →
      (Named requested kind ↔ Named (some list) kind) := by
    rintro requested list rfl
    rfl
  rw [read _ _ tools, read dispatch.requiredTools _ rfl]
  unfold Dispatch.OnlyGitTools
  dsimp only
  cases dispatch.sources.submodules <;> cases dispatch.sources.lfs
  · simp
  · simp [named_requireTool _ lfs, and_comm]
  · simp [named_requireTool _ git, and_comm]
  · simp [named_requireTool _ git, named_requireTool _ lfs,
      requireTool_ne_nil, and_comm]

/-- Two sides derive keys from the same kinds, unless the kinds are hidden
from one of them. -/
theorem derived_agree_iff {Kind Key : Type} {wished hidden allowed : Prop}
    {relevant : Kind → Prop} {expectedKey usedKey : Kind → Key} :
    (∀ kind key,
        (wished ∧ ¬ hidden ∧ relevant kind ∧ key = expectedKey kind) ↔
          wished ∧ allowed ∧ relevant kind ∧ key = usedKey kind) ↔
      ¬ wished ∨ (∀ kind, ¬ relevant kind) ∨ hidden ∧ ¬ allowed ∨
        ¬ hidden ∧ allowed ∧
          ∀ kind, relevant kind → expectedKey kind = usedKey kind := by
  constructor
  · intro same
    by_cases any : wished ∧ ∃ kind, relevant kind
    · obtain ⟨wish, kind, listed⟩ := any
      right; right
      by_cases permitted : allowed
      · have used := (same kind (usedKey kind)).mpr
          ⟨wish, permitted, listed, rfl⟩
        refine .inr ⟨used.2.1, permitted, fun other alike => ?_⟩
        exact ((same other _).mp ⟨wish, used.2.1, alike, rfl⟩).2.2.2
      · refine .inl ⟨?_, permitted⟩
        by_contra shown
        exact permitted ((same kind _).mp ⟨wish, shown, listed, rfl⟩).2.1
    · by_cases wish : wished
      · exact .inr (.inl fun kind listed => any ⟨wish, kind, listed⟩)
      · exact .inl wish
  · rintro (unwished | none_ | ⟨hid, denied⟩ | ⟨shown, permitted, alike⟩)
      kind key
    · exact iff_of_false (fun side => unwished side.1)
        (fun side => unwished side.1)
    · exact iff_of_false (fun side => none_ kind side.2.2.1)
        (fun side => none_ kind side.2.2.1)
    · exact iff_of_false (fun side => side.2.1 hid)
        (fun side => denied side.2.1)
    · constructor
      · rintro ⟨wish, -, listed, rfl⟩
        exact ⟨wish, permitted, listed, alike kind listed⟩
      · rintro ⟨wish, -, listed, rfl⟩
        exact ⟨wish, shown, listed, (alike kind listed).symm⟩

theorem all_kinds (kind : BuildCacheKind) :
    kind ∈ [BuildCacheKind.ccache, .sccache, .npm, .pnpm, .pip] := by
  cases kind <;> decide

theorem mem_keyed {kinds : List BuildCacheKind}
    {usable : BuildCacheKind → Bool} {keyOf : BuildCacheKind → String}
    {key : String} :
    ({ kind, key } : ExpectedBuildCacheKey) ∈
        (kinds.filter usable).map (fun kind => { kind, key := keyOf kind }) ↔
      kind ∈ kinds ∧ usable kind = true ∧ key = keyOf kind := by
  rw [List.mem_map]
  constructor
  · rintro ⟨other, listed, same⟩
    cases same
    exact ⟨(List.mem_filter.mp listed).1, (List.mem_filter.mp listed).2, rfl⟩
  · rintro ⟨listed, use, rfl⟩
    exact ⟨kind, List.mem_filter.mpr ⟨listed, use⟩, rfl⟩

/-- The keys of the named kinds that can be keyed. -/
theorem mem_computeExpectedBuildCacheKeysForAgent
    {sha256 : List Char → List Char} {caps : AgentCapabilityReport}
    {toolchains : List ToolchainProfile} {identity : String}
    {tools : Option (List (String × String))} {key : String} :
    { kind, key } ∈ computeExpectedBuildCacheKeysForAgent
        (withKeys sha256 platform) caps toolchains identity tools ↔
      Named tools kind ∧
        ¬ (needsToolchain kind = true ∧ toolchains = []) ∧
        key = computeBuildCacheKey sha256
          { kind := kind
            toolchainProfileId :=
              (toolchains.head?.map ToolchainProfile.id).getD "none"
            toolchainFingerprint :=
              (toolchains.head?.map
                ToolchainProfile.environmentFingerprint).getD "none"
            osFamily := caps.osFamily
            arch := caps.arch
            projectIdentity := identity } := by
  have usable : ¬ (needsToolchain kind = true ∧ toolchains.head? = none) ↔
      ¬ (needsToolchain kind = true ∧ toolchains = []) := by
    rw [List.head?_eq_none_iff]
  unfold computeExpectedBuildCacheKeysForAgent
  dsimp only
  rw [mem_keyed, decide_eq_true_eq, usable]
  refine and_congr_left fun _ => ?_
  unfold Named
  cases tools.getD [] with
  | nil => exact iff_of_true (all_kinds kind) (.inl rfl)
  | cons first rest => simp [withKeys]

/-- The target of a kind that can be keyed. -/
theorem buildCacheTarget_eq_some {input : ResolveBuildCacheInjectionInput}
    {target : ResolvedBuildCacheTarget}
    (found : buildCacheTarget runtime input kind = some target) :
    ¬ (needsToolchain kind = true ∧ input.selectedToolchain = none) ∧
      target.kind = kind ∧
      target.cacheKey = computeBuildCacheKey runtime.sha256
        { kind := kind
          toolchainProfileId :=
            (input.selectedToolchain.map ToolchainProfile.id).getD "none"
          toolchainFingerprint :=
            (input.selectedToolchain.map
              ToolchainProfile.environmentFingerprint).getD "none"
          osFamily := input.osFamily
          arch := input.arch
          projectIdentity := input.projectIdentity } := by
  have needs := requiresToolchain_eq kind
  unfold buildCacheTarget at found
  split at found
  · cases found
  · rename_i definition known
    rw [known, Option.map_some, Option.some.injEq] at needs
    rw [needs] at found
    split at found
    · cases found
    · rename_i keyed
      cases found
      exact ⟨keyed, rfl, rfl⟩

theorem exists_buildCacheTarget {input : ResolveBuildCacheInjectionInput}
    (keyed : ¬ (needsToolchain kind = true ∧ input.selectedToolchain = none)) :
    ∃ target, buildCacheTarget runtime input kind = some target := by
  have needs := requiresToolchain_eq kind
  cases known : getBuildCacheKindDefinition kind with
  | none =>
    rw [known] at needs
    cases needs
  | some definition =>
    rw [known, Option.map_some, Option.some.injEq] at needs
    unfold buildCacheTarget
    rw [known]
    dsimp only
    rw [needs, if_neg keyed]
    exact ⟨_, rfl⟩

namespace Dispatch

/-- A snapshot always names its project. -/
theorem exists_projectIdentity :
    ∃ identity, identity ≠ "" ∧ dispatch.projectIdentity = some identity := by
  unfold projectIdentity buildCacheProjectIdentity
  split
  · rename_i remote
    exact ⟨_, remote.1, rfl⟩
  · rw [if_pos dispatch.manifest.contentId.2]
    exact ⟨_, by simp, rfl⟩

theorem mem_relevantKinds {kind : BuildCacheKind} :
    kind ∈ dispatch.relevantKinds ↔
      kind ∈ dispatch.agent.config.enabledKinds ∧
        Named dispatch.requiredTools kind ∧
        ¬ (needsToolchain kind = true ∧ dispatch.toolchains = []) := by
  unfold relevantKinds
  rw [List.mem_filter, mem_resolveRelevantBuildCacheKinds, decide_eq_true_eq,
    and_assoc]

/-- The keys that the Controller expects. -/
theorem mem_expectedKeys {identity : String} (nonempty : identity ≠ "")
    (named : dispatch.projectIdentity = some identity)
    {kind : BuildCacheKind} {key : String} :
    { kind, key } ∈ dispatch.expectedKeys runtime platform ↔
      (dispatch.request.preferences.getD
          (Preferences.default AgentId)).preferBuildCache = true ∧
        Named (dispatch.schedulingRequest.requirements.bind
          Requirements.tools) kind ∧
        ¬ (needsToolchain kind = true ∧ dispatch.toolchains = []) ∧
        key = dispatch.keyOf runtime kind identity := by
  unfold expectedKeys
  dsimp only
  have preferences : dispatch.schedulingRequest.preferences =
      dispatch.request.preferences := by
    unfold schedulingRequest mergeGitSourceToolRequirements
    dsimp only
    rw [apply_ite JobRequest.preferences, ite_self]
  rw [preferences]
  split
  · rename_i prefer
    have tools :
        (dispatch.schedulingRequest.requirements.getD Requirements.none).tools =
          dispatch.schedulingRequest.requirements.bind Requirements.tools := by
      cases dispatch.schedulingRequest.requirements with
      | none => rfl
      | some requirements => rfl
    have identityThere : truthy (some identity) = some identity := by
      simp [truthy, nonempty]
    unfold expectedBuildCacheKeys
    dsimp only [Option.getD_none]
    rw [named, identityThere, tools]
    rw [mem_computeExpectedBuildCacheKeysForAgent]
    simp [prefer, keyOf, caps]
  · rename_i prefer
    simp [prefer]

theorem selectedToolchain_eq :
    dispatch.injectionInput.selectedToolchain = dispatch.toolchains.head? := by
  unfold injectionInput offer
  dsimp only
  split
  · rename_i none_
    rw [none_]
    rfl
  · rfl

theorem selectedToolchain_eq_none_iff :
    dispatch.injectionInput.selectedToolchain = none ↔
      dispatch.toolchains = [] := by
  rw [selectedToolchain_eq, List.head?_eq_none_iff]

/-- The keys that the agent uses. -/
theorem mem_injection {kind : BuildCacheKind} {key : String} :
    (∃ target ∈ (dispatch.injection runtime).targets,
        target.kind = kind ∧ target.cacheKey = key) ↔
      (dispatch.request.preferences.getD
          (Preferences.default AgentId)).preferBuildCache = true ∧
        dispatch.request.riskLevel ∈
          dispatch.agent.config.allowReadRiskLevels ∧
        kind ∈ dispatch.relevantKinds ∧
        key = dispatch.keyOf runtime kind dispatch.agentIdentity := by
  unfold injection resolveBuildCacheInjection
  dsimp only
  split
  · rename_i unwished
    refine iff_of_false (by simp) fun used => unwished used.1
  · rename_i wished
    split
    · rename_i denied
      refine iff_of_false (by simp) fun used => denied used.2.1
    · rename_i permitted
      rw [not_not] at wished permitted
      rw [dispatch.mem_relevantKinds, ← dispatch.selectedToolchain_eq_none_iff]
      have keys : ∀ {kind target}, buildCacheTarget runtime
          dispatch.injectionInput kind = some target →
          target.kind = kind ∧ target.cacheKey =
            dispatch.keyOf runtime kind dispatch.agentIdentity := by
        intro kind target found
        have key := (buildCacheTarget_eq_some runtime found).2
        rw [dispatch.selectedToolchain_eq] at key
        exact key
      constructor
      · rintro ⟨target, listed, rfl, rfl⟩
        obtain ⟨kind, candidate, found⟩ := List.mem_filterMap.mp listed
        obtain ⟨enabled, named⟩ :=
          mem_resolveRelevantBuildCacheKinds.mp candidate
        have keyed := (buildCacheTarget_eq_some runtime found).1
        obtain ⟨rfl, key⟩ := keys found
        exact ⟨wished, permitted, ⟨enabled, named, keyed⟩, key⟩
      · rintro ⟨-, -, ⟨enabled, named, keyed⟩, rfl⟩
        obtain ⟨target, found⟩ := exists_buildCacheTarget runtime keyed
        refine ⟨target, List.mem_filterMap.mpr ⟨kind, ?_, found⟩, keys found⟩
        exact mem_resolveRelevantBuildCacheKinds.mpr ⟨enabled, named⟩

end Dispatch

/-- A Linux agent that caches for `npm`. -/
def npmHost : AgentHost where
  platform := "linux"
  arch := "x64"
  stateDir := "/state"
  config :=
    { enabledKinds := [.npm], allowReadRiskLevels := [.safe, .normal] }

def plainReport : AgentCapabilityReport where
  osFamily := .linux
  arch := "x64"
  memoryFreeMb := 1024
  diskFreeMb := 1024
  cpuLoad := none
  maxJobs := 1
  shells := ["bash"]
  tools := [("git-lfs", ["3.4.0"])]
  toolchainProfiles := []
  labels := []
  secretRefs := []
  repositoryCache := none
  buildCaches := none
  configuredPriority := none

def plainRequest : JobRequest String where
  requirements := none
  preferences := none
  queuePolicy := none
  riskLevel := .normal
  shell := none
  secretRefs := none

def plainOptions : SchedulerOptions String where
  allowLocalFallback := none
  localHostExecution := none
  repoCanonicalId := none
  baseCommit := none
  buildCacheKeys := none
  buildCacheProjectIdentity := none
  estimatedTransferBytes := none
  recentFailurePenalties := []
  registeredAgentCount := none
  hostLoad := none
  maxHostCpuBusyFraction := none

/-- A request without tools for a repository that stores large files. -/
def lfsDispatch : Dispatch String where
  request := plainRequest
  sources := { submodules := false, lfs := true }
  manifest := .gitOverlay ⟨"sha256:0", by decide⟩ "example.org/app"
  agent := npmHost
  report := plainReport
  toolchains := []
  options := plainOptions

end Rbo.Agent.BuildCacheKeys
