import Mathlib.Data.Rat.Floor
import Mathlib.Data.List.Sort
import Rbo.Controller.Submissions

/-!
# The choice of an agent

`selectAgentForJob` keeps the agents that pass every hard filter and takes the
one with the highest score.  Without such an agent the queue policy decides,
and a job of the local fallback runs on the Controller's host when the host
may run it, its load allows it and the job is not risky.

Numbers are rationals.  What the language's runtime decides for texts, the
version ranges and the hash behind a build-cache key are parameters.
-/

namespace Rbo.Controller.Scheduler

open Rbo.Controller.Lifecycle (QueuePolicy)
open Rbo.Controller.Submissions (RiskLevel isDestructiveRisk)

/-! ## Reports of agents -/

inductive OsFamily where
  | macos
  | windows
  | linux
  deriving DecidableEq

def OsFamily.text : OsFamily → String
  | .macos => "macos"
  | .windows => "windows"
  | .linux => "linux"

inductive BuildCacheKind where
  | ccache
  | sccache
  | npm
  | pnpm
  | pip
  deriving DecidableEq

structure ToolchainProfile where
  id : String
  kind : String
  version : String
  environmentFingerprint : String
  deriving DecidableEq

structure RepositoryCacheEntry where
  canonicalId : String
  commits : Option (List String)
  deriving DecidableEq

structure BuildCacheEntry where
  kind : BuildCacheKind
  keys : Option (List String)
  deriving DecidableEq

/-- The parts of a capability report that the scheduler reads. -/
structure AgentCapabilityReport where
  osFamily : OsFamily
  arch : String
  memoryFreeMb : ℚ
  diskFreeMb : ℚ
  cpuLoad : Option ℚ
  maxJobs : ℚ
  shells : List String
  tools : List (String × List String)
  toolchainProfiles : List ToolchainProfile
  labels : List (String × String)
  secretRefs : List String
  repositoryCache : Option (List RepositoryCacheEntry)
  buildCaches : Option (List BuildCacheEntry)
  configuredPriority : Option ℚ
  deriving DecidableEq

structure SchedulerAgent (AgentId : Type) where
  agentId : AgentId
  capabilities : AgentCapabilityReport
  activeJobsCount : Nat
  recentFailurePenalty : Option ℚ
  deriving DecidableEq

/-! ## Requests -/

structure Requirements where
  os : Option (List String)
  arch : Option (List String)
  tools : Option (List (String × String))
  labels : Option (List (String × String))
  secretRefs : Option (List String)
  minMemoryMb : Option ℚ
  minDiskMb : Option ℚ
  deriving DecidableEq

/-- A request without requirements. -/
def Requirements.none : Requirements where
  os := .none
  arch := .none
  tools := .none
  labels := .none
  secretRefs := .none
  minMemoryMb := .none
  minDiskMb := .none

structure Preferences (AgentId : Type) where
  agentIds : Option (List AgentId)
  osOrder : Option (List String)
  preferRepoCache : Bool
  preferBuildCache : Bool
  allowLocalFallback : Bool
  deriving DecidableEq

/-- The preferences of a request that states none. -/
def Preferences.default (AgentId : Type) : Preferences AgentId where
  agentIds := .none
  osOrder := .none
  preferRepoCache := true
  preferBuildCache := true
  allowLocalFallback := true

/-- The parts of a job request that the scheduler reads. -/
structure JobRequest (AgentId : Type) where
  requirements : Option Requirements
  preferences : Option (Preferences AgentId)
  queuePolicy : Option QueuePolicy
  riskLevel : RiskLevel
  shell : Option String
  secretRefs : Option (List (String × String))
  deriving DecidableEq

structure HostLoadSnapshot where
  cpuBusyFraction : ℚ
  capacityScore : ℚ
  runningJobs : Nat
  deriving DecidableEq

structure LocalHostExecutionCapability where
  os : OsFamily
  shells : List String
  deriving DecidableEq

structure ExpectedBuildCacheKey where
  kind : BuildCacheKind
  key : String
  deriving DecidableEq

structure SchedulerOptions (AgentId : Type) where
  allowLocalFallback : Option Bool
  localHostExecution : Option LocalHostExecutionCapability
  repoCanonicalId : Option String
  baseCommit : Option String
  buildCacheKeys : Option (List ExpectedBuildCacheKey)
  buildCacheProjectIdentity : Option String
  estimatedTransferBytes : Option ℚ
  recentFailurePenalties : List (AgentId × ℚ)
  registeredAgentCount : Option Nat
  hostLoad : Option HostLoadSnapshot
  maxHostCpuBusyFraction : Option ℚ
  deriving DecidableEq

/-- What a build-cache key is computed from. -/
structure BuildCacheKeyInput where
  kind : BuildCacheKind
  toolchainProfileId : String
  toolchainFingerprint : String
  osFamily : OsFamily
  arch : String
  projectIdentity : String
  deriving DecidableEq

/-- What the runtime and other modules compute for the scheduler. -/
structure Platform (AgentId : Type) where
  toLowerCase : String → String
  trim : String → String
  localeCompare : AgentId → AgentId → Ordering
  matchesVersionSpec : String → String → Bool
  computeBuildCacheKey : BuildCacheKeyInput → String

variable {AgentId : Type} [DecidableEq AgentId]
  (platform : Platform AgentId)

/-! ## Hard filters -/

/-- `matchesOs` and `matchesArch`: no wish, or one of the wishes. -/
def matchesName (wished : Option (List String)) (actual : String) : Bool :=
  match wished with
  | none => true
  | some [] => true
  | some names =>
    actual ≠ "" &&
      names.any fun name =>
        platform.toLowerCase name = platform.toLowerCase actual

def matchesOs (requestOs : Option (List String)) (agentOs : OsFamily) :
    Bool :=
  matchesName platform requestOs agentOs.text

def matchesArch (requestArch : Option (List String)) (agentArch : String) :
    Bool :=
  matchesName platform requestArch agentArch

def matchesLabels (requestLabels : Option (List (String × String)))
    (agentLabels : List (String × String)) : Bool :=
  (requestLabels.getD []).all fun label =>
    agentLabels.lookup label.1 = some label.2

def matchesSecretRefs (requestRefs agentRefs : List String) : Bool :=
  requestRefs.all fun ref => ref ∈ agentRefs

/-- The end of a name that `/\.exe$/i` removes. -/
def isExeSuffix (characters : List Char) : Bool :=
  characters.map Char.toLower = ['.', 'e', 'x', 'e']

def normalizedShell (shell : String) : String :=
  let characters := shell.toList
  let kept := characters.length - 4
  platform.toLowerCase
    (if isExeSuffix (characters.drop kept) then
      String.ofList (characters.take kept)
    else shell)

/-- The shell that a request needs. -/
def requiredShell (request : JobRequest AgentId) : String :=
  normalizedShell platform (request.shell.getD "bash")

def agentHasRequiredShell (agent : SchedulerAgent AgentId)
    (shell : String) : Bool :=
  agent.capabilities.shells.any fun own =>
    normalizedShell platform own = shell

def agentIsAtCapacity (agent : SchedulerAgent AgentId) : Bool :=
  agent.capabilities.maxJobs ≤ 0 ∨
    agent.capabilities.maxJobs ≤ agent.activeJobsCount

def localHostCanExecute (request : JobRequest AgentId)
    (localHost : LocalHostExecutionCapability) : Bool :=
  matchesOs platform (request.requirements.bind Requirements.os)
      localHost.os &&
    localHost.shells.any fun shell =>
      normalizedShell platform shell = requiredShell platform request

/-- `reqs.min_memory_mb && free < reqs.min_memory_mb`. -/
def below (least : Option ℚ) (free : ℚ) : Bool :=
  ∃ wished ∈ least, wished ≠ 0 ∧ free < wished

/-! ## Tools -/

/-- `PROBE_TOOL_NAMES`. -/
def isProbeTool (name : String) : Bool :=
  platform.toLowerCase name ∈ ["git", "git-lfs"]

/-- The first profile that serves a requested tool. -/
def profileFor (tool : String × String)
    (agentProfiles : List ToolchainProfile) : Option ToolchainProfile :=
  agentProfiles.find? fun profile =>
    (platform.toLowerCase profile.kind = platform.toLowerCase tool.1 ∨
        platform.toLowerCase profile.id = platform.toLowerCase tool.1) ∧
      platform.matchesVersionSpec profile.version tool.2

/-- One profile for each requested tool, or nothing. -/
def matchToolchainProfiles (requestedTools : List (String × String))
    (agentProfiles : List ToolchainProfile) :
    Option (List ToolchainProfile) :=
  requestedTools.mapM fun tool => profileFor platform tool agentProfiles

def matchProbeTools (requestedTools : List (String × String))
    (agentTools : List (String × List String)) : Bool :=
  requestedTools.all fun tool =>
    let key :=
      ((agentTools.map Prod.fst).find? fun candidate =>
        platform.toLowerCase candidate =
          platform.toLowerCase tool.1).getD tool.1
    ((agentTools.lookup key).getD []).any fun version =>
      platform.matchesVersionSpec version tool.2

/-- The profiles of an agent for the requested tools, when it has them all. -/
def matchJobToolRequirements
    (requestedTools : Option (List (String × String)))
    (caps : AgentCapabilityReport) : Option (List ToolchainProfile) :=
  let tools := requestedTools.getD []
  match matchToolchainProfiles platform
      (tools.filter fun tool => ¬ isProbeTool platform tool.1)
      caps.toolchainProfiles with
  | none => none
  | some profiles =>
    if matchProbeTools platform
        (tools.filter fun tool => isProbeTool platform tool.1)
        caps.tools then
      some profiles
    else
      none

/-! ## The score -/

def defaultConfiguredPriorityForOs : OsFamily → ℚ
  | .macos => 20
  | .linux => 15
  | .windows => 10

def resolveConfiguredPriority (caps : AgentCapabilityReport) : ℚ :=
  caps.configuredPriority.getD (defaultConfiguredPriorityForOs caps.osFamily)

def resolveCpuLoadForScoring (caps : AgentCapabilityReport) : ℚ :=
  match caps.cpuLoad with
  | none => 1
  | some load => min 1 (max 0 load)

def mibBytes : ℚ := 1024 * 1024

def computeEstimatedTransferMb (knownTransferBytes : Option ℚ) : ℚ :=
  match knownTransferBytes with
  | none => 0
  | some bytes => if bytes ≤ 0 then 0 else (⌈bytes / mibBytes⌉ : ℚ)

/-- A text that is there and not empty. -/
def truthy (text : Option String) : Option String :=
  text.filter fun value => value ≠ ""

/-- The units that a place in an ordered wish list is worth. -/
def placeUnits {Name : Type} [DecidableEq Name]
    (wishes : Option (List Name)) (name : Name) : ℚ :=
  match wishes with
  | none => 0
  | some names => ((names.length - names.idxOf name : Nat) : ℚ)

/-- The first entry of the repository decides. -/
def agentHasRepoCacheHit (caps : AgentCapabilityReport)
    (repoCanonicalId : String) (baseCommit : Option String) : Bool :=
  match (caps.repositoryCache.getD []).find? fun entry =>
      entry.canonicalId = repoCanonicalId with
  | none => false
  | some entry =>
    match truthy baseCommit with
    | none => true
    | some commit =>
      entry.commits.getD [] = [] || commit ∈ entry.commits.getD []

def agentHasBuildCacheHit (caps : AgentCapabilityReport)
    (expected : List ExpectedBuildCacheKey) : Bool :=
  expected.any fun want =>
    match (caps.buildCaches.getD []).find? fun entry =>
        entry.kind = want.kind with
    | none => false
    | some entry => want.key ∈ entry.keys.getD []

/-- `TOOL_NAME_TO_BUILD_CACHE_KIND`. -/
def buildCacheKindOf : String → Option BuildCacheKind
  | "ccache" => some .ccache
  | "sccache" => some .sccache
  | "npm" => some .npm
  | "pnpm" => some .pnpm
  | "pip" => some .pip
  | _ => none

/-- `TOOLCHAIN_REQUIRED_KINDS`. -/
def needsToolchain (kind : BuildCacheKind) : Bool :=
  kind = .ccache ∨ kind = .sccache

def computeExpectedBuildCacheKeysForAgent (caps : AgentCapabilityReport)
    (selectedToolchains : List ToolchainProfile) (projectIdentity : String)
    (requiredTools : Option (List (String × String))) :
    List ExpectedBuildCacheKey :=
  let kinds : List BuildCacheKind :=
    match requiredTools.getD [] with
    | [] => [.ccache, .sccache, .npm, .pnpm, .pip]
    | tools =>
      (tools.filterMap fun tool =>
        buildCacheKindOf (platform.toLowerCase tool.1)).eraseDups
  let primary := selectedToolchains.head?
  (kinds.filter fun kind => ¬ (needsToolchain kind ∧ primary = none)).map
    fun kind =>
      { kind := kind
        key :=
          platform.computeBuildCacheKey
            { kind := kind
              toolchainProfileId :=
                (primary.map ToolchainProfile.id).getD "none"
              toolchainFingerprint :=
                (primary.map ToolchainProfile.environmentFingerprint).getD
                  "none"
              osFamily := caps.osFamily
              arch := caps.arch
              projectIdentity := projectIdentity } }

/-- The build-cache identities that a job expects of an agent. -/
def expectedBuildCacheKeys (caps : AgentCapabilityReport)
    (selectedToolchains : List ToolchainProfile)
    (requirements : Requirements) (options : SchedulerOptions AgentId) :
    List ExpectedBuildCacheKey :=
  match options.buildCacheKeys.getD [] with
  | [] =>
    match truthy options.buildCacheProjectIdentity with
    | none => []
    | some identity =>
      computeExpectedBuildCacheKeysForAgent platform caps
        selectedToolchains identity requirements.tools
  | keys => keys

def computeAgentSchedulerScore (candidate : SchedulerAgent AgentId)
    (recentFailurePenalty : ℚ) (request : JobRequest AgentId)
    (options : SchedulerOptions AgentId)
    (selectedToolchains : List ToolchainProfile) : ℚ :=
  let caps := candidate.capabilities
  let prefs := request.preferences.getD (Preferences.default AgentId)
  let reqs := request.requirements.getD Requirements.none
  let repositoryHit : Bool :=
    prefs.preferRepoCache &&
      match truthy options.repoCanonicalId with
      | none => false
      | some id => agentHasRepoCacheHit caps id options.baseCommit
  let buildHit : Bool :=
    prefs.preferBuildCache &&
      agentHasBuildCacheHit caps
        (expectedBuildCacheKeys platform caps selectedToolchains reqs options)
  resolveConfiguredPriority caps * 1000 +
    placeUnits prefs.agentIds candidate.agentId * 100 +
    placeUnits prefs.osOrder caps.osFamily.text * 10 +
    (if repositoryHit then 500 else 0) +
    (if reqs.tools.getD [] ≠ [] then 200 else 0) -
    candidate.activeJobsCount * 300 -
    resolveCpuLoadForScoring caps * 100 -
    computeEstimatedTransferMb options.estimatedTransferBytes -
    recentFailurePenalty +
    (if buildHit then 250 else 0)

/-! ## Diagnostics -/

def maxDiagnosticFieldBytes : Nat := 16
def maxDiagnosticTargetOs : Nat := 3

/-- The longest start of a text, in characters, of a number of bytes. -/
def truncateCharacters : Nat → List Char → List Char
  | _, [] => []
  | room, character :: rest =>
    if room < character.utf8Size then []
    else
      character ::
        truncateCharacters (room - character.utf8Size) rest

def truncateDiagnosticText (value : String) : String :=
  String.ofList (truncateCharacters maxDiagnosticFieldBytes value.toList)

def normalizedTargetOs (requestOs : Option (List String)) :
    Option (List String) :=
  match requestOs with
  | none => none
  | some [] => none
  | some names =>
    some
      ((((names.map fun name =>
            platform.toLowerCase (platform.trim name)).filter fun name =>
          name ≠ "").eraseDups.take maxDiagnosticTargetOs).map
        truncateDiagnosticText)

structure NoMatchingAgentDiagnostic where
  requiredShell : String
  targetOs : Option (List String)
  hint : String
  deriving DecidableEq

def noMatchingAgentHint (request : JobRequest AgentId)
    (waitingHint failHint : String) : String :=
  if request.queuePolicy = some .wait then waitingHint else failHint

def waitingResumeHint : String :=
  "Queued until a matching Agent is online; call job_run again with this " ++
    "job_id."

def describeNoMatchingAgent (agents : List (SchedulerAgent AgentId))
    (request : JobRequest AgentId) (registeredAgentCount : Option Nat) :
    NoMatchingAgentDiagnostic :=
  let requestedOs := request.requirements.bind Requirements.os
  let targetOs := normalizedTargetOs platform requestedOs
  let shell := requiredShell platform request
  let diagnosticShell := truncateDiagnosticText shell
  let targetLabel :=
    match targetOs with
    | none => "the requested target OS"
    | some names => " or ".intercalate names
  let osMatches :=
    agents.filter fun agent =>
      matchesOs platform requestedOs agent.capabilities.osFamily
  let shellMatches :=
    osMatches.filter fun agent => agentHasRequiredShell platform agent shell
  { requiredShell := diagnosticShell
    targetOs := targetOs
    hint :=
      if agents = [] then
        noMatchingAgentHint request waitingResumeHint
          (if 0 < registeredAgentCount.getD 0 then
            "No registered Agent is online. Reconnect an Agent or use " ++
              "queue_policy=\"wait\"."
          else
            "No online Agent is available. Connect an Agent or use " ++
              "queue_policy=\"wait\".")
      else if requestedOs.getD [] ≠ [] ∧ osMatches = [] then
        noMatchingAgentHint request
          ("Queued until an Agent matching target_os " ++ targetLabel ++
            " is online; call job_run again with this job_id.")
          ("No online Agent matches target_os " ++ targetLabel ++
            ". Choose target_os and shell supported by the same Agent.")
      else if shellMatches = [] then
        noMatchingAgentHint request
          ("Queued until an Agent provides " ++ diagnosticShell ++ " on " ++
            targetLabel ++ "; call job_run again with this job_id.")
          ("No online Agent provides " ++ diagnosticShell ++ " on " ++
            targetLabel ++
            ". Specify shell and target_os supported by the same Agent.")
      else if shellMatches.all agentIsAtCapacity then
        noMatchingAgentHint request
          ("Queued until a matching Agent has capacity; call job_run again " ++
            "with this job_id.")
          ("All online Agents matching shell and target_os are at " ++
            "capacity. Use queue_policy=\"wait\" or retry when capacity is " ++
            "available.")
      else
        noMatchingAgentHint request waitingResumeHint
          "No online Agent satisfies the requested execution requirements." }

/-! ## Local fallback -/

def defaultMaxHostCpuBusyFraction : ℚ := 8 / 10
def maxEffectiveHostCpuBusyFraction : ℚ := 97 / 100
def defaultReferenceCapacityScore : ℚ := 8 * 3000

def computeEffectiveMaxHostCpuBusyFraction (capacityScore baseMaxFraction
    referenceCapacityScore : ℚ) : ℚ :=
  if referenceCapacityScore ≤ 0 ∨ capacityScore ≤ referenceCapacityScore then
    baseMaxFraction
  else
    min maxEffectiveHostCpuBusyFraction
      (baseMaxFraction * (capacityScore / referenceCapacityScore))

inductive LocalFallbackDecision where
  | eligible
  | ineligible
  | hostBusy
  deriving DecidableEq

/--
May a job run on the Controller's host now?  A host over its threshold may
still be the least loaded of everything there is.
-/
def decideLocalFallback (allowLocalFallback : Bool) (riskLevel : RiskLevel)
    (host : HostLoadSnapshot) (maxHostCpuBusyFraction : ℚ)
    (busyAgentRunningJobs : List Nat) : LocalFallbackDecision :=
  if ¬ allowLocalFallback ∨ riskLevel = .destructive ∨
      riskLevel = .hardware then
    .ineligible
  else if host.cpuBusyFraction <
      computeEffectiveMaxHostCpuBusyFraction host.capacityScore
        maxHostCpuBusyFraction defaultReferenceCapacityScore then
    .eligible
  else if ∀ other ∈ busyAgentRunningJobs.min?, host.runningJobs ≤ other then
    .eligible
  else
    .hostBusy

/-! ## The decision -/

inductive Action where
  | remote
  | wait
  | failFast
  | localFallback
  deriving DecidableEq

inductive DecisionReason where
  | noEligibleAgent
  | hostBusy
  deriving DecidableEq

structure SchedulingDecision (AgentId : Type) where
  action : Action
  selectedAgent : Option (SchedulerAgent AgentId) := none
  selectedToolchains : Option (List ToolchainProfile) := none
  reason : Option DecisionReason := none
  noMatchDiagnostic : Option NoMatchingAgentDiagnostic := none
  deriving DecidableEq

structure EligibleCandidate (AgentId : Type) where
  agent : SchedulerAgent AgentId
  toolchains : List ToolchainProfile
  score : ℚ
  deriving DecidableEq

/-- The names of the secrets that a job needs. -/
def requiredSecrets (request : JobRequest AgentId) : List String :=
  (request.requirements.bind Requirements.secretRefs).getD [] ++
    (request.secretRefs.getD []).map Prod.snd

/-- Does an agent with a free slot pass the filters before the tools? -/
def passesFilters (request : JobRequest AgentId)
    (candidate : SchedulerAgent AgentId) : Bool :=
  let reqs := request.requirements.getD Requirements.none
  let caps := candidate.capabilities
  ¬ agentIsAtCapacity candidate ∧
    matchesOs platform reqs.os caps.osFamily ∧
    matchesArch platform reqs.arch caps.arch ∧
    matchesLabels reqs.labels caps.labels ∧
    ¬ below reqs.minMemoryMb caps.memoryFreeMb ∧
    ¬ below reqs.minDiskMb caps.diskFreeMb ∧
    agentHasRequiredShell platform candidate
      (requiredShell platform request) ∧
    matchesSecretRefs (requiredSecrets request) caps.secretRefs

/-- The recent failures of an agent, as the dispatch knows them. -/
def failurePenaltyOf (candidate : SchedulerAgent AgentId)
    (options : SchedulerOptions AgentId) : ℚ :=
  (candidate.recentFailurePenalty.or
    (options.recentFailurePenalties.lookup candidate.agentId)).getD 0

/-- The candidate that an agent is, when it passes every hard filter. -/
def eligibleCandidate (request : JobRequest AgentId)
    (options : SchedulerOptions AgentId)
    (candidate : SchedulerAgent AgentId) :
    Option (EligibleCandidate AgentId) :=
  if passesFilters platform request candidate then
    (matchJobToolRequirements platform
        (request.requirements.bind Requirements.tools)
        candidate.capabilities).map
      fun toolchains =>
        { agent := candidate
          toolchains := toolchains
          score :=
            computeAgentSchedulerScore platform candidate
              (failurePenaltyOf candidate options) request options
              toolchains }
  else
    none

/-- The running jobs of the agents that have slots but none free. -/
def busyAgentRunningJobs (agents : List (SchedulerAgent AgentId)) :
    List Nat :=
  (agents.filter fun agent =>
      agentIsAtCapacity agent ∧ 0 < agent.capabilities.maxJobs).map
    SchedulerAgent.activeJobsCount

/-- The order of the candidates: by score, and by name among equals. -/
def precedes (first second : EligibleCandidate AgentId) : Prop :=
  second.score < first.score ∨
    second.score = first.score ∧
      platform.localeCompare first.agent.agentId second.agent.agentId ≠ .gt

instance (first second : EligibleCandidate AgentId) :
    Decidable (precedes platform first second) :=
  inferInstanceAs (Decidable (_ ∨ _ ∧ _))

def selectAgentForJob (agents : List (SchedulerAgent AgentId))
    (request : JobRequest AgentId) (options : SchedulerOptions AgentId) :
    SchedulingDecision AgentId :=
  let prefs := request.preferences.getD (Preferences.default AgentId)
  let candidates :=
    (agents.filterMap
      (eligibleCandidate platform request options)).insertionSort
      (precedes platform)
  match candidates with
  | chosen :: _ =>
    { action := .remote
      selectedAgent := some chosen.agent
      selectedToolchains :=
        if chosen.toolchains = [] then none else some chosen.toolchains }
  | [] =>
    let diagnostic :=
      describeNoMatchingAgent platform agents request
        options.registeredAgentCount
    let refused (action : Action) : SchedulingDecision AgentId :=
      { action := action
        reason := some .noEligibleAgent
        noMatchDiagnostic := some diagnostic }
    match request.queuePolicy.getD .localFallback with
    | .wait => refused .wait
    | .failFast => refused .failFast
    | .localFallback =>
      let allowLocalFallback :=
        prefs.allowLocalFallback && options.allowLocalFallback.getD true
      if ∃ host ∈ options.localHostExecution,
          ¬ localHostCanExecute platform request host then
        refused .failFast
      else
        match options.hostLoad with
        | some host =>
          match decideLocalFallback allowLocalFallback
              request.riskLevel host
              (options.maxHostCpuBusyFraction.getD
                defaultMaxHostCpuBusyFraction)
              (busyAgentRunningJobs agents) with
          | .eligible => { action := .localFallback }
          | .hostBusy => { action := .wait, reason := some .hostBusy }
          | .ineligible => refused .failFast
        | none =>
          if allowLocalFallback ∧ request.riskLevel ≠ .destructive ∧
              request.riskLevel ≠ .hardware then
            { action := .localFallback }
          else
            refused .failFast

/-! ## Risky jobs -/

theorem isDestructiveRisk_iff {level : RiskLevel} :
    isDestructiveRisk level = true ↔
      level = .destructive ∨ level = .hardware := by
  cases level <;> decide

/-- The load of the host never makes it eligible for a risky job. -/
theorem decideLocalFallback_risky {level : RiskLevel}
    (risky : isDestructiveRisk level = true) (allowLocalFallback : Bool)
    (host : HostLoadSnapshot) (maxHostCpuBusyFraction : ℚ)
    (busyAgentRunningJobs : List Nat) :
    decideLocalFallback allowLocalFallback level host maxHostCpuBusyFraction
      busyAgentRunningJobs = .ineligible := by
  unfold decideLocalFallback
  apply if_pos
  exact Or.inr (isDestructiveRisk_iff.mp risky)

/-- No list of agents and no options send a risky job to the host. -/
theorem selectAgentForJob_risky {request : JobRequest AgentId}
    (risky : isDestructiveRisk request.riskLevel = true)
    (agents : List (SchedulerAgent AgentId))
    (options : SchedulerOptions AgentId) :
    (selectAgentForJob platform agents request options).action ≠
      .localFallback := by
  unfold selectAgentForJob
  dsimp only
  split
  · intro same
    cases same
  · split
    · intro same
      cases same
    · intro same
      cases same
    · split
      · intro same
        cases same
      · split
        · rw [decideLocalFallback_risky risky]
          intro same
          cases same
        · rw [if_neg]
          · intro same
            cases same
          · rintro ⟨_, notDestructive, notHardware⟩
            rcases isDestructiveRisk_iff.mp risky with level | level
            · exact notDestructive level
            · exact notHardware level

/-! ## Requirements of the sources -/

/-- What the captured sources need of an agent. -/
structure GitSourceRequirements where
  submodules : Bool
  lfs : Bool
  deriving DecidableEq

/-- A tool that is requested with any version, unless it already is. -/
def requireTool (name : String) (tools : List (String × String)) :
    List (String × String) :=
  if (tools.lookup name).isSome then tools else tools ++ [(name, ">=0")]

def mergeGitSourceToolRequirements (request : JobRequest AgentId)
    (sources : GitSourceRequirements) : JobRequest AgentId :=
  let requested :=
    (request.requirements.bind Requirements.tools).getD []
  let withGit :=
    if sources.submodules then requireTool "git" requested else requested
  let tools :=
    if sources.lfs then requireTool "git-lfs" withGit else withGit
  if tools = [] then request
  else
    { request with
      requirements :=
        some
          { request.requirements.getD Requirements.none with
            tools := some tools } }

omit [DecidableEq AgentId] in
@[simp]
theorem mergeGitSourceToolRequirements_riskLevel
    (request : JobRequest AgentId) (sources : GitSourceRequirements) :
    (mergeGitSourceToolRequirements request sources).riskLevel =
      request.riskLevel := by
  unfold mergeGitSourceToolRequirements
  dsimp only
  rw [apply_ite JobRequest.riskLevel, ite_self]

end Rbo.Controller.Scheduler
