import Rbo.Controller.Scheduler

/-!
# What the choice of an agent promises

An agent satisfies a request when it has a free slot and suits the request.
`selectAgentForJob` names the agent with the highest score among those that
satisfy the request, the first by name among equals, whatever the order in
which the agents are listed.

The names of agents are generated, so that two of them never compare as
equal.
-/

namespace Rbo.Controller.AgentChoice

open Rbo.Controller.Scheduler

variable {AgentId : Type} [DecidableEq AgentId]
  (platform : Platform AgentId)

/-! ## What a request asks for -/

/-- The key under which an agent reports a probed tool. -/
def probeKey (tools : List (String × List String)) (name : String) : String :=
  ((tools.map Prod.fst).find? fun candidate =>
    platform.toLowerCase candidate = platform.toLowerCase name).getD name

/-- The agent serves the request, apart from its free slots. -/
structure Suits (request : JobRequest AgentId)
    (agent : SchedulerAgent AgentId) : Prop where
  os : ∀ names ∈ request.requirements.bind Requirements.os, names ≠ [] →
    ∃ name ∈ names, platform.toLowerCase name =
      platform.toLowerCase agent.capabilities.osFamily.text
  arch : ∀ names ∈ request.requirements.bind Requirements.arch, names ≠ [] →
    agent.capabilities.arch ≠ "" ∧
      ∃ name ∈ names, platform.toLowerCase name =
        platform.toLowerCase agent.capabilities.arch
  labels : ∀ label ∈
      (request.requirements.bind Requirements.labels).getD [],
    agent.capabilities.labels.lookup label.1 = some label.2
  memory : ∀ least ∈ request.requirements.bind Requirements.minMemoryMb,
    least ≠ 0 → least ≤ agent.capabilities.memoryFreeMb
  disk : ∀ least ∈ request.requirements.bind Requirements.minDiskMb,
    least ≠ 0 → least ≤ agent.capabilities.diskFreeMb
  shell : ∃ own ∈ agent.capabilities.shells,
    normalizedShell platform own = requiredShell platform request
  secrets : ∀ ref ∈ requiredSecrets request,
    ref ∈ agent.capabilities.secretRefs
  toolchains : ∀ tool ∈ (request.requirements.bind Requirements.tools).getD [],
    isProbeTool platform tool.1 = false →
      ∃ profile ∈ agent.capabilities.toolchainProfiles,
        (platform.toLowerCase profile.kind = platform.toLowerCase tool.1 ∨
          platform.toLowerCase profile.id = platform.toLowerCase tool.1) ∧
        platform.matchesVersionSpec profile.version tool.2 = true
  probes : ∀ tool ∈ (request.requirements.bind Requirements.tools).getD [],
    isProbeTool platform tool.1 = true →
      ∃ versions, agent.capabilities.tools.lookup
          (probeKey platform agent.capabilities.tools tool.1) =
            some versions ∧
        ∃ version ∈ versions,
          platform.matchesVersionSpec version tool.2 = true

/-- The agent may run one more job. -/
def HasSlot (agent : SchedulerAgent AgentId) : Prop :=
  0 < agent.capabilities.maxJobs ∧
    (agent.activeJobsCount : ℚ) < agent.capabilities.maxJobs

/-- The agent satisfies every hard filter. -/
def Satisfies (request : JobRequest AgentId)
    (agent : SchedulerAgent AgentId) : Prop :=
  HasSlot agent ∧ Suits platform request agent

/-- The score of an agent that satisfies a request. -/
def agentScore (request : JobRequest AgentId)
    (options : SchedulerOptions AgentId) (agent : SchedulerAgent AgentId) :
    ℚ :=
  computeAgentSchedulerScore platform agent (failurePenaltyOf agent options)
    request options
    ((matchJobToolRequirements platform
      (request.requirements.bind Requirements.tools)
      agent.capabilities).getD [])

/-- Of the agents that satisfy a request, the one with the highest score, and
the first of these by name. -/
def Best (request : JobRequest AgentId) (options : SchedulerOptions AgentId)
    (agents : List (SchedulerAgent AgentId))
    (chosen : SchedulerAgent AgentId) : Prop :=
  chosen ∈ agents ∧ Satisfies platform request chosen ∧
    ∀ other ∈ agents, Satisfies platform request other →
      agentScore platform request options other <
          agentScore platform request options chosen ∨
        agentScore platform request options other =
            agentScore platform request options chosen ∧
          platform.localeCompare chosen.agentId other.agentId ≠ .gt

section Filters

variable {platform} {request : JobRequest AgentId}
  {agent : SchedulerAgent AgentId}

omit [DecidableEq AgentId] in
theorem hasSlot_iff : HasSlot agent ↔ agentIsAtCapacity agent = false := by
  unfold HasSlot agentIsAtCapacity
  rw [decide_eq_false_iff_not, not_or, not_le, not_le]

omit [DecidableEq AgentId] in
theorem matchesName_iff {wished : Option (List String)} {actual : String} :
    matchesName platform wished actual = true ↔
      ∀ names ∈ wished, names ≠ [] → actual ≠ "" ∧
        ∃ name ∈ names,
          platform.toLowerCase name = platform.toLowerCase actual := by
  cases wished with
  | none => simp [matchesName]
  | some names =>
    cases names with
    | nil => simp [matchesName]
    | cons name names =>
      simp only [matchesName, Option.mem_def, Option.some.injEq,
        forall_eq', ne_eq, reduceCtorEq, not_false_eq_true,
        forall_true_left, Bool.and_eq_true, decide_eq_true_eq,
        List.any_eq_true]

theorem OsFamily.text_ne_empty (family : OsFamily) : family.text ≠ "" := by
  cases family <;> decide

omit [DecidableEq AgentId] in
theorem below_iff {least : Option ℚ} {free : ℚ} :
    below least free = false ↔
      ∀ wished ∈ least, wished ≠ 0 → wished ≤ free := by
  unfold below
  rw [decide_eq_false_iff_not]
  constructor
  · intro enough wished member nonzero
    exact not_lt.mp fun less => enough ⟨wished, member, nonzero, less⟩
  · rintro enough ⟨wished, member, nonzero, less⟩
    exact absurd less (not_lt.mpr (enough wished member nonzero))

/-- A list is mapped when each of its items is. -/
theorem isSome_mapM {Item Answer : Type} {f : Item → Option Answer}
    {items : List Item} :
    (items.mapM f).isSome = true ↔ ∀ item ∈ items, (f item).isSome := by
  induction items with
  | nil => simp
  | cons item items inductionHypothesis =>
    rw [List.mapM_cons, List.forall_mem_cons, ← inductionHypothesis]
    cases f item with
    | none => simp
    | some answer =>
      cases items.mapM f <;> simp

omit [DecidableEq AgentId] in
theorem isSome_matchJobToolRequirements_iff
    {tools : Option (List (String × String))}
    {caps : AgentCapabilityReport} :
    (matchJobToolRequirements platform tools caps).isSome = true ↔
      (∀ tool ∈ tools.getD [], isProbeTool platform tool.1 = false →
        ∃ profile ∈ caps.toolchainProfiles,
          (platform.toLowerCase profile.kind = platform.toLowerCase tool.1 ∨
            platform.toLowerCase profile.id = platform.toLowerCase tool.1) ∧
          platform.matchesVersionSpec profile.version tool.2 = true) ∧
      ∀ tool ∈ tools.getD [], isProbeTool platform tool.1 = true →
        ∃ versions, caps.tools.lookup
            (probeKey platform caps.tools tool.1) = some versions ∧
          ∃ version ∈ versions,
            platform.matchesVersionSpec version tool.2 = true := by
  have chains : (matchToolchainProfiles platform
      ((tools.getD []).filter fun tool => ¬ isProbeTool platform tool.1)
      caps.toolchainProfiles).isSome = true ↔
      ∀ tool ∈ tools.getD [], isProbeTool platform tool.1 = false →
        (profileFor platform tool caps.toolchainProfiles).isSome := by
    unfold matchToolchainProfiles
    rw [isSome_mapM]
    simp only [List.mem_filter, Bool.not_eq_true, decide_eq_true_eq, and_imp]
  have probes : matchProbeTools platform
      ((tools.getD []).filter fun tool => isProbeTool platform tool.1)
      caps.tools = true ↔
      ∀ tool ∈ tools.getD [], isProbeTool platform tool.1 = true →
        ((caps.tools.lookup (probeKey platform caps.tools tool.1)).getD
          []).any (fun version =>
            platform.matchesVersionSpec version tool.2) = true := by
    unfold matchProbeTools probeKey
    rw [List.all_eq_true]
    simp only [List.mem_filter, and_imp]
  have both : (matchJobToolRequirements platform tools caps).isSome = true ↔
      (matchToolchainProfiles platform
          ((tools.getD []).filter fun tool => ¬ isProbeTool platform tool.1)
          caps.toolchainProfiles).isSome = true ∧
        matchProbeTools platform
          ((tools.getD []).filter fun tool => isProbeTool platform tool.1)
          caps.tools = true := by
    unfold matchJobToolRequirements
    dsimp only
    split
    · rename_i none
      rw [none]
      simp
    · rename_i profiles found
      rw [found]
      split
      · rename_i probed
        simp [probed]
      · rename_i unprobed
        simp [unprobed]
  rw [both, chains, probes]
  refine and_congr ?_ ?_
  · simp only [profileFor, List.find?_isSome, decide_eq_true_eq]
  · refine forall₃_congr fun tool _ _ => ?_
    cases caps.tools.lookup (probeKey platform caps.tools tool.1) with
    | none => simp
    | some versions => simp

omit [DecidableEq AgentId] in
/-- A field of the requirements, which may be missing as a whole. -/
theorem requirement_eq {Value : Type} (request : JobRequest AgentId)
    (field : Requirements → Option Value) (empty : field Requirements.none = none) :
    field (request.requirements.getD Requirements.none) =
      request.requirements.bind field := by
  cases request.requirements with
  | none => exact empty
  | some requirements => rfl

omit [DecidableEq AgentId] in
theorem passesFilters_iff :
    passesFilters platform request agent = true ↔
      HasSlot agent ∧
        matchesOs platform (request.requirements.bind Requirements.os)
          agent.capabilities.osFamily = true ∧
        matchesArch platform (request.requirements.bind Requirements.arch)
          agent.capabilities.arch = true ∧
        matchesLabels (request.requirements.bind Requirements.labels)
          agent.capabilities.labels = true ∧
        below (request.requirements.bind Requirements.minMemoryMb)
          agent.capabilities.memoryFreeMb = false ∧
        below (request.requirements.bind Requirements.minDiskMb)
          agent.capabilities.diskFreeMb = false ∧
        agentHasRequiredShell platform agent
          (requiredShell platform request) = true ∧
        matchesSecretRefs (requiredSecrets request)
          agent.capabilities.secretRefs = true := by
  unfold passesFilters
  dsimp only
  rw [requirement_eq request Requirements.os rfl,
    requirement_eq request Requirements.arch rfl,
    requirement_eq request Requirements.labels rfl,
    requirement_eq request Requirements.minMemoryMb rfl,
    requirement_eq request Requirements.minDiskMb rfl,
    decide_eq_true_eq, hasSlot_iff,
    Bool.not_eq_true, Bool.not_eq_true, Bool.not_eq_true]

/-- The candidates are the agents that satisfy the request. -/
theorem isSome_eligibleCandidate_iff {options : SchedulerOptions AgentId} :
    (eligibleCandidate platform request options agent).isSome = true ↔
      Satisfies platform request agent := by
  have eligible : (eligibleCandidate platform request options
      agent).isSome = true ↔
      passesFilters platform request agent = true ∧
        (matchJobToolRequirements platform
          (request.requirements.bind Requirements.tools)
          agent.capabilities).isSome = true := by
    unfold eligibleCandidate
    split
    · rename_i passes
      rw [Option.isSome_map]
      exact (and_iff_right passes).symm
    · rename_i fails
      exact iff_of_false Bool.false_ne_true fun both => fails both.1
  rw [eligible, passesFilters_iff, isSome_matchJobToolRequirements_iff]
  unfold matchesOs matchesArch matchesLabels agentHasRequiredShell
    matchesSecretRefs
  rw [matchesName_iff, matchesName_iff, below_iff, below_iff,
    List.all_eq_true, List.any_eq_true, List.all_eq_true]
  simp only [decide_eq_true_eq]
  constructor
  · rintro ⟨⟨slot, os, arch, labels, memory, disk, shell, secrets⟩,
      toolchains, probes⟩
    exact ⟨slot,
      { os := fun names member wished => (os names member wished).2
        arch := arch
        labels := labels
        memory := memory
        disk := disk
        shell := shell
        secrets := secrets
        toolchains := toolchains
        probes := probes }⟩
  · rintro ⟨slot, suits⟩
    exact ⟨⟨slot,
        fun names member wished =>
          ⟨OsFamily.text_ne_empty _, suits.os names member wished⟩,
        suits.arch, suits.labels, suits.memory, suits.disk, suits.shell,
        suits.secrets⟩,
      suits.toolchains, suits.probes⟩

end Filters

/-! ## The ranking -/

/-- The candidates as `selectAgentForJob` sorts them. -/
def rankedCandidates (agents : List (SchedulerAgent AgentId))
    (request : JobRequest AgentId) (options : SchedulerOptions AgentId) :
    List (EligibleCandidate AgentId) :=
  (agents.filterMap (eligibleCandidate platform request options)).insertionSort
    (precedes platform)

section Ranking

variable {platform}

omit [DecidableEq AgentId] in
theorem precedes_total [Std.TransCmp platform.localeCompare]
    (first second : EligibleCandidate AgentId) :
    precedes platform first second ∨ precedes platform second first := by
  rcases lt_trichotomy first.score second.score with less | same | more
  · exact Or.inr (Or.inl less)
  · by_cases ordered : platform.localeCompare first.agent.agentId
        second.agent.agentId = .gt
    · refine Or.inr (Or.inr ⟨same, ?_⟩)
      rw [@Std.OrientedCmp.eq_swap _ platform.localeCompare _ _ _, ordered]
      decide
    · exact Or.inl (Or.inr ⟨same.symm, ordered⟩)
  · exact Or.inl (Or.inl more)

omit [DecidableEq AgentId] in
theorem precedes_trans [Std.TransCmp platform.localeCompare]
    {first second third : EligibleCandidate AgentId}
    (before : precedes platform first second)
    (after : precedes platform second third) :
    precedes platform first third := by
  rcases before with more | ⟨same, ordered⟩
  · rcases after with less | ⟨also, -⟩
    · exact Or.inl (less.trans more)
    · exact Or.inl (also ▸ more)
  · rcases after with less | ⟨also, later⟩
    · exact Or.inl (same ▸ less)
    · refine Or.inr ⟨also.trans same, ?_⟩
      exact Ordering.isLE_iff_ne_gt.mp (Std.TransCmp.isLE_trans
        (Ordering.isLE_iff_ne_gt.mpr ordered)
        (Ordering.isLE_iff_ne_gt.mpr later))

instance [Std.TransCmp platform.localeCompare] :
    Std.Total (precedes platform) :=
  ⟨precedes_total⟩

instance [Std.TransCmp platform.localeCompare] :
    IsTrans (EligibleCandidate AgentId) (precedes platform) :=
  ⟨fun _ _ _ => precedes_trans⟩

variable {request : JobRequest AgentId} {options : SchedulerOptions AgentId}
  {agents : List (SchedulerAgent AgentId)}
  {candidate : EligibleCandidate AgentId}

theorem mem_rankedCandidates :
    candidate ∈ rankedCandidates platform agents request options ↔
      ∃ agent ∈ agents,
        eligibleCandidate platform request options agent = some candidate := by
  unfold rankedCandidates
  rw [List.mem_insertionSort, List.mem_filterMap]

/-- What a candidate says of its agent. -/
theorem eligibleCandidate_eq_some {agent : SchedulerAgent AgentId}
    (eligible : eligibleCandidate platform request options agent =
      some candidate) :
    candidate.agent = agent ∧
      candidate.score = agentScore platform request options agent ∧
      candidate.toolchains = (matchJobToolRequirements platform
        (request.requirements.bind Requirements.tools)
        agent.capabilities).getD [] := by
  unfold eligibleCandidate at eligible
  obtain ⟨-, eligible⟩ := Option.ite_none_right_eq_some.mp eligible
  obtain ⟨toolchains, found, rfl⟩ := Option.map_eq_some_iff.mp eligible
  unfold agentScore
  rw [found]
  exact ⟨rfl, rfl, rfl⟩

theorem rankedCandidates_eq_nil :
    rankedCandidates platform agents request options = [] ↔
      ∀ agent ∈ agents, ¬ Satisfies platform request agent := by
  constructor
  · intro empty agent member satisfies
    obtain ⟨candidate, eligible⟩ := Option.isSome_iff_exists.mp
      ((@isSome_eligibleCandidate_iff _ _ _ _ _ options).mpr satisfies)
    have inside : candidate ∈ rankedCandidates platform agents request
        options :=
      mem_rankedCandidates.mpr ⟨agent, member, eligible⟩
    rw [empty] at inside
    cases inside
  · intro unsatisfied
    refine List.eq_nil_iff_forall_not_mem.mpr fun candidate inside => ?_
    obtain ⟨agent, member, eligible⟩ := mem_rankedCandidates.mp inside
    refine unsatisfied agent member
      ((@isSome_eligibleCandidate_iff _ _ _ _ _ options).mp ?_)
    rw [eligible]
    rfl

/-- The first candidate is the best one. -/
theorem best_of_rankedCandidates [Std.TransCmp platform.localeCompare]
    {rest : List (EligibleCandidate AgentId)}
    (ranked : rankedCandidates platform agents request options =
      candidate :: rest) :
    Best platform request options agents candidate.agent := by
  have sorted : (rankedCandidates platform agents request options).Pairwise
      (precedes platform) :=
    List.pairwise_insertionSort _ _
  rw [ranked, List.pairwise_cons] at sorted
  obtain ⟨agent, member, eligible⟩ := mem_rankedCandidates.mp
    (ranked ▸ List.mem_cons_self)
  obtain ⟨rfl, score, -⟩ := eligibleCandidate_eq_some eligible
  refine ⟨member, ?_, ?_⟩
  · refine (@isSome_eligibleCandidate_iff _ _ _ _ _ options).mp ?_
    rw [eligible]
    rfl
  · intro other otherMember satisfies
    obtain ⟨found, otherEligible⟩ := Option.isSome_iff_exists.mp
      ((@isSome_eligibleCandidate_iff _ _ _ _ _ options).mpr satisfies)
    obtain ⟨rfl, otherScore, -⟩ := eligibleCandidate_eq_some otherEligible
    have inside : found ∈ candidate :: rest :=
      ranked ▸ mem_rankedCandidates.mpr ⟨_, otherMember, otherEligible⟩
    rw [← score, ← otherScore]
    rcases List.mem_cons.mp inside with rfl | later
    · exact (precedes_total found found).elim id id
    · exact sorted.1 found later

end Ranking

/-! ## The decision -/

section Decision

variable {platform} {request : JobRequest AgentId}
  {options : SchedulerOptions AgentId}
  {agents : List (SchedulerAgent AgentId)}

theorem selectAgentForJob_of_cons {chosen : EligibleCandidate AgentId}
    {rest : List (EligibleCandidate AgentId)}
    (ranked : rankedCandidates platform agents request options =
      chosen :: rest) :
    selectAgentForJob platform agents request options =
      { action := .remote
        selectedAgent := some chosen.agent
        selectedToolchains :=
          if chosen.toolchains = [] then none
          else some chosen.toolchains } := by
  unfold rankedCandidates at ranked
  unfold selectAgentForJob
  dsimp only
  rw [ranked]

/-- What is done when no agent satisfies the request. -/
def fallbackAction (platform : Platform AgentId)
    (request : JobRequest AgentId) (options : SchedulerOptions AgentId)
    (busy : List Nat) : Action :=
  let prefs := request.preferences.getD (Preferences.default AgentId)
  let allowLocalFallback :=
    prefs.allowLocalFallback && options.allowLocalFallback.getD true
  match request.queuePolicy.getD .localFallback with
  | .wait => .wait
  | .failFast => .failFast
  | .localFallback =>
    if ∃ host ∈ options.localHostExecution,
        ¬ localHostCanExecute platform request host then
      .failFast
    else
      match options.hostLoad with
      | some host =>
        match decideLocalFallback allowLocalFallback request.riskLevel
            host
            (options.maxHostCpuBusyFraction.getD
              defaultMaxHostCpuBusyFraction) busy with
        | .eligible => .localFallback
        | .hostBusy => .wait
        | .ineligible => .failFast
      | none =>
        if allowLocalFallback ∧ request.riskLevel ≠ .destructive ∧
            request.riskLevel ≠ .hardware then
          .localFallback
        else
          .failFast

theorem selectAgentForJob_of_nil
    (ranked : rankedCandidates platform agents request options = []) :
    (selectAgentForJob platform agents request options).action =
        fallbackAction platform request options
          (busyAgentRunningJobs agents) ∧
      (selectAgentForJob platform agents request options).selectedAgent =
        none := by
  unfold rankedCandidates at ranked
  unfold selectAgentForJob fallbackAction
  dsimp only
  rw [ranked]
  dsimp only
  cases request.queuePolicy.getD .localFallback with
  | wait => exact ⟨rfl, rfl⟩
  | failFast => exact ⟨rfl, rfl⟩
  | localFallback =>
    cases options.hostLoad with
    | none =>
      dsimp only
      split_ifs <;> exact ⟨rfl, rfl⟩
    | some host =>
      dsimp only
      cases decideLocalFallback _ request.riskLevel host _ _ <;>
        split_ifs <;> exact ⟨rfl, rfl⟩

omit [DecidableEq AgentId] in
theorem fallbackAction_ne_remote (busy : List Nat) :
    fallbackAction platform request options busy ≠ .remote := by
  unfold fallbackAction
  dsimp only
  repeat' split
  all_goals decide

theorem action_of_nil
    (ranked : rankedCandidates platform agents request options = []) :
    (selectAgentForJob platform agents request options).action ≠ .remote := by
  rw [(selectAgentForJob_of_nil ranked).1]
  exact fallbackAction_ne_remote _

end Decision

/-! ## The order of the agents -/

section Order

variable {platform} {request : JobRequest AgentId}
  {options : SchedulerOptions AgentId}
  {agents listed : List (SchedulerAgent AgentId)}

/-- Candidates that precede each other are the same one. -/
theorem eq_of_precedes [Std.TransCmp platform.localeCompare]
    [Std.LawfulEqCmp platform.localeCompare]
    (distinct : (agents.map SchedulerAgent.agentId).Nodup)
    {first second : EligibleCandidate AgentId}
    (inFirst : first ∈ rankedCandidates platform agents request options)
    (inSecond : second ∈ rankedCandidates platform agents request options)
    (before : precedes platform first second)
    (after : precedes platform second first) : first = second := by
  obtain ⟨agent, member, eligible⟩ := mem_rankedCandidates.mp inFirst
  obtain ⟨other, otherMember, otherEligible⟩ :=
    mem_rankedCandidates.mp inSecond
  obtain ⟨isAgent, -⟩ := eligibleCandidate_eq_some eligible
  obtain ⟨isOther, -⟩ := eligibleCandidate_eq_some otherEligible
  have notGreater : platform.localeCompare agent.agentId other.agentId ≠ .gt ∧
      platform.localeCompare other.agentId agent.agentId ≠ .gt := by
    rw [← isAgent, ← isOther]
    rcases before with more | ⟨same, ordered⟩
    · rcases after with less | ⟨also, -⟩
      · exact absurd (less.trans more) (lt_irrefl _)
      · exact absurd more (also ▸ lt_irrefl _)
    · rcases after with less | ⟨-, later⟩
      · exact absurd less (same ▸ lt_irrefl _)
      · exact ⟨ordered, later⟩
  have sameName : agent.agentId = other.agentId := by
    refine @Std.LawfulEqCmp.eq_of_compare _ platform.localeCompare _ _ _ ?_
    rw [@Std.OrientedCmp.eq_swap _ platform.localeCompare _ _ _]
      at notGreater
    cases compared : platform.localeCompare other.agentId agent.agentId with
    | lt =>
      rw [compared] at notGreater
      exact absurd rfl notGreater.1
    | eq =>
      rw [@Std.OrientedCmp.eq_swap _ platform.localeCompare _ _ _, compared]
      rfl
    | gt => exact absurd compared notGreater.2
  have sameAgent : agent = other :=
    List.inj_on_of_nodup_map distinct member otherMember sameName
  rw [sameAgent, otherEligible] at eligible
  exact (Option.some.inj eligible).symm

theorem rankedCandidates_perm [Std.TransCmp platform.localeCompare]
    [Std.LawfulEqCmp platform.localeCompare]
    (distinct : (agents.map SchedulerAgent.agentId).Nodup)
    (perm : agents.Perm listed) :
    rankedCandidates platform agents request options =
      rankedCandidates platform listed request options := by
  have members : ∀ candidate,
      candidate ∈ rankedCandidates platform listed request options ↔
        candidate ∈ rankedCandidates platform agents request options := by
    intro candidate
    rw [mem_rankedCandidates, mem_rankedCandidates]
    exact exists_congr fun agent => and_congr_left' perm.mem_iff.symm
  refine List.Perm.eq_of_pairwise
    (fun first second inFirst inSecond before after =>
      eq_of_precedes distinct inFirst ((members second).mp inSecond) before
        after)
    (List.pairwise_insertionSort (precedes platform) _)
    (List.pairwise_insertionSort (precedes platform) _) ?_
  exact ((List.perm_insertionSort _ _).trans (perm.filterMap _)).trans
    (List.perm_insertionSort _ _).symm

theorem eq_nil_iff_of_perm {Item : Type} {first second : List Item}
    (perm : first.Perm second) : first = [] ↔ second = [] := by
  rw [← List.length_eq_zero_iff, perm.length_eq, List.length_eq_zero_iff]

omit [DecidableEq AgentId] in
theorem describeNoMatchingAgent_perm (perm : agents.Perm listed)
    (registeredAgentCount : Option Nat) :
    describeNoMatchingAgent platform agents request registeredAgentCount =
      describeNoMatchingAgent platform listed request
        registeredAgentCount := by
  have osMatches := perm.filter fun agent =>
    matchesOs platform (request.requirements.bind Requirements.os)
      agent.capabilities.osFamily
  have shellMatches := osMatches.filter fun agent =>
    agentHasRequiredShell platform agent (requiredShell platform request)
  unfold describeNoMatchingAgent
  dsimp only
  simp only [eq_nil_iff_of_perm perm, eq_nil_iff_of_perm osMatches,
    eq_nil_iff_of_perm shellMatches, shellMatches.all_eq]

/-- The host is compared with the least loaded of the busy agents. -/
theorem le_min?_iff {busy : List Nat} {running : Nat} :
    (∀ other ∈ busy.min?, running ≤ other) ↔
      ∀ other ∈ busy, running ≤ other := by
  cases least : busy.min? with
  | none =>
    rw [List.min?_eq_none_iff] at least
    simp [least]
  | some other =>
    simp only [Option.mem_def, Option.some.injEq, forall_eq']
    exact List.le_min?_iff least

theorem decideLocalFallback_congr {first second : List Nat}
    (same : ∀ running, (∀ other ∈ first, running ≤ other) ↔
      ∀ other ∈ second, running ≤ other)
    (allowLocalFallback : Bool)
    (riskLevel : Rbo.Controller.Submissions.RiskLevel)
    (host : HostLoadSnapshot) (maxHostCpuBusyFraction : ℚ) :
    decideLocalFallback allowLocalFallback riskLevel host
        maxHostCpuBusyFraction first =
      decideLocalFallback allowLocalFallback riskLevel host
        maxHostCpuBusyFraction second := by
  unfold decideLocalFallback
  simp only [le_min?_iff, same]

/-- The decision does not depend on the order of the agents. -/
theorem selectAgentForJob_perm [Std.TransCmp platform.localeCompare]
    [Std.LawfulEqCmp platform.localeCompare]
    (distinct : (agents.map SchedulerAgent.agentId).Nodup)
    (perm : agents.Perm listed) :
    selectAgentForJob platform agents request options =
      selectAgentForJob platform listed request options := by
  have ranked := @rankedCandidates_perm _ _ platform request options _ _ _ _
    distinct perm
  unfold rankedCandidates at ranked
  have busy : (busyAgentRunningJobs agents).Perm
      (busyAgentRunningJobs listed) :=
    (perm.filter _).map _
  have load := @decideLocalFallback_congr (busyAgentRunningJobs agents)
    (busyAgentRunningJobs listed)
    fun running => forall_congr' fun other => by rw [busy.mem_iff]
  unfold selectAgentForJob
  simp only [ranked, load, describeNoMatchingAgent_perm perm]

end Order

/-- `selectAgentForJob` names the best of the agents that satisfy the request,
names none only when there is none, and does not depend on the order of the
agents. -/
theorem selectAgentForJob_spec [Std.TransCmp platform.localeCompare]
    [Std.LawfulEqCmp platform.localeCompare]
    (agents : List (SchedulerAgent AgentId)) (request : JobRequest AgentId)
    (options : SchedulerOptions AgentId)
    (distinct : (agents.map SchedulerAgent.agentId).Nodup) :
    ((selectAgentForJob platform agents request options).action = .remote →
      ∃ chosen,
        (selectAgentForJob platform agents request options).selectedAgent =
            some chosen ∧
          Best platform request options agents chosen) ∧
    ((selectAgentForJob platform agents request options).action ≠ .remote ↔
      ∀ agent ∈ agents, ¬ Satisfies platform request agent) ∧
    ∀ listed, agents.Perm listed →
      selectAgentForJob platform listed request options =
        selectAgentForJob platform agents request options := by
  refine ⟨?_, ?_, fun listed perm =>
    (selectAgentForJob_perm distinct perm).symm⟩
  · intro remote
    cases ranked : rankedCandidates platform agents request options with
    | nil => exact absurd remote (action_of_nil ranked)
    | cons chosen rest =>
      refine ⟨chosen.agent, ?_, best_of_rankedCandidates ranked⟩
      rw [selectAgentForJob_of_cons ranked]
  · rw [← @rankedCandidates_eq_nil _ _ platform request options agents]
    cases ranked : rankedCandidates platform agents request options with
    | nil => exact iff_of_true (action_of_nil ranked) rfl
    | cons chosen rest =>
      rw [selectAgentForJob_of_cons ranked]
      exact iff_of_false (fun other => other rfl) (List.cons_ne_nil _ _)

/-! ## A request with two agents for it -/

/-- Texts are compared as they are, and any version serves. -/
def plainPlatform : Platform Nat where
  toLowerCase := id
  trim := id
  localeCompare := compare
  matchesVersionSpec := fun _ _ => true
  computeBuildCacheKey := fun _ => ""

instance : Std.TransCmp plainPlatform.localeCompare :=
  inferInstanceAs (Std.TransCmp (compare : Nat → Nat → Ordering))

instance : Std.LawfulEqCmp plainPlatform.localeCompare :=
  inferInstanceAs (Std.LawfulEqCmp (compare : Nat → Nat → Ordering))

/-- An agent with bash, a number of slots and a number of running jobs. -/
def bashAgent (agentId : Nat) (osFamily : OsFamily) (maxJobs : ℚ)
    (activeJobsCount : Nat) : SchedulerAgent Nat where
  agentId := agentId
  capabilities :=
    { osFamily := osFamily
      arch := "x64"
      memoryFreeMb := 1024
      diskFreeMb := 1024
      cpuLoad := none
      maxJobs := maxJobs
      shells := ["bash"]
      tools := []
      toolchainProfiles := []
      labels := []
      secretRefs := []
      repositoryCache := none
      buildCaches := none
      configuredPriority := none }
  activeJobsCount := activeJobsCount
  recentFailurePenalty := none

/-- A request for an operating system. -/
def requestFor (osFamily : OsFamily) : JobRequest Nat where
  requirements := some { Requirements.none with os := some [osFamily.text] }
  preferences := none
  queuePolicy := none
  riskLevel := .normal
  shell := none
  secretRefs := none

/-- No options but the load of the host. -/
def hostOptions (hostLoad : Option HostLoadSnapshot) :
    SchedulerOptions Nat where
  allowLocalFallback := none
  localHostExecution := none
  repoCanonicalId := none
  baseCommit := none
  buildCacheKeys := none
  buildCacheProjectIdentity := none
  estimatedTransferBytes := none
  recentFailurePenalties := []
  registeredAgentCount := none
  hostLoad := hostLoad
  maxHostCpuBusyFraction := none

/-- The agent without a running job is chosen. -/
theorem selectAgentForJob_spec_idle :
    ∃ chosen,
      (selectAgentForJob plainPlatform
          [bashAgent 1 .linux 2 1, bashAgent 2 .linux 2 0]
          (requestFor .linux) (hostOptions none)).selectedAgent =
        some chosen ∧
      Best plainPlatform (requestFor .linux) (hostOptions none)
        [bashAgent 1 .linux 2 1, bashAgent 2 .linux 2 0] chosen :=
  (selectAgentForJob_spec plainPlatform
    [bashAgent 1 .linux 2 1, bashAgent 2 .linux 2 0] (requestFor .linux)
    (hostOptions none) (by decide)).1 (by decide +kernel)

end Rbo.Controller.AgentChoice
