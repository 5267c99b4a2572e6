import Rbo.Controller.AgentChoice

/-!
# Agents that weigh in the local fallback

When no agent satisfies a request and the host is over its threshold, the job
runs on the host only if no busy agent runs fewer jobs.  An agent is busy when
its slots are taken; the other filters come later in the loop, so that an agent
which could never run the job is among the busy ones as well.
-/

namespace Rbo.Controller.FallbackInfluence

open Rbo.Controller.Submissions (RiskLevel)
open Rbo.Controller.Scheduler
open Rbo.Controller.AgentChoice

variable {AgentId : Type} [DecidableEq AgentId]

/-! ## One agent more or less -/

/-- An agent that has slots, all of them taken. -/
def Busy (agent : SchedulerAgent AgentId) : Prop :=
  0 < agent.capabilities.maxJobs ∧
    agent.capabilities.maxJobs ≤ agent.activeJobsCount

/-- The host may run the job, and is over its threshold. -/
structure Overloaded (platform : Platform AgentId)
    (request : JobRequest AgentId) (options : SchedulerOptions AgentId)
    (host : HostLoadSnapshot) : Prop where
  reported : options.hostLoad = some host
  fallback : request.queuePolicy.getD .localFallback = .localFallback
  allowed : ((request.preferences.getD
      (Preferences.default AgentId)).allowLocalFallback &&
    options.allowLocalFallback.getD true) = true
  harmless : request.riskLevel ≠ .destructive ∧ request.riskLevel ≠ .hardware
  executes : ∀ localHost ∈ options.localHostExecution,
    localHostCanExecute platform request localHost = true
  above : computeEffectiveMaxHostCpuBusyFraction host.capacityScore
      (options.maxHostCpuBusyFraction.getD defaultMaxHostCpuBusyFraction)
      defaultReferenceCapacityScore ≤
    host.cpuBusyFraction

/-- A busy agent is the only one that runs fewer jobs than an overloaded host,
and no agent satisfies the request. -/
structure Sways (platform : Platform AgentId) (request : JobRequest AgentId)
    (options : SchedulerOptions AgentId)
    (others : List (SchedulerAgent AgentId))
    (agent : SchedulerAgent AgentId) (host : HostLoadSnapshot) : Prop where
  busy : Busy agent
  overloaded : Overloaded platform request options host
  unsatisfied : ∀ other ∈ others, ¬ Satisfies platform request other
  fewer : agent.activeJobsCount < host.runningJobs
  alone : ∀ other ∈ others, Busy other →
    host.runningJobs ≤ other.activeJobsCount

section Fallback

variable {platform : Platform AgentId} {request : JobRequest AgentId}
  {options : SchedulerOptions AgentId}

omit [DecidableEq AgentId] in
theorem mem_busyAgentRunningJobs {agents : List (SchedulerAgent AgentId)}
    {running : Nat} :
    running ∈ busyAgentRunningJobs agents ↔
      ∃ agent ∈ agents, Busy agent ∧ agent.activeJobsCount = running := by
  have busy : ∀ agent : SchedulerAgent AgentId,
      (agentIsAtCapacity agent = true ∧ 0 < agent.capabilities.maxJobs) ↔
        Busy agent := by
    intro agent
    unfold agentIsAtCapacity Busy
    rw [decide_eq_true_eq]
    constructor
    · rintro ⟨noSlots | taken, slots⟩
      · exact absurd slots (not_lt.mpr noSlots)
      · exact ⟨slots, taken⟩
    · rintro ⟨slots, taken⟩
      exact ⟨Or.inr taken, slots⟩
  unfold busyAgentRunningJobs
  rw [List.mem_map]
  simp only [List.mem_filter, decide_eq_true_eq, busy, and_assoc]

omit [DecidableEq AgentId] in
/-- Over its threshold, the host is compared with the busy agents. -/
theorem decideLocalFallback_of_overloaded {host : HostLoadSnapshot}
    (overloaded : Overloaded platform request options host)
    (busy : List Nat) :
    decideLocalFallback
        ((request.preferences.getD
            (Preferences.default AgentId)).allowLocalFallback &&
          options.allowLocalFallback.getD true)
        request.riskLevel host
        (options.maxHostCpuBusyFraction.getD defaultMaxHostCpuBusyFraction)
        busy =
      if ∀ other ∈ busy, host.runningJobs ≤ other then .eligible
      else .hostBusy := by
  unfold decideLocalFallback
  rw [overloaded.allowed, if_neg, if_neg (not_lt.mpr overloaded.above)]
  · simp only [le_min?_iff]
  · rintro (disallowed | destructive | hardware)
    · exact disallowed rfl
    · exact overloaded.harmless.1 destructive
    · exact overloaded.harmless.2 hardware

omit [DecidableEq AgentId] in
theorem fallbackAction_of_overloaded {host : HostLoadSnapshot}
    (overloaded : Overloaded platform request options host)
    (busy : List Nat) :
    fallbackAction platform request options busy =
      if ∀ other ∈ busy, host.runningJobs ≤ other then .localFallback
      else .wait := by
  unfold fallbackAction
  dsimp only
  rw [overloaded.fallback, overloaded.reported]
  dsimp only
  rw [if_neg, decideLocalFallback_of_overloaded overloaded]
  · by_cases free : ∀ other ∈ busy, host.runningJobs ≤ other
    · rw [if_pos free, if_pos free]
    · rw [if_neg free, if_neg free]
  · rintro ⟨localHost, member, cannot⟩
    exact cannot (overloaded.executes localHost member)

/-- Below its threshold, or when it may not run the job, the host is not
compared with any agent. -/
theorem decideLocalFallback_of_not_over {allow : Bool} {level : RiskLevel}
    {host : HostLoadSnapshot} {most : ℚ}
    (not : allow = true → level ≠ .destructive ∧ level ≠ .hardware →
      host.cpuBusyFraction <
        computeEffectiveMaxHostCpuBusyFraction host.capacityScore most
          defaultReferenceCapacityScore) (first second : List Nat) :
    decideLocalFallback allow level host most first =
      decideLocalFallback allow level host most second := by
  unfold decideLocalFallback
  split
  · rfl
  · rename_i mayRun
    rw [not_or, not_or, not_not] at mayRun
    rw [if_pos (not mayRun.1 mayRun.2), if_pos (not mayRun.1 mayRun.2)]

omit [DecidableEq AgentId] in
/-- Otherwise the busy agents are not looked at. -/
theorem fallbackAction_of_not_overloaded
    (not : ∀ host, ¬ Overloaded platform request options host)
    (first second : List Nat) :
    fallbackAction platform request options first =
      fallbackAction platform request options second := by
  unfold fallbackAction
  dsimp only
  cases policy : request.queuePolicy.getD .localFallback with
  | wait => rfl
  | failFast => rfl
  | localFallback =>
    dsimp only
    split
    · rfl
    · rename_i executes
      cases reported : options.hostLoad with
      | none => rfl
      | some host =>
        dsimp only
        rw [decideLocalFallback_of_not_over _ first second]
        intro allowed harmless
        by_contra loaded
        refine not host
          { reported := reported
            fallback := policy
            allowed := allowed
            harmless := harmless
            executes := fun localHost member => ?_
            above := not_lt.mp loaded }
        by_contra cannot
        exact executes ⟨localHost, member, cannot⟩

omit [DecidableEq AgentId] in
theorem Overloaded.unique {first second : HostLoadSnapshot}
    (overloaded : Overloaded platform request options first)
    (also : Overloaded platform request options second) : first = second :=
  Option.some.inj (overloaded.reported.symm.trans also.reported)

omit [DecidableEq AgentId] in
theorem forall_busy_iff {agents : List (SchedulerAgent AgentId)}
    {running : Nat} :
    (∀ other ∈ busyAgentRunningJobs agents, running ≤ other) ↔
      ∀ other ∈ agents, Busy other → running ≤ other.activeJobsCount := by
  simp only [mem_busyAgentRunningJobs]
  constructor
  · intro least other member busy
    exact least _ ⟨other, member, busy, rfl⟩
  · rintro least _ ⟨other, member, busy, rfl⟩
    exact least other member busy

theorem forall_mem_insert_iff {Item : Type} {before after : List Item}
    {item : Item} {holds : Item → Prop} :
    (∀ other ∈ before ++ item :: after, holds other) ↔
      holds item ∧ ∀ other ∈ before ++ after, holds other := by
  simp only [List.forall_mem_append, List.forall_mem_cons]
  exact and_left_comm

omit [DecidableEq AgentId] in
/-- A busy agent more changes the fallback when it is the only one that runs
fewer jobs than an overloaded host. -/
theorem fallbackAction_insert_iff {before after : List (SchedulerAgent AgentId)}
    {agent : SchedulerAgent AgentId}
    (unsatisfied : ∀ other ∈ before ++ after,
      ¬ Satisfies platform request other) :
    fallbackAction platform request options
        (busyAgentRunningJobs (before ++ agent :: after)) =
      fallbackAction platform request options
        (busyAgentRunningJobs (before ++ after)) ↔
      ¬ ∃ host, Sways platform request options (before ++ after) agent
        host := by
  by_cases overloaded : ∃ host, Overloaded platform request options host
  · obtain ⟨host, overloaded⟩ := overloaded
    rw [fallbackAction_of_overloaded overloaded,
      fallbackAction_of_overloaded overloaded]
    have others := @forall_busy_iff _ (before ++ after) host.runningJobs
    have all := (@forall_busy_iff _ (before ++ agent :: after)
      host.runningJobs).trans forall_mem_insert_iff
    by_cases alone : ∀ other ∈ before ++ after, Busy other →
        host.runningJobs ≤ other.activeJobsCount
    · by_cases fewer : Busy agent →
          host.runningJobs ≤ agent.activeJobsCount
      · rw [if_pos (all.mpr ⟨fewer, alone⟩), if_pos (others.mpr alone)]
        refine iff_of_true rfl ?_
        rintro ⟨other, sways⟩
        obtain rfl := overloaded.unique sways.overloaded
        exact absurd sways.fewer (not_lt.mpr (fewer sways.busy))
      · rw [if_neg fun free => fewer (all.mp free).1,
          if_pos (others.mpr alone)]
        rw [Classical.not_imp, not_le] at fewer
        refine iff_of_false (by decide) (not_not.mpr ⟨host, ?_⟩)
        exact
          { busy := fewer.1
            overloaded := overloaded
            unsatisfied := unsatisfied
            fewer := fewer.2
            alone := alone }
    · rw [if_neg fun free => alone (all.mp free).2,
        if_neg fun free => alone (others.mp free)]
      refine iff_of_true rfl ?_
      rintro ⟨other, sways⟩
      obtain rfl := overloaded.unique sways.overloaded
      exact alone sways.alone
  · refine iff_of_true
      (fallbackAction_of_not_overloaded (not_exists.mp overloaded) _ _) ?_
    rintro ⟨host, sways⟩
    exact overloaded ⟨host, sways.overloaded⟩

end Fallback

/-- A host over its threshold that runs two jobs. -/
def loadedHost : HostLoadSnapshot where
  cpuBusyFraction := 1
  capacityScore := 1
  runningJobs := 2

theorem unsuited_macos :
    ¬ Suits plainPlatform (requestFor .linux) (bashAgent 1 .macos 1 1) := by
  intro suits
  obtain ⟨name, member, same⟩ :=
    suits.os ["linux"] rfl (List.cons_ne_nil _ _)
  obtain rfl := List.mem_singleton.mp member
  revert same
  decide

end Rbo.Controller.FallbackInfluence
