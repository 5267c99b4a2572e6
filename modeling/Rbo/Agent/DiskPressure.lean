import Mathlib.Logic.Function.Basic
import Rbo.Foundation.Run
import Rbo.Foundation.Texts

/-!
# The cleanup under disk pressure

`applyDiskPressureCleanup` reads the metadata of all attempts once, and then
removes directories of the attempts that it has read as old and terminal, and
the staged artifacts of those that it has not read as active.  The executor
goes on meanwhile: it accepts leases, runs jobs, stages artifacts, appends to
spools and rewrites metadata.

Between two steps of a cleanup anything of the executor may happen, and any
number of cleanups may run at a time.
-/

namespace Rbo.Agent.DiskPressure

open Rbo.Foundation

/-! ## The metadata of attempts -/

abbrev AttemptId := List Char

abbrev FileName := List Char

inductive AttemptMetadataStatus where
  | accepted
  | running
  | completedAwaitingUpload
  | orphaned
  | terminal
  deriving DecidableEq

/-- What the cleanup reads of `metadata.json`.  The paths in it are those of
the directories of the attempt. -/
structure AttemptMetadata where
  status : AttemptMetadataStatus
  updatedAt : Int
  deriving DecidableEq

/-- `ACTIVE_STATUSES`. -/
def isActive : AttemptMetadataStatus → Bool
  | .accepted => true
  | .running => true
  | .completedAwaitingUpload => true
  | .orphaned => true
  | .terminal => false

def isActiveMeta (metadata : AttemptMetadata) : Bool :=
  isActive metadata.status

/-- The changes of the metadata of an attempt once it was accepted. -/
inductive Change where
  /-- The job is spawned. -/
  | running
  /-- `persistCompletedAwaitingUpload`. -/
  | completed
  /-- `persistTerminalMetadata`. -/
  | terminal
  /-- `onLeaseExpired`. -/
  | expired
  /-- `renewLeaseDeadline`. -/
  | renewed
  /-- `onDisconnectPark`. -/
  | parked
  /-- An `adopt` decision. -/
  | adopted (resumes : Bool)
  /-- A `terminate_stale` decision, with the time in the metadata that was read
  before the attempt was stopped. -/
  | stale (read : Option Int)
  /-- `discardUnfencedLeftover`. -/
  | discarded
  deriving DecidableEq

/-- The metadata that is written over what is there. -/
def Change.apply (nowMs : Int) (record : Option AttemptMetadata) :
    Change → Option AttemptMetadata
  | .running => some ⟨.running, nowMs⟩
  | .completed => some ⟨.completedAwaitingUpload, nowMs⟩
  | .terminal => record.map fun _ => ⟨.terminal, nowMs⟩
  | .expired => some ⟨.terminal, nowMs⟩
  | .renewed => record.map fun metadata => { metadata with updatedAt := nowMs }
  | .parked =>
    match record with
    | none => none
    | some ⟨.terminal, _⟩ => none
    | some ⟨.completedAwaitingUpload, _⟩ =>
      some ⟨.completedAwaitingUpload, nowMs⟩
    | some _ => some ⟨.orphaned, nowMs⟩
  | .adopted resumes =>
    record.map fun metadata =>
      ⟨if metadata.status = .completedAwaitingUpload then
          .completedAwaitingUpload
        else if resumes then .running else metadata.status, nowMs⟩
  | .stale read => read.map fun updatedAt => ⟨.terminal, updatedAt⟩
  | .discarded => some ⟨.terminal, nowMs⟩

/-- Is `removeAttemptMetadata` called behind the write? -/
def Change.removes (record : Option AttemptMetadata) : Change → Bool
  | .terminal => record.isSome
  | .stale _ => true
  | .discarded => true
  | _ => false

/-! ## The cleanup -/

inductive DirKind where
  | artifacts
  | workspaces
  | spools
  deriving DecidableEq

/-- A directory of an attempt, or a file in it. -/
structure Entry where
  kind : DirKind
  attemptId : AttemptId
  file : Option FileName
  deriving DecidableEq

structure CleanupOptions where
  minFreeBytes : Nat
  freeBytes : Nat
  spoolPressure : Bool
  retentionMs : Int
  nowMs : Int
  deriving DecidableEq

def isAcceptingJobsUnderDiskPressure (minFreeBytes freeBytes : Nat)
    (spoolPressure : Bool) : Bool :=
  if spoolPressure then false else decide (minFreeBytes ≤ freeBytes)

/-- What a cleanup takes from the metadata that it has read. -/
structure Plan where
  activeIds : List AttemptId
  terminalOld : List AttemptId
  deriving DecidableEq

def makePlan (options : CleanupOptions)
    (allMeta : List (AttemptId × AttemptMetadata)) : Plan :=
  let activeIds :=
    (allMeta.filter fun entry => isActiveMeta entry.2).map Prod.fst
  { activeIds := activeIds
    terminalOld := (allMeta.filter fun entry =>
      decide (entry.2.status = .terminal) &&
        decide (options.retentionMs ≤ options.nowMs - entry.2.updatedAt) &&
        !activeIds.contains entry.1).map Prod.fst }

/-- The artifact directories of nobody that is known. -/
def Plan.orphans (plan : Plan) (names : List AttemptId) : List AttemptId :=
  names.filter fun name =>
    !plan.activeIds.contains name && !plan.terminalOld.contains name

/-- The loops of the cleanup that remove directories of attempts. -/
inductive Stage where
  | artifacts
  | orphans
  | workspaces
  | spools
  deriving DecidableEq

def Stage.kind : Stage → DirKind
  | .artifacts => .artifacts
  | .orphans => .artifacts
  | .workspaces => .workspaces
  | .spools => .spools

/-- Where a loop is with an attempt. -/
inductive Place where
  /-- In `invokeAttemptResourceCleanup`. -/
  | calling
  /-- In `removePath`, about to look whether the directory is there. -/
  | looking
  /-- In the recursive `rm`. -/
  | removing
  deriving DecidableEq

inductive Phase where
  /-- About to list the directory of the metadata. -/
  | listing (options : CleanupOptions)
  /-- About to read the metadata of the names that were listed. -/
  | reading (options : CleanupOptions) (names : List AttemptId)
  | going (plan : Plan) (stage : Stage) (attemptId : AttemptId)
      (rest : List AttemptId) (place : Place)
  /-- About to list the directories of staged artifacts. -/
  | scanning (plan : Plan)
  /-- Behind the loops over attempts. -/
  | done
  deriving DecidableEq

namespace Plan

variable (plan : Plan)

def beginSpools : List AttemptId → Phase
  | [] => .done
  | attemptId :: rest => .going plan .spools attemptId rest .looking

def beginWorkspaces : List AttemptId → Phase
  | [] => plan.beginSpools plan.terminalOld
  | attemptId :: rest => .going plan .workspaces attemptId rest .calling

def beginOrphans : List AttemptId → Phase
  | [] => plan.beginWorkspaces plan.terminalOld
  | attemptId :: rest => .going plan .orphans attemptId rest .calling

def beginArtifacts : List AttemptId → Phase
  | [] => .scanning plan
  | attemptId :: rest => .going plan .artifacts attemptId rest .looking

/-- A loop goes on with the rest of its attempts. -/
def begin_ : Stage → List AttemptId → Phase
  | .artifacts => plan.beginArtifacts
  | .orphans => plan.beginOrphans
  | .workspaces => plan.beginWorkspaces
  | .spools => plan.beginSpools

/-- A failing `rm` ends the cleanup, except in the sweep of orphans. -/
def fail : Stage → Phase
  | .orphans => plan.beginWorkspaces plan.terminalOld
  | _ => .done

end Plan

/-- What an operation of a cleanup meets: whether it succeeds, the metadata
that cannot be read, and the next file of a removal. -/
structure Outcome where
  ok : Bool
  unread : List AttemptId
  file : Option FileName
  deriving DecidableEq

/-! ## The agent -/

inductive Answer where
  | accept
  | reject (reason : String)
  deriving DecidableEq

structure Config where
  maxJobs : Nat
  diskMinFreeBytes : Option Nat
  deriving DecidableEq

/-- The state directory, the executor and the cleanups. -/
structure State where
  /-- The attempts of the executor. -/
  attempts : List AttemptId
  rejected : List AttemptId
  records : List (AttemptId × AttemptMetadata)
  /-- The status that was written last, also when the metadata is removed. -/
  status : AttemptId → Option AttemptMetadataStatus
  /-- The metadata that `removeAttemptMetadata` is about to remove. -/
  removals : List AttemptId
  entries : List Entry
  cleanups : List Phase
  sent : List (AttemptId × Answer)

def State.record (state : State) (attemptId : AttemptId) :
    Option AttemptMetadata :=
  state.records.lookup attemptId

/-- `writeAttemptMetadata`. -/
def State.write (state : State) (attemptId : AttemptId)
    (metadata : AttemptMetadata) : State :=
  { state with
      records := (attemptId, metadata) ::
        state.records.filter fun entry => entry.1 ≠ attemptId
      status := Function.update state.status attemptId (some metadata.status) }

def State.answer (state : State) (attemptId : AttemptId) (answer : Answer) :
    State :=
  { state with sent := state.sent ++ [(attemptId, answer)] }

/-- The metadata that an accepted lease writes. -/
def acceptedMetadata (nowMs : Int) : AttemptMetadata :=
  ⟨.accepted, nowMs⟩

/-- The refusal of a lease, if it is refused; the free bytes are those that the
executor measures, if it can. -/
def refusal (config : Config) (state : State) (freeBytes : Option Nat)
    (spoolPressure : Bool) : Option String :=
  if config.maxJobs ≤ state.attempts.length then
    let maxJobs := config.maxJobs
    some s!"Agent capacity limit reached ({maxJobs} active job max)"
  else
    match config.diskMinFreeBytes, freeBytes with
    | some minFree, some freeBytes =>
      if isAcceptingJobsUnderDiskPressure minFree freeBytes spoolPressure then
        none
      else if spoolPressure then
        some "Agent refusing leases under log spool pressure"
      else some "Agent refusing leases under disk pressure"
    | _, _ => none

/-- `handleLeaseOffer`. -/
def handleLeaseOffer (config : Config) (state : State)
    (attemptId : AttemptId) (nowMs : Int) (freeBytes : Option Nat)
    (spoolPressure : Bool) : State :=
  if attemptId ∈ state.rejected then state
  else
    match refusal config state freeBytes spoolPressure with
    | some reason => state.answer attemptId (.reject reason)
    | none =>
      ({ state with
          attempts := attemptId :: state.attempts.erase attemptId }.write
        attemptId (acceptedMetadata nowMs)).answer attemptId .accept

/-- `listAttemptMetadata`, of the names that were listed. -/
def listAttemptMetadata (state : State) (names unread : List AttemptId) :
    List (AttemptId × AttemptMetadata) :=
  names.filterMap fun name =>
    if name ∈ unread then none
    else (state.record name).map fun metadata => (name, metadata)

/-- `readdir` of the root of staged artifacts. -/
def State.artifactNames (state : State) : List AttemptId :=
  (state.entries.filter fun entry =>
    decide (entry.kind = .artifacts) && entry.file.isNone).map Entry.attemptId

/-- The next operation of a cleanup: what is left of the directories, and where
the cleanup is then. -/
def clean (state : State) (outcome : Outcome) :
    Phase → Option (List Entry × Phase)
  | .listing options =>
    -- A state directory that cannot be listed has no attempts.
    some (state.entries, .reading options
      (if outcome.ok then state.records.map Prod.fst else []))
  | .reading options names =>
    let plan := makePlan options
      (listAttemptMetadata state names outcome.unread)
    some (state.entries, plan.beginArtifacts plan.terminalOld)
  | .scanning plan =>
    some (state.entries,
      if outcome.ok then plan.beginOrphans (plan.orphans state.artifactNames)
      else plan.beginWorkspaces plan.terminalOld)
  | .going plan stage attemptId rest .calling =>
    some (state.entries, .going plan stage attemptId rest .looking)
  | .going plan stage attemptId rest .looking =>
    some (state.entries,
      if ⟨stage.kind, attemptId, none⟩ ∈ state.entries then
        .going plan stage attemptId rest .removing
      else plan.begin_ stage rest)
  | .going plan stage attemptId rest .removing =>
    if outcome.ok then
      match outcome.file with
      | some file =>
        some (state.entries.filter (· ≠ ⟨stage.kind, attemptId, some file⟩),
          .going plan stage attemptId rest .removing)
      | none =>
        if state.entries.any fun entry => entry.kind = stage.kind &&
            entry.attemptId = attemptId && entry.file.isSome then none
        else
          some (state.entries.filter (· ≠ ⟨stage.kind, attemptId, none⟩),
            plan.begin_ stage rest)
    else some (state.entries, plan.fail stage)
  | .done => none

inductive Label where
  | leaseOffer (attemptId : AttemptId) (nowMs : Int) (freeBytes : Option Nat)
      (spoolPressure : Bool)
  | change (attemptId : AttemptId) (change : Change) (nowMs : Int)
  /-- A task of an attempt makes a directory or writes a file in it. -/
  | put (entry : Entry)
  /-- A task of an attempt removes its workspace, or a file in it. -/
  | drop (attemptId : AttemptId) (file : Option FileName)
  /-- `clearAttempt`. -/
  | clear (attemptId : AttemptId)
  /-- `rejectedAttempts.add`. -/
  | reject (attemptId : AttemptId)
  /-- `removeAttemptMetadata` removes the metadata. -/
  | remove (attemptId : AttemptId)
  | applyDiskPressureCleanup (options : CleanupOptions)
  | clean (index : Nat) (outcome : Outcome)
  deriving DecidableEq

def step (config : Config) (state : State) : Label → Option State
  | .leaseOffer attemptId nowMs freeBytes spoolPressure =>
    some (handleLeaseOffer config state attemptId nowMs freeBytes
      spoolPressure)
  | .change attemptId change nowMs =>
    let record := state.record attemptId
    let after :=
      match change.apply nowMs record with
      | some metadata => state.write attemptId metadata
      | none => state
    some { after with
      removals := if change.removes record then attemptId :: state.removals
        else state.removals }
  | .put entry =>
    some { state with
      entries := [⟨entry.kind, entry.attemptId, none⟩, entry] ++
        state.entries.filter fun other =>
          other ≠ entry ∧ other ≠ ⟨entry.kind, entry.attemptId, none⟩ }
  | .drop attemptId file =>
    some { state with
      entries := state.entries.filter (· ≠ ⟨.workspaces, attemptId, file⟩) }
  | .clear attemptId =>
    some { state with attempts := state.attempts.erase attemptId }
  | .reject attemptId =>
    some { state with rejected := attemptId :: state.rejected }
  | .remove attemptId =>
    if attemptId ∈ state.removals then
      some { state with
        records := state.records.filter fun entry => entry.1 ≠ attemptId
        removals := state.removals.erase attemptId }
    else none
  | .applyDiskPressureCleanup options =>
    if isAcceptingJobsUnderDiskPressure options.minFreeBytes
        options.freeBytes options.spoolPressure then some state
    else some { state with cleanups := state.cleanups ++ [.listing options] }
  | .clean index outcome =>
    match state.cleanups[index]? with
    | none => none
    | some phase =>
      (clean state outcome phase).map fun (entries, next) =>
        { state with
            entries := entries
            cleanups := state.cleanups.set index next }

def start : State where
  attempts := []
  rejected := []
  records := []
  status := fun _ => none
  removals := []
  entries := []
  cleanups := []
  sent := []

def machine (config : Config) : Machine State Label where
  initial state := state = start
  step := step config

/-! ## What is asked of a cleanup -/

def NonTerminal (state : State) (attemptId : AttemptId) : Prop :=
  ∃ status, state.status attemptId = some status ∧ isActive status = true

instance (state : State) (attemptId : AttemptId) :
    Decidable (NonTerminal state attemptId) :=
  decidable_of_iff ((state.status attemptId).any isActive = true)
    (Option.any_eq_true ..)

/-- No step of a cleanup removes a directory or a file of an attempt that is
not terminal. -/
def Spares (config : Config) (state : State) : Prop :=
  ∀ index outcome next,
    step config state (.clean index outcome) = some next →
    ∀ entry ∈ state.entries, entry ∉ next.entries →
      ¬ NonTerminal state entry.attemptId

/-- The attempts behind the one that a loop is at, in its own list or in a
later loop. -/
def Plan.later (plan : Plan) : Stage → List AttemptId
  | .spools => []
  | _ => plan.terminalOld

/-- The attempts that a cleanup has still to remove directories of. -/
def Phase.targets : Phase → List AttemptId
  | .going plan stage attemptId rest _ =>
    attemptId :: (rest ++ plan.later stage)
  | .scanning plan => plan.terminalOld
  | _ => []

/-- The metadata that a step writes. -/
def written (config : Config) (state : State) :
    Label → Option (AttemptId × AttemptMetadata)
  | .leaseOffer attemptId nowMs freeBytes spoolPressure =>
    if attemptId ∉ state.rejected ∧
        refusal config state freeBytes spoolPressure = none then
      some (attemptId, acceptedMetadata nowMs)
    else none
  | .change attemptId change nowMs =>
    (change.apply nowMs (state.record attemptId)).map (attemptId, ·)
  | _ => none

/-- The attempts whose artifacts a step takes for orphaned. -/
def swept (state : State) : Label → List AttemptId
  | .clean index outcome =>
    match state.cleanups[index]? with
    | some (.scanning plan) =>
      if outcome.ok then plan.orphans state.artifactNames else []
    | _ => []
  | _ => []

/-- The steps that keep the attempts that are not terminal apart from the
cleanups: metadata is written with an active status only for an attempt that no
cleanup is about to remove directories of, and a cleanup that lists the staged
artifacts has read every attempt as active that has some and is not
terminal. -/
def Careful (config : Config) (state : State) (label : Label) : Prop :=
  (∀ entry ∈ written config state label, isActiveMeta entry.2 = true →
    ∀ phase ∈ state.cleanups, entry.1 ∉ phase.targets) ∧
  ∀ attemptId ∈ swept state label, ¬ NonTerminal state attemptId

instance (config : Config) (state : State) (label : Label) :
    Decidable (Careful config state label) := by
  unfold Careful
  infer_instance

/-! ## The targets of a cleanup -/

/-- The metadata says what was written last, and no cleanup is about to remove
directories of an attempt that is not terminal. -/
structure Invariant (state : State) : Prop where
  recorded : ∀ entry ∈ state.records,
    state.status entry.1 = some entry.2.status
  spared : ∀ phase ∈ state.cleanups, ∀ attemptId ∈ phase.targets,
    ¬ NonTerminal state attemptId

section Targets

variable {plan : Plan} {rest : List AttemptId}

theorem targets_beginSpools :
    (plan.beginSpools rest).targets = rest := by
  cases rest with
  | nil => rfl
  | cons attemptId rest =>
    exact congrArg (List.cons attemptId) (List.append_nil rest)

theorem targets_beginWorkspaces :
    (plan.beginWorkspaces rest).targets = rest ++ plan.terminalOld := by
  cases rest with
  | nil => exact targets_beginSpools
  | cons attemptId rest => rfl

theorem targets_beginOrphans :
    (plan.beginOrphans rest).targets ⊆ rest ++ plan.terminalOld := by
  cases rest with
  | nil =>
    intro attemptId member
    rw [Plan.beginOrphans, targets_beginWorkspaces, List.mem_append] at member
    exact member.elim id id
  | cons attemptId rest => exact List.Subset.refl _

theorem targets_beginArtifacts :
    (plan.beginArtifacts rest).targets = rest ++ plan.terminalOld := by
  cases rest with
  | nil => rfl
  | cons attemptId rest => rfl

/-- A loop that goes on has no new targets. -/
theorem targets_begin {stage : Stage} :
    (plan.begin_ stage rest).targets ⊆ rest ++ plan.later stage := by
  cases stage with
  | artifacts => exact fun _ member => targets_beginArtifacts ▸ member
  | orphans => exact targets_beginOrphans
  | workspaces => exact fun _ member => targets_beginWorkspaces ▸ member
  | spools =>
    change (plan.beginSpools rest).targets ⊆ rest ++ []
    rw [targets_beginSpools, List.append_nil]
    exact List.Subset.refl _

theorem targets_fail {stage : Stage} :
    (plan.fail stage).targets ⊆ plan.later stage := by
  cases stage with
  | orphans =>
    intro attemptId member
    change attemptId ∈ (plan.beginWorkspaces plan.terminalOld).targets
      at member
    rw [targets_beginWorkspaces, List.mem_append] at member
    exact member.elim id id
  | artifacts => exact List.nil_subset _
  | workspaces => exact List.nil_subset _
  | spools => exact List.nil_subset _

end Targets

section Clean

variable {state : State} {outcome : Outcome} {phase next : Phase}
  {entries : List Entry}

/-- The attempts that were read as old are terminal. -/
theorem terminal_of_terminalOld {options : CleanupOptions}
    {names unread : List AttemptId} {attemptId : AttemptId}
    (old : attemptId ∈ (makePlan options
      (listAttemptMetadata state names unread)).terminalOld) :
    ∃ metadata, (attemptId, metadata) ∈ state.records ∧
      metadata.status = .terminal := by
  obtain ⟨⟨_, metadata⟩, filtered, rfl⟩ := List.mem_map.mp old
  obtain ⟨listed, kept⟩ := List.mem_filter.mp filtered
  rw [Bool.and_eq_true, Bool.and_eq_true, decide_eq_true_eq] at kept
  obtain ⟨name, -, read⟩ := List.mem_filterMap.mp listed
  obtain ⟨-, found⟩ := Option.ite_none_left_eq_some.mp read
  obtain ⟨_, looked, same⟩ := Option.map_eq_some_iff.mp found
  cases same
  refine ⟨metadata, ?_, kept.1.1⟩
  obtain ⟨before, after, records, -⟩ := List.lookup_eq_some_iff.mp looked
  rw [records]
  exact List.mem_append_right _ List.mem_cons_self

/-- What a step of a cleanup can do: it removes only what belongs to one of its
targets, and the targets that are new are terminal or taken for orphaned. -/
theorem clean_spec
    (cleaned : clean state outcome phase = some (entries, next)) :
    (∀ entry ∈ state.entries, entry ∉ entries →
      entry.attemptId ∈ phase.targets) ∧
    ∀ attemptId ∈ next.targets, attemptId ∈ phase.targets ∨
      (∃ metadata, (attemptId, metadata) ∈ state.records ∧
        metadata.status = .terminal) ∨
      ∃ plan, phase = .scanning plan ∧ outcome.ok = true ∧
        attemptId ∈ plan.orphans state.artifactNames := by
  have unchanged : ∀ entry ∈ state.entries, entry ∉ state.entries →
      entry.attemptId ∈ phase.targets :=
    fun _ member removed => absurd member removed
  cases phase with
  | listing options =>
    cases cleaned
    exact ⟨unchanged, nofun⟩
  | reading options names =>
    cases cleaned
    refine ⟨unchanged, fun attemptId target => .inr (.inl ?_)⟩
    rw [targets_beginArtifacts, List.mem_append, or_self] at target
    exact terminal_of_terminalOld target
  | scanning plan =>
    cases cleaned
    refine ⟨unchanged, fun attemptId target => ?_⟩
    split at target
    · rename_i ok
      rcases List.mem_append.mp (targets_beginOrphans target) with
        orphan | old
      · exact .inr (.inr ⟨plan, rfl, ok, orphan⟩)
      · exact .inl old
    · rw [targets_beginWorkspaces, List.mem_append, or_self] at target
      exact .inl target
  | going plan stage current rest place =>
    have behind : ∀ attemptId ∈ (plan.begin_ stage rest).targets,
        attemptId ∈ (Phase.going plan stage current rest place).targets :=
      fun _ target => List.mem_cons_of_mem _ (targets_begin target)
    cases place with
    | calling =>
      cases cleaned
      exact ⟨unchanged, fun _ => .inl⟩
    | looking =>
      cases cleaned
      refine ⟨unchanged, fun attemptId target => .inl ?_⟩
      split at target
      · exact target
      · exact behind attemptId target
    | removing =>
      have removed : ∀ file, ∀ entry ∈ state.entries,
          entry ∉ state.entries.filter
            (· ≠ ⟨stage.kind, current, file⟩) →
          entry.attemptId ∈
            (Phase.going plan stage current rest .removing).targets := by
        intro file entry member gone
        have same : entry = ⟨stage.kind, current, file⟩ := by
          by_contra different
          exact gone (List.mem_filter.mpr
            ⟨member, decide_eq_true different⟩)
        rw [same]
        exact List.mem_cons_self
      unfold clean at cleaned
      dsimp only at cleaned
      split at cleaned
      · split at cleaned
        · cases cleaned
          exact ⟨removed _, fun _ => .inl⟩
        · split at cleaned
          · cases cleaned
          · cases cleaned
            exact ⟨removed _, fun attemptId target =>
              .inl (behind attemptId target)⟩
      · cases cleaned
        exact ⟨unchanged, fun attemptId target =>
          .inl (List.mem_cons_of_mem _
            (List.mem_append_right _ (targets_fail target)))⟩
  | done => cases cleaned

end Clean

/-! ## Runs -/

section Steps

variable {config : Config} {state next : State}

theorem nonTerminal_write {attemptId other : AttemptId}
    {metadata : AttemptMetadata} :
    NonTerminal (state.write attemptId metadata) other ↔
      if other = attemptId then isActiveMeta metadata = true
      else NonTerminal state other := by
  have written : (state.write attemptId metadata).status other =
      if other = attemptId then some metadata.status
      else state.status other := Function.update_apply ..
  unfold NonTerminal
  rw [written]
  split
  · constructor
    · rintro ⟨_, ⟨⟩, active⟩
      exact active
    · exact fun active => ⟨metadata.status, rfl, active⟩
  · rfl

/-- What neither writes metadata nor moves a cleanup keeps the invariant. -/
theorem Invariant.frame (invariant : Invariant state)
    (records : next.records ⊆ state.records)
    (status : next.status = state.status)
    (cleanups : next.cleanups ⊆ state.cleanups) : Invariant next where
  recorded entry member := by
    rw [status]
    exact invariant.recorded entry (records member)
  spared phase member attemptId target := by
    unfold NonTerminal
    rw [status]
    exact invariant.spared phase (cleanups member) attemptId target

/-- Metadata is written that makes nobody active who is about to be cleaned
up. -/
theorem Invariant.write (invariant : Invariant state) {attemptId : AttemptId}
    {metadata : AttemptMetadata}
    (careful : isActiveMeta metadata = true →
      ∀ phase ∈ state.cleanups, attemptId ∉ phase.targets) :
    Invariant (state.write attemptId metadata) where
  recorded entry member := by
    have written : (state.write attemptId metadata).status entry.1 =
        if entry.1 = attemptId then some metadata.status
        else state.status entry.1 := Function.update_apply ..
    rw [written]
    rcases List.mem_cons.mp member with rfl | kept
    · exact if_pos rfl
    · obtain ⟨member, different⟩ := List.mem_filter.mp kept
      rw [if_neg (of_decide_eq_true different)]
      exact invariant.recorded entry member
  spared phase member other target := by
    rw [nonTerminal_write]
    split
    · rename_i same
      intro active
      exact careful active phase member (same ▸ target)
    · exact invariant.spared phase member other target

/-- A step of a cleanup is an operation of one of the cleanups. -/
theorem step_clean {index : Nat} {outcome : Outcome}
    (stepped : step config state (.clean index outcome) = some next) :
    ∃ phase entries after, state.cleanups[index]? = some phase ∧
      clean state outcome phase = some (entries, after) ∧
      next = { state with
        entries := entries
        cleanups := state.cleanups.set index after } := by
  unfold step at stepped
  dsimp only at stepped
  split at stepped
  · cases stepped
  · rename_i phase found
    obtain ⟨⟨entries, after⟩, cleaned, rfl⟩ :=
      Option.map_eq_some_iff.mp stepped
    exact ⟨phase, entries, after, found, cleaned, rfl⟩

theorem Invariant.spares (invariant : Invariant state) :
    Spares config state := by
  intro index outcome next stepped entry there gone
  obtain ⟨phase, entries, after, found, cleaned, rfl⟩ := step_clean stepped
  exact invariant.spared phase (List.mem_of_getElem? found) _
    ((clean_spec cleaned).1 entry there gone)

/-- The new targets of a cleanup are terminal. -/
theorem Invariant.clean (invariant : Invariant state) {index : Nat}
    {outcome : Outcome}
    (careful : Careful config state (.clean index outcome))
    (stepped : step config state (.clean index outcome) = some next) :
    Invariant next := by
  obtain ⟨phase, entries, after, found, cleaned, rfl⟩ := step_clean stepped
  have member := List.mem_of_getElem? found
  refine ⟨invariant.recorded, fun other standing attemptId target => ?_⟩
  rcases List.mem_or_eq_of_mem_set standing with old | rfl
  · exact invariant.spared other old attemptId target
  · rcases (clean_spec cleaned).2 attemptId target with
      before | ⟨metadata, recorded, terminal⟩ | ⟨plan, scanning, ok, orphan⟩
    · exact invariant.spared phase member attemptId before
    · rintro ⟨status, last, active⟩
      change state.status attemptId = some status at last
      rw [invariant.recorded _ recorded, terminal] at last
      cases last
      cases active
    · refine careful.2 attemptId ?_
      unfold swept
      dsimp only
      rw [found, scanning]
      dsimp only
      rw [if_pos ok]
      exact orphan

theorem Invariant.step {label : Label} (invariant : Invariant state)
    (careful : Careful config state label)
    (stepped : DiskPressure.step config state label = some next) :
    Invariant next := by
  cases label with
  | leaseOffer attemptId nowMs freeBytes spoolPressure =>
    cases stepped
    unfold handleLeaseOffer
    split
    · exact invariant
    · rename_i welcome
      split
      · exact invariant.frame (List.Subset.refl _) rfl (List.Subset.refl _)
      · rename_i free
        have attempted : Invariant { state with
            attempts := attemptId :: state.attempts.erase attemptId } :=
          invariant.frame (List.Subset.refl _) rfl (List.Subset.refl _)
        refine (attempted.write ?_).frame (List.Subset.refl _) rfl
          (List.Subset.refl _)
        refine careful.1 (attemptId, acceptedMetadata nowMs) ?_
        exact if_pos ⟨welcome, free⟩
  | change attemptId change nowMs =>
    cases stepped
    cases applied : change.apply nowMs (state.record attemptId) with
    | none =>
      exact invariant.frame (List.Subset.refl _) rfl (List.Subset.refl _)
    | some metadata =>
      refine Invariant.frame (invariant.write ?_) (List.Subset.refl _) rfl
        (List.Subset.refl _)
      refine careful.1 (attemptId, metadata) ?_
      exact congrArg (Option.map (attemptId, ·)) applied
  | put entry =>
    cases stepped
    exact invariant.frame (List.Subset.refl _) rfl (List.Subset.refl _)
  | drop attemptId file =>
    cases stepped
    exact invariant.frame (List.Subset.refl _) rfl (List.Subset.refl _)
  | clear attemptId =>
    cases stepped
    exact invariant.frame (List.Subset.refl _) rfl (List.Subset.refl _)
  | reject attemptId =>
    cases stepped
    exact invariant.frame (List.Subset.refl _) rfl (List.Subset.refl _)
  | remove attemptId =>
    obtain ⟨-, removed⟩ := Option.ite_none_right_eq_some.mp stepped
    cases removed
    exact invariant.frame (fun _ => List.mem_of_mem_filter) rfl
      (List.Subset.refl _)
  | applyDiskPressureCleanup options =>
    unfold DiskPressure.step at stepped
    dsimp only at stepped
    split at stepped
    · cases stepped
      exact invariant
    · cases stepped
      refine ⟨invariant.recorded, fun phase member attemptId target => ?_⟩
      rcases List.mem_append.mp member with old | new
      · exact invariant.spared phase old attemptId target
      · rw [List.mem_singleton] at new
        subst new
        cases target
  | clean index outcome => exact invariant.clean careful stepped

theorem invariant_start : Invariant start :=
  ⟨nofun, nofun⟩

/-- In a run whose steps keep them apart, no cleanup removes anything of an
attempt that is not terminal. -/
theorem live_attempts_spared (config : Config) (state : State)
    (reachable : (machine config).Reachable (Careful config) state) :
    Spares config state := by
  have invariant : Invariant state := by
    refine reachable.invariant ?_ ?_
    · rintro _ rfl
      exact invariant_start
    · exact fun _ _ _ invariant careful stepped =>
        invariant.step careful stepped
  exact invariant.spares

end Steps

/-! ## An old attempt and a live one -/

def twoJobs : Config := ⟨2, some 10⟩

def pressure : CleanupOptions := ⟨10, 0, false, 10, 100⟩

def oldAttempt : AttemptId := ['o']

def liveAttempt : AttemptId := ['l']

def stagedFile : FileName := ['f']

/-- What an operation meets that succeeds, or ends a removal. -/
def succeeds : Outcome := ⟨true, [], none⟩

/-- `rm` comes to the file. -/
def removesFile : Outcome := ⟨true, [], some stagedFile⟩

/-- The old attempt stages a file and is terminated. -/
def oldLabels : List Label :=
  [.leaseOffer oldAttempt 0 none false,
    .put ⟨.artifacts, oldAttempt, some stagedFile⟩,
    .change oldAttempt .expired 0, .clear oldAttempt]

/-- The live attempt is accepted and stages a file. -/
def liveLabels : List Label :=
  [.leaseOffer liveAttempt 100 (some 20) false,
    .change liveAttempt .running 100, .change liveAttempt .completed 100,
    .put ⟨.artifacts, liveAttempt, some stagedFile⟩]

/-- A cleanup reads the metadata, and begins to remove the artifacts of the old
attempt. -/
def cleanupLabels : List Label :=
  [.applyDiskPressureCleanup pressure, .clean 0 succeeds, .clean 0 succeeds,
    .clean 0 succeeds]

/-- The live attempt is there before the cleanup. -/
def cleaning : State :=
  ((machine twoJobs).run start
    (oldLabels ++ liveLabels ++ cleanupLabels)).getD start

theorem cleaning_meets : (machine twoJobs).runMeets
    (fun state label => decide (Careful twoJobs state label)) start
    (oldLabels ++ liveLabels ++ cleanupLabels) = true := by
  decide +kernel

theorem live_attempts_spared_cleaning :
    (∃ next, step twoJobs cleaning (.clean 0 removesFile) = some next ∧
      (⟨.artifacts, oldAttempt, some stagedFile⟩ : Entry) ∈ cleaning.entries ∧
      (⟨.artifacts, oldAttempt, some stagedFile⟩ : Entry) ∉ next.entries) ∧
    NonTerminal cleaning liveAttempt ∧ Spares twoJobs cleaning := by
  refine ⟨⟨(step twoJobs cleaning (.clean 0 removesFile)).getD start, rfl,
    by decide +kernel, by decide +kernel⟩, by decide +kernel, ?_⟩
  exact live_attempts_spared twoJobs cleaning ⟨start, rfl,
    Machine.steps_of_run (fun state label => decide (Careful twoJobs state label))
      (fun _ _ => of_decide_eq_true) cleaning_meets rfl⟩

/-- The live attempt is accepted while the cleanup removes the artifacts of the
old one; the sweep finds its artifacts and does not know it. -/
def sweepLabels : List Label :=
  oldLabels ++ cleanupLabels ++ liveLabels ++
    [.clean 0 removesFile, .clean 0 succeeds, .clean 0 succeeds,
      .clean 0 succeeds, .clean 0 succeeds]

def sweeping : State :=
  ((machine twoJobs).run start sweepLabels).getD start

theorem live_artifact_removed :
    ∃ state, (machine twoJobs).Reachable (fun _ _ => True) state ∧
      ¬ Spares twoJobs state := by
  have ran : (machine twoJobs).run start sweepLabels = some sweeping := rfl
  refine ⟨sweeping, Machine.reachable_of_run rfl ran, fun spares => ?_⟩
  have stepped : step twoJobs sweeping (.clean 0 removesFile) =
      some ((step twoJobs sweeping (.clean 0 removesFile)).getD start) := rfl
  have live : NonTerminal sweeping liveAttempt := by decide +kernel
  exact spares 0 removesFile _ stepped
    ⟨.artifacts, liveAttempt, some stagedFile⟩ (by decide +kernel)
    (by decide +kernel) live

end Rbo.Agent.DiskPressure
