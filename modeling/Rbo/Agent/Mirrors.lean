import Mathlib.Data.List.Nodup
import Rbo.Foundation.Family
import Rbo.Foundation.Texts

/-!
# The mirrors of repositories

An agent keeps a bare mirror for each repository, with a count of the worktrees
that were made of it.  Fetches and changes of the count take their turns under
a mutex; `git worktree` itself runs outside of it.  Two evictors remove the
directories of mirrors that look idle: they read the count at one time and
remove the directory at a later one, under no mutex.

The operations on one mirror are a machine here, and the agent is a family of
them.
-/

namespace Rbo.Agent.Mirrors

open Rbo.Foundation

/-! ## The directory of a mirror -/

abbrev Path := List Char

/-- What `metadata.json` says of the use of a mirror. -/
structure MirrorMetadata where
  activeWorktreeCount : Nat
  lastUsedAt : Nat
  deriving DecidableEq

/-- The directory of a repository.  The worktrees are those that are registered
in the mirror. -/
structure RepoDir where
  mirror : Bool
  worktrees : List Path
  metadata : Option MirrorMetadata
  fetchLock : Bool
  deriving DecidableEq

/-- The recorded count, zero without a record. -/
def RepoDir.count (dir : RepoDir) : Nat :=
  dir.metadata.elim 0 MirrorMetadata.activeWorktreeCount

def RepoDir.writeMetadata (dir : RepoDir) (count nowMs : Nat) : RepoDir :=
  { dir with metadata := some ⟨count, nowMs⟩ }

/-! ## The tasks -/

/-- `ensureMirror`, `fetchRefs` and `importBundle`, which differ in the number
of their Git commands. -/
inductive FetchStage where
  /-- In `withRepoMutex`, before its turn. -/
  | waiting (commands : Nat)
  /-- About to open `fetch.lock` with `wx`. -/
  | locking (commands : Nat)
  /-- About to clone the mirror if there is none. -/
  | initializing (commands : Nat)
  | running (commands : Nat)
  /-- In `touchMetadata`, about to read. -/
  | touching
  | writing (count : Nat)
  | unlocking
  deriving DecidableEq

/-- A change of the count in `withRepoMutex`. -/
inductive CountStage where
  | waiting
  | reading
  /-- In `touchMetadata`, which reads the other fields. -/
  | touching (current : Nat)
  | writing (current : Nat)
  deriving DecidableEq

inductive CreateStage where
  /-- About to look for the mirror. -/
  | checking
  /-- About to run `git worktree add`. -/
  | adding
  | counting (stage : CountStage)
  deriving DecidableEq

inductive RemoveStage where
  /-- About to run `git worktree remove`. -/
  | removing
  /-- About to run `git worktree prune`. -/
  | pruning
  | counting (stage : CountStage)
  deriving DecidableEq

/-- `evictMirrors`, and the step of `applyDiskPressureCleanup` that evicts
repositories. -/
inductive Evictor where
  | mirrors
  | diskPressure
  deriving DecidableEq

inductive EvictStage where
  /-- About to read the metadata. -/
  | reading
  /-- About to look for `fetch.lock`. -/
  | lockChecking (lastUsedAt : Nat)
  /-- A candidate that awaits the end of the scan, or the look at its path. -/
  | candidate (lastUsedAt : Nat)
  /-- In the recursive `rm` of the directory. -/
  | deleting
  deriving DecidableEq

inductive Task where
  | fetch (stage : FetchStage)
  | create (path : Path) (stage : CreateStage)
  | remove (path : Path) (stage : RemoveStage)
  | evict (evictor : Evictor) (stage : EvictStage)
  deriving DecidableEq

/-- What `rm` finds in the directory. -/
inductive Piece where
  | mirror
  | metadata
  | fetchLock
  deriving DecidableEq

/-- What an operation meets: whether its Git command succeeds or the path is
there, the clock, the sizes that an evictor measures, and the next piece of a
removal. -/
structure Outcome where
  ok : Bool
  nowMs : Nat
  totalBytes : Nat
  freeBytes : Option Nat
  piece : Option Piece
  deriving DecidableEq

structure RepoCacheConfig where
  maxSizeGb : Nat
  minFreeDiskGb : Nat
  retentionDays : Nat
  /-- The retention of the cleanup under disk pressure. -/
  retentionMs : Nat
  deriving DecidableEq

def gigabyte : Nat := 1073741824

/-- `evictMirrors` evicts every candidate when the cache is too large or the
disk too full, and else those that are past their retention. -/
def selects (config : RepoCacheConfig) (outcome : Outcome)
    (lastUsedAt : Nat) : Bool :=
  config.maxSizeGb * gigabyte < outcome.totalBytes ||
    outcome.freeBytes.any (· < config.minFreeDiskGb * gigabyte) ||
    lastUsedAt + config.retentionDays * 24 * 60 * 60 * 1000 < outcome.nowMs

/-- The directory after a piece is gone; the registered worktrees go with the
mirror. -/
def RepoDir.lose (dir : RepoDir) : Piece → RepoDir
  | .mirror => { dir with mirror := false, worktrees := [] }
  | .metadata => { dir with metadata := none }
  | .fetchLock => { dir with fetchLock := false }

/-- Nothing is left for `rm`. -/
def RepoDir.empty (dir : RepoDir) : Bool :=
  !dir.mirror && dir.metadata.isNone && !dir.fetchLock

section Advance

variable (config : RepoCacheConfig) (dir : RepoDir) (outcome : Outcome)

/-- The next operation of a fetch. -/
def advanceFetch : FetchStage → RepoDir × Option FetchStage
  | .waiting commands => (dir, some (.locking commands))
  | .locking commands =>
    -- `EEXIST` when the lock is there.
    if dir.fetchLock then (dir, none)
    else ({ dir with fetchLock := true }, some (.initializing commands))
  | .initializing commands =>
    if dir.mirror then (dir, some (.running commands))
    else if outcome.ok then
      ({ dir with mirror := true }, some (.running commands))
    else (dir, some .touching)
  | .running 0 => (dir, some .touching)
  | .running (commands + 1) =>
    (dir, some (if outcome.ok then .running commands else .touching))
  | .touching => (dir, some (.writing dir.count))
  | .writing count => (dir.writeMetadata count outcome.nowMs, some .unlocking)
  | .unlocking => ({ dir with fetchLock := false }, none)

/-- The next operation of a change of the count, from what counts without a
record. -/
def advanceCount (unrecorded : Nat) (change : Nat → Nat) :
    CountStage → RepoDir × Option CountStage
  | .waiting => (dir, some .reading)
  | .reading =>
    (dir, some (.touching
      (dir.metadata.elim unrecorded MirrorMetadata.activeWorktreeCount)))
  | .touching current => (dir, some (.writing current))
  | .writing current =>
    (dir.writeMetadata (change current) outcome.nowMs, none)

def advanceCreate (path : Path) : CreateStage → RepoDir × Option CreateStage
  | .checking => (dir, if dir.mirror then some .adding else none)
  | .adding =>
    if outcome.ok && dir.mirror && path ∉ dir.worktrees then
      ({ dir with worktrees := path :: dir.worktrees },
        some (.counting .waiting))
    else (dir, none)
  | .counting stage =>
    let result := advanceCount dir outcome 0 (· + 1) stage
    (result.1, result.2.map .counting)

def advanceRemove (path : Path) : RemoveStage → RepoDir × Option RemoveStage
  | .removing =>
    if outcome.ok && dir.mirror && path ∈ dir.worktrees then
      ({ dir with worktrees := dir.worktrees.erase path }, some .pruning)
    else (dir, none)
  | .pruning => (dir, if outcome.ok then some (.counting .waiting) else none)
  | .counting stage =>
    let result := advanceCount dir outcome 1 (· - 1) stage
    (result.1, result.2.map .counting)

/-- What an evictor makes of the metadata that it reads. -/
def readForEviction (evictor : Evictor) : Option EvictStage :=
  dir.metadata.bind fun metadata =>
    if 0 < metadata.activeWorktreeCount then none
    else
      match evictor with
      | .mirrors => some (.lockChecking metadata.lastUsedAt)
      | .diskPressure =>
        if outcome.nowMs < metadata.lastUsedAt + config.retentionMs then none
        else some (.candidate metadata.lastUsedAt)

/-- A candidate that is removed after all. -/
def goesOn (evictor : Evictor) (lastUsedAt : Nat) : Bool :=
  match evictor with
  | .mirrors => selects config outcome lastUsedAt
  -- `removePath` looks whether the path is there.
  | .diskPressure => outcome.ok

def advanceEvict (evictor : Evictor) :
    EvictStage → Option (RepoDir × Option EvictStage)
  | .reading => some (dir, readForEviction config dir outcome evictor)
  | .lockChecking lastUsedAt =>
    some (dir, if dir.fetchLock then none else some (.candidate lastUsedAt))
  | .candidate lastUsedAt =>
    some (dir, if goesOn config outcome evictor lastUsedAt then some .deleting
      else none)
  | .deleting =>
    match outcome.piece with
    | some piece => some (dir.lose piece, some .deleting)
    | none => if dir.empty then some (dir, none) else none

/-- The next operation of a task. -/
def advance : Task → Option (RepoDir × Option Task)
  | .fetch stage =>
    let result := advanceFetch dir outcome stage
    some (result.1, result.2.map .fetch)
  | .create path stage =>
    let result := advanceCreate dir outcome path stage
    some (result.1, result.2.map (.create path))
  | .remove path stage =>
    let result := advanceRemove dir outcome path stage
    some (result.1, result.2.map (.remove path))
  | .evict evictor stage =>
    (advanceEvict config dir outcome evictor stage).map fun result =>
      (result.1, result.2.map (.evict evictor))

end Advance

/-! ## The machine -/

namespace CountStage

/-- Inside `withRepoMutex`. -/
def inside : CountStage → Bool
  | .waiting => false
  | _ => true

/-- The count that was read. -/
def current : CountStage → Option Nat
  | .touching current => some current
  | .writing current => some current
  | _ => none

end CountStage

namespace Task

/-- Inside `withRepoMutex`. -/
def inside : Task → Bool
  | .fetch (.waiting _) => false
  | .fetch _ => true
  | .create _ (.counting stage) => stage.inside
  | .remove _ (.counting stage) => stage.inside
  | _ => false

/-- Before its turn in `withRepoMutex`. -/
def waits : Task → Bool
  | .fetch (.waiting _) => true
  | .create _ (.counting .waiting) => true
  | .remove _ (.counting .waiting) => true
  | _ => false

def fetches : Task → Bool
  | .fetch _ => true
  | _ => false

def creates : Task → Bool
  | .create _ _ => true
  | _ => false

/-- The worktree that is registered and not yet counted. -/
def added : Task → Option Path
  | .create path (.counting _) => some path
  | _ => none

/-- A worktree is removed and still counted. -/
def drops : Task → Bool
  | .remove _ .removing => false
  | .remove _ _ => true
  | _ => false

/-- The count that the task has read. -/
def current : Task → Option Nat
  | .fetch (.writing count) => some count
  | .create _ (.counting stage) => stage.current
  | .remove _ (.counting stage) => stage.current
  | _ => none

/-- An evictor that has found no worktrees. -/
def found : Task → Bool
  | .evict _ .reading => false
  | .evict _ _ => true
  | _ => false

/-- An evictor that looks at nothing any more. -/
def sure : Task → Bool
  | .evict _ (.candidate _) => true
  | .evict _ .deleting => true
  | _ => false

end Task

structure State where
  dir : RepoDir
  tasks : List Task
  deriving DecidableEq

/-- A call that starts. -/
inductive Call where
  | fetch (commands : Nat)
  | createWorktree (path : Path)
  | removeWorktree (path : Path)
  | evict (evictor : Evictor)
  deriving DecidableEq

def Call.task : Call → Task
  | .fetch commands => .fetch (.waiting commands)
  | .createWorktree path => .create path .checking
  | .removeWorktree path => .remove path .removing
  | .evict evictor => .evict evictor .reading

inductive Label where
  | start (call : Call)
  | proceed (task : Task) (outcome : Outcome)
  deriving DecidableEq

/-- The operations on one mirror, in any order. -/
def machine (config : RepoCacheConfig) : Machine State Label where
  initial state :=
    state = { dir := ⟨false, [], none, false⟩, tasks := [] }
  step state
    | .start call => some { state with tasks := call.task :: state.tasks }
    | .proceed task outcome =>
      if task ∉ state.tasks then none
      else if task.waits && state.tasks.any Task.inside then none
      else
        (advance config state.dir outcome task).map fun result =>
          { dir := result.1, tasks := succeed state.tasks task result.2 }

/-! ## What is asked of a mirror -/

/-- The worktrees that are registered and not under creation. -/
def settled (state : State) : List Path :=
  state.dir.worktrees.filter fun path =>
    path ∉ state.tasks.filterMap Task.added

/-- A worktree is live from the end of its creation to the end of its
removal. -/
def live (state : State) : Nat :=
  (settled state).length + state.tasks.countP Task.drops

/-- The recorded count is that of the live worktrees, and what an evictor
deletes has no worktree, no fetch and no creation of one. -/
structure Kept (state : State) : Prop where
  counted : state.dir.count = live state
  spared : ∀ evictor, .evict evictor .deleting ∈ state.tasks →
    state.dir.worktrees = [] ∧ live state = 0 ∧
      ∀ task ∈ state.tasks, task.fetches = false ∧ task.creates = false

/-- The steps that leave the evictors and the count alone: no fetch and no
creation starts behind the back of an evictor that has found no worktrees; an
evictor finds none, and no fetch lock, only while none is under way; a worktree
is removed when its creation has ended, and the prune behind it succeeds. -/
def Careful (config : RepoCacheConfig) (state : State) : Label → Prop
  | .start (.fetch _) => ∀ task ∈ state.tasks, task.found = false
  | .start (.createWorktree _) => ∀ task ∈ state.tasks, task.found = false
  | .start _ => True
  | .proceed (.evict evictor .reading) outcome =>
    readForEviction config state.dir outcome evictor ≠ none →
      ∀ task ∈ state.tasks, task.creates = false ∧
        (evictor = .diskPressure → task.fetches = false)
  | .proceed (.evict _ (.lockChecking _)) _ =>
    state.dir.fetchLock = false →
      ∀ task ∈ state.tasks, task.fetches = false
  | .proceed (.remove path .removing) _ =>
    path ∉ state.tasks.filterMap Task.added
  | .proceed (.remove _ .pruning) outcome => outcome.ok = true
  | .proceed _ _ => True

/-! ## The invariant -/

section Invariant

variable {config : RepoCacheConfig} {dir : RepoDir} {outcome : Outcome}
  {tasks rest : List Task} {old new : Task}

/-- One task at a time is inside the mutex, and what it has read is still the
count; the count and the worktrees differ by what is under way; and an evictor
that has found no worktrees is still right. -/
structure Exact (dir : RepoDir) (tasks : List Task) : Prop where
  single : tasks.countP Task.inside ≤ 1
  distinct : (tasks.filterMap Task.added).Nodup
  registered : ∀ path ∈ tasks.filterMap Task.added, path ∈ dir.worktrees
  worktrees : dir.worktrees.Nodup
  counted : dir.count + (tasks.filterMap Task.added).length =
    dir.worktrees.length + tasks.countP Task.drops
  current : ∀ task ∈ tasks, ∀ count, task.current = some count →
    count = dir.count
  found : ∀ task ∈ tasks, task.found = true →
    dir.count = 0 ∧ tasks.countP Task.creates = 0 ∧
      tasks.countP Task.drops = 0
  sure : ∀ task ∈ tasks, task.sure = true → tasks.countP Task.fetches = 0

/-- The order of the tasks does not matter. -/
theorem Exact.perm (exact : Exact dir tasks) (same : tasks.Perm rest) :
    Exact dir rest where
  single := by
    rw [← same.countP_eq]
    exact exact.single
  distinct := (same.filterMap _).nodup_iff.mp exact.distinct
  registered path member :=
    exact.registered path ((same.filterMap _).mem_iff.mpr member)
  worktrees := exact.worktrees
  counted := by
    rw [← same.countP_eq, ← (same.filterMap Task.added).length_eq]
    exact exact.counted
  current task member := exact.current task (same.mem_iff.mpr member)
  found := by
    intro task member
    rw [← same.countP_eq, ← same.countP_eq]
    exact exact.found task (same.mem_iff.mpr member)
  sure := by
    intro task member
    rw [← same.countP_eq]
    exact exact.sure task (same.mem_iff.mpr member)

/-- Worktrees that are added are worktrees. -/
theorem Exact.added_le (exact : Exact dir tasks) :
    (tasks.filterMap Task.added).length ≤ dir.worktrees.length :=
  exact.distinct.length_le_of_subset exact.registered

theorem inside_of_current {task : Task} {count : Nat}
    (current : task.current = some count) : task.inside = true := by
  cases task with
  | fetch stage => cases stage <;> first | rfl | cases current
  | create path stage =>
    cases stage with
    | counting stage => cases stage <;> first | rfl | cases current
    | _ => cases current
  | remove path stage =>
    cases stage with
    | counting stage => cases stage <;> first | rfl | cases current
    | _ => cases current
  | evict evictor stage => cases current

theorem creates_of_added {task : Task} {path : Path}
    (added : task.added = some path) : task.creates = true := by
  cases task with
  | create other stage => rfl
  | _ => cases added

theorem added_eq_nil (none_ : tasks.countP Task.creates = 0) :
    tasks.filterMap Task.added = [] := by
  rw [List.filterMap_eq_nil_iff]
  intro task member
  by_contra some_
  obtain ⟨path, added⟩ := Option.ne_none_iff_exists'.mp some_
  exact List.countP_eq_zero.mp none_ task member (creates_of_added added)

/-- An evictor that has found no worktrees finds none registered. -/
theorem Exact.worktrees_eq_nil (exact : Exact dir tasks) {task : Task}
    (member : task ∈ tasks) (found : task.found = true) :
    dir.worktrees = [] := by
  obtain ⟨count, creates, drops⟩ := exact.found task member found
  have counted := exact.counted
  rw [count, drops, added_eq_nil creates, List.length_nil] at counted
  exact List.length_eq_zero_iff.mp (by omega)

/-- The tasks beside one that is inside have read nothing. -/
theorem Exact.alone (exact : Exact dir (old :: rest))
    (inside : old.inside = true) {task : Task} (member : task ∈ rest) :
    task.current = none := by
  by_contra some_
  obtain ⟨count, current⟩ := Option.ne_none_iff_exists'.mp some_
  have single := exact.single
  rw [List.countP_cons_of_pos inside] at single
  have other : 0 < rest.countP Task.inside :=
    List.countP_pos_iff.mpr ⟨task, member, inside_of_current current⟩
  omega

/-- Of the tasks that follow one another in a step. -/
structure Follows (dir : RepoDir) (rest : List Task) (old : Task)
    (next : Option Task) : Prop where
  inside : next.any Task.inside = true →
    old.inside = true ∨ rest.countP Task.inside = 0
  current : ∀ task count, next = some task → task.current = some count →
    count = dir.count
  creates : next.any Task.creates = true → old.creates = true
  fetches : next.any Task.fetches = true → old.fetches = true
  found : ∀ task, next = some task → task.found = true →
    dir.count = 0 ∧ next.any Task.creates = false ∧
      next.any Task.drops = false ∧ rest.countP Task.creates = 0 ∧
      rest.countP Task.drops = 0
  sure : ∀ task, next = some task → task.sure = true →
    next.any Task.fetches = false ∧ rest.countP Task.fetches = 0

theorem ite_le_ite {first second : Bool} (imp : first = true → second = true) :
    (if first = true then 1 else 0) ≤ if second = true then 1 else 0 := by
  cases first with
  | false => exact Nat.zero_le _
  | true => exact Nat.le_of_eq (by rw [imp rfl])

theorem Exact.single_next (exact : Exact dir (old :: rest))
    {next : Option Task} (follows : Follows dir rest old next) :
    (next.toList ++ rest).countP Task.inside ≤ 1 := by
  have single := exact.single
  rw [List.countP_cons] at single
  rw [countP_successor]
  by_cases enters : next.any Task.inside = true
  · rcases follows.inside enters with inside | free
    · rw [if_pos inside] at single
      rw [if_pos enters]
      omega
    · exact Nat.le_of_eq (by rw [if_pos enters, free])
  · rw [if_neg enters]
    omega

/-- Nothing that counts worktrees changes. -/
theorem Exact.quiet (exact : Exact dir (old :: rest)) {left : RepoDir}
    {next : Option Task} (follows : Follows dir rest old next)
    (worktrees : left.worktrees = dir.worktrees)
    (count : left.count = dir.count)
    (added : next.bind Task.added = old.added)
    (drops : next.any Task.drops = old.drops) :
    Exact left (next.toList ++ rest) := by
  have before : ∀ counts : Task → Bool, (old :: rest).countP counts =
      (if counts old then 1 else 0) + rest.countP counts := by
    intro counts
    rw [List.countP_cons, Nat.add_comm]
  have same : (next.toList ++ rest).filterMap Task.added =
      (old :: rest).filterMap Task.added := by
    rw [filterMap_successor, added]
    exact (@filterMap_successor _ _ (some old) rest Task.added).symm
  have fewer : ∀ counts : Task → Bool,
      (next.any counts = true → counts old = true) →
      (old :: rest).countP counts = 0 →
      (next.toList ++ rest).countP counts = 0 := by
    intro counts kept none_
    have small := ite_le_ite kept
    rw [before] at none_
    rw [countP_successor]
    omega
  refine ⟨exact.single_next follows, ?_, ?_, ?_, ?_, ?_, ?_, ?_⟩
  · rw [same]
    exact exact.distinct
  · rw [same, worktrees]
    exact exact.registered
  · rw [worktrees]
    exact exact.worktrees
  · rw [same, worktrees, count, countP_successor, drops, ← before]
    exact exact.counted
  · intro task member value current
    rw [count]
    rcases mem_successor.mp member with new | other
    · exact follows.current task value new current
    · exact exact.current task (List.mem_cons_of_mem _ other) value current
  · intro task member found
    rw [count]
    rcases mem_successor.mp member with new | other
    · obtain ⟨zero, noCreate, noDrop, creates, drop⟩ :=
        follows.found task new found
      rw [countP_successor, countP_successor, noCreate, noDrop, creates, drop]
      exact ⟨zero, rfl, rfl⟩
    · obtain ⟨zero, creates, drop⟩ :=
        exact.found task (List.mem_cons_of_mem _ other) found
      exact ⟨zero, fewer _ follows.creates creates,
        fewer _ (fun dropping => by rw [← drops]; exact dropping) drop⟩
  · intro task member sure
    rcases mem_successor.mp member with new | other
    · obtain ⟨noFetch, fetches⟩ := follows.sure task new sure
      rw [countP_successor, noFetch, fetches]
      rfl
    · exact fewer _ follows.fetches
        (exact.sure task (List.mem_cons_of_mem _ other) sure)

/-- No evictor has found an idle mirror where a worktree is under way. -/
theorem Exact.unfound (exact : Exact dir (old :: rest))
    (busy : old.creates = true ∨ old.drops = true) {task : Task}
    (member : task ∈ rest) : task.found = false := by
  by_contra found
  rw [Bool.not_eq_false] at found
  obtain ⟨-, creates, drops⟩ :=
    exact.found task (List.mem_cons_of_mem _ member) found
  rcases busy with create | drop
  · exact List.countP_eq_zero.mp creates old List.mem_cons_self create
  · exact List.countP_eq_zero.mp drops old List.mem_cons_self drop

/-- `git worktree add` has succeeded. -/
theorem Exact.add {path : Path}
    (exact : Exact dir (.create path .adding :: rest))
    (fresh : path ∉ dir.worktrees) :
    Exact { dir with worktrees := path :: dir.worktrees }
      (.create path (.counting .waiting) :: rest) := by
  have unadded : path ∉ rest.filterMap Task.added :=
    fun member => fresh (exact.registered path member)
  refine ⟨exact.single, ?_, ?_, ?_, ?_, ?_, ?_, ?_⟩
  · exact List.nodup_cons.mpr ⟨unadded, exact.distinct⟩
  · intro other member
    rcases List.mem_cons.mp member with rfl | old
    · exact List.mem_cons_self
    · exact List.mem_cons_of_mem _ (exact.registered other old)
  · exact List.nodup_cons.mpr ⟨fresh, exact.worktrees⟩
  · have counted : dir.count + (rest.filterMap Task.added).length =
        dir.worktrees.length + rest.countP Task.drops := exact.counted
    change dir.count + ((rest.filterMap Task.added).length + 1) =
      dir.worktrees.length + 1 + rest.countP Task.drops
    omega
  · intro task member
    rcases List.mem_cons.mp member with rfl | other
    · nofun
    · exact exact.current task (List.mem_cons_of_mem _ other)
  · intro task member found
    rcases List.mem_cons.mp member with rfl | other
    · cases found
    · rw [exact.unfound (.inl rfl) other] at found
      cases found
  · intro task member sure
    rcases List.mem_cons.mp member with rfl | other
    · cases sure
    · exact exact.sure task (List.mem_cons_of_mem _ other) sure

/-- `git worktree remove` has succeeded on a worktree whose creation has
ended. -/
theorem Exact.drop {path : Path}
    (exact : Exact dir (.remove path .removing :: rest))
    (there : path ∈ dir.worktrees)
    (unadded : path ∉ rest.filterMap Task.added) :
    Exact { dir with worktrees := dir.worktrees.erase path }
      (.remove path .pruning :: rest) := by
  have unfound : ∀ task ∈ rest, task.found = false := by
    intro task member
    by_contra found
    rw [Bool.not_eq_false] at found
    rw [exact.worktrees_eq_nil (List.mem_cons_of_mem _ member) found] at there
    cases there
  refine ⟨exact.single, exact.distinct, ?_, exact.worktrees.erase path, ?_,
    ?_, ?_, ?_⟩
  · intro other member
    have different : other ≠ path := fun same => unadded (same ▸ member)
    exact (List.mem_erase_of_ne different).mpr (exact.registered other member)
  · have counted : dir.count + (rest.filterMap Task.added).length =
        dir.worktrees.length + rest.countP Task.drops := exact.counted
    have positive := List.length_pos_of_mem there
    rw [List.countP_cons_of_pos rfl]
    change dir.count + (rest.filterMap Task.added).length =
      (dir.worktrees.erase path).length + (rest.countP Task.drops + 1)
    rw [List.length_erase_of_mem there]
    omega
  · intro task member
    rcases List.mem_cons.mp member with rfl | other
    · nofun
    · exact exact.current task (List.mem_cons_of_mem _ other)
  · intro task member found
    rcases List.mem_cons.mp member with rfl | other
    · cases found
    · rw [unfound task other] at found
      cases found
  · intro task member sure
    rcases List.mem_cons.mp member with rfl | other
    · cases sure
    · exact exact.sure task (List.mem_cons_of_mem _ other) sure

/-- A changed count is written, and the change of the worktrees is over. -/
theorem Exact.settle (exact : Exact dir (old :: rest))
    (inside : old.inside = true)
    (busy : old.creates = true ∨ old.drops = true) {count nowMs : Nat}
    (counted : count + (rest.filterMap Task.added).length =
      dir.worktrees.length + rest.countP Task.drops) :
    Exact (dir.writeMetadata count nowMs) rest := by
  have sub : rest.Sublist (old :: rest) := List.sublist_cons_self old rest
  refine ⟨?_, exact.distinct.sublist (sub.filterMap _), ?_, exact.worktrees,
    counted, ?_, ?_, ?_⟩
  · exact Nat.le_trans (sub.countP_le) exact.single
  · intro path member
    exact exact.registered path ((sub.filterMap _).subset member)
  · intro task member value current
    rw [exact.alone inside member] at current
    cases current
  · intro task member found
    rw [exact.unfound busy member] at found
    cases found
  · intro task member sure
    have none_ := exact.sure task (List.mem_cons_of_mem _ member) sure
    exact Nat.le_zero.mp (none_ ▸ sub.countP_le)

/-- A worktree under removal is still in the count. -/
theorem Exact.count_pos (exact : Exact dir (old :: rest))
    (drops : old.drops = true) : 0 < dir.count := by
  have counted := exact.counted
  have added := exact.added_le
  rw [List.countP_cons_of_pos drops] at counted
  omega

/-- A task goes on, or ends, without a count, an eviction or a change of the
mutex. -/
theorem follows_plain {next : Option Task}
    (inside : ∀ task, next = some task → task.inside = true →
      old.inside = true ∨ rest.countP Task.inside = 0)
    (current : ∀ task, next = some task → ∀ count,
      task.current = some count → count = dir.count)
    (creates : ∀ task, next = some task → task.creates = old.creates)
    (fetches : ∀ task, next = some task → task.fetches = old.fetches)
    (found : ∀ task, next = some task → task.found = false ∧
      task.sure = false) : Follows dir rest old next := by
  have some_ : ∀ counts : Task → Bool, next.any counts = true →
      ∃ task, next = some task ∧ counts task = true :=
    fun counts any => (Option.any_eq_true counts next).mp any
  refine ⟨?_, fun task count is => current task is count, ?_, ?_, ?_, ?_⟩
  · intro any
    obtain ⟨task, is, enters⟩ := some_ _ any
    exact inside task is enters
  · intro any
    obtain ⟨task, is, create⟩ := some_ _ any
    exact creates task is ▸ create
  · intro any
    obtain ⟨task, is, fetch⟩ := some_ _ any
    exact fetches task is ▸ fetch
  · intro task is isFound
    rw [(found task is).1] at isFound
    cases isFound
  · intro task is isSure
    rw [(found task is).2] at isSure
    cases isSure

theorem advanceFetch_worktrees (stage : FetchStage) :
    (advanceFetch dir outcome stage).1.worktrees = dir.worktrees := by
  cases stage with
  | locking commands =>
    unfold advanceFetch
    dsimp only
    split <;> rfl
  | initializing commands =>
    unfold advanceFetch
    dsimp only
    split
    · rfl
    · split <;> rfl
  | running commands => cases commands <;> rfl
  | _ => rfl

/-- A fetch writes the count that it has read. -/
theorem advanceFetch_count {stage : FetchStage}
    (current : ∀ count, stage = .writing count → count = dir.count) :
    (advanceFetch dir outcome stage).1.count = dir.count := by
  cases stage with
  | locking commands =>
    unfold advanceFetch
    dsimp only
    split <;> rfl
  | initializing commands =>
    unfold advanceFetch
    dsimp only
    split
    · rfl
    · split <;> rfl
  | running commands => cases commands <;> rfl
  | writing count => exact current count rfl
  | _ => rfl

theorem advanceFetch_writing {stage : FetchStage} {count : Nat}
    (is : (advanceFetch dir outcome stage).2 = some (.writing count)) :
    count = dir.count := by
  cases stage with
  | touching =>
    cases is
    rfl
  | locking commands =>
    unfold advanceFetch at is
    dsimp only at is
    split at is <;> cases is
  | initializing commands =>
    unfold advanceFetch at is
    dsimp only at is
    split at is
    · cases is
    · split at is <;> cases is
  | running commands =>
    cases commands with
    | zero => cases is
    | succ commands =>
      unfold advanceFetch at is
      dsimp only at is
      split at is <;> cases is
  | _ => cases is

theorem Exact.fetch {stage : FetchStage}
    (exact : Exact dir (.fetch stage :: rest))
    (free : Task.waits (.fetch stage) = true →
      rest.countP Task.inside = 0) :
    Exact (advanceFetch dir outcome stage).1
      (((advanceFetch dir outcome stage).2.map Task.fetch).toList ++
        rest) := by
  have follows : Follows dir rest (.fetch stage)
      ((advanceFetch dir outcome stage).2.map Task.fetch) := by
    refine follows_plain ?_ ?_ ?_ ?_ ?_
    · intro task is _
      cases stage with
      | waiting => exact .inr (free rfl)
      | _ => exact .inl rfl
    · intro task is count current
      obtain ⟨after, there, rfl⟩ := Option.map_eq_some_iff.mp is
      cases after with
      | writing value =>
        cases current
        exact advanceFetch_writing there
      | _ => cases current
    all_goals
      intro task is
      obtain ⟨after, -, rfl⟩ := Option.map_eq_some_iff.mp is
    · rfl
    · rfl
    · exact ⟨rfl, rfl⟩
  refine exact.quiet follows (advanceFetch_worktrees stage)
    (advanceFetch_count ?_) ?_ ?_
  · rintro count rfl
    exact exact.current _ List.mem_cons_self count rfl
  · cases (advanceFetch dir outcome stage).2 <;> rfl
  · cases (advanceFetch dir outcome stage).2 <;> rfl

/-- The stages of a change of the count before it is written. -/
theorem Exact.count_stage {stage : CountStage} {make : CountStage → Task}
    {unrecorded : Nat} {change : Nat → Nat}
    (exact : Exact dir (make stage :: rest))
    (inside : ∀ stage, (make stage).inside = stage.inside)
    (current : ∀ stage, (make stage).current = stage.current)
    (added : ∀ stage other, (make stage).added = (make other).added)
    (drops : ∀ stage other, (make stage).drops = (make other).drops)
    (creates : ∀ stage other, (make stage).creates = (make other).creates)
    (fetches : ∀ stage other, (make stage).fetches = (make other).fetches)
    (unfound : ∀ stage, (make stage).found = false ∧
      (make stage).sure = false)
    (recorded : dir.metadata.elim unrecorded
      MirrorMetadata.activeWorktreeCount = dir.count)
    (free : stage = .waiting → rest.countP Task.inside = 0)
    (unwritten : ∀ value, stage ≠ .writing value) :
    Exact (advanceCount dir outcome unrecorded change stage).1
      (((advanceCount dir outcome unrecorded change stage).2.map
        make).toList ++ rest) := by
  have follows : ∀ after : CountStage,
      (stage.inside = true ∨ rest.countP Task.inside = 0) →
      (∀ count, after.current = some count → count = dir.count) →
      Follows dir rest (make stage) (some (make after)) := by
    intro after enters reads
    refine follows_plain ?_ ?_ ?_ ?_ ?_
    · rintro task ⟨⟩ -
      rw [inside]
      exact enters
    · rintro task ⟨⟩ count is
      rw [current] at is
      exact reads count is
    · rintro task ⟨⟩
      exact creates after stage
    · rintro task ⟨⟩
      exact fetches after stage
    · rintro task ⟨⟩
      exact unfound after
  have quiet : ∀ after : CountStage,
      (stage.inside = true ∨ rest.countP Task.inside = 0) →
      (∀ count, after.current = some count → count = dir.count) →
      Exact dir ((some (make after)).toList ++ rest) := by
    intro after enters reads
    exact exact.quiet (follows after enters reads) rfl rfl
      (added after stage) (drops after stage)
  cases stage with
  | waiting => exact quiet .reading (.inr (free rfl)) nofun
  | reading =>
    refine quiet (.touching _) (.inl rfl) ?_
    rintro count ⟨⟩
    exact recorded
  | touching value =>
    refine quiet (.writing value) (.inl rfl) ?_
    rintro count ⟨⟩
    refine exact.current _ List.mem_cons_self _ ?_
    rw [current]
    rfl
  | writing value => exact absurd rfl (unwritten value)

theorem Exact.create {path : Path} {stage : CreateStage}
    (exact : Exact dir (.create path stage :: rest))
    (free : Task.waits (.create path stage) = true →
      rest.countP Task.inside = 0) :
    Exact (advanceCreate dir outcome path stage).1
      (((advanceCreate dir outcome path stage).2.map
        (Task.create path)).toList ++ rest) := by
  -- The task ends, or it goes on before it has added a worktree.
  have plain : ∀ next : Option CreateStage,
      next = none ∨ next = some .adding →
      (Task.create path stage).added = none →
      Exact dir ((next.map (Task.create path)).toList ++ rest) := by
    intro next early unadded
    refine exact.quiet (follows_plain ?_ ?_ ?_ ?_ ?_) rfl rfl ?_ ?_
    all_goals rcases early with rfl | rfl
    · nofun
    · rintro task ⟨⟩ enters
      cases enters
    · nofun
    · rintro task ⟨⟩ count current
      cases current
    · nofun
    · rintro task ⟨⟩
      rfl
    · nofun
    · rintro task ⟨⟩
      rfl
    · nofun
    · rintro task ⟨⟩
      exact ⟨rfl, rfl⟩
    · exact unadded.symm
    · exact unadded.symm
    · rfl
    · rfl
  cases stage with
  | checking =>
    unfold advanceCreate
    dsimp only
    split
    · exact plain (some .adding) (.inr rfl) rfl
    · exact plain none (.inl rfl) rfl
  | adding =>
    unfold advanceCreate
    dsimp only
    split
    · rename_i succeeds
      rw [Bool.and_eq_true, decide_eq_true_eq] at succeeds
      exact exact.add succeeds.2
    · exact plain none (.inl rfl) rfl
  | counting stage =>
    by_cases writing : ∃ value, stage = .writing value
    · obtain ⟨value, rfl⟩ := writing
      have read := exact.current _ List.mem_cons_self value rfl
      have counted : dir.count + ((rest.filterMap Task.added).length + 1) =
          dir.worktrees.length + rest.countP Task.drops := exact.counted
      refine exact.settle rfl (.inl rfl) ?_
      dsimp only
      omega
    · have next := @Exact.count_stage dir outcome rest stage
        (fun stage => .create path (.counting stage)) 0 (· + 1) exact
        (fun _ => rfl) (fun _ => rfl) (fun _ _ => rfl) (fun _ _ => rfl)
        (fun _ _ => rfl) (fun _ _ => rfl) (fun _ => ⟨rfl, rfl⟩) rfl ?_ ?_
      · unfold advanceCreate
        dsimp only
        rw [Option.map_map]
        exact next
      · rintro rfl
        exact free rfl
      · exact fun value is => writing ⟨value, is⟩

theorem Exact.remove {path : Path} {stage : RemoveStage}
    (exact : Exact dir (.remove path stage :: rest))
    (free : Task.waits (.remove path stage) = true →
      rest.countP Task.inside = 0)
    (unadded : stage = .removing → path ∉ rest.filterMap Task.added)
    (prunes : stage = .pruning → outcome.ok = true) :
    Exact (advanceRemove dir outcome path stage).1
      (((advanceRemove dir outcome path stage).2.map
        (Task.remove path)).toList ++ rest) := by
  cases stage with
  | removing =>
    unfold advanceRemove
    dsimp only
    split
    · rename_i succeeds
      rw [Bool.and_eq_true, decide_eq_true_eq] at succeeds
      exact exact.drop succeeds.2 (unadded rfl)
    · have ended : Exact dir ((none : Option Task).toList ++ rest) :=
        exact.quiet (follows_plain nofun nofun nofun nofun nofun) rfl rfl
          rfl rfl
      exact ended
  | pruning =>
    unfold advanceRemove
    dsimp only
    rw [if_pos (prunes rfl)]
    have follows : Follows dir rest (.remove path .pruning)
        (some (.remove path (.counting .waiting))) := by
      refine follows_plain ?_ ?_ ?_ ?_ ?_
      · rintro task ⟨⟩ enters
        cases enters
      · rintro task ⟨⟩ count current
        cases current
      · rintro task ⟨⟩
        rfl
      · rintro task ⟨⟩
        rfl
      · rintro task ⟨⟩
        exact ⟨rfl, rfl⟩
    exact exact.quiet follows rfl rfl rfl rfl
  | counting stage =>
    have positive := exact.count_pos rfl
    by_cases writing : ∃ value, stage = .writing value
    · obtain ⟨value, rfl⟩ := writing
      have read := exact.current _ List.mem_cons_self value rfl
      have counted := exact.counted
      rw [List.countP_cons_of_pos rfl] at counted
      have same : dir.count + (rest.filterMap Task.added).length =
        dir.worktrees.length + (rest.countP Task.drops + 1) := counted
      refine exact.settle rfl (.inr rfl) ?_
      dsimp only
      omega
    · have next := @Exact.count_stage dir outcome rest stage
        (fun stage => .remove path (.counting stage)) 1 (· - 1) exact
        (fun _ => rfl) (fun _ => rfl) (fun _ _ => rfl) (fun _ _ => rfl)
        (fun _ _ => rfl) (fun _ _ => rfl) (fun _ => ⟨rfl, rfl⟩) ?_ ?_ ?_
      · unfold advanceRemove
        dsimp only
        rw [Option.map_map]
        exact next
      · unfold RepoDir.count at positive ⊢
        cases recorded : dir.metadata with
        | none =>
          rw [recorded] at positive
          exact absurd positive (Nat.lt_irrefl 0)
        | some metadata => rfl
      · rintro rfl
        exact free rfl
      · exact fun value is => writing ⟨value, is⟩

/-- An evictor that goes on has found no worktrees. -/
theorem follows_evict {evictor : Evictor} {stage after : EvictStage}
    (idle : dir.count = 0 ∧ rest.countP Task.creates = 0 ∧
      rest.countP Task.drops = 0)
    (sure : Task.sure (.evict evictor after) = true →
      rest.countP Task.fetches = 0) :
    Follows dir rest (.evict evictor stage) (some (.evict evictor after)) := by
  refine ⟨nofun, ?_, nofun, nofun, ?_, ?_⟩
  · rintro task count ⟨⟩ current
    cases current
  · rintro task ⟨⟩ -
    exact ⟨idle.1, rfl, rfl, idle.2⟩
  · rintro task ⟨⟩ isSure
    exact ⟨rfl, sure isSure⟩

/-- What an evictor reads before it goes on. -/
theorem readForEviction_cases {evictor : Evictor} {after : EvictStage}
    (is : readForEviction config dir outcome evictor = some after) :
    dir.count = 0 ∧
      (Task.sure (.evict evictor after) = true → evictor = .diskPressure) := by
  obtain ⟨metadata, recorded, goes⟩ := Option.bind_eq_some_iff.mp is
  obtain ⟨unused, goes⟩ := Option.ite_none_left_eq_some.mp goes
  refine ⟨?_, ?_⟩
  · unfold RepoDir.count
    rw [recorded]
    exact Nat.eq_zero_of_not_pos unused
  · intro sure
    cases evictor with
    | mirrors =>
      cases goes
      cases sure
    | diskPressure => rfl

theorem Exact.evict {evictor : Evictor} {stage : EvictStage}
    (exact : Exact dir (.evict evictor stage :: rest))
    (idle : stage = .reading →
      readForEviction config dir outcome evictor ≠ none →
      ∀ task ∈ rest, task.creates = false ∧
        (evictor = .diskPressure → task.fetches = false))
    (unlocked : ∀ lastUsedAt, stage = .lockChecking lastUsedAt →
      dir.fetchLock = false → ∀ task ∈ rest, task.fetches = false)
    {left : RepoDir} {after : Option EvictStage}
    (advanced : advanceEvict config dir outcome evictor stage =
      some (left, after)) :
    Exact left ((after.map (Task.evict evictor)).toList ++ rest) := by
  have none_ : ∀ counts : Task → Bool, (∀ task ∈ rest, counts task = false) →
      rest.countP counts = 0 := fun counts no =>
    List.countP_eq_zero.mpr fun task member counted => by
      rw [no task member] at counted
      cases counted
  have ended : Exact dir ((none : Option Task).toList ++ rest) :=
    exact.quiet (follows_plain nofun nofun nofun nofun nofun) rfl rfl rfl rfl
  -- An evictor beyond its first look has found the mirror idle.
  have found : Task.found (.evict evictor stage) = true → dir.count = 0 ∧
      rest.countP Task.creates = 0 ∧ rest.countP Task.drops = 0 :=
    exact.found _ List.mem_cons_self
  have sure : Task.sure (.evict evictor stage) = true →
      rest.countP Task.fetches = 0 := exact.sure _ List.mem_cons_self
  cases stage with
  | reading =>
    cases advanced
    cases read : readForEviction config dir outcome evictor with
    | none => exact ended
    | some after =>
      obtain ⟨zero, onlyDisk⟩ := readForEviction_cases read
      have others := idle rfl (by rw [read]; nofun)
      have creates := none_ _ fun task member => (others task member).1
      have counted : dir.count + (rest.filterMap Task.added).length =
          dir.worktrees.length + rest.countP Task.drops := exact.counted
      rw [zero, added_eq_nil creates, List.length_nil] at counted
      have follows : Follows dir rest (.evict evictor .reading)
          (some (.evict evictor after)) :=
        follows_evict ⟨zero, creates, by omega⟩ fun isSure =>
          none_ _ fun task member =>
            (others task member).2 (onlyDisk isSure)
      exact exact.quiet follows rfl rfl rfl rfl
  | lockChecking lastUsedAt =>
    cases advanced
    by_cases locked : dir.fetchLock = true
    · rw [if_pos locked]
      exact ended
    · rw [if_neg locked]
      have free := unlocked lastUsedAt rfl (Bool.eq_false_iff.mpr locked)
      have follows : Follows dir rest (.evict evictor (.lockChecking
          lastUsedAt)) (some (.evict evictor (.candidate lastUsedAt))) :=
        follows_evict (found rfl) fun _ => none_ _ free
      exact exact.quiet follows rfl rfl rfl rfl
  | candidate lastUsedAt =>
    cases advanced
    split
    · have follows : Follows dir rest (.evict evictor (.candidate
          lastUsedAt)) (some (.evict evictor .deleting)) :=
        follows_evict (found rfl) fun _ => sure rfl
      exact exact.quiet follows rfl rfl rfl rfl
    · exact ended
  | deleting =>
    have worktrees := exact.worktrees_eq_nil List.mem_cons_self rfl
    have follows : Follows dir rest (.evict evictor .deleting)
        (some (.evict evictor .deleting)) :=
      follows_evict (found rfl) fun _ => sure rfl
    unfold advanceEvict at advanced
    dsimp only at advanced
    split at advanced
    · rename_i piece _
      cases advanced
      refine exact.quiet follows ?_ ?_ rfl rfl
      · cases piece with
        | mirror => exact worktrees.symm
        | metadata => rfl
        | fetchLock => rfl
      · cases piece with
        | mirror => rfl
        | metadata => exact (found rfl).1.symm
        | fetchLock => rfl
    · split at advanced
      · cases advanced
        exact ended
      · cases advanced

end Invariant

/-! ## Runs -/

section Runs

variable {config : RepoCacheConfig} {state next : State} {label : Label}

theorem Exact.start {call : Call} (exact : Exact state.dir state.tasks)
    (careful : Careful config state (.start call)) :
    Exact state.dir (call.task :: state.tasks) := by
  have quiet : call.task.inside = false ∧ call.task.added = none ∧
      call.task.drops = false ∧ call.task.current = none ∧
      call.task.found = false ∧ call.task.sure = false := by
    cases call <;> exact ⟨rfl, rfl, rfl, rfl, rfl, rfl⟩
  obtain ⟨outside, unadded, undropped, uncounted, unfound, unsure⟩ := quiet
  have added : (call.task :: state.tasks).filterMap Task.added =
      state.tasks.filterMap Task.added := List.filterMap_cons_none unadded
  have drops : (call.task :: state.tasks).countP Task.drops =
      state.tasks.countP Task.drops :=
    List.countP_cons_of_neg (by rw [undropped]; nofun)
  refine ⟨?_, ?_, ?_, exact.worktrees, ?_, ?_, ?_, ?_⟩
  · rw [List.countP_cons_of_neg (by rw [outside]; nofun)]
    exact exact.single
  · rw [added]
    exact exact.distinct
  · rw [added]
    exact exact.registered
  · rw [added, drops]
    exact exact.counted
  · intro task member count current
    rcases List.mem_cons.mp member with rfl | old
    · rw [uncounted] at current
      cases current
    · exact exact.current task old count current
  · intro task member found
    rcases List.mem_cons.mp member with rfl | old
    · rw [unfound] at found
      cases found
    · obtain ⟨zero, creates, drop⟩ := exact.found task old found
      refine ⟨zero, ?_, drops.trans drop⟩
      cases call with
      | createWorktree path =>
        rw [careful task old] at found
        cases found
      | _ => exact creates
  · intro task member sure
    rcases List.mem_cons.mp member with rfl | old
    · rw [unsure] at sure
      cases sure
    · have fetches := exact.sure task old sure
      cases call with
      | fetch commands =>
        have found : task.found = true := by
          cases task with
          | evict evictor stage =>
            cases stage <;> first | rfl | cases sure
          | _ => cases sure
        rw [careful task old] at found
        cases found
      | _ => exact fetches

theorem Exact.step (exact : Exact state.dir state.tasks)
    (careful : Careful config state label)
    (stepped : (machine config).step state label = some next) :
    Exact next.dir next.tasks := by
  cases label with
  | start call =>
    cases stepped
    exact exact.start careful
  | proceed task outcome =>
    obtain ⟨member, stepped⟩ := Option.ite_none_left_eq_some.mp stepped
    obtain ⟨turn, stepped⟩ := Option.ite_none_left_eq_some.mp stepped
    obtain ⟨⟨left, after⟩, advanced, rfl⟩ :=
      Option.map_eq_some_iff.mp stepped
    rw [not_not] at member
    have same := perm_taken member
    have ordered := exact.perm same
    have inRest : ∀ other ∈ state.tasks.erase task, other ∈ state.tasks :=
      fun other => List.mem_of_mem_erase
    have free : task.waits = true →
        (state.tasks.erase task).countP Task.inside = 0 := by
      intro waits
      rw [waits, Bool.true_and] at turn
      refine List.countP_eq_zero.mpr fun other isOther inside => turn ?_
      exact List.any_eq_true.mpr ⟨other, inRest other isOther, inside⟩
    cases task with
    | fetch stage =>
      cases advanced
      exact ordered.fetch free
    | create path stage =>
      cases advanced
      exact ordered.create free
    | remove path stage =>
      cases advanced
      refine ordered.remove free ?_ ?_
      · rintro rfl added
        refine careful ?_
        exact ((same.filterMap Task.added).mem_iff).mpr added
      · rintro rfl
        exact careful
    | evict evictor stage =>
      obtain ⟨result, isResult, answer⟩ :=
        Option.map_eq_some_iff.mp advanced
      cases answer
      refine ordered.evict ?_ ?_ isResult
      · rintro rfl goes other isOther
        exact careful goes other (inRest other isOther)
      · rintro lastUsedAt rfl unlocked other isOther
        exact careful unlocked other (inRest other isOther)

theorem exact_of_reachable
    (reachable : (machine config).Reachable (Careful config) state) :
    Exact state.dir state.tasks := by
  refine @Machine.Reachable.invariant _ _ _ _
    (fun state => Exact state.dir state.tasks) ?_ ?_ _ reachable
  · rintro _ rfl
    exact ⟨Nat.zero_le _, List.nodup_nil, nofun, List.nodup_nil, rfl, nofun,
      nofun, nofun⟩
  · intro state label next exact careful stepped
    exact exact.step careful stepped

/-- The registered worktrees are those under creation and the others. -/
theorem Exact.length_settled (exact : Exact state.dir state.tasks) :
    (settled state).length + (state.tasks.filterMap Task.added).length =
      state.dir.worktrees.length := by
  have added : (state.dir.worktrees.filter fun path =>
      !decide (path ∉ state.tasks.filterMap Task.added)).Perm
        (state.tasks.filterMap Task.added) := by
    rw [List.perm_ext_iff_of_nodup (exact.worktrees.filter _) exact.distinct]
    intro path
    rw [List.mem_filter, decide_not, Bool.not_not, decide_eq_true_eq]
    exact and_iff_right_of_imp (exact.registered path)
  rw [← added.length_eq]
  exact List.length_eq_length_filter_add _ |>.symm

theorem Exact.kept (exact : Exact state.dir state.tasks) : Kept state := by
  have counted : state.dir.count = live state := by
    have both := exact.counted
    have split := exact.length_settled
    unfold live
    omega
  refine ⟨counted, ?_⟩
  intro evictor member
  obtain ⟨zero, creates, -⟩ := exact.found _ member rfl
  have fetches := exact.sure _ member rfl
  refine ⟨exact.worktrees_eq_nil member rfl, counted.symm.trans zero, ?_⟩
  intro task isTask
  exact ⟨Bool.eq_false_iff.mpr (List.countP_eq_zero.mp fetches task isTask),
    Bool.eq_false_iff.mpr (List.countP_eq_zero.mp creates task isTask)⟩

end Runs

/-- When nothing starts behind the back of an evictor, and every worktree that
is removed has been counted and is pruned, the counts are exact and no mirror
is evicted in use. -/
theorem mirrors_kept {Key : Type} [DecidableEq Key]
    (config : RepoCacheConfig) (states : Key → State)
    (reachable : ((machine config).family Key).Reachable
      (Machine.everywhere (Careful config)) states) (key : Key) :
    Kept (states key) :=
  (exact_of_reachable (reachable.member key)).kept

/-! ## Two runs -/

def smallCache : RepoCacheConfig where
  maxSizeGb := 100
  minFreeDiskGb := 30
  retentionDays := 30
  retentionMs := 10

def succeedsAt (nowMs : Nat) : Outcome where
  ok := true
  nowMs := nowMs
  totalBytes := 0
  freeBytes := none
  piece := none

def start : State where
  dir := ⟨false, [], none, false⟩
  tasks := []

/-- A mirror is cloned. -/
def cloned : List Label :=
  [.start (.fetch 0), .proceed (.fetch (.waiting 0)) (succeedsAt 0),
    .proceed (.fetch (.locking 0)) (succeedsAt 0),
    .proceed (.fetch (.initializing 0)) (succeedsAt 0),
    .proceed (.fetch (.running 0)) (succeedsAt 0),
    .proceed (.fetch .touching) (succeedsAt 0),
    .proceed (.fetch (.writing 0)) (succeedsAt 0),
    .proceed (.fetch .unlocking) (succeedsAt 0)]

def worktreeMade : List Label :=
  let path : Path := ['w']
  [.start (.createWorktree path),
    .proceed (.create path .checking) (succeedsAt 1),
    .proceed (.create path .adding) (succeedsAt 2),
    .proceed (.create path (.counting .waiting)) (succeedsAt 3),
    .proceed (.create path (.counting .reading)) (succeedsAt 4),
    .proceed (.create path (.counting (.touching 0))) (succeedsAt 5),
    .proceed (.create path (.counting (.writing 0))) (succeedsAt 6)]

/-- The steps of fetches and creations, without an evictor. -/
def undisturbed (state : State) : Label → Bool
  | .start (.fetch _) => state.tasks.all fun task => !task.found
  | .start (.createWorktree _) => state.tasks.all fun task => !task.found
  | .proceed (.fetch _) _ => true
  | .proceed (.create _ _) _ => true
  | _ => false

theorem undisturbed_careful {config : RepoCacheConfig} (state : State)
    (label : Label) (calm : undisturbed state label = true) :
    Careful config state label := by
  have none_ : (state.tasks.all fun task => !task.found) = true →
      ∀ task ∈ state.tasks, task.found = false := by
    intro all task member
    exact Bool.not_eq_true' _ ▸ List.all_eq_true.mp all task member
  cases label with
  | start call =>
    cases call with
    | fetch => exact none_ calm
    | createWorktree => exact none_ calm
    | removeWorktree => trivial
    | evict => trivial
  | proceed task outcome =>
    cases task with
    | fetch => trivial
    | create => trivial
    | remove => cases calm
    | evict => cases calm

def madeState : State :=
  ((machine smallCache).run start (cloned ++ worktreeMade)).getD start

theorem mirrors_kept_made :
    Kept (Function.update (fun _ : Path => start) ['r'] madeState ['r']) := by
  have steps : (machine smallCache).Steps (Careful smallCache) start
      madeState := by
    have met : (machine smallCache).runMeets undisturbed start
        (cloned ++ worktreeMade) = true := by decide +kernel
    exact Machine.steps_of_run undisturbed undisturbed_careful met rfl
  exact @mirrors_kept Path _ smallCache _
    ((Machine.Reachable.start fun _ => rfl).steps (steps.family rfl)) ['r']

/-- The cleanup under disk pressure reads the count, a worktree is made, and
the directory is removed. -/
def evictedInUse : List Label :=
  let path : Path := ['w']
  [.start (.evict .diskPressure), .start (.createWorktree path),
    .proceed (.evict .diskPressure .reading) (succeedsAt 100),
    .proceed (.create path .checking) (succeedsAt 101),
    .proceed (.create path .adding) (succeedsAt 102),
    .proceed (.evict .diskPressure (.candidate 0)) (succeedsAt 103)]

def evictedState : State :=
  ((machine smallCache).run start (cloned ++ evictedInUse)).getD start

/-- A mirror is deleted with a worktree that is being created. -/
theorem mirror_evicted_in_use :
    ((machine smallCache).family Path).Reachable
        (Machine.everywhere fun _ _ => True)
        (Function.update (fun _ => start) ['r'] evictedState) ∧
      ¬ Kept (Function.update (fun _ : Path => start) ['r'] evictedState
        ['r']) := by
  have steps : (machine smallCache).Steps (fun _ _ => True) start
      evictedState :=
    Machine.steps_of_run_eq_some (rfl : (machine smallCache).run start
      (cloned ++ evictedInUse) = some evictedState)
  refine ⟨(Machine.Reachable.start fun _ => rfl).steps (steps.family rfl), ?_⟩
  rw [Function.update_self]
  intro kept
  have deleting : .evict .diskPressure .deleting ∈ evictedState.tasks := by
    decide +kernel
  have registered : evictedState.dir.worktrees ≠ [] := by decide +kernel
  exact registered (kept.spared _ deleting).1

end Rbo.Agent.Mirrors
