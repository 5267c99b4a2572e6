import Mathlib.Data.List.Nodup
import Rbo.Agent.CacheLock
import Rbo.Foundation.Family

/-!
# The users of a build-cache key

The metadata of a published key counts its users.  `acquireForJob` and its
releases change the count under the lock file of the key; `evictInactive`
looks at the lock and at the count, and then removes the directory and the
lock file without holding the lock.

The calls on one key are a machine here, over the lock file of `CacheLock`,
and a store is a family of them.
-/

namespace Rbo.Agent.BuildCacheUse

open Rbo.Foundation
open Rbo.Agent.CacheLock (LockFile Processes Sound lockStaleMaxAgeMs pidAlive)

/-! ## The directory of a key -/

/-- `meta.json`; a file that is being written is not read back as JSON. -/
inductive Meta where
  | missing
  | torn
  | whole (activeUsers lastUsedAt : Nat)
  deriving DecidableEq

structure KeyDir where
  published : Bool
  meta_ : Meta
  deriving DecidableEq

/-! ## The calls -/

/-- A hit, its release, and the release of a miss that was published. -/
inductive Change where
  | enter
  | leave
  | part
  deriving DecidableEq

/-- The count that is written over one that was read. -/
def Change.apply : Change → Nat → Nat
  | .enter, activeUsers => activeUsers + 1
  | .leave, activeUsers => activeUsers - 1
  | .part, activeUsers => activeUsers - 1

/-- Where a task is in its call, or between the acquire and the release. -/
inductive Work where
  | idle
  /-- In `acquireExclusiveLock`, of an acquire or of the release of a hit. -/
  | locking (leaving : Bool)
  /-- About to look whether the key is published. -/
  | looking
  /-- About to read the metadata. -/
  | reading (change : Change)
  /-- About to open the metadata for writing, which empties the file. -/
  | truncating (change : Change) (activeUsers : Nat)
  | filling (change : Change) (activeUsers : Nat)
  /-- Giving the lock back, at the end of the call or before the path of a hit
  is made. -/
  | unlocking (keeps : Bool)
  | making
  | hit
  /-- About to prepare the temporary directory of a miss. -/
  | clearing
  /-- A miss, which keeps the lock. -/
  | miss (published : Bool)
  /-- In `publishIfAllowed`, about to move the temporary directory. -/
  | swapping
  /-- In the release of a miss. -/
  | parting (published : Bool)
  /-- In `evictInactive`, about to look whether the key is published. -/
  | scanning
  | lockLooking (second : Bool)
  | lockStatting (second : Bool)
  | lockReading (second : Bool) (ageMs : Int)
  | lockRemoving (second : Bool)
  | metaReading (second : Bool)
  | candidate (lastUsedAt : Nat)
  /-- In the recursive `rm` of the directory. -/
  | deleting
  /-- About to remove the lock file. -/
  | unlinking
  deriving DecidableEq

/-- What `rm` finds in the directory. -/
inductive Piece where
  | marker
  | meta_
  deriving DecidableEq

/-- What an operation meets: whether it succeeds or is allowed, the clock, the
sizes that an evictor has summed up, and the next piece of a removal. -/
structure Outcome where
  ok : Bool
  nowMs : Nat
  totalBytes : Nat
  freedBytes : Nat
  freeBytes : Nat
  piece : Option Piece
  deriving DecidableEq

structure EvictOptions where
  maxSizeBytes : Nat
  minFreeBytes : Nat
  retentionMs : Nat
  deriving DecidableEq

/-- A candidate goes when the store is too large, the disk too full, or the key
past its retention. -/
def selects (options : EvictOptions) (outcome : Outcome)
    (lastUsedAt : Nat) : Bool :=
  options.maxSizeBytes < outcome.totalBytes - outcome.freedBytes ||
    outcome.freeBytes + outcome.freedBytes < options.minFreeBytes ||
    options.retentionMs = 0 ||
    lastUsedAt + options.retentionMs ≤ outcome.nowMs

/-- The key, its lock and its tasks. -/
structure State where
  dir : KeyDir
  lock : CacheLock.State
  work : Nat → Work

def State.enter (state : State) (task : Nat) (work : Work) : State :=
  { state with work := Function.update state.work task work }

def State.write (state : State) (meta_ : Meta) : State :=
  { state with dir := { state.dir with meta_ := meta_ } }

/-- `rm(lockFile, { force: true })` by a task that does not hold the lock. -/
def State.unlink (state : State) : State :=
  { state with lock := { state.lock with lock := none } }

/-- The directory after a piece is gone. -/
def KeyDir.lose (dir : KeyDir) : Piece → KeyDir
  | .marker => { dir with published := false }
  | .meta_ => { dir with meta_ := .missing }

/-- What a task does with the metadata that it has read. -/
def afterReading (change : Change) : Meta → Work
  | .whole activeUsers _ => .truncating change (change.apply activeUsers)
  | _ =>
    match change with
    | .enter => .truncating .enter (Change.enter.apply 0)
    | .leave => .unlocking false
    | .part => .unlocking false

/-- What an evictor does with the metadata that it has read. -/
def afterMeta : Bool → Meta → Work
  | false, .whole 0 lastUsedAt => .candidate lastUsedAt
  | false, _ => .idle
  | true, .whole (_ + 1) _ => .idle
  | true, _ => .deleting

section Steps

variable (processes : Processes) (options : EvictOptions)

/-- The next operation of `reclaimStaleLockIfNeeded` in `evictInactive`; a lock
that is not reclaimed ends the look at the key. -/
def reclaim (state : State) (task : Nat) (second : Bool) (nowMs : Nat) :
    State :=
  match state.lock.lock with
  | none => state.enter task .idle
  | some file =>
    state.enter task (.lockReading second (Int.ofNat nowMs - file.mtimeMs))

def judge (state : State) (task : Nat) (second : Bool) (ageMs : Int) :
    State :=
  if pidAlive processes state.lock.lock &&
      decide (ageMs < lockStaleMaxAgeMs) then
    state.enter task .idle
  else state.enter task (.lockRemoving second)

/-- The next operation of a task that is not about the lock of its own. -/
def proceed (state : State) (task : Nat) (outcome : Outcome) :
    Option State :=
  match state.work task with
  | .looking =>
    some (state.enter task
      (if state.dir.published then .reading .enter
        -- `allowWriteRiskLevels`.
        else if outcome.ok then .clearing else .unlocking false))
  | .reading change =>
    some (state.enter task (afterReading change state.dir.meta_))
  | .truncating change activeUsers =>
    if outcome.ok then
      some ((state.write .torn).enter task (.filling change activeUsers))
    else some (state.enter task (.unlocking false))
  | .filling change activeUsers =>
    if outcome.ok then
      some ((state.write (.whole activeUsers outcome.nowMs)).enter task
        (.unlocking (change = .enter)))
    else some (state.enter task (.unlocking false))
  | .making => some (state.enter task (if outcome.ok then .hit else .idle))
  | .clearing =>
    some (state.enter task
      (if outcome.ok then .miss false else .unlocking false))
  | .swapping =>
    if outcome.ok then
      some ({ state with
        dir := ⟨true, .whole 1 outcome.nowMs⟩ }.enter task (.miss true))
    else some (state.enter task (.miss false))
  | .parting _ =>
    some (state.enter task
      (if state.dir.published then .reading .part else .unlocking false))
  | .scanning =>
    some (state.enter task
      (if state.dir.published then .lockLooking false else .idle))
  | .lockLooking second =>
    some (state.enter task
      (if state.lock.lock.isNone then .metaReading second
        else .lockStatting second))
  | .lockStatting second => some (reclaim state task second outcome.nowMs)
  | .lockReading second ageMs => some (judge processes state task second ageMs)
  | .lockRemoving second =>
    some (state.unlink.enter task (.metaReading second))
  | .metaReading second =>
    some (state.enter task (afterMeta second state.dir.meta_))
  | .candidate lastUsedAt =>
    some (state.enter task
      (if selects options outcome lastUsedAt then .lockLooking true
        else .idle))
  | .deleting =>
    match outcome.piece with
    | some piece => some { state with dir := state.dir.lose piece }
    | none =>
      if state.dir = ⟨false, .missing⟩ then
        some (state.enter task .unlinking)
      else none
  | .unlinking => some (state.unlink.enter task .idle)
  | _ => none

/-- May a task in this place make this operation on the lock? -/
def locks : Work → CacheLock.Action → Bool
  | .locking _, .proceed _ => true
  | .locking _, .timeout => true
  | .unlocking _, .release => true
  | .unlocking _, .proceed _ => true
  | .idle, _ => false
  | .locking _, _ => false
  | _, .touch _ => true
  | _, _ => false

/-- Where a task is after an operation on its lock. -/
def afterLock (work : Work) (phase : CacheLock.Phase) : Work :=
  match work, phase with
  | .locking false, .held _ => .looking
  | .locking true, .held _ => .reading .leave
  | .locking _, .idle => .idle
  | .unlocking true, .idle => .making
  | .unlocking false, .idle => .idle
  | work, _ => work

inductive Call where
  | acquireForJob
  | release
  | publishIfAllowed
  | evictInactive
  deriving DecidableEq

inductive Label where
  | start (task : Nat) (call : Call)
  | lock (task : Nat) (action : CacheLock.Action)
  | proceed (task : Nat) (outcome : Outcome)
  deriving DecidableEq

/-- A task asks for the lock. -/
def State.ask (state : State) (task : Nat) (leaving : Bool) :
    Option State :=
  (CacheLock.step processes state.lock ⟨task, .acquire⟩).map fun lock =>
    { state with lock := lock }.enter task (.locking leaving)

def step (state : State) : Label → Option State
  | .start task call =>
    match call, state.work task with
    | .acquireForJob, .idle => state.ask processes task false
    | .release, .hit => state.ask processes task true
    | .release, .miss published =>
      some (state.enter task (.parting published))
    | .publishIfAllowed, .miss false => some (state.enter task .swapping)
    | .evictInactive, .idle => some (state.enter task .scanning)
    | _, _ => none
  | .lock task action =>
    if locks (state.work task) action then
      (CacheLock.step processes state.lock ⟨task, action⟩).map fun lock =>
        { state with lock := lock }.enter task
          (afterLock (state.work task) (lock.phase task))
    else none
  | .proceed task outcome => proceed processes options state task outcome

def start : State where
  dir := ⟨false, .missing⟩
  lock := CacheLock.start
  work := fun _ => .idle

/-- Any number of tasks of any processes that use one key. -/
def machine : Machine State Label where
  initial state := state = start
  step := step processes options

end Steps

/-! ## What is asked of a key -/

namespace Work

/-- Has the call the lock of the key? -/
def inside : Work → Bool
  | .looking => true
  | .reading _ => true
  | .truncating _ _ => true
  | .filling _ _ => true
  | .unlocking _ => true
  | .clearing => true
  | .miss _ => true
  | .swapping => true
  | .parting _ => true
  | _ => false

/-- A user from the count of its acquire, or of its publication, to the count
of its release. -/
def counted : Work → Bool
  | .unlocking keeps => keeps
  | .making => true
  | .hit => true
  | .locking leaving => leaving
  | .miss published => published
  | .parting published => published
  | .reading change => change ≠ .enter
  | .truncating change _ => change ≠ .enter
  | .filling change _ => change ≠ .enter
  | _ => false

/-- In `evictInactive`. -/
def evicts : Work → Bool
  | .scanning => true
  | .lockLooking _ => true
  | .lockStatting _ => true
  | .lockReading _ _ => true
  | .lockRemoving _ => true
  | .metaReading _ => true
  | .candidate _ => true
  | .deleting => true
  | .unlinking => true
  | _ => false

/-- A place outside `acquireExclusiveLock` and without the lock. -/
def calm : Work → Bool
  | .idle => true
  | .hit => true
  | .making => true
  | work => work.evicts

/-- An evictor that removes the directory. -/
def removes : Work → Bool
  | .deleting => true
  | _ => false

/-- A miss that is not published. -/
def unpublished : Work → Bool
  | .clearing => true
  | .miss published => !published
  | .swapping => true
  | .parting published => !published
  | _ => false

/-- A hit that is not counted yet. -/
def entering : Work → Bool
  | .reading change => change = .enter
  | .truncating change _ => change = .enter
  | .filling change _ => change = .enter
  | _ => false

/-- The count that is about to be written. -/
def pending : Work → Option (Change × Nat)
  | .truncating change activeUsers => some (change, activeUsers)
  | .filling change activeUsers => some (change, activeUsers)
  | _ => none

def fills : Work → Bool
  | .filling _ _ => true
  | _ => false

/-- A failure here would leave a count wrong. -/
def commits : Work → Bool
  | .truncating change _ => change ≠ .enter
  | .filling _ _ => true
  | .making => true
  | _ => false

end Work

/-- A list of the users of a key. -/
structure Users (state : State) (users : List Nat) : Prop where
  distinct : users.Nodup
  mem : ∀ task, task ∈ users ↔ (state.work task).counted = true

/-- The count in the metadata is that of the users, and while the directory is
being removed only evictors are at the key. -/
structure Kept (state : State) : Prop where
  counted : ∃ users, Users state users ∧
    (∀ activeUsers lastUsedAt,
      state.dir.meta_ = .whole activeUsers lastUsedAt →
        activeUsers = users.length) ∧
    (state.dir.meta_ = .missing → users = [])
  spared : ∀ task, state.work task = .deleting →
    ∀ other, state.work other = .idle ∨ (state.work other).evicts = true

/-- The steps that keep the count and the users: a lock that is looked at is
young and its pid is written; an evictor begins to remove the directory only
while nobody is in `acquireExclusiveLock` or has the lock, no acquire begins
while it does so, and no lock is there when it removes the lock file; and no
write of a count, no directory of a hit and no lock of a release fails. -/
def Careful (state : State) : Label → Prop
  | .start _ .acquireForJob =>
    ∀ other, (state.work other).removes = false
  | .start _ _ => True
  | .lock task action =>
    CacheLock.Young state.lock ⟨task, action⟩ ∧
      CacheLock.ReadsPid state.lock ⟨task, action⟩ ∧
      (state.work task = .locking true → action ≠ .timeout)
  | .proceed task outcome =>
    (∀ second file, state.work task = .lockStatting second →
      state.lock.lock = some file →
      Int.ofNat outcome.nowMs - file.mtimeMs < lockStaleMaxAgeMs) ∧
    (∀ second ageMs, state.work task = .lockReading second ageMs →
      ∃ file, state.lock.lock = some file ∧ file.content ≠ []) ∧
    (state.work task = .metaReading true →
      afterMeta true state.dir.meta_ = .deleting →
      ∀ other, (state.work other).calm = true) ∧
    (state.work task = .unlinking → state.lock.lock = none) ∧
    ((state.work task).commits = true → outcome.ok = true)

/-! ## The lock -/

/-- The lock of a task is where its call is. -/
def Fits (work : Work) (phase : CacheLock.Phase) : Prop :=
  if work.inside then
    ∃ file, phase = .held file ∨
      phase = .releasing file ∧ ∃ keeps, work = .unlocking keeps
  else
    phase = .idle ∨
      (∃ leaving, work = .locking leaving) ∧ ∀ file, phase ≠ .releasing file

/-- The lock is that of the tasks inside, and no evictor takes it. -/
structure Locked (processes : Processes) (state : State) : Prop where
  sound : Sound processes state.lock
  fits : ∀ task, Fits (state.work task) (state.lock.phase task)
  aged : ∀ task second ageMs,
    state.work task = .lockReading second ageMs → ageMs < lockStaleMaxAgeMs
  unreclaimed : ∀ task second, state.work task ≠ .lockRemoving second

section Lock

variable {processes : Processes} {state : State} {task : Nat}

/-- The other tasks stay where they are. -/
theorem lock_step_other {lock after : CacheLock.State}
    {label : CacheLock.Label}
    (stepped : CacheLock.step processes lock label = some after) {other : Nat}
    (different : other ≠ label.task) :
    after.phase other = lock.phase other := by
  have enters : ∀ phase, (lock.enter label.task phase).phase other =
      lock.phase other := fun phase => by
    rw [CacheLock.phase_enter, if_neg different]
  rcases CacheLock.step_cases stepped with
    ⟨-, rfl⟩ | ⟨-, rfl⟩ | ⟨-, nowMs, -, rfl⟩ | ⟨file, -, rfl⟩ |
      ⟨nowMs, -, proceeds⟩
  · exact enters _
  · exact enters _
  · rfl
  · exact enters _
  · unfold CacheLock.proceed at proceeds
    cases phase : lock.phase label.task with
    | idle =>
      rw [phase] at proceeds
      cases proceeds
    | opening =>
      rw [phase] at proceeds
      cases proceeds
      unfold CacheLock.openExclusive
      split
      · exact enters _
      · exact Function.update_of_ne different _ _
    | writing file =>
      rw [phase] at proceeds
      cases proceeds
      exact Function.update_of_ne different _ _
    | held file =>
      rw [phase] at proceeds
      cases proceeds
    | releasing file =>
      rw [phase] at proceeds
      cases proceeds
      exact Function.update_of_ne different _ _
    | statting =>
      rw [phase] at proceeds
      cases proceeds
      unfold CacheLock.statLock
      split
      · exact enters _
      · exact enters _
    | reading ageMs =>
      rw [phase] at proceeds
      cases proceeds
      unfold CacheLock.readLock
      split
      · exact enters _
      · exact enters _
    | removing =>
      rw [phase] at proceeds
      cases proceeds
      exact Function.update_of_ne different _ _

theorem owns_of_inside {work : Work} {phase : CacheLock.Phase}
    (fits : Fits work phase) (inside : work.inside = true) :
    ∃ file, phase.Owns file := by
  unfold Fits at fits
  rw [if_pos inside] at fits
  obtain ⟨file, held | ⟨releasing, -⟩⟩ := fits
  · exact ⟨file, .inr (.inl held)⟩
  · exact ⟨file, .inr (.inr releasing)⟩

/-- One task at a time is inside. -/
theorem Locked.alone (locked : Locked processes state)
    (inside : (state.work task).inside = true) {other : Nat}
    (different : other ≠ task) : (state.work other).inside = false := by
  by_contra both
  rw [Bool.not_eq_false] at both
  exact different (locked.sound.unique other task
    (owns_of_inside (locked.fits other) both)
    (owns_of_inside (locked.fits task) inside))

theorem update_work {works : Nat → Work} {work : Work} (other : Nat) :
    Function.update works task work other =
      if other = task then work else works other :=
  Function.update_apply ..

/-- A call goes on, with the lock as it is or after an operation of its
task. -/
theorem Locked.next (locked : Locked processes state) {work : Work}
    {lock : CacheLock.State} (dir : KeyDir) (sound : Sound processes lock)
    (others : ∀ other, other ≠ task →
      lock.phase other = state.lock.phase other)
    (fits : Fits work (lock.phase task))
    (aged : ∀ second ageMs, work = .lockReading second ageMs →
      ageMs < lockStaleMaxAgeMs)
    (unreclaimed : ∀ second, work ≠ .lockRemoving second) :
    Locked processes
      { dir := dir, lock := lock
        work := Function.update state.work task work } where
  sound := sound
  fits := by
    intro other
    dsimp only
    rw [update_work]
    by_cases same : other = task
    · rw [if_pos same, same]
      exact fits
    · rw [if_neg same, others other same]
      exact locked.fits other
  aged := by
    intro other second ageMs reading
    dsimp only at reading
    rw [update_work] at reading
    split at reading
    · exact aged second ageMs reading
    · exact locked.aged other second ageMs reading
  unreclaimed := by
    intro other second removing
    dsimp only at removing
    rw [update_work] at removing
    split at removing
    · exact unreclaimed second removing
    · exact locked.unreclaimed other second removing

/-- A task without a lock is in no phase of it. -/
theorem idle_of_calm {work : Work} {phase : CacheLock.Phase}
    (fits : Fits work phase) (calm : work.calm = true) : phase = .idle := by
  unfold Fits at fits
  cases work <;> first
    | exact absurd calm Bool.false_ne_true
    | exact (fits : _ ∨ _).resolve_right fun locking => nomatch locking.1

theorem fits_idle {work : Work} (outside : work.inside = false) :
    Fits work .idle := by
  unfold Fits
  rw [if_neg (by rw [outside]; exact Bool.false_ne_true)]
  exact .inl rfl

end Lock

/-! ## The count -/

/-- What the directory says of the users, and where the calls stand. -/
structure Exact (state : State) (users : List Nat) : Prop
    extends Users state users where
  whole : ∀ activeUsers lastUsedAt,
    state.dir.meta_ = .whole activeUsers lastUsedAt →
      activeUsers = users.length
  missing : state.dir.meta_ = .missing → users = []
  torn : state.dir.meta_ = .torn →
    ∃ task, (state.work task).fills = true
  pending : ∀ task change activeUsers,
    (state.work task).pending = some (change, activeUsers) →
      activeUsers = change.apply users.length
  absent : state.dir.published = false → users = []
  unpublished : ∀ task, (state.work task).unpublished = true →
    state.dir.published = false
  present : ∀ task, (state.work task).entering = true →
    state.dir.published = true
  window : ∀ task, (state.work task).removes = true →
    ∀ other, (state.work other).calm = true
  empty : ∀ task, (state.work task).removes = true → users = []

section Count

variable {state : State} {users : List Nat} {task : Nat}

variable {work : Work}

theorem calm_of_evicts (evicts : work.evicts = true) : work.calm = true := by
  cases work <;> first | rfl | cases evicts

theorem evicts_of_removes (removes : work.removes = true) :
    work.evicts = true := by
  cases work <;> first | rfl | cases removes

theorem inside_of_fills (fills : work.fills = true) : work.inside = true := by
  cases work <;> first | rfl | cases fills

theorem inside_of_pending {change : Change × Nat}
    (pending : work.pending = some change) : work.inside = true := by
  cases work <;> first | rfl | cases pending

theorem inside_of_entering (entering : work.entering = true) :
    work.inside = true := by
  cases work <;> first | rfl | cases entering

theorem inside_of_unpublished (unpublished : work.unpublished = true) :
    work.inside = true := by
  cases work <;> first | rfl | cases unpublished

theorem not_calm_of_inside (inside : work.inside = true) :
    work.calm = false := by
  cases work <;> first | rfl | cases inside

/-- While the directory is removed nobody has the lock or asks for it. -/
theorem Exact.unremoved (exact : Exact state users)
    (active : (state.work task).calm = false) (other : Nat) :
    (state.work other).removes = false := by
  by_contra removes
  rw [Bool.not_eq_false] at removes
  rw [exact.window other removes task] at active
  cases active

/-- A task goes on and changes nothing that is counted. -/
theorem Exact.next (exact : Exact state users) (lock : CacheLock.State)
    (counted : work.counted = (state.work task).counted)
    (pending : ∀ change activeUsers,
      work.pending = some (change, activeUsers) →
        activeUsers = change.apply users.length)
    (torn : state.dir.meta_ = .torn → (state.work task).fills = false)
    (unpublished : work.unpublished = true → state.dir.published = false)
    (present : work.entering = true → state.dir.published = true)
    (calm : (∃ other, (state.work other).removes = true) → work.calm = true)
    (removes : work.removes = true → users = [] ∧
      ∀ other, other ≠ task → (state.work other).calm = true) :
    Exact
      { dir := state.dir, lock := lock
        work := Function.update state.work task work } users where
  distinct := exact.distinct
  mem := by
    intro other
    dsimp only
    rw [update_work, exact.mem other]
    split
    · rename_i same
      rw [same, counted]
    · rfl
  whole := exact.whole
  missing := exact.missing
  torn := by
    intro isTorn
    obtain ⟨other, fills⟩ := exact.torn isTorn
    have different : other ≠ task := by
      rintro rfl
      rw [torn isTorn] at fills
      cases fills
    refine ⟨other, ?_⟩
    dsimp only
    rw [update_work, if_neg different]
    exact fills
  pending := by
    intro other change activeUsers writes
    dsimp only at writes
    rw [update_work] at writes
    split at writes
    · exact pending change activeUsers writes
    · exact exact.pending other change activeUsers writes
  absent := exact.absent
  unpublished := by
    intro other isUnpublished
    dsimp only at isUnpublished
    rw [update_work] at isUnpublished
    split at isUnpublished
    · exact unpublished isUnpublished
    · exact exact.unpublished other isUnpublished
  present := by
    intro other entering
    dsimp only at entering
    rw [update_work] at entering
    split at entering
    · exact present entering
    · exact exact.present other entering
  window := by
    intro other isRemoved another
    dsimp only at isRemoved ⊢
    rw [update_work] at isRemoved ⊢
    split at isRemoved
    · split
      · exact calm_of_evicts (evicts_of_removes isRemoved)
      · rename_i different
        exact (removes isRemoved).2 another different
    · split
      · exact calm ⟨other, isRemoved⟩
      · exact exact.window other isRemoved another
  empty := by
    intro other isRemoved
    dsimp only at isRemoved
    rw [update_work] at isRemoved
    split at isRemoved
    · exact (removes isRemoved).1
    · exact exact.empty other isRemoved

/-- No step of a task inside removes the directory. -/
theorem stays_unremoved (exact : Exact state users)
    (active : (state.work task).calm = false) (user : work.evicts = false)
    (other : Nat) :
    ¬ (Function.update state.work task work other).removes = true := by
  intro removes
  rw [update_work] at removes
  split at removes
  · rw [evicts_of_removes removes] at user
    cases user
  · rw [exact.unremoved active other] at removes
    cases removes

/-- A task inside or in `acquireExclusiveLock` goes on. -/
theorem Exact.active (exact : Exact state users) (lock : CacheLock.State)
    (active : (state.work task).calm = false)
    (counted : work.counted = (state.work task).counted)
    (pending : ∀ change activeUsers,
      work.pending = some (change, activeUsers) →
        activeUsers = change.apply users.length)
    (torn : state.dir.meta_ = .torn → (state.work task).fills = false)
    (unpublished : work.unpublished = true → state.dir.published = false)
    (present : work.entering = true → state.dir.published = true)
    (user : work.evicts = false) :
    Exact
      { dir := state.dir, lock := lock
        work := Function.update state.work task work } users := by
  refine exact.next lock counted pending torn unpublished present ?_ ?_
  · rintro ⟨other, removes⟩
    rw [exact.unremoved active other] at removes
    cases removes
  · intro removes
    rw [evicts_of_removes removes] at user
    cases user

section Writes

variable (others : ∀ other, other ≠ task → (state.work other).inside = false)
include others

/-- What only a task inside can be, is the task. -/
theorem only_task {holds : Work → Prop}
    (within : ∀ work, holds work → work.inside = true) {work : Work}
    {other : Nat} (holding : holds (Function.update state.work task work other)) :
    holds work := by
  rw [update_work] at holding
  split at holding
  · exact holding
  · rename_i different
    have inside := within _ holding
    rw [others other different] at inside
    cases inside

section

variable (exact : Exact state users)

include exact

/-- The task inside changes the directory. -/
theorem Exact.commit {work : Work} {dir : KeyDir} {after : List Nat}
    (active : (state.work task).calm = false) (distinct : after.Nodup)
    (mem : ∀ other, other ∈ after ↔
      (Function.update state.work task work other).counted = true)
    (whole : ∀ activeUsers lastUsedAt,
      dir.meta_ = .whole activeUsers lastUsedAt → activeUsers = after.length)
    (missing : dir.meta_ = .missing → after = [])
    (torn : dir.meta_ = .torn → work.fills = true)
    (pending : ∀ change activeUsers,
      work.pending = some (change, activeUsers) →
        activeUsers = change.apply after.length)
    (absent : dir.published = false → after = [])
    (unpublished : work.unpublished = true → dir.published = false)
    (present : work.entering = true → dir.published = true)
    (user : work.evicts = false) :
    Exact
      { dir := dir, lock := state.lock
        work := Function.update state.work task work } after where
  distinct := distinct
  mem := mem
  whole := whole
  missing := missing
  torn isTorn := ⟨task, by
    dsimp only
    rw [update_work, if_pos rfl]
    exact torn isTorn⟩
  pending other change activeUsers writes :=
    pending change activeUsers (only_task others
      (fun _ => inside_of_pending) writes)
  absent := absent
  unpublished other isUnpublished := unpublished
    (@only_task _ _ others (·.unpublished = true)
      (fun _ => inside_of_unpublished) _ _ isUnpublished)
  present other entering := present
    (@only_task _ _ others (·.entering = true)
      (fun _ => inside_of_entering) _ _ entering)
  window other removes :=
    absurd removes (stays_unremoved exact active user other)
  empty other removes :=
    absurd removes (stays_unremoved exact active user other)

/-- The metadata is opened for writing. -/
theorem Exact.truncate {change : Change} {activeUsers : Nat}
    (there : state.work task = .truncating change activeUsers) :
    Exact ((state.write .torn).enter task (.filling change activeUsers))
      users := by
  have pending := exact.pending task change activeUsers (by rw [there]; rfl)
  refine exact.commit others (by rw [there]; rfl) exact.distinct ?_ nofun
    nofun (fun _ => rfl) ?_ exact.absent nofun ?_ rfl
  · intro other
    rw [update_work, exact.mem other]
    split
    · rename_i same
      rw [same, there]
      rfl
    · rfl
  · rintro _ _ ⟨⟩
    exact pending
  · intro entering
    exact exact.present task (by rw [there]; exact entering)

/-- The count of a hit is written. -/
theorem Exact.fill_enter {activeUsers nowMs : Nat}
    (there : state.work task = .filling .enter activeUsers) :
    Exact ((state.write (.whole activeUsers nowMs)).enter task
      (.unlocking true)) (task :: users) := by
  have pending := exact.pending task .enter activeUsers (by rw [there]; rfl)
  have present := exact.present task (by rw [there]; rfl)
  have uncounted : task ∉ users := by
    rw [exact.mem task, there]
    exact Bool.false_ne_true
  refine exact.commit others (by rw [there]; rfl)
    (List.nodup_cons.mpr ⟨uncounted, exact.distinct⟩) ?_ ?_ nofun nofun nofun
    ?_ nofun nofun rfl
  · intro other
    rw [update_work, List.mem_cons, exact.mem other]
    split
    · rename_i same
      exact iff_of_true (.inl same) rfl
    · rename_i different
      exact or_iff_right different
  · rintro _ _ ⟨⟩
    exact pending
  · intro absent
    have gone : state.dir.published = false := absent
    rw [present] at gone
    cases gone

/-- The count of a release is written. -/
theorem Exact.fill_leave {change : Change} {activeUsers nowMs : Nat}
    (leaves : change ≠ .enter)
    (there : state.work task = .filling change activeUsers) :
    Exact ((state.write (.whole activeUsers nowMs)).enter task
      (.unlocking false)) (users.erase task) := by
  have pending := exact.pending task change activeUsers (by rw [there]; rfl)
  have counted : task ∈ users := by
    rw [exact.mem task, there]
    exact decide_eq_true leaves
  refine exact.commit others (by rw [there]; rfl) (exact.distinct.erase task)
    ?_ ?_ nofun nofun nofun ?_ nofun nofun rfl
  · intro other
    rw [update_work, exact.distinct.mem_erase_iff, exact.mem other]
    split
    · rename_i same
      exact iff_of_false (fun both => both.1 same) Bool.false_ne_true
    · rename_i different
      exact and_iff_right different
  · rintro _ _ ⟨⟩
    rw [List.length_erase_of_mem counted]
    cases change with
    | enter => exact absurd rfl leaves
    | leave => exact pending
    | part => exact pending
  · intro absent
    rw [exact.absent absent]
    rfl

/-- The temporary directory becomes the directory of the key. -/
theorem Exact.publish {nowMs : Nat} (there : state.work task = .swapping) :
    Exact
      ({ state with dir := ⟨true, .whole 1 nowMs⟩ }.enter task (.miss true))
      [task] := by
  have none_ := exact.absent (exact.unpublished task (by rw [there]; rfl))
  refine exact.commit others (by rw [there]; rfl) (List.nodup_singleton task)
    ?_ ?_ nofun nofun nofun nofun nofun nofun rfl
  · intro other
    rw [update_work, List.mem_singleton]
    split
    · rename_i same
      exact iff_of_true same rfl
    · rename_i different
      refine iff_of_false different fun counted => ?_
      have isUser := (exact.mem other).mpr counted
      rw [none_] at isUser
      cases isUser
  · rintro _ _ ⟨⟩
    rfl

end

end Writes

/-- A piece of the directory is gone. -/
theorem Exact.lose (exact : Exact state users)
    (removes : (state.work task).removes = true) (piece : Piece) :
    Exact { state with dir := state.dir.lose piece } users := by
  have none_ := exact.empty task removes
  have window := exact.window task removes
  have outside : ∀ other, (state.work other).inside = false := by
    intro other
    by_contra inside
    rw [Bool.not_eq_false] at inside
    have calm := window other
    rw [not_calm_of_inside inside] at calm
    cases calm
  refine { exact with
    whole := ?_, missing := fun _ => none_, torn := ?_
    absent := fun _ => none_, unpublished := ?_, present := ?_ }
  · intro activeUsers lastUsedAt whole
    cases piece with
    | marker => exact exact.whole activeUsers lastUsedAt whole
    | meta_ => cases whole
  · intro torn
    cases piece with
    | marker => exact exact.torn torn
    | meta_ => cases torn
  · intro other unpublished
    have inside := inside_of_unpublished unpublished
    rw [outside other] at inside
    cases inside
  · intro other entering
    have inside := inside_of_entering entering
    rw [outside other] at inside
    cases inside

end Count

/-! ## The steps -/

/-- What holds in every state of a careful run. -/
def Invariant (processes : Processes) (state : State) : Prop :=
  Locked processes state ∧ ∃ users, Exact state users

section Moves

variable {processes : Processes} {state : State} {users : List Nat}
  {task : Nat}

variable {work : Work}

/-- What a task inside leaves and enters the lock is still its own. -/
theorem fits_inside {after : Work} {phase : CacheLock.Phase}
    (fits : Fits work phase) (inside : work.inside = true)
    (keeps : ∀ keeps, work ≠ .unlocking keeps) (stays : after.inside = true) :
    Fits after phase := by
  unfold Fits at fits ⊢
  rw [if_pos inside] at fits
  rw [if_pos stays]
  obtain ⟨file, held | ⟨-, kept, is⟩⟩ := fits
  · exact ⟨file, .inl held⟩
  · exact absurd is (keeps kept)

theorem kinds_of_inside (inside : work.inside = true) :
    work.evicts = false ∧
      (∀ second ageMs, work ≠ .lockReading second ageMs) ∧
      ∀ second, work ≠ .lockRemoving second := by
  cases work <;> first | exact ⟨rfl, nofun, nofun⟩ | cases inside

/-- The lock follows a task that goes on inside. -/
theorem Locked.inside (locked : Locked processes state) (dir : KeyDir)
    (inside : (state.work task).inside = true)
    (keeps : ∀ keeps, state.work task ≠ .unlocking keeps)
    (stays : work.inside = true) :
    Locked processes
      { dir := dir, lock := state.lock
        work := Function.update state.work task work } := by
  obtain ⟨-, notReading, notRemoving⟩ := kinds_of_inside stays
  exact locked.next dir locked.sound (fun _ _ => rfl)
    (fits_inside (locked.fits task) inside keeps stays)
    (fun second ageMs is => absurd is (notReading second ageMs)) notRemoving

/-- A task goes on inside, and writes nothing. -/
theorem keeps_inside (locked : Locked processes state)
    (exact : Exact state users) {old : Work} (there : state.work task = old)
    (inside : old.inside = true) (keeps : ∀ keeps, old ≠ .unlocking keeps)
    (stays : work.inside = true) (counted : work.counted = old.counted)
    (pending : ∀ change activeUsers,
      work.pending = some (change, activeUsers) →
        activeUsers = change.apply users.length) (torn : old.fills = false)
    (unpublished : work.unpublished = true → state.dir.published = false)
    (present : work.entering = true → state.dir.published = true) :
    Invariant processes (state.enter task work) := by
  subst there
  exact ⟨locked.inside state.dir inside keeps stays, users,
    exact.active state.lock (not_calm_of_inside inside) counted pending
      (fun _ => torn) unpublished present (kinds_of_inside stays).1⟩

theorem kinds_of_evicts (evictor : work = .idle ∨ work.evicts = true) :
    work.calm = true ∧ work.inside = false ∧ work.counted = false ∧
      work.pending = none ∧ work.fills = false ∧
      work.unpublished = false ∧ work.entering = false := by
  rcases evictor with rfl | evicts
  · exact ⟨rfl, rfl, rfl, rfl, rfl, rfl, rfl⟩
  · cases work <;> first
      | exact ⟨rfl, rfl, rfl, rfl, rfl, rfl, rfl⟩
      | cases evicts

/-- An evictor starts or goes on, and may take a lock file away that is
nobody's. -/
theorem keeps_evicts (locked : Locked processes state)
    (exact : Exact state users) {old : Work} {lock : CacheLock.State}
    (there : state.work task = old) (evicts : old = .idle ∨ old.evicts = true)
    (evictor : work = .idle ∨ work.evicts = true)
    (sound : Sound processes lock) (phases : lock.phase = state.lock.phase)
    (aged : ∀ second ageMs, work = .lockReading second ageMs →
      ageMs < lockStaleMaxAgeMs)
    (unreclaimed : ∀ second, work ≠ .lockRemoving second)
    (removes : work.removes = true → users = [] ∧
      ∀ other, other ≠ task → (state.work other).calm = true) :
    Invariant processes
      { dir := state.dir, lock := lock
        work := Function.update state.work task work } := by
  subst there
  obtain ⟨calm, outside, uncounted, unpending, -, notUnpublished,
    notEntering⟩ := kinds_of_evicts evictor
  obtain ⟨wasCalm, -, wasUncounted, -, unfilled, -⟩ := kinds_of_evicts evicts
  have idle := idle_of_calm (locked.fits task) wasCalm
  refine ⟨locked.next state.dir sound (fun other _ => by rw [phases]) ?_ aged
    unreclaimed, users, exact.next lock (uncounted.trans wasUncounted.symm) ?_
    (fun _ => unfilled) ?_ ?_ (fun _ => calm) removes⟩
  · rw [phases, idle]
    exact fits_idle outside
  · intro change activeUsers pending
    rw [unpending] at pending
    cases pending
  · intro is
    rw [notUnpublished] at is
    cases is
  · intro is
    rw [notEntering] at is
    cases is

end Moves

section Proceed

variable {processes : Processes} {options : EvictOptions} {state next : State}
  {users : List Nat} {task : Nat} {outcome : Outcome}

section

variable (locked : Locked processes state) (exact : Exact state users)

include locked exact

/-- The task that reads the metadata under the lock finds the count, or none
before the first user. -/
theorem keeps_reading {change : Change}
    (there : state.work task = .reading change) :
    Invariant processes
      (state.enter task (afterReading change state.dir.meta_)) := by
  have inside : (state.work task).inside = true := by rw [there]; rfl
  have unfilled : (state.work task).fills = false := by rw [there]; rfl
  -- The write of a count that was read.
  have writes : ∀ activeUsers, activeUsers = users.length →
      Invariant processes
        (state.enter task (.truncating change (change.apply activeUsers))) := by
    intro activeUsers read
    refine keeps_inside locked exact there rfl nofun rfl rfl ?_ rfl nofun ?_
    · rintro _ _ ⟨⟩
      rw [read]
    · intro entering
      exact exact.present task (by rw [there]; exact entering)
  cases found : state.dir.meta_ with
  | whole activeUsers lastUsedAt =>
    exact writes activeUsers (exact.whole activeUsers lastUsedAt found)
  | missing =>
    have none_ := exact.missing found
    cases change with
    | enter => exact writes 0 (by rw [none_]; rfl)
    | leave =>
      have counted := (exact.mem task).mpr (by rw [there]; rfl)
      rw [none_] at counted
      cases counted
    | part =>
      have counted := (exact.mem task).mpr (by rw [there]; rfl)
      rw [none_] at counted
      cases counted
  | torn =>
    obtain ⟨other, fills⟩ := exact.torn found
    have same : other = task := by
      by_contra different
      have outside := locked.alone inside different
      rw [inside_of_fills fills] at outside
      cases outside
    rw [same, unfilled] at fills
    cases fills

/-- The last look of an evictor at the metadata finds the key without
users. -/
theorem keeps_metaReading {second : Bool}
    (there : state.work task = .metaReading second)
    (free : second = true → afterMeta true state.dir.meta_ = .deleting →
      ∀ other, (state.work other).calm = true) :
    Invariant processes
      (state.enter task (afterMeta second state.dir.meta_)) := by
  have idles : ∀ work : Work, work = .idle ∨ (∃ at_, work = .candidate at_) →
      Invariant processes (state.enter task work) := by
    rintro work (rfl | ⟨lastUsedAt, rfl⟩)
    · exact keeps_evicts locked exact there (.inr rfl) (.inl rfl) locked.sound
        rfl nofun nofun nofun
    · exact keeps_evicts locked exact there (.inr rfl) (.inr rfl) locked.sound
        rfl nofun nofun nofun
  cases second with
  | false =>
    apply idles
    cases state.dir.meta_ with
    | whole activeUsers lastUsedAt =>
      cases activeUsers with
      | zero => exact .inr ⟨lastUsedAt, rfl⟩
      | succ activeUsers => exact .inl rfl
    | missing => exact .inl rfl
    | torn => exact .inl rfl
  | true =>
    have deletes : afterMeta true state.dir.meta_ = .deleting →
        users = [] → Invariant processes (state.enter task .deleting) :=
      fun found none_ =>
        keeps_evicts locked exact there (.inr rfl) (.inr rfl) locked.sound rfl
          nofun nofun fun _ => ⟨none_, fun other _ => free rfl found other⟩
    cases found : state.dir.meta_ with
    | whole activeUsers lastUsedAt =>
      have read := exact.whole activeUsers lastUsedAt found
      cases activeUsers with
      | zero =>
        exact deletes (by rw [found]; rfl)
          (List.length_eq_zero_iff.mp read.symm)
      | succ activeUsers => exact idles .idle (.inl rfl)
    | missing => exact deletes (by rw [found]; rfl) (exact.missing found)
    | torn =>
      obtain ⟨other, fills⟩ := exact.torn found
      have calm := free rfl (by rw [found]; rfl) other
      rw [not_calm_of_inside (inside_of_fills fills)] at calm
      cases calm

/-- No lock file stands when an evictor removes it. -/
theorem keeps_unlinking (there : state.work task = .unlinking)
    (absent : state.lock.lock = none) :
    Invariant processes (state.unlink.enter task .idle) := by
  have same : { state.lock with lock := none } = state.lock := by
    rw [← absent]
  have sound : Sound processes { state.lock with lock := none } := by
    rw [same]
    exact locked.sound
  exact keeps_evicts locked exact there (.inr rfl) (.inl rfl) sound rfl nofun
    nofun nofun

/-- A lock that is looked at by an evictor is left alone. -/
theorem keeps_judge {second : Bool} {ageMs : Int}
    (there : state.work task = .lockReading second ageMs)
    (reads : ∃ file, state.lock.lock = some file ∧ file.content ≠ []) :
    Invariant processes (judge processes state task second ageMs) := by
  obtain ⟨file, standing, nonempty⟩ := reads
  obtain ⟨owner, written⟩ := locked.sound.written file standing nonempty
  unfold judge
  rw [standing, CacheLock.pidAlive_of_pidLine processes written,
    decide_eq_true (locked.aged task second ageMs there)]
  exact keeps_evicts locked exact there (.inr rfl) (.inl rfl) locked.sound rfl
    nofun nofun nofun

theorem keeps_proceed (careful : Careful state (.proceed task outcome))
    (stepped : proceed processes options state task outcome = some next) :
    Invariant processes next := by
  obtain ⟨young, reads, free, absent, commits⟩ := careful
  unfold proceed at stepped
  generalize there : state.work task = work at stepped
  cases work with
  | looking =>
    cases stepped
    have keeps : ∀ work : Work, work.inside = true →
        work.counted = false → work.pending = none →
        (work.unpublished = true → state.dir.published = false) →
        (work.entering = true → state.dir.published = true) →
        Invariant processes (state.enter task work) := by
      intro work stays uncounted unpending unpublished present
      refine keeps_inside locked exact there rfl nofun stays uncounted ?_ rfl
        unpublished present
      intro change activeUsers pending
      rw [unpending] at pending
      cases pending
    split
    · rename_i published
      exact keeps _ rfl rfl rfl nofun fun _ => published
    · rename_i absent
      split
      · exact keeps _ rfl rfl rfl
          (fun _ => Bool.eq_false_iff.mpr absent) nofun
      · exact keeps _ rfl rfl rfl nofun nofun
  | reading change =>
    cases stepped
    exact keeps_reading locked exact there
  | truncating change activeUsers =>
    dsimp only at stepped
    have inside : (state.work task).inside = true := by rw [there]; rfl
    split at stepped
    · cases stepped
      exact ⟨locked.inside _ inside (by rw [there]; nofun) rfl, users,
        exact.truncate (fun other => locked.alone inside) there⟩
    · rename_i failed
      cases stepped
      have enters : change = .enter := by
        by_contra leaves
        exact failed (commits (by rw [there]; exact decide_eq_true leaves))
      subst enters
      exact keeps_inside locked exact there rfl nofun rfl rfl nofun rfl nofun
        nofun
  | filling change activeUsers =>
    dsimp only at stepped
    have inside : (state.work task).inside = true := by rw [there]; rfl
    rw [if_pos (commits (by rw [there]; rfl))] at stepped
    cases stepped
    refine ⟨locked.inside _ inside (by rw [there]; nofun) rfl, ?_⟩
    by_cases enters : change = .enter
    · subst enters
      exact ⟨task :: users,
        exact.fill_enter (fun other => locked.alone inside) there⟩
    · rw [decide_eq_false enters]
      exact ⟨users.erase task,
        exact.fill_leave (fun other => locked.alone inside) enters there⟩
  | making =>
    cases stepped
    rw [if_pos (commits (by rw [there]; rfl))]
    have idle := idle_of_calm (locked.fits task) (by rw [there]; rfl)
    refine ⟨locked.next state.dir locked.sound (fun _ _ => rfl) ?_ nofun
      nofun, users, exact.next state.lock ?_ nofun ?_ nofun nofun
        (fun _ => rfl) nofun⟩
    · rw [idle]
      exact fits_idle rfl
    · rw [there]
      rfl
    · rw [there]
      exact fun _ => rfl
  | clearing =>
    cases stepped
    have absent := exact.unpublished task (by rw [there]; rfl)
    split
    · exact keeps_inside locked exact there rfl nofun rfl rfl nofun rfl
        (fun _ => absent) nofun
    · exact keeps_inside locked exact there rfl nofun rfl rfl nofun rfl nofun
        nofun
  | swapping =>
    dsimp only at stepped
    have inside : (state.work task).inside = true := by rw [there]; rfl
    have absent := exact.unpublished task (by rw [there]; rfl)
    split at stepped
    · cases stepped
      exact ⟨locked.inside _ inside (by rw [there]; nofun) rfl, [task],
        exact.publish (fun other => locked.alone inside) there⟩
    · cases stepped
      exact keeps_inside locked exact there rfl nofun rfl rfl nofun rfl
        (fun _ => absent) nofun
  | parting published =>
    cases stepped
    have same : state.dir.published = published := by
      cases published with
      | false => exact exact.unpublished task (by rw [there]; rfl)
      | true =>
        by_contra absent
        rw [Bool.not_eq_true] at absent
        have counted := (exact.mem task).mpr (by rw [there]; rfl)
        rw [exact.absent absent] at counted
        cases counted
    rw [same]
    cases published with
    | false =>
      exact keeps_inside locked exact there rfl nofun rfl rfl nofun rfl nofun
        nofun
    | true =>
      exact keeps_inside locked exact there rfl nofun rfl rfl nofun rfl nofun
        nofun
  | scanning =>
    cases stepped
    split
    · exact keeps_evicts locked exact there (.inr rfl) (.inr rfl) locked.sound
        rfl nofun nofun nofun
    · exact keeps_evicts locked exact there (.inr rfl) (.inl rfl) locked.sound
        rfl nofun nofun nofun
  | lockLooking second =>
    cases stepped
    split
    all_goals
      exact keeps_evicts locked exact there (.inr rfl) (.inr rfl) locked.sound
        rfl nofun nofun nofun
  | lockStatting second =>
    cases stepped
    unfold reclaim
    cases standing : state.lock.lock with
    | none =>
      exact keeps_evicts locked exact there (.inr rfl) (.inl rfl) locked.sound
        rfl nofun nofun nofun
    | some file =>
      refine keeps_evicts locked exact there (.inr rfl) (.inr rfl) locked.sound
        rfl ?_ nofun nofun
      rintro _ _ ⟨⟩
      exact young second file there standing
  | lockReading second ageMs =>
    cases stepped
    exact keeps_judge locked exact there (reads second ageMs there)
  | lockRemoving second => exact absurd there (locked.unreclaimed task second)
  | metaReading second =>
    cases stepped
    refine keeps_metaReading locked exact there ?_
    rintro rfl
    exact free there
  | candidate lastUsedAt =>
    cases stepped
    split
    · exact keeps_evicts locked exact there (.inr rfl) (.inr rfl) locked.sound
        rfl nofun nofun nofun
    · exact keeps_evicts locked exact there (.inr rfl) (.inl rfl) locked.sound
        rfl nofun nofun nofun
  | deleting =>
    dsimp only at stepped
    have removes : (state.work task).removes = true := by rw [there]; rfl
    split at stepped
    · rename_i piece _
      cases stepped
      exact ⟨⟨locked.sound, locked.fits, locked.aged, locked.unreclaimed⟩,
        users, exact.lose removes piece⟩
    · split at stepped
      · cases stepped
        exact keeps_evicts locked exact there (.inr rfl) (.inr rfl)
          locked.sound rfl nofun nofun nofun
      · cases stepped
  | unlinking =>
    cases stepped
    exact keeps_unlinking locked exact there (absent there)
  | _ => cases stepped

/-- A task asks for the lock while the directory is not removed. -/
theorem keeps_ask {leaving : Bool}
    (unremoved : ∀ other, (state.work other).removes = false)
    (calm : (state.work task).calm = true)
    (counted : leaving = (state.work task).counted)
    (asked : state.ask processes task leaving = some next) :
    Invariant processes next := by
  obtain ⟨lock, locks, rfl⟩ := Option.map_eq_some_iff.mp asked
  have sound : Sound processes lock := locked.sound.step
    (fun _ _ _ is => by cases is) (fun _ _ _ is => by cases is) locks
  have unfilled : (state.work task).fills = false := by
    by_contra fills
    rw [Bool.not_eq_false] at fills
    rw [not_calm_of_inside (inside_of_fills fills)] at calm
    cases calm
  refine ⟨locked.next state.dir sound (fun other => lock_step_other locks) ?_
    nofun nofun, users, exact.next lock counted nofun (fun _ => unfilled)
      nofun nofun ?_ nofun⟩
  · unfold Fits
    refine Or.inr ⟨⟨leaving, rfl⟩, ?_⟩
    unfold CacheLock.step at locks
    dsimp only at locks
    rw [idle_of_calm (locked.fits task) calm] at locks
    cases locks
    rw [CacheLock.phase_enter, if_pos rfl]
    nofun
  · rintro ⟨other, removes⟩
    rw [unremoved other] at removes
    cases removes

theorem keeps_start {call : Call} (careful : Careful state (.start task call))
    (stepped : step processes options state (.start task call) = some next) :
    Invariant processes next := by
  unfold step at stepped
  dsimp only at stepped
  split at stepped
  · rename_i there
    exact keeps_ask locked exact careful (by rw [there]; rfl)
      (by rw [there]; rfl) stepped
  · rename_i there
    refine keeps_ask locked exact (fun other => ?_) (by rw [there]; rfl)
      (by rw [there]; rfl) stepped
    by_contra removes
    rw [Bool.not_eq_false] at removes
    have isUser := (exact.mem task).mpr (by rw [there]; rfl)
    rw [exact.empty other removes] at isUser
    cases isUser
  · rename_i published there
    cases stepped
    refine keeps_inside locked exact there rfl nofun rfl rfl nofun rfl ?_ nofun
    intro absent
    exact exact.unpublished task (by rw [there]; exact absent)
  · rename_i there
    cases stepped
    refine keeps_inside locked exact there rfl nofun rfl rfl nofun rfl ?_ nofun
    exact fun _ => exact.unpublished task (by rw [there]; rfl)
  · rename_i there
    cases stepped
    exact keeps_evicts locked exact there (.inl rfl) (.inr rfl) locked.sound
      rfl nofun nofun nofun
  · cases stepped

end

variable {lock : CacheLock.State}

/-- An operation of `acquireExclusiveLock` ends with the lock or goes on. -/
theorem phase_of_proceed {after : CacheLock.State} {nowMs : Int}
    (unreleased : ∀ file, lock.phase task ≠ .releasing file)
    (stepped : CacheLock.proceed processes lock task nowMs = some after) :
    after.phase task ≠ .idle ∧
      ∀ file, after.phase task ≠ .releasing file := by
  have entered : ∀ phase, (lock.enter task phase).phase task = phase :=
    fun phase => by rw [CacheLock.phase_enter, if_pos rfl]
  have goesOn : ∀ phase : CacheLock.Phase, after.phase task = phase →
      phase ≠ .idle → (∀ file, phase ≠ .releasing file) →
      after.phase task ≠ .idle ∧
        ∀ file, after.phase task ≠ .releasing file := by
    rintro phase rfl notIdle notReleasing
    exact ⟨notIdle, notReleasing⟩
  unfold CacheLock.proceed at stepped
  cases phase : lock.phase task with
  | idle =>
    rw [phase] at stepped
    cases stepped
  | opening =>
    rw [phase] at stepped
    cases stepped
    cases standing : lock.lock with
    | none =>
      refine goesOn (.writing lock.created) ?_ nofun nofun
      unfold CacheLock.openExclusive
      rw [standing]
      exact Function.update_self ..
    | some file =>
      refine goesOn .statting ?_ nofun nofun
      unfold CacheLock.openExclusive
      rw [standing]
      exact entered _
  | writing file =>
    rw [phase] at stepped
    cases stepped
    exact goesOn (.held file) (Function.update_self ..) nofun nofun
  | held file =>
    rw [phase] at stepped
    cases stepped
  | releasing file => exact absurd phase (unreleased file)
  | statting =>
    rw [phase] at stepped
    cases stepped
    cases standing : lock.lock with
    | none =>
      refine goesOn .opening ?_ nofun nofun
      unfold CacheLock.statLock
      rw [standing]
      exact entered _
    | some file =>
      refine goesOn (.reading (nowMs - file.mtimeMs)) ?_ nofun nofun
      unfold CacheLock.statLock
      rw [standing]
      exact entered _
  | reading ageMs =>
    rw [phase] at stepped
    cases stepped
    by_cases alive : (pidAlive processes lock.lock &&
        decide (ageMs < lockStaleMaxAgeMs)) = true
    · refine goesOn .opening ?_ nofun nofun
      unfold CacheLock.readLock
      rw [if_pos alive]
      exact entered _
    · refine goesOn .removing ?_ nofun nofun
      unfold CacheLock.readLock
      rw [if_neg alive]
      exact entered _
  | removing =>
    rw [phase] at stepped
    cases stepped
    exact goesOn .opening (Function.update_self ..) nofun nofun

variable {action : CacheLock.Action}

/-- A task in `acquireExclusiveLock` has the lock then, or it has given up, or
it goes on. -/
theorem phase_of_locking {after : CacheLock.State} {leaving : Bool}
    (may : locks (.locking leaving) action = true)
    (unreleased : ∀ file, lock.phase task ≠ .releasing file)
    (stepped : CacheLock.step processes lock ⟨task, action⟩ = some after) :
    (∃ file, after.phase task = .held file) ∨
      after.phase task = .idle ∧ action = .timeout ∨
      afterLock (.locking leaving) (after.phase task) = .locking leaving ∧
        ∀ file, after.phase task ≠ .releasing file := by
  cases action with
  | acquire => cases leaving <;> cases may
  | release => cases leaving <;> cases may
  | touch nowMs => cases leaving <;> cases may
  | timeout =>
    right
    left
    unfold CacheLock.step at stepped
    dsimp only at stepped
    split at stepped
    · rename_i is _
      cases is
    · cases stepped
      refine ⟨?_, rfl⟩
      rw [CacheLock.phase_enter, if_pos rfl]
    · rename_i is _
      cases is
    · rename_i is _
      cases is
    · rename_i is
      cases is
    · cases stepped
  | proceed nowMs =>
    have proceeds : CacheLock.proceed processes lock task nowMs =
        some after := by
      unfold CacheLock.step at stepped
      exact stepped
    obtain ⟨notIdle, notReleasing⟩ := phase_of_proceed unreleased proceeds
    cases phase : after.phase task with
    | held file => exact .inl ⟨file, rfl⟩
    | idle => exact absurd phase notIdle
    | releasing file => exact absurd phase (notReleasing file)
    | opening => exact .inr (.inr ⟨by cases leaving <;> rfl, nofun⟩)
    | writing file => exact .inr (.inr ⟨by cases leaving <;> rfl, nofun⟩)
    | statting => exact .inr (.inr ⟨by cases leaving <;> rfl, nofun⟩)
    | reading ageMs => exact .inr (.inr ⟨by cases leaving <;> rfl, nofun⟩)
    | removing => exact .inr (.inr ⟨by cases leaving <;> rfl, nofun⟩)

/-- The task stays where it is. -/
theorem keeps_same (locked : Locked processes state)
    (exact : Exact state users) (sound : Sound processes lock)
    (stepped : CacheLock.step processes state.lock ⟨task, action⟩ = some lock)
    (fits : Fits (state.work task) (lock.phase task)) :
    Invariant processes
      ({ state with lock := lock }.enter task (state.work task)) := by
  have same : { state with lock := lock }.enter task (state.work task) =
      { state with lock := lock } := by
    unfold State.enter
    rw [Function.update_eq_self]
  have next := locked.next state.dir sound
    (fun other => lock_step_other stepped) fits (locked.aged task)
    (locked.unreclaimed task)
  rw [Function.update_eq_self] at next
  rw [same]
  exact ⟨next, users, { exact with }⟩

/-- The time of a lock is refreshed while it is held. -/
theorem phase_of_touch {after : CacheLock.State} {nowMs : Int}
    (stepped : CacheLock.step processes lock ⟨task, .touch nowMs⟩ =
      some after) :
    (∃ file, lock.phase task = .held file) ∧ after.phase = lock.phase := by
  rcases CacheLock.step_cases stepped with
    ⟨idle, -⟩ | ⟨opening, -⟩ | ⟨file, now, held, rfl⟩ | ⟨file, held, rfl⟩ |
      ⟨now, is, -⟩
  · unfold CacheLock.step at stepped
    dsimp only at stepped idle
    rw [idle] at stepped
    cases stepped
  · unfold CacheLock.step at stepped
    dsimp only at stepped opening
    rw [opening] at stepped
    cases stepped
  · exact ⟨⟨file, held⟩, rfl⟩
  · unfold CacheLock.step at stepped
    dsimp only at stepped held
    rw [held] at stepped
    refine ⟨⟨file, held⟩, ?_⟩
    rw [← Option.some.inj stepped]
    rfl
  · cases is

section

variable (locked : Locked processes state) (exact : Exact state users)

include locked exact

theorem keeps_locking {leaving : Bool}
    (there : state.work task = .locking leaving)
    (may : locks (.locking leaving) action = true)
    (patient : leaving = true → action ≠ .timeout)
    (sound : Sound processes lock)
    (stepped : CacheLock.step processes state.lock ⟨task, action⟩ = some lock) :
    Invariant processes ({ state with lock := lock }.enter task
      (afterLock (.locking leaving) (lock.phase task))) := by
  have active : (state.work task).calm = false := by rw [there]; rfl
  have unfilled : (state.work task).fills = false := by rw [there]; rfl
  have unreleased : ∀ file, state.lock.phase task ≠ .releasing file := by
    have fits := locked.fits task
    rw [there] at fits
    rcases (fits : _ ∨ _) with idle | ⟨-, unreleased⟩
    · rw [idle]
      nofun
    · exact unreleased
  rcases phase_of_locking may unreleased stepped with
    ⟨file, held⟩ | ⟨idle, timeout⟩ | ⟨same, unreleased⟩
  · rw [held]
    cases leaving with
    | false =>
      refine ⟨locked.next state.dir sound
        (fun other => lock_step_other stepped) ⟨file, .inl held⟩ nofun nofun,
        users, exact.active lock active ?_ nofun (fun _ => unfilled) nofun
          nofun rfl⟩
      rw [there]
      rfl
    | true =>
      refine ⟨locked.next state.dir sound
        (fun other => lock_step_other stepped) ⟨file, .inl held⟩ nofun nofun,
        users, exact.active lock active ?_ nofun (fun _ => unfilled) nofun
          nofun rfl⟩
      rw [there]
      rfl
  · rw [idle]
    cases leaving with
    | false =>
      refine ⟨locked.next state.dir sound
        (fun other => lock_step_other stepped) (.inl idle) nofun nofun,
        users, exact.active lock active ?_ nofun (fun _ => unfilled) nofun
          nofun rfl⟩
      rw [there]
      rfl
    | true => exact absurd timeout (patient rfl)
  · rw [same, ← there]
    refine keeps_same locked exact sound stepped ?_
    rw [there]
    exact Or.inr ⟨⟨leaving, rfl⟩, unreleased⟩

theorem keeps_unlocking {keeps : Bool}
    (there : state.work task = .unlocking keeps)
    (may : locks (.unlocking keeps) action = true)
    (sound : Sound processes lock)
    (stepped : CacheLock.step processes state.lock ⟨task, action⟩ = some lock) :
    Invariant processes ({ state with lock := lock }.enter task
      (afterLock (.unlocking keeps) (lock.phase task))) := by
  have active : (state.work task).calm = false := by rw [there]; rfl
  have unfilled : (state.work task).fills = false := by rw [there]; rfl
  have stays : ∀ file, lock.phase task = .held file ∨
      lock.phase task = .releasing file →
      Invariant processes ({ state with lock := lock }.enter task
        (afterLock (.unlocking keeps) (lock.phase task))) := by
    intro file phase
    have same : afterLock (.unlocking keeps) (lock.phase task) =
        state.work task := by
      rw [there]
      rcases phase with held | releasing
      · rw [held]
        cases keeps <;> rfl
      · rw [releasing]
        cases keeps <;> rfl
    rw [same]
    refine keeps_same locked exact sound stepped ?_
    rw [there]
    refine ⟨file, phase.imp_right fun releasing => ⟨releasing, keeps, rfl⟩⟩
  have fits := locked.fits task
  rw [there] at fits
  obtain ⟨file, phase⟩ := (fits : ∃ file, _ ∨ _)
  cases action with
  | acquire => cases keeps <;> cases may
  | timeout => cases keeps <;> cases may
  | touch nowMs =>
    obtain ⟨⟨held, is⟩, same⟩ := phase_of_touch stepped
    exact stays held (.inl (by rw [same]; exact is))
  | release =>
    rcases phase with held | ⟨releasing, -⟩
    · unfold CacheLock.step at stepped
      dsimp only at stepped
      rw [held] at stepped
      cases stepped
      refine stays file (.inr ?_)
      rw [CacheLock.phase_enter, if_pos rfl]
    · unfold CacheLock.step at stepped
      dsimp only at stepped
      rw [releasing] at stepped
      cases stepped
  | proceed nowMs =>
    have proceeds : CacheLock.proceed processes state.lock task nowMs =
        some lock := by
      unfold CacheLock.step at stepped
      exact stepped
    unfold CacheLock.proceed at proceeds
    rcases phase with held | ⟨releasing, -⟩
    · rw [held] at proceeds
      cases proceeds
    · rw [releasing] at proceeds
      cases proceeds
      have idle : (CacheLock.removeLock state.lock task .idle).phase task =
          .idle := Function.update_self ..
      rw [idle]
      cases keeps with
      | false =>
        refine ⟨locked.next state.dir sound
          (fun other => lock_step_other stepped) ?_ nofun nofun, users,
          exact.active _ active ?_ nofun (fun _ => unfilled) nofun nofun
            rfl⟩
        · rw [idle]
          exact .inl rfl
        · rw [there]
          rfl
      | true =>
        refine ⟨locked.next state.dir sound
          (fun other => lock_step_other stepped) ?_ nofun nofun, users,
          exact.active _ active ?_ nofun (fun _ => unfilled) nofun nofun
            rfl⟩
        · rw [idle]
          exact .inl rfl
        · rw [there]
          rfl

/-- A task without a part in the lock only refreshes its time. -/
theorem keeps_touch {nowMs : Int}
    (same : ∀ phase : CacheLock.Phase, (∃ file, phase = .held file) →
      afterLock (state.work task) phase = state.work task)
    (sound : Sound processes lock)
    (stepped : CacheLock.step processes state.lock ⟨task, .touch nowMs⟩ =
      some lock) :
    Invariant processes ({ state with lock := lock }.enter task
      (afterLock (state.work task) (lock.phase task))) := by
  obtain ⟨⟨file, held⟩, phases⟩ := phase_of_touch stepped
  have isHeld : lock.phase task = .held file := by rw [phases]; exact held
  rw [same _ ⟨file, isHeld⟩]
  refine keeps_same locked exact sound stepped ?_
  rw [phases]
  exact locked.fits task

theorem keeps_lock (careful : Careful state (.lock task action))
    (stepped : step processes options state (.lock task action) = some next) :
    Invariant processes next := by
  obtain ⟨young, reads, patient⟩ := careful
  obtain ⟨may, mapped⟩ := Option.ite_none_right_eq_some.mp stepped
  obtain ⟨lock, locks_, rfl⟩ := Option.map_eq_some_iff.mp mapped
  have sound : Sound processes lock := locked.sound.step young reads locks_
  cases there : state.work task with
  | locking leaving =>
    rw [there] at may
    refine keeps_locking locked exact there may ?_ sound locks_
    exact fun leaves => patient (by rw [there, leaves])
  | unlocking keeps =>
    rw [there] at may
    exact keeps_unlocking locked exact there may sound locks_
  | idle =>
    rw [there] at may
    cases action <;> cases may
  | _ =>
    rw [there] at may
    cases action with
    | touch nowMs =>
      rw [← there]
      refine keeps_touch locked exact ?_ sound locks_
      rintro phase ⟨file, rfl⟩
      rw [there]
      rfl
    | _ => cases may

end

theorem Invariant.step {label : Label} (invariant : Invariant processes state)
    (careful : Careful state label)
    (stepped : BuildCacheUse.step processes options state label = some next) :
    Invariant processes next := by
  obtain ⟨locked, users, exact⟩ := invariant
  cases label with
  | start task call => exact keeps_start locked exact careful stepped
  | lock task action => exact keeps_lock locked exact careful stepped
  | proceed task outcome => exact keeps_proceed locked exact careful stepped

theorem invariant_start : Invariant processes start := by
  refine ⟨⟨CacheLock.sound_start, fun _ => .inl rfl, nofun, nofun⟩, [], ?_⟩
  exact {
    distinct := List.nodup_nil
    mem := fun _ => iff_of_false List.not_mem_nil Bool.false_ne_true
    whole := nofun
    missing := fun _ => rfl
    torn := nofun
    pending := nofun
    absent := fun _ => rfl
    unpublished := nofun
    present := nofun
    window := nofun
    empty := nofun }

/-- In a state of a careful run, everybody at a key that is being removed is an
evictor. -/
theorem Invariant.kept (invariant : Invariant processes state) :
    Kept state := by
  obtain ⟨-, users, exact⟩ := invariant
  refine ⟨⟨users, exact.toUsers, exact.whole, exact.missing⟩, ?_⟩
  intro task deleting other
  have none_ := exact.empty task (by rw [deleting]; rfl)
  have calm := exact.window task (by rw [deleting]; rfl) other
  have uncounted : (state.work other).counted = false := by
    by_contra counted
    rw [Bool.not_eq_false] at counted
    have isUser := (exact.mem other).mpr counted
    rw [none_] at isUser
    cases isUser
  cases there : state.work other with
  | idle => exact .inl rfl
  | making => rw [there] at uncounted; cases uncounted
  | hit => rw [there] at uncounted; cases uncounted
  | _ =>
    rw [there] at calm
    first
      | exact .inr rfl
      | cases calm

end Proceed

/-- When locks are only taken from the dead, no evictor is behind its last look
while a call begins or has the lock, and no step behind a count fails, the
counts are exact and no key is removed in use. -/
theorem keys_kept {Key : Type} [DecidableEq Key] (processes : Processes)
    (options : EvictOptions) (states : Key → State)
    (reachable : ((machine processes options).family Key).Reachable
      (Machine.everywhere Careful) states) (key : Key) :
    Kept (states key) := by
  have invariant : Invariant processes (states key) := by
    refine (reachable.member key).invariant ?_ ?_
    · rintro _ rfl
      exact invariant_start
    · intro state label next invariant careful stepped
      exact invariant.step careful stepped
  exact invariant.kept

/-! ## A miss and a removal -/

/-- The steps of a task that does not evict and meets no trouble, behind the
first one. -/
def looksCareful (state : State) : Label → Bool
  | .start _ .acquireForJob => false
  | .start _ _ => true
  | .lock task action =>
    CacheLock.looksYoung state.lock ⟨task, action⟩ &&
      CacheLock.readsPid state.lock ⟨task, action⟩ &&
      decide (state.work task ≠ .locking true)
  | .proceed task outcome => !(state.work task).evicts && outcome.ok

theorem looksCareful_sound {state : State} {label : Label}
    (meets : looksCareful state label = true) : Careful state label := by
  cases label with
  | start task call =>
    cases call with
    | acquireForJob => cases meets
    | release => trivial
    | publishIfAllowed => trivial
    | evictInactive => trivial
  | lock task action =>
    unfold looksCareful at meets
    rw [Bool.and_eq_true, Bool.and_eq_true, decide_eq_true_eq] at meets
    exact ⟨CacheLock.looksYoung_sound meets.1.1,
      CacheLock.readsPid_sound meets.1.2,
      fun leaving => absurd leaving meets.2⟩
  | proceed task outcome =>
    unfold looksCareful at meets
    rw [Bool.and_eq_true, Bool.not_eq_true'] at meets
    obtain ⟨user, ok⟩ := meets
    have notEvicting : ∀ work : Work, work.evicts = true →
        state.work task ≠ work := by
      rintro work evicts rfl
      rw [user] at evicts
      cases evicts
    exact ⟨fun _ _ is => absurd is (notEvicting _ rfl),
      fun _ _ is => absurd is (notEvicting _ rfl),
      fun is => absurd is (notEvicting _ rfl),
      fun is => absurd is (notEvicting _ rfl), fun _ => ok⟩

def ownProcesses : Processes := CacheLock.ownProcesses

/-- Every candidate goes. -/
def emptied : EvictOptions := ⟨0, 0, 0⟩

/-- What an operation meets that succeeds. -/
def succeeds : Outcome := ⟨true, 0, 0, 0, 0, none⟩

/-- An acquire that has asked for the lock. -/
def asked : State :=
  ((start.ask ownProcesses 0 false)).getD start

/-- The lock is taken, the key is missing, and the miss is published. -/
def publishedLabels : List Label :=
  [.lock 0 (.proceed 0), .lock 0 (.proceed 0), .proceed 0 succeeds,
    .proceed 0 succeeds, .start 0 .publishIfAllowed, .proceed 0 succeeds]

def published : State :=
  ((machine ownProcesses emptied).run asked publishedLabels).getD start

theorem published_meets : (machine ownProcesses emptied).runMeets looksCareful
    asked publishedLabels = true := by
  decide +kernel

theorem keys_kept_published :
    published.dir = ⟨true, .whole 1 0⟩ ∧ published.work 0 = .miss true ∧
      Kept published := by
  refine ⟨by decide +kernel, by decide +kernel, ?_⟩
  have steps : (machine ownProcesses emptied).Steps Careful start published :=
    (Machine.steps_of_run looksCareful (fun _ _ => looksCareful_sound)
      published_meets rfl).head
        ⟨.start 0 .acquireForJob, fun _ => rfl, rfl⟩
  have reached := keys_kept ownProcesses emptied
    (Function.update (fun _ => start) 0 published)
    ⟨fun _ : Nat => start, fun _ => rfl, steps.family rfl⟩ 0
  rw [Function.update_self] at reached
  exact reached

/-- The miss is released, and an evictor takes its two looks at the key; then a
second acquire counts its hit, and the evictor removes the directory. -/
def removedLabels : List Label :=
  .start 0 .acquireForJob :: publishedLabels ++
    [.start 0 .release, .proceed 0 succeeds, .proceed 0 succeeds,
      .proceed 0 succeeds, .proceed 0 succeeds, .lock 0 .release,
      .lock 0 (.proceed 0),
      .start 1 .evictInactive, .proceed 1 succeeds, .proceed 1 succeeds,
      .proceed 1 succeeds, .proceed 1 succeeds, .proceed 1 succeeds,
      .proceed 1 succeeds,
      .start 2 .acquireForJob, .lock 2 (.proceed 0), .lock 2 (.proceed 0),
      .proceed 2 succeeds, .proceed 2 succeeds, .proceed 2 succeeds,
      .proceed 2 succeeds, .lock 2 .release, .lock 2 (.proceed 0),
      .proceed 2 succeeds,
      .proceed 1 { succeeds with piece := some .marker },
      .proceed 1 { succeeds with piece := some .meta_ }]

def removed : State :=
  ((machine ownProcesses emptied).run start removedLabels).getD start

theorem key_removed_in_use :
    ∃ states, ((machine ownProcesses emptied).family Nat).Reachable
        (fun _ _ => True) states ∧
      (states 0).work 2 = .hit ∧ (states 0).dir = ⟨false, .missing⟩ ∧
      ¬ Kept (states 0) := by
  have steps : (machine ownProcesses emptied).Steps (fun _ _ => True) start
      removed :=
    Machine.steps_of_run_eq_some (rfl : (machine ownProcesses emptied).run
      start removedLabels = some removed)
  have inUse : removed.work 2 = .hit := by decide +kernel
  have deleting : removed.work 1 = .deleting := by decide +kernel
  refine ⟨Function.update (fun _ => start) 0 removed,
    ⟨fun _ => start, fun _ => rfl, steps.family rfl⟩, ?_⟩
  rw [Function.update_self]
  refine ⟨inUse, by decide +kernel, fun kept => ?_⟩
  have spared := kept.spared 1 deleting 2
  rw [inUse] at spared
  rcases spared with idle | evicts
  · cases idle
  · cases evicts

end Rbo.Agent.BuildCacheUse
