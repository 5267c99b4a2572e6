import Mathlib.Logic.Function.Basic
import Rbo.Foundation.Json
import Rbo.Foundation.Run

/-!
# The lock file of a build-cache key

`acquireExclusiveLock` creates the lock file of a key exclusively and then
writes the pid of its process into it; the release removes whatever stands at
the path.  A task that finds the file there asks `reclaimStaleLockIfNeeded`,
which looks at the age and then at the pid, and removes the file when it takes
the owner for dead.

All tasks of all processes share the file, and each operation on it is one
step.
-/

namespace Rbo.Agent.CacheLock

open Rbo.Foundation

/-! ## The lock file -/

/-- The file that stands at the path.  A file that is removed and created
again is another file, also for the handle that is still open on the old one. -/
structure LockFile where
  id : Nat
  content : List Char
  mtimeMs : Int
  deriving DecidableEq

def lockStaleMaxAgeMs : Int := 10 * 60 * 1000

/-- `${process.pid}\n`. -/
def pidLine (pid : Nat) : List Char :=
  Json.stringifyNat pid ++ ['\n']

/-- `Number.parseInt` of digits. -/
def parseDigits (text : List Char) : Option Int :=
  let digits := text.takeWhile Char.isDigit
  if digits.isEmpty then none
  else some (Int.ofNat (Nat.ofDigitChars 10 digits 0))

/-- `Number.parseInt` of trimmed text, in base ten. -/
def parseInt (text : List Char) : Option Int :=
  let trimmed := text.dropWhile Char.isWhitespace
  if trimmed.head? = some '-' then (parseDigits trimmed.tail).map Int.neg
  else if trimmed.head? = some '+' then parseDigits trimmed.tail
  else parseDigits trimmed

/-- The processes of the tasks, none of which dies. -/
structure Processes where
  /-- Does `process.kill(pid, 0)` find a process? -/
  found : Nat → Bool
  pid : Nat → Nat
  positive : ∀ task, 0 < pid task
  alive : ∀ task, found (pid task) = true

variable (processes : Processes)

/-- `isPidAlive`. -/
def isPidAlive (pid : Int) : Bool :=
  decide (0 < pid) && processes.found pid.toNat

/-- Does the text that was read name a process that is there?  A file that is
gone is not read. -/
def pidAlive (lock : Option LockFile) : Bool :=
  match lock with
  | none => false
  | some file =>
    match parseInt file.content with
    | none => false
    | some pid => isPidAlive processes pid

/-! ## The tasks -/

/-- Where a task is in `acquireExclusiveLock` and the release. -/
inductive Phase where
  | idle
  /-- At the head of the loop, about to open the file with `wx`. -/
  | opening
  /-- The file is created, and the pid not written. -/
  | writing (file : Nat)
  /-- `acquireExclusiveLock` has returned. -/
  | held (file : Nat)
  /-- The release is called, and the file not removed. -/
  | releasing (file : Nat)
  /-- `EEXIST`: about to look at the file. -/
  | statting
  /-- About to read the file that was so old. -/
  | reading (ageMs : Int)
  /-- About to remove a file that is taken for stale. -/
  | removing
  deriving DecidableEq

/-- The lock file and the tasks. -/
structure State where
  lock : Option LockFile
  /-- How many files were created so far. -/
  created : Nat
  phase : Nat → Phase

/-- What happens next to a task. -/
inductive Action where
  | acquire
  /-- The deadline of the loop has passed. -/
  | timeout
  /-- The operation that the task is about to make, at this time. -/
  | proceed (nowMs : Int)
  /-- The timer that refreshes the time of the file. -/
  | touch (nowMs : Int)
  | release
  deriving DecidableEq

structure Label where
  task : Nat
  action : Action
  deriving DecidableEq

def State.enter (state : State) (task : Nat) (phase : Phase) : State :=
  { state with phase := Function.update state.phase task phase }

/-- `open(lockFile, 'wx')`. -/
def openExclusive (state : State) (task : Nat) (nowMs : Int) : State :=
  match state.lock with
  | some _ => state.enter task .statting
  | none =>
    { state with
        lock := some { id := state.created, content := [], mtimeMs := nowMs }
        created := state.created + 1
        phase := Function.update state.phase task (.writing state.created) }

/-- `handle.writeFile`: the file of the handle is written, whatever stands at
the path. -/
def writePid (state : State) (task file : Nat) (nowMs : Int) : State :=
  { state with
      lock := state.lock.map fun lock =>
        if lock.id = file then
          { lock with
              content := lock.content ++ pidLine (processes.pid task)
              mtimeMs := nowMs }
        else lock
      phase := Function.update state.phase task (.held file) }

/-- `utimes`, on whatever stands at the path. -/
def touchLock (state : State) (nowMs : Int) : State :=
  { state with
      lock := state.lock.map fun lock => { lock with mtimeMs := nowMs } }

/-- `rm(lockFile, { force: true })`. -/
def removeLock (state : State) (task : Nat) (after : Phase) : State :=
  { state with
      lock := none
      phase := Function.update state.phase task after }

/-- `stat(lockFile)`. -/
def statLock (state : State) (task : Nat) (nowMs : Int) : State :=
  match state.lock with
  | none => state.enter task .opening
  | some file => state.enter task (.reading (nowMs - file.mtimeMs))

/-- `readFile(lockFile)` and what follows from it. -/
def readLock (state : State) (task : Nat) (ageMs : Int) : State :=
  if pidAlive processes state.lock && decide (ageMs < lockStaleMaxAgeMs) then
    state.enter task .opening
  else
    state.enter task .removing

/-- The next operation of a task. -/
def proceed (state : State) (task : Nat) (nowMs : Int) : Option State :=
  match state.phase task with
  | .idle => none
  | .opening => some (openExclusive state task nowMs)
  | .writing file => some (writePid processes state task file nowMs)
  | .held _ => none
  | .releasing _ => some (removeLock state task .idle)
  | .statting => some (statLock state task nowMs)
  | .reading ageMs => some (readLock processes state task ageMs)
  | .removing => some (removeLock state task .opening)

def step (state : State) (label : Label) : Option State :=
  match label.action, state.phase label.task with
  | .acquire, .idle => some (state.enter label.task .opening)
  | .timeout, .opening => some (state.enter label.task .idle)
  | .touch nowMs, .held _ => some (touchLock state nowMs)
  | .release, .held file => some (state.enter label.task (.releasing file))
  | .proceed nowMs, _ => proceed processes state label.task nowMs
  | _, _ => none

def start : State where
  lock := none
  created := 0
  phase := fun _ => .idle

/-- Any number of tasks that acquire and release the lock. -/
def machine : Machine State Label where
  initial state := state = start
  step := step processes

/-- From a successful acquire until the release has removed the file. -/
def Holds (state : State) (task : Nat) : Prop :=
  ∃ file, state.phase task = .held file ∨ state.phase task = .releasing file

/-- A file that is looked at is younger than the stale limit. -/
def Young (state : State) (label : Label) : Prop :=
  ∀ file nowMs, state.phase label.task = .statting →
    label.action = .proceed nowMs → state.lock = some file →
    nowMs - file.mtimeMs < lockStaleMaxAgeMs

/-- The file that was looked at is read when it is still there and its pid has
been written. -/
def ReadsPid (state : State) (label : Label) : Prop :=
  ∀ ageMs nowMs, state.phase label.task = .reading ageMs →
    label.action = .proceed nowMs →
    ∃ file, state.lock = some file ∧ file.content ≠ []

/-! ## The pid in the file -/

theorem parseInt_pidLine (pid : Nat) :
    parseInt (pidLine pid) = some (Int.ofNat pid) := by
  have digit : ∀ char ∈ Json.stringifyNat pid, char.isDigit = true :=
    fun _ => Json.isDigit_of_mem_stringifyNat
  have span : (pidLine pid).takeWhile Char.isDigit = Json.stringifyNat pid := by
    rw [pidLine, List.takeWhile_append_of_pos digit]
    simp
  have read : parseDigits (pidLine pid) = some (Int.ofNat pid) := by
    unfold parseDigits
    dsimp only
    rw [span, if_neg (by simpa using Json.stringifyNat_ne_nil pid),
      Json.stringifyNat, Nat.ofDigitChars_ten_toDigits]
  cases digits : Json.stringifyNat pid with
  | nil => exact absurd digits (Json.stringifyNat_ne_nil pid)
  | cons head tail =>
    have headDigit : head.isDigit = true :=
      digit head (by rw [digits]; exact List.mem_cons_self ..)
    have line : pidLine pid = head :: (tail ++ ['\n']) := by
      rw [pidLine, digits, List.cons_append]
    have other : ∀ char : Char, char.isDigit = false → head ≠ char := by
      rintro char notDigit rfl
      rw [headDigit] at notDigit
      cases notDigit
    have solid : head.isWhitespace = false := by
      simp [Char.isWhitespace, other]
    unfold parseInt
    dsimp only
    rw [line, List.dropWhile_cons_of_neg (by simp [solid])]
    simp only [List.head?_cons, Option.some.injEq]
    rw [if_neg (other '-' (by decide)), if_neg (other '+' (by decide)),
      ← line, read]

theorem pidAlive_of_pidLine {lock : LockFile} {task : Nat}
    (written : lock.content = pidLine (processes.pid task)) :
    pidAlive processes (some lock) = true := by
  unfold pidAlive
  dsimp only
  rw [written, parseInt_pidLine]
  dsimp only
  unfold isPidAlive
  rw [Int.ofNat_eq_natCast, Int.toNat_natCast, processes.alive, Bool.and_true, decide_eq_true_eq]
  exact Int.natCast_pos.mpr (processes.positive task)

/-! ## Mutual exclusion -/

/-- The phases of the task that has created the file. -/
def Phase.Owns (phase : Phase) (file : Nat) : Prop :=
  phase = .writing file ∨ phase = .held file ∨ phase = .releasing file

/-- A task that takes no owner for dead. -/
def Phase.Calm (phase : Phase) : Prop :=
  (∀ ageMs, phase = .reading ageMs → ageMs < lockStaleMaxAgeMs) ∧
    phase ≠ .removing

/-- The file belongs to one task, and nobody takes that task for dead. -/
structure Sound (state : State) : Prop where
  owned : ∀ task file, (state.phase task).Owns file →
    ∃ lock, state.lock = some lock ∧ lock.id = file
  unique : ∀ first second, (∃ file, (state.phase first).Owns file) →
    (∃ file, (state.phase second).Owns file) → first = second
  empty : ∀ task file lock, state.phase task = .writing file →
    state.lock = some lock → lock.content = []
  written : ∀ lock, state.lock = some lock → lock.content ≠ [] →
    ∃ task, lock.content = pidLine (processes.pid task)
  calm : ∀ task, (state.phase task).Calm

variable {processes} {state next : State} {task : Nat}

theorem phase_enter (state : State) (task other : Nat) (phase : Phase) :
    (state.enter task phase).phase other =
      if other = task then phase else state.phase other := by
  exact Function.update_apply ..

theorem calm_idle : Phase.Calm .idle := by
  simp [Phase.Calm]

theorem calm_opening : Phase.Calm .opening := by
  simp [Phase.Calm]

theorem calm_statting : Phase.Calm .statting := by
  simp [Phase.Calm]

theorem calm_writing (file : Nat) : (Phase.writing file).Calm := by
  simp [Phase.Calm]

theorem calm_held (file : Nat) : (Phase.held file).Calm := by
  simp [Phase.Calm]

theorem calm_releasing (file : Nat) : (Phase.releasing file).Calm := by
  simp [Phase.Calm]

theorem calm_update {phases : Nat → Phase}
    (calm : ∀ other, (phases other).Calm) {phase : Phase} (new : phase.Calm)
    (task other : Nat) : (Function.update phases task phase other).Calm := by
  rw [Function.update_apply]
  split
  · exact new
  · exact calm other

section

variable (sound : Sound processes state)

include sound

/-- A task enters a phase in which it owns no more than before. -/
theorem Sound.enter {phase : Phase}
    (same : ∀ file, phase.Owns file → (state.phase task).Owns file)
    (notWriting : ∀ file, phase ≠ .writing file) (calm : phase.Calm) :
    Sound processes (state.enter task phase) := by
  have owns : ∀ other file, ((state.enter task phase).phase other).Owns file →
      (state.phase other).Owns file := by
    intro other file
    rw [phase_enter]
    split
    · rename_i itself
      exact itself ▸ same file
    · exact id
  constructor
  · exact fun other file owned => sound.owned other file (owns other file owned)
  · rintro first second ⟨a, firstOwns⟩ ⟨b, secondOwns⟩
    exact sound.unique first second ⟨a, owns _ _ firstOwns⟩
      ⟨b, owns _ _ secondOwns⟩
  · intro other file lock writing
    rw [phase_enter] at writing
    split at writing
    · exact absurd writing (notWriting file)
    · exact sound.empty other file lock writing
  · exact sound.written
  · exact calm_update sound.calm calm task

/-- Only the task that owns the file removes it. -/
theorem Sound.remove {file : Nat} (owner : (state.phase task).Owns file) :
    Sound processes (removeLock state task .idle) := by
  have others : ∀ other file,
      ¬ ((removeLock state task .idle).phase other).Owns file := by
    intro other found owned
    change (Function.update state.phase task .idle other).Owns found at owned
    rw [Function.update_apply] at owned
    split at owned
    · rcases owned with equal | equal | equal <;> cases equal
    · rename_i different
      exact different (sound.unique other task ⟨found, owned⟩ ⟨file, owner⟩)
  constructor
  · exact fun other found owned => absurd owned (others other found)
  · exact fun first second owned _ => absurd owned.choose_spec (others first _)
  · intro other found lock _ standing
    cases standing
  · intro lock standing
    cases standing
  · exact calm_update sound.calm calm_idle task

/-- A file is created when no task owns one. -/
theorem Sound.create (free : state.lock = none) (nowMs : Int) :
    Sound processes (openExclusive state task nowMs) := by
  have unowned : ∀ other file, ¬ (state.phase other).Owns file := by
    intro other file owned
    obtain ⟨lock, standing, -⟩ := sound.owned other file owned
    rw [free] at standing
    cases standing
  have created : openExclusive state task nowMs =
      { lock := some { id := state.created, content := [], mtimeMs := nowMs }
        created := state.created + 1
        phase := Function.update state.phase task (.writing state.created) } := by
    unfold openExclusive
    rw [free]
  rw [created]
  have own : ∀ other file,
      (Function.update state.phase task (.writing state.created) other).Owns
        file → other = task ∧ file = state.created := by
    intro other file owned
    rw [Function.update_apply] at owned
    split at owned
    · rename_i same
      rcases owned with equal | equal | equal
      · cases equal
        exact ⟨same, rfl⟩
      · cases equal
      · cases equal
    · exact absurd owned (unowned other file)
  constructor
  · intro other file owned
    exact ⟨_, rfl, (own other file owned).2.symm⟩
  · rintro first second ⟨a, firstOwns⟩ ⟨b, secondOwns⟩
    rw [(own _ _ firstOwns).1, (own _ _ secondOwns).1]
  · intro other file lock _ standing
    cases standing
    rfl
  · intro lock standing nonempty
    cases standing
    exact absurd rfl nonempty
  · exact calm_update sound.calm (calm_writing _) task

/-- The owner writes its pid into its file. -/
theorem Sound.write {file : Nat} (writing : state.phase task = .writing file)
    (nowMs : Int) :
    Sound processes (writePid processes state task file nowMs) := by
  obtain ⟨lock, standing, rfl⟩ :=
    sound.owned task file (writing ▸ .inl rfl)
  have wrote : writePid processes state task lock.id nowMs =
      { state with
          lock := some { lock with
            content := pidLine (processes.pid task)
            mtimeMs := nowMs }
          phase := Function.update state.phase task (.held lock.id) } := by
    unfold writePid
    rw [standing, Option.map_some, if_pos rfl,
      sound.empty task lock.id lock writing standing, List.nil_append]
  rw [wrote]
  have owns : ∀ other file,
      (Function.update state.phase task (.held lock.id) other).Owns file →
        (state.phase other).Owns file := by
    intro other file owned
    rw [Function.update_apply] at owned
    split at owned
    · rename_i same
      rcases owned with equal | equal | equal
      · cases equal
      · cases equal
        rw [same, writing]
        exact .inl rfl
      · cases equal
    · exact owned
  constructor
  · intro other file owned
    obtain ⟨same, found, id⟩ := sound.owned other file (owns other file owned)
    rw [standing] at found
    cases found
    exact ⟨_, rfl, id⟩
  · rintro first second ⟨a, firstOwns⟩ ⟨b, secondOwns⟩
    exact sound.unique first second ⟨a, owns _ _ firstOwns⟩
      ⟨b, owns _ _ secondOwns⟩
  · intro other file _ begun
    dsimp only at begun
    rw [Function.update_apply] at begun
    split at begun
    · cases begun
    · rename_i different
      exact absurd (sound.unique other task ⟨file, begun ▸ .inl rfl⟩
        ⟨lock.id, writing ▸ .inl rfl⟩) different
  · intro other found _
    cases found
    exact ⟨task, rfl⟩
  · exact calm_update sound.calm (calm_held _) task

/-- The time of the file says nothing about its owner. -/
theorem Sound.touch (nowMs : Int) :
    Sound processes (touchLock state nowMs) := by
  have before : ∀ lock, (touchLock state nowMs).lock = some lock →
      ∃ old, state.lock = some old ∧ old.id = lock.id ∧
        old.content = lock.content := by
    intro lock standing
    obtain ⟨old, found, rfl⟩ := Option.map_eq_some_iff.mp standing
    exact ⟨old, found, rfl, rfl⟩
  constructor
  · intro other file owned
    obtain ⟨lock, standing, id⟩ := sound.owned other file owned
    exact ⟨{ lock with mtimeMs := nowMs }, by simp [touchLock, standing], id⟩
  · exact sound.unique
  · intro other file lock begun standing
    obtain ⟨old, found, -, same⟩ := before lock standing
    exact same ▸ sound.empty other file old begun found
  · intro lock standing nonempty
    obtain ⟨old, found, -, same⟩ := before lock standing
    exact same ▸ sound.written old found (same ▸ nonempty)
  · exact sound.calm

/-- A live owner's file is not taken for stale once its pid is read. -/
theorem Sound.read {ageMs : Int} (reading : state.phase task = .reading ageMs)
    (reads : ∃ file, state.lock = some file ∧ file.content ≠ []) :
    readLock processes state task ageMs = state.enter task .opening := by
  obtain ⟨file, standing, nonempty⟩ := reads
  obtain ⟨owner, written⟩ := sound.written file standing nonempty
  unfold readLock
  rw [standing, pidAlive_of_pidLine processes written,
    decide_eq_true ((sound.calm task).1 ageMs reading)]
  rfl

/-- The next operation of a task, at which a young file is looked at and a
written pid is read. -/
theorem Sound.proceed {nowMs : Int}
    (young : ∀ file, state.phase task = .statting → state.lock = some file →
      nowMs - file.mtimeMs < lockStaleMaxAgeMs)
    (reads : ∀ ageMs, state.phase task = .reading ageMs →
      ∃ file, state.lock = some file ∧ file.content ≠ [])
    (stepped : CacheLock.proceed processes state task nowMs = some next) :
    Sound processes next := by
  unfold CacheLock.proceed at stepped
  cases phase : state.phase task with
  | idle =>
    rw [phase] at stepped
    cases stepped
  | opening =>
    rw [phase] at stepped
    cases stepped
    cases standing : state.lock with
    | none => exact sound.create standing nowMs
    | some lock =>
      unfold openExclusive
      rw [standing]
      exact sound.enter (by simp [Phase.Owns]) (by simp) calm_statting
  | writing file =>
    rw [phase] at stepped
    cases stepped
    exact sound.write phase nowMs
  | held file =>
    rw [phase] at stepped
    cases stepped
  | releasing file =>
    rw [phase] at stepped
    cases stepped
    have owner : (state.phase task).Owns file := phase ▸ .inr (.inr rfl)
    exact sound.remove owner
  | statting =>
    rw [phase] at stepped
    cases stepped
    unfold statLock
    cases standing : state.lock with
    | none => exact sound.enter (by simp [Phase.Owns]) (by simp) calm_opening
    | some file =>
      refine sound.enter (by simp [Phase.Owns]) (by simp) ⟨?_, by simp⟩
      rintro ageMs equal
      cases equal
      exact young file phase standing
  | reading ageMs =>
    rw [phase] at stepped
    cases stepped
    rw [sound.read phase (reads ageMs phase)]
    exact sound.enter (by simp [Phase.Owns]) (by simp) calm_opening
  | removing => exact absurd phase (sound.calm task).2

end

/-- What a step can do: a task asks for the lock, gives up, refreshes or gives
back what it holds, or makes its next operation. -/
theorem step_cases {label : Label}
    (stepped : step processes state label = some next) :
    (state.phase label.task = .idle ∧
        next = state.enter label.task .opening) ∨
      (state.phase label.task = .opening ∧
        next = state.enter label.task .idle) ∨
      (∃ file nowMs, state.phase label.task = .held file ∧
        next = touchLock state nowMs) ∨
      (∃ file, state.phase label.task = .held file ∧
        next = state.enter label.task (.releasing file)) ∨
      ∃ nowMs, label.action = .proceed nowMs ∧
        CacheLock.proceed processes state label.task nowMs = some next := by
  unfold step at stepped
  split at stepped
  · rename_i idle
    cases stepped
    exact .inl ⟨idle, rfl⟩
  · rename_i opening
    cases stepped
    exact .inr (.inl ⟨opening, rfl⟩)
  · rename_i held
    cases stepped
    exact .inr (.inr (.inl ⟨_, _, held, rfl⟩))
  · rename_i held
    cases stepped
    exact .inr (.inr (.inr (.inl ⟨_, held, rfl⟩)))
  · rename_i proceeds
    exact .inr (.inr (.inr (.inr ⟨_, proceeds, stepped⟩)))
  · cases stepped

/-- A step at which a young file is looked at and a written pid is read. -/
theorem Sound.step (sound : Sound processes state) {label : Label}
    (young : Young state label) (reads : ReadsPid state label)
    (stepped : step processes state label = some next) :
    Sound processes next := by
  rcases step_cases stepped with
    ⟨-, rfl⟩ | ⟨-, rfl⟩ | ⟨-, nowMs, -, rfl⟩ | ⟨file, held, rfl⟩ |
      ⟨nowMs, now, proceeds⟩
  · exact sound.enter (by simp [Phase.Owns]) (by simp) calm_opening
  · exact sound.enter (by simp [Phase.Owns]) (by simp) calm_idle
  · exact sound.touch nowMs
  · refine sound.enter ?_ (by simp) (calm_releasing file)
    rintro found (equal | equal | equal)
    · cases equal
    · cases equal
    · cases equal
      exact held ▸ .inr (.inl rfl)
  · exact sound.proceed
      (fun file statting => young file nowMs statting now)
      (fun ageMs reading => reads ageMs nowMs reading now) proceeds

theorem sound_start : Sound processes start := by
  constructor
  · rintro task file (equal | equal | equal) <;> cases equal
  · rintro first second ⟨file, equal | equal | equal⟩ <;> cases equal
  · intro task file lock writing
    cases writing
  · intro lock standing
    cases standing
  · exact fun _ => calm_idle

/-- When every task that looks at a lock file reads the pid of its owner, one
task at most holds the lock. -/
theorem lock_exclusive (processes : Processes) (state : State)
    (reachable : (machine processes).Reachable
      (fun state label => Young state label ∧ ReadsPid state label) state)
    (first second : Nat) (firstHolds : Holds state first)
    (secondHolds : Holds state second) : first = second := by
  have sound : Sound processes state := by
    refine reachable.invariant (fun _ initial => ?_) ?_
    · exact initial ▸ sound_start
    · exact fun _ _ _ sound allowed stepped =>
        sound.step allowed.1 allowed.2 stepped
  obtain ⟨a, firstHeld⟩ := firstHolds
  obtain ⟨b, secondHeld⟩ := secondHolds
  exact sound.unique first second ⟨a, .inr firstHeld⟩ ⟨b, .inr secondHeld⟩

/-! ## Two tasks -/

/-- Each task is a process of its own. -/
def ownProcesses : Processes where
  found := fun _ => true
  pid := fun task => task + 1
  positive := fun task => Nat.succ_pos task
  alive := fun _ => rfl

/-- Is the file that is looked at young? -/
def looksYoung (state : State) (label : Label) : Bool :=
  match label.action, state.phase label.task with
  | .proceed nowMs, .statting => state.lock.all fun file =>
    decide (nowMs - file.mtimeMs < lockStaleMaxAgeMs)
  | _, _ => true

/-- Is the pid written in the file that is read? -/
def readsPid (state : State) (label : Label) : Bool :=
  match label.action, state.phase label.task with
  | .proceed _, .reading _ => state.lock.any fun file => !file.content.isEmpty
  | _, _ => true

theorem looksYoung_sound {label : Label}
    (meets : looksYoung state label = true) : Young state label := by
  intro file nowMs statting now standing
  unfold looksYoung at meets
  rw [now, statting, standing] at meets
  simpa using meets

theorem readsPid_sound {label : Label}
    (meets : readsPid state label = true) : ReadsPid state label := by
  intro ageMs nowMs reading now
  unfold readsPid at meets
  rw [now, reading] at meets
  simpa [Option.any_eq_true] using meets

/-- The second task finds the lock of the first one and its pid. -/
def contendedLabels : List Label :=
  [⟨0, .acquire⟩, ⟨0, .proceed 0⟩, ⟨0, .proceed 0⟩, ⟨1, .acquire⟩,
    ⟨1, .proceed 5⟩, ⟨1, .proceed 5⟩, ⟨1, .proceed 5⟩]

def contended : State :=
  ((machine ownProcesses).run start contendedLabels).getD start

theorem contended_meets : (machine ownProcesses).runMeets
    (fun state label => looksYoung state label && readsPid state label) start
      contendedLabels = true := by
  decide +kernel

theorem lock_exclusive_contended : Holds contended 0 ∧ ¬ Holds contended 1 := by
  have first : Holds contended 0 := ⟨0, .inl (by decide +kernel)⟩
  refine ⟨first, fun second => ?_⟩
  have reached : (machine ownProcesses).Reachable
      (fun state label => Young state label ∧ ReadsPid state label)
      contended := by
    refine ⟨start, rfl, Machine.steps_of_run _ (fun state label meets => ?_)
      contended_meets rfl⟩
    rw [Bool.and_eq_true] at meets
    exact ⟨looksYoung_sound meets.1, readsPid_sound meets.2⟩
  exact absurd (lock_exclusive ownProcesses contended reached 0 1 first second)
    (by decide)

/-- The second task reads the file that the first one has created and not
written, and takes the first one for dead. -/
def stolenLabels : List Label :=
  [⟨0, .acquire⟩, ⟨0, .proceed 0⟩, ⟨1, .acquire⟩, ⟨1, .proceed 0⟩,
    ⟨1, .proceed 0⟩, ⟨1, .proceed 0⟩, ⟨1, .proceed 0⟩, ⟨1, .proceed 0⟩,
    ⟨1, .proceed 0⟩, ⟨0, .proceed 0⟩]

def stolen : State :=
  ((machine ownProcesses).run start stolenLabels).getD start

theorem stolen_young : (machine ownProcesses).runMeets looksYoung start
    stolenLabels = true := by
  decide +kernel

theorem lock_held_twice :
    ∃ processes state first second,
      (machine processes).Reachable Young state ∧
        Holds state first ∧ Holds state second ∧ first ≠ second := by
  refine ⟨ownProcesses, stolen, 0, 1, ?_, ?_, ?_, by decide⟩
  · exact ⟨start, rfl, Machine.steps_of_run looksYoung
      (fun _ _ => looksYoung_sound) stolen_young rfl⟩
  · exact ⟨0, .inl (by decide +kernel)⟩
  · exact ⟨1, .inl (by decide +kernel)⟩

end Rbo.Agent.CacheLock
