import Mathlib.Data.List.Basic
import Rbo.Foundation.Run

/-!
# Mirrors after a crash of the agent

`ensureMirror`, `fetchRefs` and `importBundle` work on the directory of a
repository under `fetch.lock`, which is opened with `wx` and removed at the
end.  Every change of the directory is a step here, and the process can stop
between any two of them, also while Git is at work.

A mutex in the process lets one call at a time come to the directory; a call
that waits for its turn has no effect and is left out.  A temporary file has a
new name each time.  The evictors, which remove the directory of a repository
with metadata as a whole, are not part of the machine.
-/

namespace Rbo.Agent.MirrorRecovery

open Rbo.Foundation

/-! ## The directory of a repository -/

abbrev Text := List Char

/-- `ResolvedRepo`. -/
structure ResolvedRepo where
  repoKey : Text
  canonicalId : Text
  url : Text
  repoDir : Text
  deriving DecidableEq

/-- `MirrorMetadata`. -/
structure MirrorMetadata where
  repoKey : Text
  canonicalId : Text
  url : Text
  lastUsedAt : Nat
  activeWorktreeCount : Nat
  lastError : Option Text
  deriving DecidableEq

/-- What is at `mirror.git`. -/
inductive MirrorDir where
  | absent
  /-- Git has left something there in which it cannot fetch. -/
  | unusable
  | usable
  deriving DecidableEq

/-- What is in the directory of a repository. -/
structure RepoDir where
  fetchLock : Bool
  mirror : MirrorDir
  metadata : Option MirrorMetadata
  /-- The temporary files of `writeMetadata`. -/
  temporaries : Nat
  deriving DecidableEq

/-- What `touchMetadata` writes. -/
def touched (repo : ResolvedRepo) (existing : Option MirrorMetadata)
    (lastError : Option Text) (nowMs : Nat) : MirrorMetadata where
  repoKey := repo.repoKey
  canonicalId := repo.canonicalId
  url := repo.url
  lastUsedAt := nowMs
  activeWorktreeCount :=
    existing.elim 0 MirrorMetadata.activeWorktreeCount
  lastError := lastError <|> existing.bind MirrorMetadata.lastError

/-! ## Git -/

/-- A head of a bundle. -/
structure Head where
  sha : Text
  ref : Text
  deriving DecidableEq

/-- The commands that follow on the look for the mirror. -/
inductive Command where
  | fetch (source refspec : Text)
  | verifyBundle (bundlePath : Text)
  | listHeads (bundlePath bundleId : Text)
  deriving DecidableEq

namespace Command

def args : Command → List Text
  | .fetch source refspec =>
    ["fetch".toList, "--no-tags".toList, source, refspec]
  | .verifyBundle bundlePath =>
    ["bundle".toList, "verify".toList, bundlePath]
  | .listHeads bundlePath _ =>
    ["bundle".toList, "list-heads".toList, bundlePath]

/-- The command runs in the mirror. -/
def inMirror : Command → Bool
  | .listHeads .. => false
  | _ => true

end Command

/-- The error of `runGit`. -/
def gitFailure (args : List Text) (message : Text) : Text :=
  "git ".toList ++ [' '].intercalate args ++ " failed: ".toList ++ message

def remoteRefForFetchRef (fetchRef : Text) : Text :=
  if fetchRef.contains ':' then
    (fetchRef.dropWhile (· ≠ ':')).tail
  else if "refs/heads/".toList.isPrefixOf fetchRef then
    "refs/remotes/origin/".toList ++ fetchRef.drop 11
  else
    "refs/remotes/origin/".toList ++ fetchRef

/-- The source and target of the fetch of a ref. -/
def refspecOf (fetchRef : Text) : Text :=
  if fetchRef.contains ':' then fetchRef
  else fetchRef ++ ':' :: remoteRefForFetchRef fetchRef

/-- A character that stays in the name of a bundle ref. -/
def isRefChar (char : Char) : Bool :=
  char.isAlphanum || "._/-".toList.contains char

/-- Each run of other characters as one underscore. -/
def replaceOthers (inRun : Bool) : Text → Text
  | [] => []
  | char :: rest =>
    if isRefChar char then char :: replaceOthers false rest
    else if inRun then replaceOthers true rest
    else '_' :: replaceOthers true rest

/-- The source and target of the fetch of a head. -/
def headRefspec (bundleId : Text) (head : Head) : Text :=
  let ref :=
    if "refs/".toList.isPrefixOf head.ref then head.ref.drop 5 else head.ref
  head.sha ++ ":refs/rbo/bundles/".toList ++ bundleId ++
    '/' :: replaceOthers false ref

/-- The commands that a command gives rise to. -/
def followUps (heads : List Head) : Command → List Command
  | .listHeads bundlePath bundleId =>
    heads.map fun head =>
      .fetch bundlePath (headRefspec bundleId head)
  | _ => []

/-! ## The calls -/

inductive Call where
  | ensureMirror
  | fetchRefs (refs : List Text)
  | importBundle (bundlePath bundleId : Text)
  deriving DecidableEq

/-- The commands of a call, up to the list of heads. -/
def Call.commands : Call → List Command
  | .ensureMirror => []
  | .fetchRefs refs =>
    refs.map fun fetchRef => .fetch "origin".toList (refspecOf fetchRef)
  | .importBundle bundlePath bundleId =>
    [.verifyBundle bundlePath, .listHeads bundlePath bundleId]

/-- Where a call is.  An error is that of its body, which has been caught. -/
inductive Stage where
  /-- `acquireFetchLock`. -/
  | makingDir (call : Call)
  | opening (call : Call)
  | writingPid (call : Call)
  /-- `ensureMirrorInitialized`. -/
  | looking (call : Call)
  | cloning (call : Call)
  | running (commands : List Command)
  /-- `touchMetadata`. -/
  | reading (error : Option Text)
  | writing (metadata : MirrorMetadata) (error : Option Text)
  | moving (metadata : MirrorMetadata) (error : Option Text)
  | unlocking (error : Option Text)
  deriving DecidableEq

/-- The lock has been opened and not yet removed. -/
def Stage.holdsLock : Stage → Bool
  | .makingDir _ => false
  | .opening _ => false
  | _ => true

/-- The lock stays behind when the operation fails. -/
def Stage.mustSucceed : Stage → Bool
  | .writingPid _ => true
  | .unlocking _ => true
  | _ => false

inductive Answer where
  | resolved
  | rejected (error : Text)
  deriving DecidableEq

/-- What a step meets: the error of its operation, the heads that Git lists,
and the clock. -/
structure Outcome where
  error : Option Text
  heads : List Head
  nowMs : Nat
  deriving DecidableEq

/-- An error in `touchMetadata` is caught in the body, and ends the catch. -/
def afterThrow (error : Text) : Option Text → Stage
  | none => .reading (some error)
  | some _ => .unlocking (some error)

section Advance

variable (repo : ResolvedRepo) (dir : RepoDir) (outcome : Outcome)

/-- A Git command; it does not succeed in a mirror that cannot be used. -/
def runCommand (command : Command) (rest : List Command) : Option Stage :=
  match outcome.error with
  | some error => some (.reading (some (gitFailure command.args error)))
  | none =>
    if command.inMirror && dir.mirror != .usable then none
    else some (.running (followUps outcome.heads command ++ rest))

/-- The next step of a call, which goes on or answers. -/
def advance : Stage → Option (RepoDir × (Stage ⊕ Answer))
  | .makingDir call =>
    match outcome.error with
    | some error => some (dir, .inr (.rejected error))
    | none => some (dir, .inl (.opening call))
  | .opening call =>
    match outcome.error with
    | some error => some (dir, .inr (.rejected error))
    | none =>
      if dir.fetchLock then
        some (dir, .inr (.rejected
          ("EEXIST: file already exists, open '".toList ++ repo.repoDir ++
            "/fetch.lock'".toList)))
      else
        some ({ dir with fetchLock := true }, .inl (.writingPid call))
  | .writingPid call =>
    match outcome.error with
    -- The lock stays: it is removed by the function that is returned.
    | some error => some (dir, .inr (.rejected error))
    | none => some (dir, .inl (.looking call))
  | .looking call =>
    if dir.mirror = .absent then some (dir, .inl (.cloning call))
    else some (dir, .inl (.running call.commands))
  | .cloning call =>
    match outcome.error with
    -- Git removes the directory of a clone that fails.
    | some error =>
      some (dir, .inl (.reading (some (gitFailure
        ["clone".toList, "--mirror".toList, repo.url,
          "mirror.git".toList] error))))
    | none =>
      some ({ dir with mirror := .usable },
        .inl (.running call.commands))
  | .running [] => some (dir, .inl (.reading none))
  | .running (command :: rest) =>
    (runCommand dir outcome command rest).map fun stage => (dir, .inl stage)
  | .reading pending =>
    match outcome.error with
    | some error => some (dir, .inl (afterThrow error pending))
    | none =>
      some (dir, .inl (.writing
        (touched repo dir.metadata pending outcome.nowMs) pending))
  | .writing metadata pending =>
    match outcome.error with
    | some error => some (dir, .inl (afterThrow error pending))
    | none =>
      some ({ dir with temporaries := dir.temporaries + 1 },
        .inl (.moving metadata pending))
  | .moving metadata pending =>
    match outcome.error with
    | some error =>
      some ({ dir with temporaries := dir.temporaries - 1 },
        .inl (afterThrow error pending))
    | none =>
      some ({ dir with
          metadata := some metadata
          temporaries := dir.temporaries - 1 },
        .inl (.unlocking pending))
  | .unlocking pending =>
    match outcome.error with
    | some error => some (dir, .inr (.rejected error))
    | none =>
      some ({ dir with fetchLock := false },
        .inr (pending.elim .resolved .rejected))

end Advance

/-! ## The machine -/

structure State where
  dir : RepoDir
  running : Option Stage
  /-- The answer of the last call, when it has one. -/
  answer : Option Answer
  deriving DecidableEq

inductive Label where
  | start (call : Call)
  | proceed (outcome : Outcome)
  /-- The process stops, and starts again; Git has left this mirror. -/
  | crash (left : MirrorDir)
  deriving DecidableEq

/-- What Git leaves when it is stopped: anything of a clone, and of another
command the mirror as it was, or one that cannot be used. -/
def mayLeave (mirror : MirrorDir) : Option Stage → MirrorDir → Bool
  | some (.cloning _), _ => true
  | some (.running (_ :: _)), left =>
    left = mirror || mirror = .usable && left = .unusable
  | _, left => left = mirror

/-- The calls on one repository, one at a time. -/
def machine (repo : ResolvedRepo) : Machine State Label where
  initial state :=
    state = { dir := ⟨false, .absent, none, 0⟩, running := none,
              answer := none }
  step state
    | .start call =>
      if state.running.isSome then none
      else some { state with
        running := some (.makingDir call)
        answer := none }
    | .proceed outcome =>
      state.running.bind fun stage =>
        (advance repo state.dir outcome stage).map fun result =>
          match result.2 with
          | .inl next => { state with dir := result.1, running := some next }
          | .inr answer =>
            { dir := result.1, running := none, answer := some answer }
    | .crash left =>
      if mayLeave state.dir.mirror state.running left then
        some { dir := { state.dir with mirror := left }, running := none,
               answer := none }
      else none

/-! ## What is asked of a crash -/

/-- A call can succeed when every operation does. -/
def CanSucceed (repo : ResolvedRepo) (state : State) (call : Call)
    (next : State) : Prop :=
  ∃ outcomes : List Outcome,
    (∀ outcome ∈ outcomes, outcome.error = none) ∧
    (machine repo).run state (.start call :: outcomes.map .proceed) =
      some next ∧
    next.running = none ∧ next.answer = some .resolved

/-- When no call is under way, `ensureMirror` and a `fetchRefs` after it can
succeed. -/
def Recoverable (repo : ResolvedRepo) (state : State) : Prop :=
  state.running = none →
    ∀ refs, ∃ middle final,
      CanSucceed repo state .ensureMirror middle ∧
      CanSucceed repo middle (.fetchRefs refs) final

/-- No call succeeds any more, whatever calls and crashes follow. -/
def Doomed (repo : ResolvedRepo) (state : State) : Prop :=
  ∀ later, (machine repo).Steps (fun _ _ => True) state later →
    later.answer ≠ some .resolved

/-- The process does not stop while a call holds the lock; and the lock that is
opened is written, and removed at the end. -/
def Careful (state : State) : Label → Prop
  | .start _ => True
  | .proceed outcome =>
    ∀ stage, state.running = some stage → stage.mustSucceed = true →
      outcome.error = none
  | .crash _ =>
    ∀ stage, state.running = some stage → stage.holdsLock = false

/-! ## What a step does with the lock -/

section Steps

variable {repo : ResolvedRepo} {dir : RepoDir} {outcome : Outcome}
  {stage : Stage} {result : RepoDir × (Stage ⊕ Answer)}

/-- Before the lock a call changes nothing, until it takes it; under the lock
it can only make the mirror usable; and it ends with the lock removed, or by a
failure that leaves it. -/
inductive Moves (dir : RepoDir) (outcome : Outcome) :
    Stage → RepoDir × (Stage ⊕ Answer) → Prop where
  | comes {stage next : Stage} (free : stage.holdsLock = false)
      (still : next.holdsLock = false) :
      Moves dir outcome stage (dir, .inl next)
  | gives {stage : Stage} {error : Text} (free : stage.holdsLock = false) :
      Moves dir outcome stage (dir, .inr (.rejected error))
  | takes {stage next : Stage} (free : stage.holdsLock = false)
      (unlocked : dir.fetchLock = false) (holds : next.holdsLock = true) :
      Moves dir outcome stage ({ dir with fetchLock := true }, .inl next)
  | works {stage next : Stage} {after : RepoDir}
      (held : stage.holdsLock = true) (holds : next.holdsLock = true)
      (lock : after.fetchLock = dir.fetchLock)
      (mirror : after.mirror = dir.mirror ∨ after.mirror = .usable) :
      Moves dir outcome stage (after, .inl next)
  | leaves {stage : Stage} {error : Text}
      (must : stage.mustSucceed = true) (failed : outcome.error ≠ none) :
      Moves dir outcome stage (dir, .inr (.rejected error))
  | removes {pending : Option Text} {answer : Answer} :
      Moves dir outcome (.unlocking pending)
        ({ dir with fetchLock := false }, .inr answer)

theorem holdsLock_afterThrow {error : Text} {pending : Option Text} :
    (afterThrow error pending).holdsLock = true := by
  cases pending <;> rfl

theorem holdsLock_of_mustSucceed (must : stage.mustSucceed = true) :
    stage.holdsLock = true := by
  cases stage <;> first | rfl | cases must

theorem advance_of_failed {error : Text} (must : stage.mustSucceed = true)
    (failed : outcome.error = some error) :
    advance repo dir outcome stage = some (dir, .inr (.rejected error)) := by
  cases stage with
  | writingPid call => rw [advance, failed]
  | unlocking pending => rw [advance, failed]
  | _ => cases must

/-- A command leaves the call under the lock. -/
theorem holdsLock_runCommand {command : Command} {rest : List Command}
    {next : Stage} (ran : runCommand dir outcome command rest = some next) :
    next.holdsLock = true := by
  unfold runCommand at ran
  split at ran
  · cases ran
    rfl
  · obtain ⟨-, goes⟩ := Option.ite_none_left_eq_some.mp ran
    cases goes
    rfl

/-- The look for the mirror, and the commands, change nothing. -/
theorem works_of_quiet {next : Stage} (held : stage.holdsLock = true)
    (holds : next.holdsLock = true) :
    Moves dir outcome stage (dir, .inl next) :=
  .works held holds rfl (.inl rfl)

theorem advance_moves
    (advanced : advance repo dir outcome stage = some result) :
    Moves dir outcome stage result := by
  cases stage with
  | looking call =>
    rw [advance] at advanced
    split at advanced <;> cases advanced <;> exact works_of_quiet rfl rfl
  | running commands =>
    cases commands with
    | nil =>
      cases advanced
      exact works_of_quiet rfl rfl
    | cons command rest =>
      obtain ⟨next, ran, rfl⟩ := Option.map_eq_some_iff.mp advanced
      exact works_of_quiet rfl (holdsLock_runCommand ran)
  | makingDir call =>
    rw [advance] at advanced
    split at advanced <;> cases advanced
    · exact .gives rfl
    · exact .comes rfl rfl
  | opening call =>
    rw [advance] at advanced
    split at advanced
    · cases advanced
      exact .gives rfl
    · split at advanced <;> cases advanced
      · exact .gives rfl
      · rename_i free
        exact .takes rfl (Bool.eq_false_iff.mpr free) rfl
  | writingPid call =>
    rw [advance] at advanced
    split at advanced <;> cases advanced
    · rename_i failed
      exact .leaves rfl (by rw [failed]; nofun)
    · exact works_of_quiet rfl rfl
  | cloning call =>
    rw [advance] at advanced
    split at advanced <;> cases advanced
    · exact works_of_quiet rfl rfl
    · exact .works rfl rfl rfl (.inr rfl)
  | reading pending =>
    rw [advance] at advanced
    split at advanced <;> cases advanced
    · exact works_of_quiet rfl holdsLock_afterThrow
    · exact works_of_quiet rfl rfl
  | writing metadata pending =>
    rw [advance] at advanced
    split at advanced <;> cases advanced
    · exact works_of_quiet rfl holdsLock_afterThrow
    · exact .works rfl rfl rfl (.inl rfl)
  | moving metadata pending =>
    rw [advance] at advanced
    split at advanced <;> cases advanced
    · exact .works rfl holdsLock_afterThrow rfl (.inl rfl)
    · exact .works rfl rfl rfl (.inl rfl)
  | unlocking pending =>
    rw [advance] at advanced
    split at advanced <;> cases advanced
    · rename_i failed
      exact .leaves rfl (by rw [failed]; nofun)
    · exact .removes

end Steps

/-! ## Runs -/

section Runs

variable {repo : ResolvedRepo} {state next : State} {label : Label}

/-- The lock is there exactly while a call holds it, and the mirror is none
that Git cannot use. -/
structure Sound (state : State) : Prop where
  locked : state.dir.fetchLock = state.running.any Stage.holdsLock
  whole : state.dir.mirror ≠ .unusable

/-- The lock is there and no call holds it. -/
structure Stuck (state : State) : Prop where
  locked : state.dir.fetchLock = true
  outside : ∀ stage, state.running = some stage → stage.holdsLock = false
  unanswered : state.answer ≠ some .resolved

/-- While a call holds the lock it is there. -/
def Guarded (state : State) : Prop :=
  ∀ stage, state.running = some stage → stage.holdsLock = true →
    state.dir.fetchLock = true

theorem proceed_cases {outcome : Outcome}
    (stepped : (machine repo).step state (.proceed outcome) = some next) :
    ∃ stage, state.running = some stage ∧ ∃ left,
      (∃ after, Moves state.dir outcome stage (left, .inl after) ∧
        next = { state with dir := left, running := some after }) ∨
      ∃ answer, Moves state.dir outcome stage (left, .inr answer) ∧
        next = { dir := left, running := none, answer := some answer } := by
  obtain ⟨stage, running, stepped⟩ := Option.bind_eq_some_iff.mp stepped
  obtain ⟨⟨left, after⟩, advanced, rfl⟩ := Option.map_eq_some_iff.mp stepped
  refine ⟨stage, running, left, ?_⟩
  cases after with
  | inl after => exact .inl ⟨after, advance_moves advanced, rfl⟩
  | inr answer => exact .inr ⟨answer, advance_moves advanced, rfl⟩

theorem start_cases {call : Call}
    (stepped : (machine repo).step state (.start call) = some next) :
    state.running = none ∧
      next = { dir := state.dir, running := some (.makingDir call),
               answer := none } := by
  obtain ⟨idle, started⟩ := Option.ite_none_left_eq_some.mp stepped
  refine ⟨?_, (Option.some.inj started).symm⟩
  exact Option.not_isSome_iff_eq_none.mp idle

theorem crash_cases {left : MirrorDir}
    (stepped : (machine repo).step state (.crash left) = some next) :
    mayLeave state.dir.mirror state.running left = true ∧
      next = { dir := { state.dir with mirror := left }, running := none,
               answer := none } := by
  obtain ⟨possible, stopped⟩ := Option.ite_none_right_eq_some.mp stepped
  exact ⟨possible, (Option.some.inj stopped).symm⟩

/-- Only Git at work under the lock leaves another mirror. -/
theorem eq_of_mayLeave {mirror left : MirrorDir} {running : Option Stage}
    (outside : ∀ stage, running = some stage → stage.holdsLock = false)
    (possible : mayLeave mirror running left = true) : left = mirror := by
  cases running with
  | none => exact of_decide_eq_true possible
  | some stage =>
    have free := outside stage rfl
    cases stage with
    | makingDir call => exact of_decide_eq_true possible
    | opening call => exact of_decide_eq_true possible
    | _ => cases free

theorem Sound.step (sound : Sound state) (careful : Careful state label)
    (stepped : (machine repo).step state label = some next) :
    Sound next := by
  have locked := sound.locked
  cases label with
  | start call =>
    obtain ⟨idle, rfl⟩ := start_cases stepped
    rw [idle] at locked
    exact ⟨locked, sound.whole⟩
  | crash left =>
    obtain ⟨possible, rfl⟩ := crash_cases stepped
    obtain rfl := eq_of_mayLeave careful possible
    refine ⟨?_, sound.whole⟩
    rw [locked]
    cases running : state.running with
    | none => rfl
    | some stage => exact careful stage running
  | proceed outcome =>
    obtain ⟨stage, running, left, goes⟩ := proceed_cases stepped
    rw [running, Option.any_some] at locked
    rcases goes with ⟨after, moves, rfl⟩ | ⟨answer, moves, rfl⟩
    · cases moves with
      | comes free still =>
        exact ⟨locked.trans (free.trans still.symm), sound.whole⟩
      | takes free unlocked holds => exact ⟨holds.symm, sound.whole⟩
      | works held holds lock mirror =>
        refine ⟨(lock.trans locked).trans (held.trans holds.symm), ?_⟩
        rcases mirror with same | usable
        · exact fun unusable => sound.whole (same.symm.trans unusable)
        · exact fun unusable => nomatch usable.symm.trans unusable
    · cases moves with
      | gives free => exact ⟨locked.trans free, sound.whole⟩
      | leaves must failed => exact absurd (careful _ running must) failed
      | removes => exact ⟨rfl, sound.whole⟩

theorem sound_of_reachable
    (reachable : (machine repo).Reachable Careful state) : Sound state := by
  refine reachable.invariant ?_ fun _ _ _ sound careful stepped =>
    sound.step careful stepped
  rintro _ rfl
  exact ⟨rfl, by decide⟩

theorem Guarded.step (guarded : Guarded state)
    (stepped : (machine repo).step state label = some next) :
    Guarded next := by
  cases label with
  | start call =>
    obtain ⟨-, rfl⟩ := start_cases stepped
    rintro _ ⟨⟩ holds
    cases holds
  | crash left =>
    obtain ⟨-, rfl⟩ := crash_cases stepped
    rintro _ ⟨⟩
  | proceed outcome =>
    obtain ⟨stage, running, left, goes⟩ := proceed_cases stepped
    rcases goes with ⟨after, moves, rfl⟩ | ⟨answer, moves, rfl⟩
    · rintro _ ⟨⟩ holds
      cases moves with
      | comes free still => exact absurd (still.symm.trans holds) nofun
      | takes => rfl
      | works held _ lock _ => exact lock.trans (guarded stage running held)
    · rintro _ ⟨⟩

theorem guarded_of_reachable
    (reachable : (machine repo).Reachable (fun _ _ => True) state) :
    Guarded state := by
  refine reachable.invariant ?_ fun _ _ _ guarded _ stepped =>
    guarded.step stepped
  rintro _ rfl _ ⟨⟩

/-- The first step of a run that is not careful leaves the lock behind. -/
theorem stuck_of_careless (guarded : Guarded state)
    (careless : ¬ Careful state label)
    (stepped : (machine repo).step state label = some next) :
    Stuck next := by
  cases label with
  | start call => exact absurd trivial careless
  | crash left =>
    obtain ⟨-, rfl⟩ := crash_cases stepped
    refine ⟨?_, by rintro _ ⟨⟩, by rintro ⟨⟩⟩
    by_contra unlocked
    refine careless fun stage running => ?_
    exact Bool.eq_false_iff.mpr fun holds =>
      unlocked (guarded stage running holds)
  | proceed outcome =>
    obtain ⟨stage, running, must, failed⟩ :
        ∃ stage, state.running = some stage ∧ stage.mustSucceed = true ∧
          outcome.error ≠ none := by
      by_contra none
      refine careless fun stage running must => ?_
      by_contra failed
      exact none ⟨stage, running, must, failed⟩
    obtain ⟨error, failed⟩ := Option.ne_none_iff_exists'.mp failed
    have answered : (machine repo).step state (.proceed outcome) =
        some { dir := state.dir, running := none,
               answer := some (.rejected error) } := by
      change (state.running.bind fun stage => _) = _
      rw [running, Option.bind_some, advance_of_failed must failed]
      rfl
    obtain rfl := Option.some.inj (stepped.symm.trans answered)
    exact ⟨guarded stage running (holdsLock_of_mustSucceed must),
      by rintro _ ⟨⟩, by rintro ⟨⟩⟩

theorem Stuck.step (stuck : Stuck state)
    (stepped : (machine repo).step state label = some next) :
    Stuck next := by
  cases label with
  | start call =>
    obtain ⟨-, rfl⟩ := start_cases stepped
    exact ⟨stuck.locked, by rintro _ ⟨⟩; rfl, by rintro ⟨⟩⟩
  | crash left =>
    obtain ⟨-, rfl⟩ := crash_cases stepped
    exact ⟨stuck.locked, by rintro _ ⟨⟩, by rintro ⟨⟩⟩
  | proceed outcome =>
    obtain ⟨stage, running, left, goes⟩ := proceed_cases stepped
    have free := stuck.outside stage running
    rcases goes with ⟨after, moves, rfl⟩ | ⟨answer, moves, rfl⟩
    · cases moves with
      | comes _ still =>
        exact ⟨stuck.locked, by rintro _ ⟨⟩; exact still,
          stuck.unanswered⟩
      | takes _ unlocked _ => cases unlocked.symm.trans stuck.locked
      | works held _ _ _ => cases held.symm.trans free
    · cases moves with
      | gives _ => exact ⟨stuck.locked, by rintro _ ⟨⟩, by rintro ⟨⟩⟩
      | leaves must _ =>
        cases (holdsLock_of_mustSucceed must).symm.trans free
      | removes => cases free

theorem Stuck.doomed (stuck : Stuck state) : Doomed repo state := by
  intro later steps
  have still : Stuck later :=
    steps.preserves (fun _ _ _ stuck _ stepped => stuck.step stepped) stuck
  exact still.unanswered

end Runs

/-! ## A call that succeeds -/

section Success

variable {repo : ResolvedRepo} {state next : State}

/-- Every operation succeeds. -/
def fine : Outcome where
  error := none
  heads := []
  nowMs := 0

/-- The call has the lock, and Git can use the mirror. -/
structure AtWork (state : State) (stage : Stage) : Prop where
  running : state.running = some stage
  usable : state.dir.mirror = .usable

/-- Commands in the mirror run one after the other. -/
theorem run_commands {commands : List Command}
    (fetches : ∀ command ∈ commands, ∃ source refspec,
      command = .fetch source refspec)
    (atWork : AtWork state (.running commands)) :
    (machine repo).run state
        (List.replicate commands.length (.proceed fine)) =
      some { state with running := some (.running []) } := by
  induction commands generalizing state with
  | nil =>
    obtain ⟨running, -⟩ := atWork
    rw [List.length_nil, List.replicate_zero, Machine.run, ← running]
  | cons command rest inductionHypothesis =>
    obtain ⟨⟨source, refspec, rfl⟩, later⟩ := List.forall_mem_cons.mp fetches
    have ran : (machine repo).step state (.proceed fine) =
        some { state with running := some (.running rest) } := by
      change (state.running.bind fun stage => _) = _
      rw [atWork.running, Option.bind_some, advance, runCommand]
      dsimp only [fine]
      rw [if_neg (by simp [atWork.usable])]
      rfl
    rw [List.length_cons, List.replicate_succ, Machine.run, ran]
    exact inductionHypothesis later ⟨rfl, atWork.usable⟩

/-- A call takes the lock, and makes the mirror when there is none. -/
theorem run_opening {call : Call} (idle : state.running = none)
    (free : state.dir.fetchLock = false)
    (whole : state.dir.mirror ≠ .unusable) :
    ∃ count dir, AtWork ⟨dir, some (.running call.commands), none⟩
        (.running call.commands) ∧
      (machine repo).run state
          (.start call :: List.replicate count (.proceed fine)) =
        some ⟨dir, some (.running call.commands), none⟩ := by
  obtain ⟨⟨lock, mirror, metadata, temporaries⟩, running, answer⟩ := state
  obtain rfl : running = none := idle
  obtain rfl : lock = false := free
  cases mirror with
  | unusable => exact absurd rfl whole
  | usable =>
    exact ⟨4, ⟨true, .usable, metadata, temporaries⟩, ⟨rfl, rfl⟩, rfl⟩
  | absent =>
    exact ⟨5, ⟨true, .usable, metadata, temporaries⟩, ⟨rfl, rfl⟩, rfl⟩

/-- After its commands a call writes the metadata and gives the lock back. -/
theorem run_closing (atWork : AtWork state (.running [])) :
    ∃ final, (machine repo).run state
        (List.replicate 5 (.proceed fine)) = some final ∧
      final.running = none ∧ final.answer = some .resolved ∧
      final.dir.fetchLock = false ∧ final.dir.mirror = .usable := by
  obtain ⟨⟨lock, mirror, metadata, temporaries⟩, running, answer⟩ := state
  obtain rfl : running = some (.running []) := atWork.running
  exact ⟨_, rfl, rfl, rfl, rfl, atWork.usable⟩

theorem canSucceed {call : Call} (idle : state.running = none)
    (free : state.dir.fetchLock = false)
    (whole : state.dir.mirror ≠ .unusable)
    (fetches : ∀ command ∈ call.commands, ∃ source refspec,
      command = .fetch source refspec) :
    ∃ final, CanSucceed repo state call final ∧ final.running = none ∧
      final.dir.fetchLock = false ∧ final.dir.mirror = .usable := by
  obtain ⟨count, dir, atWork, opened⟩ :=
    @run_opening repo state call idle free whole
  have worked := @run_commands repo _ _ fetches atWork
  obtain ⟨final, closed, ended, answered, unlocked, usable⟩ :=
    @run_closing repo ⟨dir, some (.running []), none⟩ ⟨rfl, atWork.usable⟩
  refine ⟨final, ⟨List.replicate (count + call.commands.length + 5) fine,
    ?_, ?_, ended, answered⟩, ended, unlocked, usable⟩
  · intro outcome member
    rw [List.eq_of_mem_replicate member]
    rfl
  · rw [List.map_replicate, List.replicate_add, List.replicate_add,
      ← List.cons_append, ← List.cons_append, Machine.run_append,
      Machine.run_append, opened, Option.bind_some, worked,
      Option.bind_some]
    exact closed

theorem Sound.recoverable (sound : Sound state) :
    Recoverable repo state := by
  intro idle refs
  have free : state.dir.fetchLock = false := by
    rw [sound.locked, idle]
    rfl
  obtain ⟨middle, made, quiet, unlocked, usable⟩ :=
    @canSucceed repo state .ensureMirror idle free sound.whole nofun
  obtain ⟨final, fetched, -⟩ :=
    @canSucceed repo middle (.fetchRefs refs) quiet unlocked
      (by rw [usable]; nofun) (by
        intro command member
        obtain ⟨fetchRef, -, rfl⟩ := List.mem_map.mp member
        exact ⟨_, _, rfl⟩)
  exact ⟨middle, final, made, fetched⟩

end Success

/-- As long as the process never stops while a call holds the lock, and every
lock that is opened is written and removed, the calls on the repository can
succeed again.  The first step that breaks this dooms every later call. -/
theorem mirror_recovers (repo : ResolvedRepo) :
    (∀ state, (machine repo).Reachable Careful state →
      Recoverable repo state) ∧
    ∀ state label next,
      (machine repo).Reachable (fun _ _ => True) state →
      ¬ Careful state label →
      (machine repo).step state label = some next →
      Doomed repo next := by
  constructor
  · intro state reachable
    exact (sound_of_reachable reachable).recoverable
  · intro state label next reachable careless stepped
    exact (stuck_of_careless (guarded_of_reachable reachable) careless
      stepped).doomed

/-! ## A crash in the first clone -/

def sampleRepo : ResolvedRepo where
  repoKey := "k".toList
  canonicalId := "github.com/a/b".toList
  url := "https://github.com/a/b.git".toList
  repoDir := "/repos/k".toList

def freshState : State where
  dir := ⟨false, .absent, none, 0⟩
  running := none
  answer := none

/-- The process stops while Git clones the repository for the first time. -/
def stopsInClone : List Label :=
  .start .ensureMirror :: List.replicate 4 (.proceed fine) ++
    [.crash .unusable]

/-- The lock and a partial mirror are left, and every later call fails. -/
theorem mirror_never_recovers :
    ∃ state, (machine sampleRepo).run freshState stopsInClone = some state ∧
      (machine sampleRepo).Reachable (fun _ _ => True) state ∧
      state.dir = ⟨true, .unusable, none, 0⟩ ∧
      Doomed sampleRepo state ∧ ¬ Recoverable sampleRepo state := by
  have ran : (machine sampleRepo).run freshState stopsInClone =
      some ⟨⟨true, .unusable, none, 0⟩, none, none⟩ := by
    rfl
  have doomed : Doomed sampleRepo ⟨⟨true, .unusable, none, 0⟩, none, none⟩ :=
    Stuck.doomed ⟨rfl, by rintro _ ⟨⟩, nofun⟩
  refine ⟨_, ran, ?_, rfl, doomed, ?_⟩
  · exact Machine.reachable_of_run rfl ran
  · intro recoverable
    obtain ⟨middle, -, ⟨outcomes, -, succeeds, -, answered⟩, -⟩ :=
      recoverable rfl []
    exact doomed middle (Machine.steps_of_run_eq_some succeeds) answered

end Rbo.Agent.MirrorRecovery
