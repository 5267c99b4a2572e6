import Rbo.Controller.SegmentShapes

/-!
# One live attempt per job

A job is claimed by a dispatch that has not yet created its attempt, by an
attempt that is not completed, or by a local run.  No handler looks for such
a claim before it starts a dispatch.  When the sweeps of queued jobs only
dispatch jobs without a claim, a job never has two live attempts, and the
lease epochs of its attempts increase.
-/

namespace Rbo.Controller.Execution

open Rbo.Foundation
open Rbo.Controller.Lifecycle

/-! ## Claims -/

namespace ControllerState

/-- An attempt that is not completed, or that a local run works on. -/
def claimed (state : ControllerState) (attemptId : Nat) : Prop :=
  (∃ row, state.db.getAttempt attemptId = some row ∧ row.live) ∨
    ∃ jobId, (jobId, attemptId) ∈ state.running

/-- A job without a dispatch under way and without a claimed attempt. -/
structure Unclaimed (state : ControllerState) (jobId : Nat) : Prop where
  noDispatch : jobId ∉ state.pending
  noAttempt : ∀ attemptId row,
    state.db.getAttempt attemptId = some row → row.jobId = jobId →
      ¬ state.claimed attemptId

end ControllerState

/-- A job that is past its confirmation. -/
def settled (db : Database) (jobId : Nat) : Prop :=
  ∃ job, db.getJob jobId = some job ∧ job.state ≠ .awaitingConfirmation

/-- The columns of an attempt that no update sets. -/
def identity (row : AttemptRow) : Nat × Nat × Option Nat × Nat :=
  (row.jobId, row.ordinal, row.agentId, row.leaseId)

theorem identity_update (row : AttemptRow) (fields : AttemptFields) :
    identity (row.update fields) = identity row :=
  rfl

/--
Claims are exclusive.  The claimed attempt of a job is its last one, and there
is none while a dispatch of the job is under way.
-/
structure Exclusive (state : ControllerState) : Prop where
  dispatchOnce : state.pending.Nodup
  dispatchFree : ∀ jobId ∈ state.pending, ∀ attemptId row,
    state.db.getAttempt attemptId = some row → row.jobId = jobId →
      ¬ state.claimed attemptId
  runStored : ∀ jobId attemptId, (jobId, attemptId) ∈ state.running →
    ∃ row, state.db.getAttempt attemptId = some row ∧ row.jobId = jobId
  claimLast : ∀ attemptId row other otherRow,
    state.db.getAttempt attemptId = some row → state.claimed attemptId →
      state.db.getAttempt other = some otherRow →
      otherRow.jobId = row.jobId → other ≤ attemptId
  epochsIncrease : ∀ earlier later earlierRow laterRow, earlier < later →
    state.db.getAttempt earlier = some earlierRow →
      state.db.getAttempt later = some laterRow →
      earlierRow.jobId = laterRow.jobId →
      earlierRow.leaseEpoch < laterRow.leaseEpoch
  taskSettled : ∀ task ∈ state.memory.tasks, ∀ jobId ∈ task.jobs,
    settled state.db jobId
  attemptSettled : ∀ attemptId row,
    state.db.getAttempt attemptId = some row → settled state.db row.jobId

/-! ## Writes that keep claims -/

/--
A write that creates no attempt, makes no completed attempt live unless a
local run works on it, and raises the epoch of a live attempt only.
-/
def Quiet (state : ControllerState) : Write → Prop
  | .insertJob _ => True
  | .updateJob jobId fields =>
    fields.state = some .awaitingConfirmation → ¬ settled state.db jobId
  | .insertAttempt _ => False
  | .updateAttempt attemptId fields =>
    (∀ moved ∈ fields.state, moved = .completed ∨ state.claimed attemptId) ∧
      ∀ epoch ∈ fields.leaseEpoch, ∃ row,
        state.db.getAttempt attemptId = some row ∧ row.live ∧
          row.leaseEpoch ≤ epoch
  | .insertEvent _ => True

/-- How an attempt looks after quiet writes. -/
structure Tamed (state : ControllerState) (attemptId : Nat)
    (before after : AttemptRow) : Prop where
  same : identity after = identity before
  liveClaimed : after.live → state.claimed attemptId
  epochRaised : before.leaseEpoch ≤ after.leaseEpoch
  epochKept : after.leaseEpoch = before.leaseEpoch ∨ before.live

/-- How the tables look after quiet writes. -/
structure Tame (state : ControllerState) (after : Database) : Prop where
  length : after.attempts.length = state.db.attempts.length
  row : ∀ attemptId afterRow, after.getAttempt attemptId = some afterRow →
    ∃ row, state.db.getAttempt attemptId = some row ∧
      Tamed state attemptId row afterRow
  settled : ∀ jobId, settled state.db jobId → settled after jobId

variable {state : ControllerState} {attemptId : Nat}

theorem tamed_refl {row : AttemptRow}
    (found : state.db.getAttempt attemptId = some row) :
    Tamed state attemptId row row where
  same := rfl
  liveClaimed live := Or.inl ⟨row, found, live⟩
  epochRaised := Nat.le_refl _
  epochKept := Or.inl rfl

theorem tame_refl (state : ControllerState) : Tame state state.db where
  length := rfl
  row _ afterRow found := ⟨afterRow, found, tamed_refl found⟩
  settled _ known := known

theorem live_update {row : AttemptRow} {fields : AttemptFields}
    (live : (row.update fields).live) :
    (fields.state = none ∧ row.live) ∨
      ∃ moved, fields.state = some moved ∧ moved ≠ .completed := by
  cases set : fields.state with
  | none =>
    left
    refine ⟨rfl, ?_⟩
    simpa [AttemptRow.live, AttemptRow.update, set] using live
  | some moved =>
    right
    refine ⟨moved, rfl, ?_⟩
    simpa [AttemptRow.live, AttemptRow.update, set] using live

theorem tamed_update {fields : AttemptFields} {before row : AttemptRow}
    (quiet : Quiet state (.updateAttempt attemptId fields))
    (found : state.db.getAttempt attemptId = some before)
    (tamed : Tamed state attemptId before row) :
    Tamed state attemptId before (row.update fields) := by
  rcases quiet with ⟨moves, raises⟩
  have epoch :
      (row.update fields).leaseEpoch =
        fields.leaseEpoch.getD row.leaseEpoch := rfl
  constructor
  · exact (identity_update row fields).trans tamed.same
  · intro live
    rcases live_update live with ⟨_, wasLive⟩ | ⟨moved, set, notCompleted⟩
    · exact tamed.liveClaimed wasLive
    · exact (moves moved set).resolve_left notCompleted
  · rw [epoch]
    cases set : fields.leaseEpoch with
    | none => exact tamed.epochRaised
    | some raised =>
      rcases raises raised set with ⟨stored, there, _, bound⟩
      rw [found, Option.some.injEq] at there
      rw [there]
      exact bound
  · rw [epoch]
    cases set : fields.leaseEpoch with
    | none => exact tamed.epochKept
    | some raised =>
      rcases raises raised set with ⟨stored, there, live, _⟩
      rw [found, Option.some.injEq] at there
      rw [there]
      exact Or.inr live

theorem settled_update {db : Database} {jobId name : Nat}
    {fields : JobFields} (known : settled db name)
    (kept : jobId = name → fields.state ≠ some .awaitingConfirmation) :
    settled (db.write (.updateJob jobId fields)) name := by
  rcases known with ⟨job, found, past⟩
  unfold settled
  rw [Database.getJob_updateJob, found]
  refine ⟨_, rfl, ?_⟩
  show (if jobId = name then job.update fields else job).state ≠ _
  by_cases same : jobId = name
  · rw [if_pos same]
    cases set : fields.state with
    | none => simpa [JobRow.update, set] using past
    | some moved =>
      have other := kept same
      rw [set] at other
      simpa [JobRow.update, set] using other
  · rw [if_neg same]
    exact past

/-- A quiet write keeps the tables tame. -/
theorem tame_write {db : Database} {statement : Write}
    (quiet : Quiet state statement) (tame : Tame state db) :
    Tame state (db.write statement) := by
  cases statement with
  | insertJob row =>
    refine ⟨tame.length, tame.row, ?_⟩
    intro jobId known
    rcases tame.settled jobId known with ⟨job, found, past⟩
    exact ⟨job, Database.getJob_insertJob found, past⟩
  | updateJob jobId fields =>
    refine ⟨tame.length, tame.row, ?_⟩
    intro name known
    apply settled_update (tame.settled name known)
    rintro rfl waiting
    exact quiet waiting known
  | insertAttempt row => exact absurd quiet id
  | updateAttempt attemptId fields =>
    refine ⟨?_, ?_, tame.settled⟩
    · rw [← tame.length]
      exact List.length_modify _ _ _
    · intro name afterRow found
      rw [Database.getAttempt_updateAttempt, Option.map_eq_some_iff] at found
      rcases found with ⟨row, there, rfl⟩
      rcases tame.row name row there with ⟨before, stored, tamed⟩
      refine ⟨before, stored, ?_⟩
      by_cases same : attemptId = name
      · subst same
        rw [if_pos rfl]
        exact tamed_update quiet stored tamed
      · rw [if_neg same]
        exact tamed
  | insertEvent attemptId => exact tame

theorem tame_writes {statements : List Write}
    (quiet : ∀ statement ∈ statements, Quiet state statement) :
    Tame state (state.db.writes statements) := by
  have run : ∀ (rest : List Write) (db : Database),
      (∀ statement ∈ rest, Quiet state statement) → Tame state db →
        Tame state (db.writes rest) := by
    intro rest
    induction rest with
    | nil => exact fun _ _ tame => tame
    | cons statement rest induction =>
      intro db each tame
      rw [List.forall_mem_cons] at each
      exact induction _ each.2 (tame_write each.1 tame)
  exact run statements state.db quiet (tame_refl state)

/-! ## Segments that keep claims -/

/-- A segment that claims no job and no attempt. -/
structure Calm (state : ControllerState) (segment : Segment) : Prop where
  quiet : ∀ statement ∈ segment.writes, Quiet state statement
  pending :
    (segment.memory.tasks.filterMap Task.pending).Sublist state.pending
  running : segment.memory.tasks.filterMap Task.running ⊆ state.running
  jobs : ∀ task ∈ segment.memory.tasks, ∀ jobId ∈ task.jobs,
    ∃ old ∈ state.memory.tasks, jobId ∈ old.jobs

variable {next : ControllerState}

/-- What quiet writes leave, when the local runs are among the old ones. -/
theorem claimed_of_tame (tame : Tame state next.db)
    (running : next.running ⊆ state.running)
    (claimed : next.claimed attemptId) :
    state.claimed attemptId := by
  rcases claimed with ⟨afterRow, found, live⟩ | ⟨jobId, runs⟩
  · rcases tame.row attemptId afterRow found with ⟨_, _, tamed⟩
    exact tamed.liveClaimed live
  · exact Or.inr ⟨jobId, running runs⟩

theorem Tamed.jobId_eq {before after : AttemptRow}
    (tamed : Tamed state attemptId before after) : after.jobId = before.jobId :=
  congrArg Prod.fst tamed.same

theorem Tame.stored {after : Database} (tame : Tame state after)
    {row : AttemptRow} (found : state.db.getAttempt attemptId = some row) :
    ∃ afterRow, after.getAttempt attemptId = some afterRow ∧
      afterRow.jobId = row.jobId := by
  have inside : attemptId < after.attempts.length := by
    rw [tame.length]
    exact Database.getAttempt_lt found
  have there :
      after.getAttempt attemptId = some (after.attempts[attemptId]) :=
    List.getElem?_eq_getElem inside
  refine ⟨_, there, ?_⟩
  rcases tame.row attemptId _ there with ⟨before, stored, tamed⟩
  rw [found, Option.some.injEq] at stored
  rw [stored]
  exact tamed.jobId_eq

/--
The parts of exclusiveness that only look at the tables and the local runs
survive quiet writes.
-/
theorem tame_claimLast (exclusive : Exclusive state)
    (tame : Tame state next.db) (running : next.running ⊆ state.running)
    (attemptId : Nat) (row : AttemptRow) (other : Nat) (otherRow : AttemptRow)
    (found : next.db.getAttempt attemptId = some row)
    (claimed : next.claimed attemptId)
    (otherFound : next.db.getAttempt other = some otherRow)
    (sameJob : otherRow.jobId = row.jobId) : other ≤ attemptId := by
  rcases tame.row attemptId row found with ⟨before, stored, tamed⟩
  rcases tame.row other otherRow otherFound with
    ⟨otherBefore, otherStored, otherTamed⟩
  apply exclusive.claimLast attemptId before other otherBefore stored
    (claimed_of_tame tame running claimed) otherStored
  rw [← tamed.jobId_eq, ← otherTamed.jobId_eq]
  exact sameJob

theorem tame_epochsIncrease {after : Database} (exclusive : Exclusive state)
    (tame : Tame state after) (earlier later : Nat)
    (earlierRow laterRow : AttemptRow) (order : earlier < later)
    (earlierFound : after.getAttempt earlier = some earlierRow)
    (laterFound : after.getAttempt later = some laterRow)
    (sameJob : earlierRow.jobId = laterRow.jobId) :
    earlierRow.leaseEpoch < laterRow.leaseEpoch := by
  rcases tame.row earlier earlierRow earlierFound with
    ⟨earlierBefore, earlierStored, earlierTamed⟩
  rcases tame.row later laterRow laterFound with
    ⟨laterBefore, laterStored, laterTamed⟩
  have same : earlierBefore.jobId = laterBefore.jobId := by
    rw [← earlierTamed.jobId_eq, ← laterTamed.jobId_eq]
    exact sameJob
  -- Only the last attempt of a job is live, so the earlier epoch is kept.
  have kept : earlierRow.leaseEpoch = earlierBefore.leaseEpoch := by
    apply earlierTamed.epochKept.resolve_right
    intro live
    have last :=
      exclusive.claimLast earlier earlierBefore later laterBefore
        earlierStored (Or.inl ⟨earlierBefore, earlierStored, live⟩)
        laterStored same.symm
    exact Nat.not_lt.mpr last order
  rw [kept]
  exact Nat.lt_of_lt_of_le
    (exclusive.epochsIncrease earlier later earlierBefore laterBefore order
      earlierStored laterStored same)
    laterTamed.epochRaised

theorem tame_attemptSettled {after : Database} (exclusive : Exclusive state)
    (tame : Tame state after) (attemptId : Nat) (row : AttemptRow)
    (found : after.getAttempt attemptId = some row) :
    settled after row.jobId := by
  rcases tame.row attemptId row found with ⟨before, stored, tamed⟩
  rw [tamed.jobId_eq]
  exact tame.settled _ (exclusive.attemptSettled attemptId before stored)

theorem tame_runStored (exclusive : Exclusive state)
    (tame : Tame state next.db) (running : next.running ⊆ state.running)
    (jobId attemptId : Nat) (runs : (jobId, attemptId) ∈ next.running) :
    ∃ row, next.db.getAttempt attemptId = some row ∧ row.jobId = jobId := by
  rcases exclusive.runStored jobId attemptId (running runs) with
    ⟨row, found, same⟩
  rcases tame.stored found with ⟨afterRow, there, kept⟩
  exact ⟨afterRow, there, kept.trans same⟩

theorem tame_unclaimed (tame : Tame state next.db)
    (running : next.running ⊆ state.running) {jobId : Nat}
    (free : ∀ attemptId row, state.db.getAttempt attemptId = some row →
      row.jobId = jobId → ¬ state.claimed attemptId) (attemptId : Nat)
    (row : AttemptRow) (found : next.db.getAttempt attemptId = some row)
    (same : row.jobId = jobId) : ¬ next.claimed attemptId := by
  intro claimed
  rcases tame.row attemptId row found with ⟨before, stored, tamed⟩
  exact free attemptId before stored (tamed.jobId_eq.symm.trans same)
    (claimed_of_tame tame running claimed)

/-- A calm segment keeps claims exclusive. -/
theorem calm_exclusive {segment : Segment} (exclusive : Exclusive state)
    (calm : Calm state segment) :
    Exclusive (state.after segment) := by
  have tame : Tame state (state.after segment).db := tame_writes calm.quiet
  constructor
  · exact exclusive.dispatchOnce.sublist calm.pending
  · intro jobId pending
    apply tame_unclaimed tame calm.running
    exact exclusive.dispatchFree jobId (calm.pending.subset pending)
  · exact tame_runStored exclusive tame calm.running
  · exact tame_claimLast exclusive tame calm.running
  · exact tame_epochsIncrease exclusive tame
  · intro task member jobId named
    rcases calm.jobs task member jobId named with ⟨old, there, names⟩
    exact tame.settled _ (exclusive.taskSettled old there jobId names)
  · exact tame_attemptSettled exclusive tame

/-- A segment that starts a dispatch of a job. -/
structure Starts (state : ControllerState) (segment : Segment)
    (jobId : Nat) : Prop where
  quiet : ∀ statement ∈ segment.writes, Quiet state statement
  pending :
    (segment.memory.tasks.filterMap Task.pending).Perm
      (jobId :: state.pending)
  running : segment.memory.tasks.filterMap Task.running ⊆ state.running
  settled : ∀ task ∈ segment.memory.tasks, ∀ other ∈ task.jobs,
    settled (state.db.writes segment.writes) other

/-- A dispatch of a job without a claim keeps claims exclusive. -/
theorem starts_exclusive {segment : Segment} {jobId : Nat}
    (exclusive : Exclusive state) (starts : Starts state segment jobId)
    (free : state.Unclaimed jobId) :
    Exclusive (state.after segment) := by
  have tame : Tame state (state.after segment).db := tame_writes starts.quiet
  constructor
  · show (segment.memory.tasks.filterMap Task.pending).Nodup
    rw [starts.pending.nodup_iff, List.nodup_cons]
    exact ⟨free.noDispatch, exclusive.dispatchOnce⟩
  · intro other pending
    apply tame_unclaimed tame starts.running
    rcases List.mem_cons.mp (starts.pending.subset pending) with rfl | old
    · exact free.noAttempt
    · exact exclusive.dispatchFree other old
  · exact tame_runStored exclusive tame starts.running
  · exact tame_claimLast exclusive tame starts.running
  · exact tame_epochsIncrease exclusive tame
  · exact starts.settled
  · exact tame_attemptSettled exclusive tame

/-- A segment in which a dispatch creates its attempt. -/
structure Creates (state : ControllerState) (segment : Segment)
    (created : AttemptRow) : Prop where
  attempts : ∀ name,
    (state.db.writes segment.writes).getAttempt name =
      if name = state.db.attempts.length then some created
      else state.db.getAttempt name
  epoch : created.leaseEpoch = state.db.nextLeaseEpochForJob created.jobId
  pending :
    state.pending.Perm
      (created.jobId :: segment.memory.tasks.filterMap Task.pending)
  running : ∀ jobId attemptId,
    (jobId, attemptId) ∈ segment.memory.tasks.filterMap Task.running →
      (jobId = created.jobId ∧ attemptId = state.db.attempts.length) ∨
        (jobId, attemptId) ∈ state.running
  settled : ∀ jobId, settled state.db jobId →
    settled (state.db.writes segment.writes) jobId
  jobs : ∀ task ∈ segment.memory.tasks, ∀ jobId ∈ task.jobs,
    ∃ old ∈ state.memory.tasks, jobId ∈ old.jobs

section Creation

variable {state : ControllerState} {segment : Segment}
  {created : AttemptRow}

theorem Creates.found (creates : Creates state segment created)
    {name : Nat} {row : AttemptRow}
    (found : (state.after segment).db.getAttempt name = some row) :
    (name = state.db.attempts.length ∧ row = created) ∨
      (name < state.db.attempts.length ∧
        state.db.getAttempt name = some row) := by
  have read := creates.attempts name
  by_cases last : name = state.db.attempts.length
  · rw [if_pos last] at read
    left
    exact ⟨last, Option.some.inj (found.symm.trans read)⟩
  · rw [if_neg last] at read
    right
    have old : state.db.getAttempt name = some row := read.symm.trans found
    exact ⟨Database.getAttempt_lt old, old⟩

theorem Creates.claimed (creates : Creates state segment created)
    {name : Nat} (claimed : (state.after segment).claimed name) :
    name = state.db.attempts.length ∨ state.claimed name := by
  rcases claimed with ⟨row, found, live⟩ | ⟨jobId, runs⟩
  · rcases creates.found found with ⟨last, _⟩ | ⟨_, old⟩
    · exact Or.inl last
    · exact Or.inr (Or.inl ⟨row, old, live⟩)
  · rcases creates.running jobId name runs with ⟨_, last⟩ | old
    · exact Or.inl last
    · exact Or.inr (Or.inr ⟨jobId, old⟩)

section

variable (exclusive : Exclusive state) (creates : Creates state segment created)

include exclusive creates

/-- The job of the new attempt was dispatched, and so has no other claim. -/
theorem Creates.free {name : Nat} {row : AttemptRow}
    (found : state.db.getAttempt name = some row)
    (same : row.jobId = created.jobId) : ¬ state.claimed name := by
  apply exclusive.dispatchFree created.jobId _ name row found same
  rw [creates.pending.mem_iff]
  exact List.mem_cons_self

theorem Creates.settledJob :
    Execution.settled state.db created.jobId := by
  have pending : created.jobId ∈ state.pending := by
    rw [creates.pending.mem_iff]
    exact List.mem_cons_self
  rcases List.mem_filterMap.mp pending with ⟨task, member, holds⟩
  apply exclusive.taskSettled task member
  cases task <;> simp_all [Task.pending, Task.jobs]

theorem creates_dispatchFree (jobId : Nat)
    (pending : jobId ∈ segment.memory.tasks.filterMap Task.pending)
    (name : Nat) (row : AttemptRow)
    (found : (state.after segment).db.getAttempt name = some row)
    (same : row.jobId = jobId) : ¬ (state.after segment).claimed name := by
  have unique : created.jobId ∉
      segment.memory.tasks.filterMap Task.pending := by
    have once := exclusive.dispatchOnce
    rw [creates.pending.nodup_iff, List.nodup_cons] at once
    exact once.1
  rcases creates.found found with ⟨_, rfl⟩ | ⟨inside, old⟩
  · rw [same] at unique
    exact absurd pending unique
  · intro claimed
    rcases creates.claimed claimed with last | earlier
    · exact Nat.ne_of_lt inside last
    · apply exclusive.dispatchFree jobId _ name row old same earlier
      rw [creates.pending.mem_iff]
      exact List.mem_cons_of_mem _ pending

theorem creates_claimLast (name : Nat) (row : AttemptRow) (other : Nat)
    (otherRow : AttemptRow)
    (found : (state.after segment).db.getAttempt name = some row)
    (claimed : (state.after segment).claimed name)
    (otherFound : (state.after segment).db.getAttempt other = some otherRow)
    (sameJob : otherRow.jobId = row.jobId) : other ≤ name := by
  rcases creates.found otherFound with
    ⟨otherLast, rfl⟩ | ⟨otherInside, otherOld⟩
  · rcases creates.found found with ⟨last, _⟩ | ⟨inside, old⟩
    · exact Nat.le_of_eq (otherLast.trans last.symm)
    · rcases creates.claimed claimed with last | earlier
      · exact absurd last (Nat.ne_of_lt inside)
      · exact absurd earlier (creates.free exclusive old sameJob.symm)
  · rcases creates.found found with ⟨last, _⟩ | ⟨inside, old⟩
    · rw [last]
      exact Nat.le_of_lt otherInside
    · rcases creates.claimed claimed with last | earlier
      · exact absurd last (Nat.ne_of_lt inside)
      · exact exclusive.claimLast name row other otherRow old earlier
          otherOld sameJob

theorem creates_epochsIncrease (earlier later : Nat)
    (earlierRow laterRow : AttemptRow) (order : earlier < later) (earlierFound :
      (state.after segment).db.getAttempt earlier = some earlierRow)
    (laterFound : (state.after segment).db.getAttempt later = some laterRow)
    (sameJob : earlierRow.jobId = laterRow.jobId) :
    earlierRow.leaseEpoch < laterRow.leaseEpoch := by
  rcases creates.found laterFound with ⟨laterLast, rfl⟩ | ⟨inside, laterOld⟩
  · rcases creates.found earlierFound with ⟨last, _⟩ | ⟨_, earlierOld⟩
    · rw [last, laterLast] at order
      exact absurd order (Nat.lt_irrefl _)
    · rw [creates.epoch, ← sameJob]
      exact Database.leaseEpoch_lt_next earlierOld
  · rcases creates.found earlierFound with ⟨last, _⟩ | ⟨_, earlierOld⟩
    · rw [last] at order
      exact absurd inside (Nat.lt_asymm order)
    · exact exclusive.epochsIncrease earlier later earlierRow laterRow order
        earlierOld laterOld sameJob

/-- A dispatch that creates its attempt keeps claims exclusive. -/
theorem creates_exclusive :
    Exclusive (state.after segment) := by
  constructor
  · have once := exclusive.dispatchOnce
    rw [creates.pending.nodup_iff, List.nodup_cons] at once
    exact once.2
  · exact creates_dispatchFree exclusive creates
  · intro jobId attemptId runs
    rcases creates.running jobId attemptId runs with ⟨rfl, rfl⟩ | old
    · refine ⟨created, ?_, rfl⟩
      exact (creates.attempts _).trans (if_pos rfl)
    · rcases exclusive.runStored jobId attemptId old with ⟨row, found, same⟩
      refine ⟨row, ?_, same⟩
      have inside := Database.getAttempt_lt found
      exact (creates.attempts _).trans
        ((if_neg (Nat.ne_of_lt inside)).trans found)
  · exact creates_claimLast exclusive creates
  · exact creates_epochsIncrease exclusive creates
  · intro task member jobId named
    rcases creates.jobs task member jobId named with ⟨old, there, names⟩
    exact creates.settled _ (exclusive.taskSettled old there jobId names)
  · intro name row found
    apply creates.settled
    rcases creates.found found with ⟨_, rfl⟩ | ⟨_, old⟩
    · exact creates.settledJob exclusive
    · exact exclusive.attemptSettled name row old

end

end Creation

/-! ## Effects that keep claims -/

/-- An effect whose write, if it is one, is quiet. -/
def Still (state : ControllerState) (effect : Effect) : Prop :=
  ∀ statement ∈ effect.statement, Quiet state statement

section Effects

variable {state : ControllerState}

theorem quiet_of_still {segment : Segment}
    (still : ∀ effect ∈ segment.effects, Still state effect) :
    ∀ statement ∈ segment.writes, Quiet state statement := by
  intro statement written
  rcases List.mem_filterMap.mp written with ⟨effect, member, is⟩
  exact still effect member statement is

theorem still_job {jobId : Nat} {moved : JobState} {fields : JobFields}
    (past : moved ≠ .awaitingConfirmation) :
    Still state (transitionJobState jobId moved fields) := by
  rintro _ ⟨⟩ waiting
  exact absurd (Option.some.inj waiting) past

theorem still_attempt {attemptId : Nat} {moved : AttemptState}
    {outcome : Option (Option JobOutcome)}
    (allowed : moved = .completed ∨ state.claimed attemptId) :
    Still state (transitionAttemptState attemptId moved outcome) := by
  rintro _ ⟨⟩
  constructor
  · rintro _ ⟨⟩
    exact allowed
  · nofun

theorem still_columns {attemptId : Nat} {fields : AttemptFields}
    (noState : fields.state = none) (noEpoch : fields.leaseEpoch = none) :
    Still state (updateAttempt attemptId fields) := by
  rintro _ ⟨⟩
  constructor
  · rw [noState]
    nofun
  · rw [noEpoch]
    nofun

theorem still_send {agentId : Nat} {frame : Outgoing}
    {header : LeaseHeader} : Still state (.send agentId frame header) := by
  intro statement is
  cases is

theorem still_file {attemptId : Nat} {file : AttemptFile} :
    Still state (.file attemptId file) := by
  intro statement is
  cases is

theorem unsettled_length : ¬ settled state.db state.db.jobs.length := by
  rintro ⟨job, found, _⟩
  unfold Database.getJob at found
  rw [List.getElem?_eq_none (Nat.le_refl _)] at found
  cases found

theorem still_of_plain {effect : Effect} (plain : effect.plain = true) :
    Still state effect := by
  cases effect with
  | write statement =>
    rintro _ ⟨⟩
    cases statement with
    | insertJob row => cases plain
    | updateJob jobId fields =>
      exact fun waiting => absurd waiting (of_decide_eq_true plain).1
    | insertAttempt row => cases plain
    | updateAttempt attemptId fields =>
      rcases of_decide_eq_true plain with ⟨epoch, _, _, moves⟩
      constructor
      · intro moved set
        rcases moves with none | completed
        · rw [none] at set
          cases set
        · rw [completed] at set
          exact Or.inl (Option.some.inj set).symm
      · rw [epoch]
        nofun
    | insertEvent attemptId => exact trivial
  | send agentId frame header => exact still_send
  | file attemptId file => exact still_file

/-- Whatever causes an effect, its write is quiet. -/
theorem still_of_cause {event : Event} {effect : Effect}
    (cause : Cause state event effect) : Still state effect := by
  cases cause with
  | plain is => exact still_of_plain is
  | renewed => exact still_columns rfl rfl
  | supervised runs => exact still_attempt (Or.inr (Or.inr ⟨_, runs⟩))
  | moved found live => exact still_attempt (Or.inr (Or.inl ⟨_, found, live⟩))
  | rejected found leasing =>
    rintro _ ⟨⟩
    refine ⟨nofun, ?_⟩
    rintro _ ⟨⟩
    refine ⟨_, found, ?_, Nat.le_succ _⟩
    intro completed
    rw [leasing] at completed
    cases completed
  | identified => exact still_columns rfl rfl
  | orphaned found live =>
    rintro _ ⟨⟩
    exact ⟨fun _ _ => Or.inr (Or.inl ⟨_, found, live⟩), nofun⟩
  | adopted found live =>
    rintro _ ⟨⟩
    exact ⟨fun _ _ => Or.inr (Or.inl ⟨_, found, live⟩), nofun⟩
  | adopts => exact still_send
  | created =>
    rintro _ ⟨⟩
    exact trivial
  | awaits =>
    rintro _ ⟨⟩ _
    exact unsettled_length
  | _ => exact still_job (by decide)

theorem quiet_of_caused {event : Event} {segment : Segment}
    (caused : Caused state event segment.effects) :
    ∀ statement ∈ segment.writes, Quiet state statement :=
  quiet_of_still fun effect member => still_of_cause (caused effect member)

theorem quiet_nil : ∀ statement ∈ ([] : List Write), Quiet state statement :=
  fun _ written => absurd written List.not_mem_nil

theorem calm_of_caused {event : Event} {segment : Segment}
    (caused : Caused state event segment.effects)
    (tidy : Tidy state segment.memory.tasks) : Calm state segment :=
  ⟨quiet_of_caused caused, tidy.pending, tidy.running, tidy.jobs⟩

end Effects

/-! ## Dispatches -/

section Dispatches

variable {state : ControllerState}

variable {jobId : Nat}

/-- Nothing names a job before it is past its confirmation. -/
theorem unclaimed_of_unsettled (exclusive : Exclusive state)
    (unsettled : ¬ settled state.db jobId) : state.Unclaimed jobId := by
  constructor
  · intro pending
    rcases List.mem_filterMap.mp pending with ⟨task, member, holds⟩
    apply unsettled
    apply exclusive.taskSettled task member
    cases task <;> simp_all [Task.pending, Task.jobs]
  · rintro attemptId row found rfl
    exact absurd (exclusive.attemptSettled attemptId row found) unsettled

/-- A new task dispatches a job. -/
theorem starts_spawn {segment : Segment} {rest : List Nat}
    (exclusive : Exclusive state) (tasks : segment.memory.tasks =
      state.memory.tasks ++ [.dispatch jobId rest])
    (quiet : ∀ statement ∈ segment.writes, Quiet state statement)
    (known : ∀ other ∈ jobId :: rest,
      settled (state.db.writes segment.writes) other) :
    Starts state segment jobId := by
  constructor
  · exact quiet
  · rw [tasks, List.filterMap_append]
    exact List.perm_append_singleton jobId _
  · rw [tasks, List.filterMap_append]
    show state.running ++ [] ⊆ state.running
    rw [List.append_nil]
    exact List.Subset.refl _
  · rw [tasks]
    intro task member other named
    rcases List.mem_append.mp member with there | added
    · have tame := tame_writes quiet
      exact tame.settled other (exclusive.taskSettled task there other named)
    · rw [List.mem_singleton.mp added] at named
      exact known other named

/-- The job that `handleJobSubmit` creates is new to every task. -/
theorem submitted_exclusive (exclusive : Exclusive state)
    (policy : QueuePolicy) :
    Exclusive (state.after (state.handleJobSubmit policy false)) := by
  refine starts_exclusive exclusive (starts_spawn exclusive rfl
    (quiet_of_caused (caused_submitted policy)) ?_)
    (unclaimed_of_unsettled exclusive unsettled_length)
  intro other named
  rw [List.mem_singleton.mp named]
  simp [settled, Segment.writes, ControllerState.handleJobSubmit,
    Effect.statement, transitionJobState, Database.write,
    Database.getJob, JobRow.update]

theorem settled_moved {db : Database} {job : JobRow} {fields : JobFields}
    {moved : JobState} (found : db.getJob jobId = some job)
    (past : moved ≠ .awaitingConfirmation) :
    settled
      (db.write (.updateJob jobId { fields with state := some moved }))
      jobId := by
  unfold settled
  rw [Database.getJob_updateJob, found, Option.map_some, if_pos rfl]
  exact ⟨_, rfl, past⟩

theorem confirmed_exclusive (exclusive : Exclusive state) {job : JobRow}
    (found : state.db.getJob jobId = some job)
    (waiting : job.state = .awaitingConfirmation) :
    Exclusive
      (state.after
        { effects :=
            [transitionJobState jobId .queued
              { queuedAt := some state.memory.clock }]
          memory := state.memory.spawn (.dispatch jobId []) }) := by
  have unsettled : ¬ settled state.db jobId := by
    rintro ⟨other, there, past⟩
    rw [found, Option.some.injEq] at there
    rw [← there] at past
    exact past waiting
  have caused : Caused state (.confirm jobId .valid)
      [transitionJobState jobId .queued
        { queuedAt := some state.memory.clock }] :=
    caused_cons (.confirmed found waiting) caused_nil
  refine starts_exclusive exclusive
    (starts_spawn exclusive rfl (quiet_of_caused caused) ?_)
    (unclaimed_of_unsettled exclusive unsettled)
  intro other named
  rw [List.mem_singleton.mp named]
  exact settled_moved found (by decide)

theorem settled_of_queued (queued : jobId ∈ state.queuedJobs) :
    settled state.db jobId := by
  unfold ControllerState.queuedJobs at queued
  rcases List.mem_map.mp queued with ⟨⟨job, name⟩, member, rfl⟩
  rw [List.mem_filter, decide_eq_true_iff,
    List.mem_zipIdx_iff_getElem?] at member
  refine ⟨job, member.1, ?_⟩
  rw [member.2]
  decide

theorem swept_exclusive (exclusive : Exclusive state) {rest : List Nat}
    (queued : state.queuedJobs = jobId :: rest) (free : state.Unclaimed jobId) :
    Exclusive
      (state.after
        { effects := []
          memory := state.memory.spawn (.dispatch jobId rest) }) := by
  refine starts_exclusive exclusive
    (starts_spawn exclusive rfl quiet_nil ?_) free
  intro other named
  apply settled_of_queued
  rw [queued]
  exact named

theorem sweeps_exclusive (exclusive : Exclusive state) {index : Nat}
    {rest : List Nat}
    (found : state.memory.tasks[index]? = some (.sweep (jobId :: rest)))
    (free : state.Unclaimed jobId) :
    Exclusive
      (state.after
        { effects := []
          memory := state.memory.replace index (.dispatch jobId rest) }) := by
  have sameRun :
      (Task.dispatch jobId rest).running =
        (Task.sweep (jobId :: rest)).running := rfl
  have sameJobs :
      (Task.dispatch jobId rest).jobs ⊆
        (Task.sweep (jobId :: rest)).jobs := List.Subset.refl _
  refine starts_exclusive exclusive ⟨quiet_nil, keys_set_some found rfl rfl,
    (keys_set_sublist found (Or.inl sameRun)).subset, ?_⟩ free
  intro task member other named
  rcases jobs_set found sameJobs task member other named with
    ⟨old, there, names⟩
  exact exclusive.taskSettled old there other names

variable {index jobId : Nat} {rest : List Nat}

/-- A dispatch that creates an attempt, and then writes no attempt. -/
theorem creates_of_insert {segment : Segment} (created : AttemptRow)
    {old : Task} (found : state.memory.tasks[index]? = some old)
    (pending : old.pending = some created.jobId)
    (epoch :
      created.leaseEpoch = state.db.nextLeaseEpochForJob created.jobId)
    (attempts :
      (state.db.writes segment.writes).attempts =
        state.db.attempts ++ [created])
    (settled : ∀ other, settled state.db other →
      settled (state.db.writes segment.writes) other)
    (new : Task) (noPending : new.pending = none)
    (run : ∀ held ∈ new.running,
      held = (created.jobId, state.db.attempts.length))
    (jobs : new.jobs ⊆ old.jobs)
    (tasks : segment.memory.tasks = state.memory.tasks.eraseIdx index ∨
      segment.memory.tasks = state.memory.tasks.set index new) :
    Creates state segment created := by
  constructor
  · intro name
    exact
      (congrArg (fun rows : List AttemptRow => rows[name]?) attempts).trans
        (Database.getAttempt_insertAttempt created name)
  · exact epoch
  · have removed := keys_perm_eraseIdx found pending
    rcases tasks with erased | refilled
    · rw [erased]
      exact removed
    · rw [refilled, keys_set_none noPending]
      exact removed
  · intro other attemptId runs
    rcases tasks with erased | refilled
    · rw [erased] at runs
      exact Or.inr (keys_eraseIdx_sublist.subset runs)
    · rw [refilled] at runs
      rcases List.mem_filterMap.mp runs with ⟨task, member, holds⟩
      rcases List.mem_or_eq_of_mem_set member with there | rfl
      · exact Or.inr (List.mem_filterMap.mpr ⟨task, there, holds⟩)
      · exact Or.inl (Prod.mk.inj (run _ holds))
  · exact settled
  · rcases tasks with erased | refilled
    · rw [erased]
      exact fun task member other named =>
        ⟨task, List.mem_of_mem_eraseIdx member, named⟩
    · rw [refilled]
      exact jobs_set found jobs

theorem remote_exclusive (exclusive : Exclusive state) {agentId : Nat}
    {effects : List Effect}
    (found : state.memory.tasks[index]? = some (.dispatch jobId rest))
    (initiated : state.initiateRemoteAttempt jobId agentId = some effects) :
    Exclusive
      (state.after
        { effects := effects, memory := state.memory.finish index rest }) := by
  unfold ControllerState.initiateRemoteAttempt at initiated
  split at initiated
  · cases initiated
  · cases initiated
    have finished :
        (state.memory.finish index rest).tasks =
            state.memory.tasks.eraseIdx index ∨
          (state.memory.finish index rest).tasks =
            state.memory.tasks.set index (.sweep rest) := by
      rw [Memory.finish_tasks]
      split
      · exact Or.inl rfl
      · exact Or.inr rfl
    apply creates_exclusive exclusive
    refine creates_of_insert (state.remoteAttempt jobId agentId)
      found rfl rfl rfl ?_ (.sweep rest) rfl ?_ ?_ finished
    · intro other known
      apply settled_update known
      intro _ waiting
      cases waiting
    · intro held runs
      cases runs
    · exact List.subset_cons_self _ _

theorem localRun_exclusive (exclusive : Exclusive state)
    (found : state.memory.tasks[index]? =
      some (.localAdmitted jobId rest)) :
    Exclusive
      (state.after
        { effects := [.write (.insertAttempt (state.localAttempt jobId))]
          memory :=
            state.memory.replace index
              (.localRun .preparing jobId state.db.attempts.length
                rest) }) := by
  apply creates_exclusive exclusive
  refine creates_of_insert (state.localAttempt jobId) found rfl rfl rfl
    (fun _ known => known)
    (.localRun .preparing jobId state.db.attempts.length rest) rfl ?_
    (List.Subset.refl _) (Or.inr rfl)
  intro held runs
  exact (Option.some.inj runs).symm

end Dispatches

/-! ## Runs -/

/-- The job with which a sweep of the queued jobs goes on in a step. -/
def ControllerState.sweeps (state : ControllerState) : Event → Option Nat
  | .sweepQueued => state.queuedJobs.head?
  | .resume index _ =>
    match state.memory.tasks[index]? with
    | some (.sweep jobs) => jobs.head?
    | _ => none
  | _ => none

/-- A sweep only dispatches a job that nothing else works on. -/
def SweepsUnclaimed (state : ControllerState) (event : Event) : Prop :=
  ∀ jobId ∈ state.sweeps event, state.Unclaimed jobId

theorem unclaimed_iff {jobId : Nat} :
    (jobId ∉ state.pending ∧
        ∀ pair ∈ state.db.attemptsOf jobId,
          pair.1.state = .completed ∧
            ∀ held ∈ state.running, held.2 ≠ pair.2) ↔
      state.Unclaimed jobId := by
  constructor
  · rintro ⟨noDispatch, noAttempt⟩
    refine ⟨noDispatch, ?_⟩
    intro attemptId row found same claimed
    have free :=
      noAttempt (row, attemptId) (Database.mem_attemptsOf.mpr ⟨found, same⟩)
    rcases claimed with ⟨other, there, live⟩ | ⟨other, runs⟩
    · rw [found, Option.some.injEq] at there
      rw [← there] at live
      exact live free.1
    · exact free.2 _ runs rfl
  · rintro ⟨noDispatch, noAttempt⟩
    refine ⟨noDispatch, ?_⟩
    rintro ⟨row, attemptId⟩ member
    rcases Database.mem_attemptsOf.mp member with ⟨found, same⟩
    have free := noAttempt attemptId row found same
    constructor
    · apply Decidable.byContradiction
      intro live
      exact free (Or.inl ⟨row, found, live⟩)
    · rintro ⟨other, held⟩ runs rfl
      exact free (Or.inr ⟨other, runs⟩)

instance (state : ControllerState) (jobId : Nat) :
    Decidable (state.Unclaimed jobId) :=
  decidable_of_iff _ unclaimed_iff

instance (state : ControllerState) (event : Event) :
    Decidable (SweepsUnclaimed state event) :=
  inferInstanceAs (Decidable (∀ jobId ∈ state.sweeps event, _))

/-- Every step keeps claims exclusive. -/
theorem step_exclusive {event : Event} (exclusive : Exclusive state)
    (allowed : SweepsUnclaimed state event)
    (step : controllerMachine.step state event = some next) :
    Exclusive next := by
  rcases Option.map_eq_some_iff.mp step with ⟨segment, does, rfl⟩
  cases shape_segment does with
  | calm effects tidy =>
    exact calm_exclusive exclusive (calm_of_caused effects tidy)
  | submitted => exact submitted_exclusive exclusive _
  | confirmed found waiting =>
    exact confirmed_exclusive exclusive found waiting
  | swept queued =>
    apply swept_exclusive exclusive queued
    apply allowed
    simp [ControllerState.sweeps, queued]
  | sweeps found =>
    apply sweeps_exclusive exclusive found
    apply allowed
    simp [ControllerState.sweeps, found]
  | remote found initiated =>
    exact remote_exclusive exclusive found initiated
  | localRun found => exact localRun_exclusive exclusive found

theorem initial_exclusive (initial : controllerMachine.initial state) :
    Exclusive state := by
  rcases initial with ⟨maxConcurrentJobs, rfl⟩
  constructor <;>
    simp [ControllerState.pending, ControllerState.running,
      Database.getAttempt, Database.empty]

theorem reachable_exclusive
    (reachable : controllerMachine.Reachable SweepsUnclaimed state) :
    Exclusive state :=
  reachable.invariant (fun _ => initial_exclusive)
    (fun _ _ _ exclusive allowed step =>
      step_exclusive exclusive allowed step)

/-- A job has at most one attempt that is not completed. -/
def OneLiveAttempt (db : Database) : Prop :=
  ∀ first second firstRow secondRow,
    db.getAttempt first = some firstRow →
      db.getAttempt second = some secondRow →
      firstRow.jobId = secondRow.jobId → firstRow.live → secondRow.live →
      first = second

/-- A job's attempts have increasing lease epochs in their order. -/
def LeaseEpochsIncrease (db : Database) : Prop :=
  ∀ earlier later earlierRow laterRow, earlier < later →
    db.getAttempt earlier = some earlierRow →
      db.getAttempt later = some laterRow →
      earlierRow.jobId = laterRow.jobId →
      earlierRow.leaseEpoch < laterRow.leaseEpoch

/--
In every run whose sweeps only dispatch unclaimed jobs, a job has at most one
live attempt and its lease epochs increase.
-/
theorem one_live_attempt_per_job {state : ControllerState}
    (reachable : controllerMachine.Reachable SweepsUnclaimed state) :
    OneLiveAttempt state.db ∧ LeaseEpochsIncrease state.db := by
  have exclusive := reachable_exclusive reachable
  constructor
  · intro first second firstRow secondRow firstFound secondFound sameJob
      firstLive secondLive
    apply Nat.le_antisymm
    · exact exclusive.claimLast second secondRow first firstRow secondFound
        (Or.inl ⟨secondRow, secondFound, secondLive⟩) firstFound sameJob
    · exact exclusive.claimLast first firstRow second secondRow firstFound
        (Or.inl ⟨firstRow, firstFound, firstLive⟩) secondFound sameJob.symm
  · exact exclusive.epochsIncrease

/-- A Controller without jobs. -/
def freshController : ControllerState where
  db := Database.empty
  memory :=
    { tasks := []
      connectedAgents := []
      pendingCancels := []
      activeCancels := []
      cancelledRuns := []
      admissionActive := 0
      maxConcurrentJobs := 1
      timers := []
      clock := 0 }

theorem freshController_initial :
    controllerMachine.initial freshController :=
  ⟨1, rfl⟩

/-- What a reader of the tables sees of the attempts. -/
def attemptColumns (state : ControllerState) :
    List (Nat × Nat × AttemptState) :=
  state.db.attempts.map fun row => (row.jobId, row.leaseEpoch, row.state)

/-- A job is dispatched, its lease is rejected, and a sweep dispatches it. -/
def rejectedRun : List Event :=
  [.connect 1, .submit .wait false, .resume 0 (.remote 1),
    .frame 1 { attemptId := 0, leaseId := 0, leaseEpoch := 1 }
      (.leaseReject "busy"),
    .sweepQueued, .resume 0 (.remote 1)]

/-- Two dispatches of a job overlap: that of its submission and a sweep's. -/
def overlappingRun : List Event :=
  [.connect 1, .submit .wait false, .sweepQueued, .resume 0 (.remote 1),
    .resume 0 (.remote 1)]

theorem one_live_attempt_per_job_rejectedRun :
    ∃ state,
      controllerMachine.Reachable SweepsUnclaimed state ∧
        attemptColumns state = [(0, 2, .completed), (0, 3, .leasing)] ∧
        OneLiveAttempt state.db ∧ LeaseEpochsIncrease state.db := by
  have run :
      (controllerMachine.run freshController rejectedRun).map
          attemptColumns =
        some [(0, 2, .completed), (0, 3, .leasing)] := by
    decide +kernel
  rcases Option.map_eq_some_iff.mp run with ⟨state, ran, columns⟩
  have steps :
      controllerMachine.Steps SweepsUnclaimed freshController state :=
    Machine.steps_of_run
      (fun state event => decide (SweepsUnclaimed state event))
      (fun _ _ met => of_decide_eq_true met) (by decide +kernel) ran
  have reachable : controllerMachine.Reachable SweepsUnclaimed state :=
    ⟨freshController, freshController_initial, steps⟩
  exact ⟨state, reachable, columns, one_live_attempt_per_job reachable⟩

theorem overlapping_dispatches_two_live_attempts :
    ∃ state,
      controllerMachine.Reachable (fun _ _ => True) state ∧
        ¬ OneLiveAttempt state.db := by
  have run :
      (controllerMachine.run freshController overlappingRun).map
          (fun state => state.db.attempts) =
        some
          [{ jobId := 0, ordinal := 1, agentId := some 1, leaseId := 0
             leaseEpoch := 1, leaseDeadline := some 300, state := .leasing
             outcome := none, logAckedSequence := 0
             processIdentity := none },
            { jobId := 0, ordinal := 2, agentId := some 1, leaseId := 1
              leaseEpoch := 2, leaseDeadline := some 300, state := .leasing
              outcome := none, logAckedSequence := 0
              processIdentity := none }] := by
    decide +kernel
  rcases Option.map_eq_some_iff.mp run with ⟨state, ran, attempts⟩
  refine ⟨state, Machine.reachable_of_run freshController_initial ran, ?_⟩
  intro unique
  have same : (0 : Nat) = 1 := by
    apply unique 0 1
    · unfold Database.getAttempt
      rw [attempts]
      rfl
    · unfold Database.getAttempt
      rw [attempts]
      rfl
    · rfl
    · decide
    · decide
  cases same

end Rbo.Controller.Execution
