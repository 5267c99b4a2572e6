import Rbo.Snapshot.CaptureGuard

/-!
# An overlay of a working tree that changes

`captureGitOverlaySnapshot` asks Git for the status once, and plans from it
which paths are shipped and which are removed.  The guard takes the identities
of the shipped paths later, and compares only these, and those of the paths
that it has found in the additional roots.

The overlay is that of one moment when there is a moment up to which only
shipped paths have changed since Git looked, and from which none of them
changes before the guard takes its identity.
-/

namespace Rbo.Snapshot.OverlayCapture

open Rbo.Foundation
open Rbo.Snapshot.GitStatus (Change GitStatusEntry)
open Rbo.Snapshot.Capture
open Rbo.Snapshot.OverlayPlan
open Rbo.Snapshot.CaptureGuard

/-! ## The readings of a call -/

/-- `HEAD` and the index with those of the submodules, and the ignore rules,
which stand in files. -/
structure Repository where
  head : Tree
  index : Tree
  ignored : Nat → Path → Bool

/-- The working copy whose paths are looked at in their moments. -/
def Repository.copyOf (repository : Repository) (history : History)
    (moment : Path → Nat) (rules : Nat) : WorkingCopy where
  head := repository.head
  index := repository.index
  work := fun path => (history.world (moment path) ⟨none, path⟩).bind blobOf
  ignored := repository.ignored rules

/-- The working copy at a time. -/
def Repository.copyAt (repository : Repository) (history : History)
    (time : Nat) : WorkingCopy :=
  repository.copyOf history (fun _ => time) time

/-- The entries that are not about submodules. -/
def ordinary (options : PlanOptions) (entries : List GitStatusEntry) :
    List GitStatusEntry :=
  entries.filter fun entry => !isGitlinkMode options entry

/-- The listed modes without those of submodules. -/
def withoutPins (options : PlanOptions) : PlanOptions :=
  { options with
    stageModes := options.stageModes.filter fun stage =>
      stage.2 ≠ gitlinkMode }

/-- What a call reads, and when. -/
structure Readings (history : History) (repository : Repository) where
  start : Nat
  finish : Nat
  /-- The status, those of the submodules with it. -/
  entries : List GitStatusEntry
  options : PlanOptions
  /-- When the status looks at a path, and at the ignore rules. -/
  seen : Path → Nat
  rules : Nat
  /-- What Git would report of ignored paths; it is not asked for them. -/
  unasked : List GitStatusEntry
  ignored : ∀ entry ∈ unasked, entry.kind = .ignored
  status : StatusOf (repository.copyOf history seen rules)
    (ordinary options entries ++ unasked)
  pins : ∀ entry ∈ entries, isGitlinkMode options entry = true →
    isDeletionXy entry.xy = false
  stages : StagesOf (repository.copyOf history seen rules)
    (withoutPins options)
  visit : Path → Visit
  /-- The untracked paths of the status that `findEmptyUntrackedDirectories`
  asks for, and those that lead to an empty directory when it looks. -/
  untracked : List Path
  leadsToEmpty : Path → Bool
  roots : List (RootReadings history)
  inOrder : ∀ path, start ≤ seen path ∧ seen path ≤ (visit path).identified ∧
    rules ≤ (visit path).identified ∧ (visit path).validatedAgain ≤ finish
  rootsInOrder : ∀ root ∈ roots, ∀ path other,
    seen path ≤ root.guarded.moment other ∧
      (root.visit other).validatedAgain ≤ finish

/-- What a call returns: the plan, the archived files and directories, and the
files of the additional roots. -/
structure Overlay where
  plan : Plan
  files : List (Path × Blob)
  directories : List Path
  roots : List (List (Path × Blob))

section Call

variable {history : History} {repository : Repository}
  (localeCompare : Path → Path → Ordering) (policy : OverlaySourcePolicy)
  (readings : Readings history repository)

def Readings.plan : Plan :=
  computeOverlayPlan localeCompare readings.entries policy readings.options

/-- The index lists a path as executable. -/
def stagedExecutable (options : PlanOptions) (path : Path) : Bool :=
  options.stageModes.lookup path = some Mode.executable.text

/-- A directory is shipped if it or a path in it is. -/
def holdsShipped (plan : Plan) (directory : Path) : Bool :=
  plan.files.any fun path =>
    path = directory || (directory ++ ['/']).isPrefixOf path

/-- `captureGitOverlaySnapshot`, when no other check refuses the capture. -/
def captureGitOverlaySnapshot : Option Overlay := do
  let plan := readings.plan localeCompare policy
  if plan.files.all fun path =>
      keepsIdentity history ⟨none, path⟩ (readings.visit path) then
    let files ← captureAll plan.files fun path =>
      archivedBlob history ⟨none, path⟩ (readings.visit path)
        (stagedExecutable readings.options path)
    let roots ← readings.roots.mapM captureRoot
    some
      { plan := plan
        files := files
        directories :=
          (findEmptyUntrackedDirectories readings.untracked
            readings.leadsToEmpty).filter (holdsShipped plan)
        roots := roots }
  else none

/-- A checkout of `HEAD` to which the deletions and the archive are applied. -/
def restored (repository : Repository) (overlay : Overlay) : Tree :=
  fun path =>
    if path ∈ overlay.directories then none
    else
      (overlay.files.lookup path).or
        (if path ∈ overlay.plan.deletions then none
          else repository.head path)

/-- The overlay is that of one moment of the call. -/
def Consistent (overlay : Overlay) : Prop :=
  ∃ moment, readings.start ≤ moment ∧ moment ≤ readings.finish ∧
    restored repository overlay =
      wanted policy (repository.copyAt history moment) ∧
    List.Forall₂ (fun root files => ∀ path : Path,
        files.lookup path = rootTree root moment path)
      readings.roots overlay.roots

/-! ## When it is consistent -/

/-- From the status up to a moment only shipped paths change, and from the
moment until the guard takes its identity none of them does.  The rest is about
the files at that moment: their names and links are written as they are, none
has lost the executable bit that the index has, the policy names no ignored
path, and no shipped untracked path leads to an empty directory. -/
structure Settled (moment : Nat) : Prop where
  during : readings.start ≤ moment ∧ moment ≤ readings.finish
  rules : repository.ignored moment = repository.ignored readings.rules
  others : ∀ path ∉ (readings.plan localeCompare policy).files,
    Unmodified history ⟨none, path⟩ moment (readings.seen path)
  shipped : ∀ path ∈ (readings.plan localeCompare policy).files,
    Unmodified history ⟨none, path⟩ moment (readings.visit path).identified
  there : ∀ path ∈ (readings.plan localeCompare policy).files,
    history.world moment ⟨none, path⟩ ≠ none
  plain : PlainPaths
    (ordinary readings.options readings.entries ++ readings.unasked)
  unnamed : ∀ entry ∈ readings.unasked,
    policy.includeIgnored.any (matchInclude entry.path) = false
  executable : ∀ path ∈ (readings.plan localeCompare policy).files,
    ∀ entry content, history.world moment ⟨none, path⟩ = some entry →
      entry.node = .file false content →
        stagedExecutable readings.options path = false
  links : ∀ path ∈ (readings.plan localeCompare policy).files,
    ∀ entry target, history.world moment ⟨none, path⟩ = some entry →
      entry.node = .symlink target → normalizeWirePath target = target
  filled : ∀ path ∈ readings.untracked, readings.leadsToEmpty path = true →
    holdsShipped (readings.plan localeCompare policy)
      (normalizeWirePath path) = false
  roots : ∀ root ∈ readings.roots, RootSettled root moment

end Call

/-! ## The plan -/

section Plan

variable {options : PlanOptions} {entries : List GitStatusEntry}
  {policy : OverlaySourcePolicy} {path : Path}

variable {entry : GitStatusEntry}

theorem isGitlinkMode_withoutPins
    (other : isGitlinkMode options entry = false) :
    isGitlinkMode (withoutPins options) entry = false := by
  unfold isGitlinkMode at other ⊢
  rw [Bool.or_eq_false_iff] at other ⊢
  refine ⟨decide_eq_false fun staged => ?_, other.2⟩
  obtain ⟨before, after, shape, -⟩ := List.lookup_eq_some_iff.mp staged
  have member : (normalizeWirePath entry.path, gitlinkMode) ∈
      (withoutPins options).stageModes := by
    rw [shape]
    exact List.mem_append_right _ List.mem_cons_self
  exact of_decide_eq_true (List.mem_filter.mp member).2 rfl

theorem shipped_withoutPins (other : isGitlinkMode options entry = false) :
    shipped policy (withoutPins options) entry =
      shipped policy options entry := by
  unfold shipped
  rw [other, isGitlinkMode_withoutPins other]

theorem removed_withoutPins (other : isGitlinkMode options entry = false) :
    removed (withoutPins options) entry = removed options entry := by
  unfold removed
  rw [other, isGitlinkMode_withoutPins other]

/-- Entries about submodules ship nothing, and they remove nothing unless the
submodule is deleted. -/
theorem exists_ordinary_iff {Answer : Type}
    {answer : PlanOptions → GitStatusEntry → Option Answer} {found : Answer}
    (same : ∀ entry, isGitlinkMode options entry = false →
      answer (withoutPins options) entry = answer options entry)
    (silent : ∀ entry ∈ entries, isGitlinkMode options entry = true →
      answer options entry = none) :
    (∃ entry ∈ entries, answer options entry = some found) ↔
      ∃ entry ∈ ordinary options entries,
        answer (withoutPins options) entry = some found := by
  constructor
  · rintro ⟨entry, member, answers⟩
    have other : isGitlinkMode options entry = false := by
      by_contra pins
      rw [silent entry member (Bool.eq_true_of_not_eq_false pins)] at answers
      cases answers
    refine ⟨entry, List.mem_filter.mpr ⟨member, ?_⟩,
      (same entry other).trans answers⟩
    rw [other]
    rfl
  · rintro ⟨entry, member, answers⟩
    obtain ⟨inside, other⟩ := List.mem_filter.mp member
    rw [Bool.not_eq_true'] at other
    exact ⟨entry, inside, (same entry other).symm.trans answers⟩

theorem shipped_of_gitlink (pins : isGitlinkMode options entry = true) :
    shipped policy options entry = none :=
  if_pos pins

theorem removed_of_gitlink (pins : isGitlinkMode options entry = true)
    (kept : isDeletionXy entry.xy = false) :
    removed options entry = none := by
  unfold removed
  dsimp only
  rw [if_pos pins, kept]
  rfl

end Plan

/-! ## The trees of a settled call -/

section Settled

variable {history : History} {repository : Repository}
  {localeCompare : Path → Path → Ordering} {policy : OverlaySourcePolicy}
  {readings : Readings history repository} {moment : Nat} {path : Path}

/-- An ignored path that the policy does not name is not shipped. -/
theorem shipped_unasked (settled : Settled localeCompare policy readings moment)
    {entry : GitStatusEntry} (member : entry ∈ readings.unasked) :
    shipped policy (withoutPins readings.options) entry = none := by
  have plain := (settled.plain entry (List.mem_append_right _ member)).1
  unfold shipped
  dsimp only
  rw [readings.ignored entry member, plain, settled.unnamed entry member]
  simp

theorem removed_unasked {entry : GitStatusEntry}
    (reports : Reports (repository.copyOf history readings.seen readings.rules)
      entry) (member : entry ∈ readings.unasked) :
    removed (withoutPins readings.options) entry = none := by
  have kind := readings.ignored entry member
  cases reports with
  | ignored path unknown there passed =>
    unfold removed
    dsimp only
    rw [isGitlinkMode_eq_false readings.stages (.inl rfl)]
    rfl
  | _ => cases kind

theorem mem_files (settled : Settled localeCompare policy readings moment) :
    path ∈ (readings.plan localeCompare policy).files ↔
      ∃ entry ∈ ordinary readings.options readings.entries ++
          readings.unasked,
        shipped policy (withoutPins readings.options) entry = some path := by
  unfold Readings.plan
  rw [mem_files_iff, @exists_ordinary_iff _ _ _ (shipped policy) path
    (fun _ => shipped_withoutPins) (fun _ _ => shipped_of_gitlink)]
  constructor
  · rintro ⟨entry, member, ships⟩
    exact ⟨entry, List.mem_append_left _ member, ships⟩
  · rintro ⟨entry, member, ships⟩
    rcases List.mem_append.mp member with inside | unasked
    · exact ⟨entry, inside, ships⟩
    · rw [shipped_unasked settled unasked] at ships
      cases ships

theorem mem_removed :
    (∃ entry ∈ readings.entries,
        removed readings.options entry = some path) ↔
      ∃ entry ∈ ordinary readings.options readings.entries ++
          readings.unasked,
        removed (withoutPins readings.options) entry = some path := by
  rw [@exists_ordinary_iff _ _ _ removed path
    (fun _ => removed_withoutPins)
    (fun entry member pins =>
      removed_of_gitlink pins (readings.pins entry member pins))]
  constructor
  · rintro ⟨entry, member, removes⟩
    exact ⟨entry, List.mem_append_left _ member, removes⟩
  · rintro ⟨entry, member, removes⟩
    rcases List.mem_append.mp member with inside | unasked
    · exact ⟨entry, inside, removes⟩
    · rw [removed_unasked (readings.status.reports entry member) unasked]
        at removes
      cases removes

/-- What is wanted of a path depends on what the copy has of it. -/
theorem wanted_congr {first second : WorkingCopy}
    (index : first.index path = second.index path)
    (ignored : first.ignored path = second.ignored path)
    (work : first.work path = second.work path) :
    wanted policy first path = wanted policy second path := by
  unfold wanted includes
  rw [index, ignored, work]

/-- A shipped path is wanted as it is at the moment, and so it is archived. -/
theorem archived_of_settled
    (settled : Settled localeCompare policy readings moment)
    (inside : path ∈ (readings.plan localeCompare policy).files)
    (keeps : keepsIdentity history ⟨none, path⟩ (readings.visit path) = true)
    {blob : Blob}
    (archived : archivedBlob history ⟨none, path⟩ (readings.visit path)
      (stagedExecutable readings.options path) = some blob) :
    wanted policy (repository.copyAt history moment) path = some blob := by
  obtain ⟨entry, now⟩ := Option.ne_none_iff_exists'.mp
    (settled.there path inside)
  have there : history.world (readings.visit path).identified ⟨none, path⟩ =
      some entry :=
    (settled.shipped path inside).world_eq.trans now
  have same : blobOf entry = some blob :=
    archivedBlob_eq (fun _ => world_of_keepsIdentity keeps there) archived
      (fun content => settled.executable path inside entry content now)
      (fun target => settled.links path inside entry target now)
  have work : (repository.copyAt history moment).work path = some blob := by
    change (history.world moment ⟨none, path⟩).bind blobOf = _
    rw [now, Option.bind_some, same]
  rw [← work]
  obtain ⟨status, member, ships⟩ := (mem_files settled).mp inside
  rcases shipped_cases readings.stages (readings.status.reports status member)
    (settled.plain status member).1 ships with
    ⟨staged, -⟩ | ⟨-, -, included⟩
  · exact wanted_of_staged staged
  · refine if_neg fun isNot => ?_
    have still : includes policy (repository.copyAt history moment) path =
        true := by
      rw [← included]
      unfold includes
      change (if repository.ignored moment path then _ else _) = _
      rw [settled.rules]
      rfl
    rw [still] at isNot
    exact Bool.false_ne_true isNot.2.symm

/-- A path that is not shipped is wanted as the plan leaves it. -/
theorem wanted_of_settled
    (settled : Settled localeCompare policy readings moment)
    (outside : path ∉ (readings.plan localeCompare policy).files) :
    wanted policy (repository.copyAt history moment) path =
      if path ∈ (readings.plan localeCompare policy).deletions then none
      else repository.head path := by
  have unshipped : Unshipped policy (withoutPins readings.options)
      (ordinary readings.options readings.entries ++ readings.unasked)
      path :=
    fun entry member ships =>
      outside ((mem_files settled).mpr ⟨entry, member, ships⟩)
  have seen : wanted policy (repository.copyAt history moment) path =
      wanted policy
        (repository.copyOf history readings.seen readings.rules) path := by
    refine wanted_congr rfl (congrFun settled.rules path) ?_
    change (history.world moment ⟨none, path⟩).bind blobOf =
      (history.world (readings.seen path) ⟨none, path⟩).bind blobOf
    rw [(settled.others path outside).world_eq]
  rw [seen]
  split
  · rename_i inside
    obtain ⟨entry, member, removes⟩ :=
      mem_removed.mp (mem_deletions_iff.mp inside).1
    exact wanted_of_removed readings.status readings.stages settled.plain
      unshipped member removes
  · rename_i kept
    refine wanted_of_untouched readings.status readings.stages settled.plain
      unshipped fun entry member removes => kept ?_
    refine mem_deletions_iff.mpr
      ⟨mem_removed.mpr ⟨entry, member, removes⟩, ?_⟩
    exact fun entry member ships =>
      outside (mem_files_iff.mpr ⟨entry, member, ships⟩)

theorem directories_of_settled
    (settled : Settled localeCompare policy readings moment) :
    (findEmptyUntrackedDirectories readings.untracked
      readings.leadsToEmpty).filter
        (holdsShipped (readings.plan localeCompare policy)) = [] := by
  refine List.filter_eq_nil_iff.mpr fun directory member holds => ?_
  obtain ⟨path, untracked, leads, rfl⟩ :=
    mem_findEmptyUntrackedDirectories.mp member
  rw [settled.filled path untracked leads] at holds
  cases holds

/-- The roots are captured one after another. -/
theorem roots_of_settled {all : List (RootReadings history)}
    {files : List (List (Path × Blob))}
    (captured : all.mapM captureRoot = some files)
    (settled : ∀ root ∈ all, RootSettled root moment) :
    List.Forall₂ (fun root files => ∀ path : Path,
      files.lookup path = rootTree root moment path) all files := by
  induction all generalizing files with
  | nil =>
    obtain rfl := Option.some.inj captured
    exact .nil
  | cons root all inductionHypothesis =>
    rw [List.forall_mem_cons] at settled
    rw [List.mapM_cons] at captured
    obtain ⟨first, ofRoot, captured⟩ := Option.bind_eq_some_iff.mp captured
    obtain ⟨rest, ofAll, captured⟩ := Option.bind_eq_some_iff.mp captured
    obtain rfl := Option.some.inj captured
    exact .cons (fun path => lookup_captureRoot ofRoot settled.1 path)
      (inductionHypothesis ofAll settled.2)

end Settled

/-- A call that has a settled moment returns the trees of that moment. -/
theorem captureGitOverlaySnapshot_consistent {history : History}
    {repository : Repository} (localeCompare : Path → Path → Ordering)
    (policy : OverlaySourcePolicy) (readings : Readings history repository)
    {overlay : Overlay} {moment : Nat}
    (captured : captureGitOverlaySnapshot localeCompare policy readings =
      some overlay)
    (settled : Settled localeCompare policy readings moment) :
    Consistent policy readings overlay := by
  unfold captureGitOverlaySnapshot at captured
  dsimp only at captured
  obtain ⟨keeps, captured⟩ := Option.ite_none_right_eq_some.mp captured
  rw [List.all_eq_true] at keeps
  obtain ⟨files, ofFiles, captured⟩ := Option.bind_eq_some_iff.mp captured
  obtain ⟨roots, ofRoots, captured⟩ := Option.bind_eq_some_iff.mp captured
  obtain rfl := Option.some.inj captured
  refine ⟨moment, settled.during.1, settled.during.2, ?_,
    roots_of_settled ofRoots settled.roots⟩
  funext path
  unfold restored
  dsimp only
  rw [directories_of_settled settled, if_neg List.not_mem_nil,
    lookup_captureAll ofFiles]
  by_cases inside : path ∈ (readings.plan localeCompare policy).files
  · obtain ⟨blob, archived⟩ := isSome_of_captureAll ofFiles inside
    rw [if_pos inside, archived, Option.some_or]
    exact (archived_of_settled settled inside (keeps path inside)
      archived).symm
  · rw [if_neg inside, Option.none_or]
    exact (wanted_of_settled settled inside).symm

/-! ## Two files that are edited -/

def saved (content : List UInt8) (time : Nat) : Entry where
  node := .file false content
  size := content.length
  mtime := time
  ctime := time
  dev := 1
  ino := 1
  sized := by
    rintro executable other same
    cases same
    rfl

/-- A file that is edited once, after a time. -/
def edited (old new : List UInt8) (change time : Nat) : Entry :=
  if time ≤ change then saved old 0 else saved new (change + 1)

theorem edited_fresh {old new : List UInt8} {change first time last : Nat}
    (from_ : first ≤ time) (until_ : time ≤ last)
    (same : statFileIdentity (some (edited old new change first)) =
      statFileIdentity (some (edited old new change last))) :
    edited old new change time = edited old new change first := by
  unfold edited at same ⊢
  by_cases before : first ≤ change
  · by_cases still : last ≤ change
    · rw [if_pos before, if_pos (until_.trans still)]
    · rw [if_pos before, if_neg still] at same
      cases congrArg FileIdentity.mtime same
  · rw [if_neg before, if_neg fun early => before (from_.trans early)]

/-- The file `a` is edited after one time, and `b` after another. -/
def twoFiles (first second time : Nat) (place : Place) : Option Entry :=
  if place = ⟨none, ['a']⟩ then some (edited [1] [9] first time)
  else if place = ⟨none, ['b']⟩ then some (edited [2] [3] second time)
  else none

/-- An edit replaces the file, so that a handle keeps what it has. -/
def twoEdits (first second : Nat) : History where
  world := twoFiles first second
  held := fun place opened _ => twoFiles first second opened place
  fresh := by
    intro place from_ time until_ early late there same
    unfold twoFiles at same ⊢
    split
    · rename_i isFirst
      rw [if_pos isFirst, if_pos isFirst] at same
      rw [edited_fresh early late same]
    · rename_i other
      rw [if_neg other, if_neg other] at same
      split
      · rename_i isSecond
        rw [if_pos isSecond, if_pos isSecond] at same
        rw [edited_fresh early late same]
      · rfl
  holds := fun _ _ _ _ _ => rfl

/-- `HEAD` and the index have both files. -/
def bothFiles : Tree := fun path =>
  if path = ['a'] ∨ path = ['b'] then some (fileOf [1]) else none

def bothCommitted : Repository where
  head := bothFiles
  index := bothFiles
  ignored := fun _ _ => false

/-- Git reports `b`, and its status is that of time 0. -/
theorem statusOf_twoEdits (first second : Nat) :
    StatusOf (bothCommitted.copyOf (twoEdits first second) (fun _ => 0) 0)
      [changedEntry .unmodified .modified ['b'] none] where
  reports := by
    intro entry member
    rw [List.mem_singleton.mp member]
    refine .ordinary ['b'] (Or.inr ?_)
    change Change.modified ≠ Change.unmodified
    decide
  changed := by
    intro path differs
    by_cases second : path = ['b']
    · subst second
      exact Or.inl ⟨_, List.mem_cons_self, rfl, rfl⟩
    exfalso
    by_cases first : path = ['a']
    · subst first
      exact differs.elim (fun is => is rfl) (fun is => is rfl)
    · have nothing : bothFiles path = none :=
        if_neg (not_or.mpr ⟨first, second⟩)
      rcases differs with differs | differs
      · exact differs (changeOf_eq_unmodified.mpr rfl)
      · exact differs (if_pos nothing)
  outside := by
    intro path unknown there
    exfalso
    by_cases known : path = ['a'] ∨ path = ['b']
    · change bothFiles path = none at unknown
      rw [bothFiles, if_pos known] at unknown
      cases unknown
    · rw [not_or] at known
      apply there
      change (twoFiles first second 0 ⟨none, path⟩).bind blobOf = none
      rw [twoFiles, if_neg, if_neg]
      · rfl
      · exact fun same => known.2 (congrArg Place.path same)
      · exact fun same => known.1 (congrArg Place.path same)

/-- Every path is visited between the times 3 and 9. -/
def laterVisit : Visit where
  identified := 3
  examined := 4
  linkRead := 4
  validated := 5
  listed := 6
  opened := 6
  before := 6
  reads := [(7, 1)]
  after := 8
  validatedAgain := 9
  ordered := by decide
  reading := by decide

/-- Git looks at time 0. -/
def twoEditsReadings (first second : Nat) :
    Readings (twoEdits first second) bothCommitted where
  start := 0
  finish := 9
  entries := [changedEntry .unmodified .modified ['b'] none]
  options := noOptions
  seen := fun _ => 0
  rules := 0
  unasked := []
  ignored := by
    intro entry member
    cases member
  status := statusOf_twoEdits first second
  pins := by decide
  stages := stagesOf_noOptions _
  visit := fun _ => laterVisit
  untracked := []
  leadsToEmpty := fun _ => false
  roots := []
  inOrder := fun _ => by decide
  rootsInOrder := by
    intro root member
    cases member

/-- The overlay has `b` alone. -/
def secondOnly (content : List UInt8) : Overlay where
  plan := ⟨[['b']], [], []⟩
  files := [(['b'], fileOf content)]
  directories := []
  roots := []

theorem captureGitOverlaySnapshot_twoEdits (first : Nat) :
    captureGitOverlaySnapshot (fun _ _ => .eq) plainPolicy
      (twoEditsReadings first 1) = some (secondOnly [3]) :=
  rfl

/-- The first file is edited after the call, the second one between the status
and the guard. -/
theorem settled_of_later :
    Settled (fun _ _ => .eq) plainPolicy (twoEditsReadings 9 1) 2 where
  during := by decide
  rules := rfl
  others := by
    intro path outside time early late
    have other : path ≠ ['b'] := by
      rintro rfl
      exact outside List.mem_cons_self
    have notSecond : (⟨none, path⟩ : Place) ≠ ⟨none, ['b']⟩ :=
      fun same => other (congrArg Place.path same)
    change twoFiles 9 1 time _ = twoFiles 9 1 2 _
    have before : time ≤ 9 :=
      late.trans (show max 2 0 ≤ 9 by decide)
    unfold twoFiles edited
    rw [if_neg notSecond, if_pos before, if_neg notSecond]
    rfl
  shipped := by
    intro path inside time early late
    obtain rfl := List.mem_singleton.mp inside
    have after : ¬ time ≤ 1 := fun before =>
      absurd (early.trans before) (by decide)
    change some (edited [2] [3] 1 time) = some (edited [2] [3] 1 2)
    unfold edited
    rw [if_neg after]
    rfl
  there := by
    intro path inside
    obtain rfl := List.mem_singleton.mp inside
    exact Option.some_ne_none _
  plain := by
    intro entry member
    obtain rfl := List.mem_singleton.mp member
    exact ⟨rfl, nofun⟩
  unnamed := by
    intro entry member
    cases member
  executable := fun _ _ _ _ _ _ => rfl
  links := by
    intro path inside entry target found link
    obtain rfl := List.mem_singleton.mp inside
    obtain rfl := Option.some.inj found
    cases link
  filled := by
    intro path member
    cases member
  roots := by
    intro root member
    cases member

theorem captureGitOverlaySnapshot_consistent_later :
    Consistent plainPolicy (twoEditsReadings 9 1) (secondOnly [3]) :=
  captureGitOverlaySnapshot_consistent (fun _ _ => .eq) plainPolicy
    (twoEditsReadings 9 1) (captureGitOverlaySnapshot_twoEdits 9)
    settled_of_later

/-- Git finds `b` edited, `a` is edited, `b` is edited again, and the guard
takes the identity of `b`: the overlay has the last `b` with the first `a`. -/
theorem edits_before_the_guard_mix :
    captureGitOverlaySnapshot (fun _ _ => .eq) plainPolicy
        (twoEditsReadings 0 1) = some (secondOnly [3]) ∧
      ¬ Consistent plainPolicy (twoEditsReadings 0 1) (secondOnly [3]) := by
  refine ⟨captureGitOverlaySnapshot_twoEdits 0, ?_⟩
  rintro ⟨moment, -, -, same, -⟩
  have first : some (fileOf [1]) = blobOf (edited [1] [9] 0 moment) :=
    congrFun same ['a']
  have second : some (fileOf [3]) = blobOf (edited [2] [3] 1 moment) :=
    congrFun same ['b']
  unfold edited at first second
  by_cases early : moment ≤ 0
  · rw [if_pos (early.trans (by decide))] at second
    revert second
    decide
  · rw [if_neg early] at first
    revert first
    decide

end Rbo.Snapshot.OverlayCapture
