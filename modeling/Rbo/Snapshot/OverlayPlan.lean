import Rbo.Foundation.Texts
import Rbo.Snapshot.Capture
import Rbo.Snapshot.GitStatus

/-!
# The plan of an overlay

`computeOverlayPlan` decides from the status codes of Git which paths of the
working tree an overlay ships and which paths of `HEAD` it removes.  Trees are
functions from paths to files and links here, and Git's report on three trees
is a relation.

A path that is changed in the index and missing from the working tree is
shipped all the same.  Without such a path, the plan rebuilds the working tree.
-/

namespace Rbo.Snapshot.OverlayPlan

open Rbo.Foundation
open Rbo.Snapshot.Capture (normalizeWirePath)
open Rbo.Snapshot.GitStatus

/-! ## The plan -/

structure OverlaySourcePolicy where
  includeUntracked : Bool
  includeIgnored : List (List Char)
  deriving DecidableEq

structure OverlayGitlinkPin where
  path : List Char
  commit : List Char
  deriving DecidableEq

structure Plan where
  files : List (List Char)
  deletions : List (List Char)
  gitlinks : List OverlayGitlinkPin
  deriving DecidableEq

/-- `ComputeOverlayPlanOptions`; without an option its map is empty. -/
structure PlanOptions where
  stageModes : List (List Char × List Char)
  gitlinkCommits : List (List Char × List Char)
  deriving DecidableEq

/-- A letter of a status code, a space when there is none. -/
def side (xy : List Char) (place : Nat) : Char :=
  xy[place]?.getD ' '

def isDeletionXy (xy : List Char) : Bool :=
  side xy 0 = 'D' || side xy 1 = 'D'

def meaningful (letter : Char) : Bool :=
  letter ≠ ' ' && letter ≠ '.'

/-- True when either side has a real change. -/
def isInterestingTrackedChange (xy : List Char) : Bool :=
  meaningful (side xy 0) || meaningful (side xy 1)

/-- The letter on the other side of a deletion. -/
def otherSide (xy : List Char) : Char :=
  if side xy 0 = 'D' then side xy 1 else side xy 0

/-- A deletion with a change on its other side. -/
def shipsDeleted (xy : List Char) : Bool :=
  meaningful (otherSide xy) && otherSide xy ≠ 'D'

def matchInclude (path pattern : List Char) : Bool :=
  if pattern = path then true
  else if ['/'].isSuffixOf pattern && pattern.isPrefixOf path then true
  else if ['/', '*', '*'].isSuffixOf pattern then
    let front := pattern.take (pattern.length - 3)
    path = front || (front ++ ['/']).isPrefixOf path
  else
    path = pattern

/-- `Set.add`. -/
def insertPath (path : List Char) (paths : List (List Char)) :
    List (List Char) :=
  if path ∈ paths then paths else paths ++ [path]

/-- `Set.delete`. -/
def removePath (path : List Char) (paths : List (List Char)) :
    List (List Char) :=
  paths.filter fun other => other ≠ path

/-- `Map.set`, which keeps the place of a key. -/
def setPin (path commit : List Char) :
    List (List Char × List Char) → List (List Char × List Char)
  | [] => [(path, commit)]
  | pin :: pins =>
    if pin.1 = path then (path, commit) :: pins
    else pin :: setPin path commit pins

/-- `Map.delete`. -/
def deletePin (path : List Char) (pins : List (List Char × List Char)) :
    List (List Char × List Char) :=
  pins.filter fun pin => pin.1 ≠ path

/-- The sets of the loop over the entries. -/
structure PlanState where
  files : List (List Char)
  deletions : List (List Char)
  gitlinksMap : List (List Char × List Char)
  deriving DecidableEq

/-- The mode of a submodule. -/
def gitlinkMode : List Char := ['1', '6', '0', '0', '0', '0']

/-- An entry of a submodule. -/
def isGitlinkMode (options : PlanOptions) (entry : GitStatusEntry) : Bool :=
  options.stageModes.lookup (normalizeWirePath entry.path) =
      some gitlinkMode ||
    entry.submodule.any fun submodule => ['S'].isPrefixOf submodule

def PlanState.ship (state : PlanState) (path : List Char) : PlanState :=
  { state with files := insertPath path state.files }

def PlanState.remove (state : PlanState) (path : List Char) : PlanState :=
  { state with deletions := insertPath path state.deletions }

/-- The loop over the entries, for one of them. -/
def planEntry (policy : OverlaySourcePolicy) (options : PlanOptions)
    (state : PlanState) (entry : GitStatusEntry) : PlanState :=
  let path := normalizeWirePath entry.path
  if isGitlinkMode options entry then
    if isDeletionXy entry.xy then
      { state.remove path with
        gitlinksMap := deletePin path state.gitlinksMap }
    else
      match (options.gitlinkCommits.lookup path).filter (· ≠ []) with
      | some commit =>
        { state with gitlinksMap := setPin path commit state.gitlinksMap }
      | none => state
  else
    match entry.kind with
    | .untracked => if policy.includeUntracked then state.ship path else state
    | .ignored =>
      if policy.includeIgnored.any (matchInclude path) then state.ship path
      else state
    | .tracked =>
      match entry.origPath.filter (· ≠ []) with
      | some origPath =>
        (state.remove (normalizeWirePath origPath)).ship path
      | none =>
        if isDeletionXy entry.xy then
          -- A path that is missing here may have changed in the index.
          if shipsDeleted entry.xy then
            { state.ship path with
              deletions := removePath path state.deletions }
          else
            state.remove path
        else if isInterestingTrackedChange entry.xy then
          state.ship path
        else
          state

/-- The order of `sort()` without a comparison. -/
def precedes (first second : List Char) : Prop :=
  Utf16.encode first ≤ Utf16.encode second

instance (first second : List Char) : Decidable (precedes first second) :=
  inferInstanceAs (Decidable (_ ≤ _))

instance : Std.Total precedes :=
  ⟨fun _ _ => List.le_total _ _⟩

instance : IsTrans (List Char) precedes :=
  ⟨fun _ _ _ before after => List.le_trans before after⟩

/-- Submodules stand behind those they are nested in. -/
def pinPrecedes (localeCompare : List Char → List Char → Ordering)
    (first second : OverlayGitlinkPin) : Prop :=
  let depth (pin : OverlayGitlinkPin) := (pin.path.splitOn '/').length
  depth first < depth second ∨
    depth first = depth second ∧
      localeCompare first.path second.path ≠ .gt

instance (localeCompare : List Char → List Char → Ordering)
    (first second : OverlayGitlinkPin) :
    Decidable (pinPrecedes localeCompare first second) :=
  inferInstanceAs (Decidable (_ ∨ _ ∧ _))

/-- The sets after the loop. -/
def planEntries (entries : List GitStatusEntry)
    (policy : OverlaySourcePolicy) (options : PlanOptions) : PlanState :=
  entries.foldl (planEntry policy options)
    { files := [], deletions := [], gitlinksMap := options.gitlinkCommits }

/-- `computeOverlayPlan`.  A path cannot be both deleted and shipped. -/
def computeOverlayPlan (localeCompare : List Char → List Char → Ordering)
    (entries : List GitStatusEntry) (policy : OverlaySourcePolicy)
    (options : PlanOptions) : Plan :=
  let state := planEntries entries policy options
  let deletions := state.deletions.filter fun path => path ∉ state.files
  let gitlinksMap := state.gitlinksMap.filter fun pin => pin.1 ∉ deletions
  { files := state.files.insertionSort precedes
    deletions := deletions.insertionSort precedes
    gitlinks :=
      (gitlinksMap.map fun pin => { path := pin.1, commit := pin.2 })
        |>.insertionSort (pinPrecedes localeCompare) }

/-! ## What an entry adds to the sets -/

/-- The path that an entry ships. -/
def shipped (policy : OverlaySourcePolicy) (options : PlanOptions)
    (entry : GitStatusEntry) : Option (List Char) :=
  let path := normalizeWirePath entry.path
  if isGitlinkMode options entry then none
  else
    match entry.kind with
    | .untracked => if policy.includeUntracked then some path else none
    | .ignored =>
      if policy.includeIgnored.any (matchInclude path) then some path
      else none
    | .tracked =>
      match entry.origPath.filter (· ≠ []) with
      | some _ => some path
      | none =>
        if isDeletionXy entry.xy then
          if shipsDeleted entry.xy then some path else none
        else if isInterestingTrackedChange entry.xy then some path
        else none

/-- The path that an entry removes. -/
def removed (options : PlanOptions) (entry : GitStatusEntry) :
    Option (List Char) :=
  let path := normalizeWirePath entry.path
  if isGitlinkMode options entry then
    if isDeletionXy entry.xy then some path else none
  else
    match entry.kind with
    | .untracked => none
    | .ignored => none
    | .tracked =>
      match entry.origPath.filter (· ≠ []) with
      | some origPath => some (normalizeWirePath origPath)
      | none =>
        if isDeletionXy entry.xy then
          if shipsDeleted entry.xy then none else some path
        else none

theorem mem_insertPath {path other : List Char} {paths : List (List Char)} :
    other ∈ insertPath path paths ↔ other ∈ paths ∨ other = path := by
  unfold insertPath
  split
  · rename_i member
    constructor
    · exact Or.inl
    · rintro (inside | rfl)
      · exact inside
      · exact member
  · rw [List.mem_append, List.mem_singleton]

theorem mem_removePath {path other : List Char} {paths : List (List Char)} :
    other ∈ removePath path paths ↔ other ∈ paths ∧ other ≠ path := by
  unfold removePath
  rw [List.mem_filter, decide_eq_true_iff]

section Sets

variable {policy : OverlaySourcePolicy} {options : PlanOptions}
  {state : PlanState} {entry : GitStatusEntry} {path : List Char}

theorem mem_files_planEntry :
    path ∈ (planEntry policy options state entry).files ↔
      path ∈ state.files ∨ shipped policy options entry = some path := by
  have ships : path ∈ insertPath (normalizeWirePath entry.path) state.files ↔
      path ∈ state.files ∨
        some (normalizeWirePath entry.path) = some path := by
    rw [mem_insertPath, Option.some.injEq, eq_comm]
  have stays : path ∈ state.files ↔
      path ∈ state.files ∨ (none : Option (List Char)) = some path := by
    simp
  unfold planEntry shipped
  dsimp only
  split
  · split
    · exact stays
    · split <;> exact stays
  · split
    · split
      · exact ships
      · exact stays
    · split
      · exact ships
      · exact stays
    · split
      · exact ships
      · split
        all_goals
          split
          · exact ships
          · exact stays

/-- Of the paths that an entry does not ship. -/
theorem mem_deletions_planEntry
    (unshipped : shipped policy options entry ≠ some path) :
    path ∈ (planEntry policy options state entry).deletions ↔
      path ∈ state.deletions ∨ removed options entry = some path := by
  have removes : ∀ gone, path ∈ insertPath gone state.deletions ↔
      path ∈ state.deletions ∨ some gone = some path := by
    intro gone
    rw [mem_insertPath, Option.some.injEq, eq_comm]
  have stays : path ∈ state.deletions ↔
      path ∈ state.deletions ∨ (none : Option (List Char)) = some path := by
    simp
  -- A deletion that ships its path takes it back.
  have takesBack : some (normalizeWirePath entry.path) ≠ some path →
      (path ∈ removePath (normalizeWirePath entry.path) state.deletions ↔
        path ∈ state.deletions ∨
          (none : Option (List Char)) = some path) := by
    intro different
    rw [mem_removePath]
    constructor
    · exact fun inside => Or.inl inside.1
    · rintro (inside | nothing)
      · exact ⟨inside, fun same => different (congrArg some same.symm)⟩
      · cases nothing
  revert unshipped
  unfold shipped planEntry removed
  dsimp only
  split
  · intro _
    split
    · exact removes _
    · split <;> exact stays
  · split
    · intro _
      split <;> exact stays
    · intro _
      split <;> exact stays
    · split
      · exact fun _ => removes _
      · split
        · split
          · exact takesBack
          · exact fun _ => removes _
        · intro _
          split <;> exact stays

theorem mem_files_planEntries {entries : List GitStatusEntry} :
    path ∈ (entries.foldl (planEntry policy options) state).files ↔
      path ∈ state.files ∨
        ∃ entry ∈ entries, shipped policy options entry = some path := by
  induction entries generalizing state with
  | nil => simp
  | cons entry entries induction =>
    rw [List.foldl_cons, induction, mem_files_planEntry, or_assoc,
      List.exists_mem_cons_iff]

theorem mem_deletions_planEntries {entries : List GitStatusEntry}
    (unshipped : ∀ entry ∈ entries,
      shipped policy options entry ≠ some path) :
    path ∈ (entries.foldl (planEntry policy options) state).deletions ↔
      path ∈ state.deletions ∨
        ∃ entry ∈ entries, removed options entry = some path := by
  induction entries generalizing state with
  | nil => simp
  | cons entry entries induction =>
    rw [List.foldl_cons,
      induction fun other member =>
        unshipped other (List.mem_cons_of_mem _ member),
      mem_deletions_planEntry (unshipped entry List.mem_cons_self),
      or_assoc, List.exists_mem_cons_iff]

variable {localeCompare : List Char → List Char → Ordering}
  {entries : List GitStatusEntry}

/-- The plan ships what some entry ships. -/
theorem mem_files_iff :
    path ∈ (computeOverlayPlan localeCompare entries policy options).files ↔
      ∃ entry ∈ entries, shipped policy options entry = some path := by
  unfold computeOverlayPlan
  dsimp only
  rw [List.mem_insertionSort]
  unfold planEntries
  rw [mem_files_planEntries]
  simp

/-- The plan removes what some entry removes and none ships. -/
theorem mem_deletions_iff :
    path ∈ (computeOverlayPlan localeCompare entries policy
        options).deletions ↔
      (∃ entry ∈ entries, removed options entry = some path) ∧
        ∀ entry ∈ entries, shipped policy options entry ≠ some path := by
  unfold computeOverlayPlan
  dsimp only
  rw [List.mem_insertionSort, List.mem_filter, decide_eq_true_iff]
  unfold planEntries
  rw [mem_files_planEntries]
  simp only [List.not_mem_nil, false_or, not_exists, not_and]
  constructor
  · rintro ⟨inside, unshipped⟩
    rw [mem_deletions_planEntries unshipped] at inside
    exact ⟨inside.resolve_left List.not_mem_nil, unshipped⟩
  · rintro ⟨removes, unshipped⟩
    rw [mem_deletions_planEntries unshipped]
    exact ⟨Or.inr removes, unshipped⟩

end Sets

/-! ## Trees and what Git reports of them -/

inductive Mode where
  | regular
  | executable
  | symlink
  deriving DecidableEq

/-- The mode as the index lists it. -/
def Mode.text : Mode → List Char
  | .regular => ['1', '0', '0', '6', '4', '4']
  | .executable => ['1', '0', '0', '7', '5', '5']
  | .symlink => ['1', '2', '0', '0', '0', '0']

/-- A file, or a link with its target. -/
structure Blob where
  mode : Mode
  content : List UInt8
  deriving DecidableEq

/-- The files and links of a tree by their paths. -/
abbrev Tree := List Char → Option Blob

/-- `HEAD`, the index and the working tree, with the paths that Git is told to
ignore. -/
structure WorkingCopy where
  head : Tree
  index : Tree
  work : Tree
  ignored : List Char → Bool

/-- What becomes of a path that both trees have. -/
def editOf (old new : Blob) : Change :=
  if old = new then .unmodified
  else if old.mode = .symlink ↔ new.mode = .symlink then .modified
  else .typeChanged

/-- What becomes of a path from one tree to another. -/
def changeOf : Option Blob → Option Blob → Change
  | none, none => .unmodified
  | none, some _ => .added
  | some _, none => .deleted
  | some old, some new => editOf old new

namespace WorkingCopy

variable (copy : WorkingCopy)

def indexChange (path : List Char) : Change :=
  changeOf (copy.head path) (copy.index path)

/-- Of a path that is not in the index Git only says that it is there. -/
def worktreeChange (path : List Char) : Change :=
  if copy.index path = none then .unmodified
  else changeOf (copy.index path) (copy.work path)

end WorkingCopy

def changedEntry (index worktree : Change) (path : List Char)
    (origPath : Option (List Char)) : GitStatusEntry :=
  { path, origPath
    xy := StatusCode.text { index, worktree }
    kind := .tracked
    submodule := some SubmoduleState.notSubmodule.text }

/-- An entry that Git may report.  A copy has a source that changed as well,
since only such paths are looked at. -/
inductive Reports (copy : WorkingCopy) : GitStatusEntry → Prop where
  | ordinary (path : List Char)
      (changed : copy.indexChange path ≠ .unmodified ∨
        copy.worktreeChange path ≠ .unmodified) :
      Reports copy
        (changedEntry (copy.indexChange path) (copy.worktreeChange path) path
          none)
  | renamed (path source : List Char) (fresh : copy.head path = none)
      (staged : copy.index path ≠ none) (old : copy.head source ≠ none)
      (gone : copy.index source = none) (named : source ≠ []) :
      Reports copy
        (changedEntry .renamed (copy.worktreeChange path) path (some source))
  | copied (path source : List Char) (fresh : copy.head path = none)
      (staged : copy.index path ≠ none) (old : copy.head source ≠ none)
      (changed : copy.index source ≠ copy.head source)
      (named : source ≠ []) :
      Reports copy
        (changedEntry .copied (copy.worktreeChange path) path (some source))
  | untracked (path : List Char) (unknown : copy.index path = none)
      (there : copy.work path ≠ none) (seen : copy.ignored path = false) :
      Reports copy
        { path, origPath := none, xy := ['?', '?'], kind := .untracked
          submodule := none }
  | ignored (path : List Char) (unknown : copy.index path = none)
      (there : copy.work path ≠ none) (passed : copy.ignored path = true) :
      Reports copy
        { path, origPath := none, xy := ['!', '!'], kind := .ignored
          submodule := none }

/-- The status of a working copy: every change has its entry, and so has every
path outside the index.  The source of a renaming needs none of its own. -/
structure StatusOf (copy : WorkingCopy) (entries : List GitStatusEntry) :
    Prop where
  reports : ∀ entry ∈ entries, Reports copy entry
  changed : ∀ path, copy.indexChange path ≠ .unmodified ∨
      copy.worktreeChange path ≠ .unmodified →
    (∃ entry ∈ entries, entry.kind = .tracked ∧ entry.path = path) ∨
      copy.indexChange path = .deleted ∧
        ∃ entry ∈ entries, entry.origPath = some path
  outside : ∀ path, copy.index path = none → copy.work path ≠ none →
    ∃ entry ∈ entries, entry.path = path ∧
      entry.kind = if copy.ignored path then .ignored else .untracked

/-- The listed modes are those of the index. -/
def StagesOf (copy : WorkingCopy) (options : PlanOptions) : Prop :=
  ∀ path mode, options.stageModes.lookup path = some mode →
    ∃ blob, copy.index path = some blob ∧ mode = blob.mode.text

/-- The paths of a status are written as they are. -/
def PlainPaths (entries : List GitStatusEntry) : Prop :=
  ∀ entry ∈ entries, normalizeWirePath entry.path = entry.path ∧
    ∀ source ∈ entry.origPath, normalizeWirePath source = source

/-! ## What the plan promises -/

/-- The tree that an overlay makes of `HEAD`. -/
def overlaid (copy : WorkingCopy) (plan : Plan) : Tree := fun path =>
  if path ∈ plan.files then copy.work path
  else if path ∈ plan.deletions then none
  else copy.head path

/-- The policy includes a path outside the index. -/
def includes (policy : OverlaySourcePolicy) (copy : WorkingCopy)
    (path : List Char) : Bool :=
  if copy.ignored path then policy.includeIgnored.any (matchInclude path)
  else policy.includeUntracked

/-- The working tree, as far as it is tracked or included. -/
def wanted (policy : OverlaySourcePolicy) (copy : WorkingCopy) : Tree :=
  fun path =>
    if copy.index path = none ∧ includes policy copy path = false then none
    else copy.work path

structure Reproduces (policy : OverlaySourcePolicy) (copy : WorkingCopy)
    (plan : Plan) : Prop where
  same : overlaid copy plan = wanted policy copy
  exist : ∀ path ∈ plan.files, copy.work path ≠ none
  disjoint : ∀ path ∈ plan.files, path ∉ plan.deletions

/-- No path that is changed in the index is missing from the working tree. -/
def StagedFilesExist (copy : WorkingCopy) : Prop :=
  ∀ path, copy.index path ≠ none → copy.index path ≠ copy.head path →
    copy.work path ≠ none

section Reports

variable {copy : WorkingCopy} {policy : OverlaySourcePolicy}
  {options : PlanOptions} {path : List Char}

theorem changeOf_eq_unmodified {old new : Option Blob} :
    changeOf old new = .unmodified ↔ old = new := by
  cases old with
  | none => cases new <;> simp [changeOf]
  | some old =>
    cases new with
    | none => simp [changeOf]
    | some new =>
      rw [Option.some.injEq]
      change editOf old new = _ ↔ _
      unfold editOf
      constructor
      · intro is
        by_contra different
        rw [if_neg different] at is
        split at is <;> cases is
      · exact fun same => if_pos same

theorem changeOf_eq_deleted {old new : Option Blob} :
    changeOf old new = .deleted ↔ old ≠ none ∧ new = none := by
  cases old with
  | none => cases new <;> simp [changeOf]
  | some old =>
    cases new with
    | none => simp [changeOf]
    | some new =>
      refine iff_of_false ?_ (by simp)
      change editOf old new ≠ _
      unfold editOf
      split
      · nofun
      · split <;> nofun

/-- The code of an entry ships its path. -/
def shipsCode (index worktree : Change) : Bool :=
  if isDeletionXy (StatusCode.text { index, worktree }) then
    shipsDeleted (StatusCode.text { index, worktree })
  else
    isInterestingTrackedChange (StatusCode.text { index, worktree })

/-- A deletion ships its path when the other side changed as well. -/
theorem shipsCode_iff (index worktree : Change) :
    shipsCode index worktree = true ↔
      if index = .deleted then worktree ≠ .unmodified ∧ worktree ≠ .deleted
      else if worktree = .deleted then index ≠ .unmodified
      else index ≠ .unmodified ∨ worktree ≠ .unmodified := by
  cases index <;> cases worktree <;> decide

/-- The code of an entry removes its path. -/
def removesCode (index worktree : Change) : Bool :=
  isDeletionXy (StatusCode.text { index, worktree }) &&
    !shipsDeleted (StatusCode.text { index, worktree })

theorem removesCode_iff (index worktree : Change) :
    removesCode index worktree = true ↔
      (index = .deleted ∨ worktree = .deleted) ∧
        shipsCode index worktree = false := by
  cases index <;> cases worktree <;> decide

theorem isGitlinkMode_eq_false (stages : StagesOf copy options)
    {entry : GitStatusEntry}
    (ordinary : entry.submodule = none ∨
      entry.submodule = some SubmoduleState.notSubmodule.text) :
    isGitlinkMode options entry = false := by
  unfold isGitlinkMode
  rw [Bool.or_eq_false_iff]
  constructor
  · rw [decide_eq_false_iff_not]
    intro listed
    rcases stages _ _ listed with ⟨⟨mode, content⟩, -, is⟩
    cases mode <;> cases is
  · rcases ordinary with none | other
    · rw [none]
      rfl
    · rw [other]
      rfl

section Entries

variable (stages : StagesOf copy options)
include stages

theorem shipped_ordinary {index worktree : Change}
    (plain : normalizeWirePath path = path) :
    shipped policy options (changedEntry index worktree path none) =
      if shipsCode index worktree then some path else none := by
  unfold shipped
  dsimp only
  rw [isGitlinkMode_eq_false stages (Or.inr rfl),
    if_neg Bool.false_ne_true]
  unfold changedEntry shipsCode
  dsimp only [Option.filter]
  rw [plain]
  split <;> rfl

theorem removed_ordinary {index worktree : Change}
    (plain : normalizeWirePath path = path) :
    removed options (changedEntry index worktree path none) =
      if removesCode index worktree then some path else none := by
  unfold removed
  dsimp only
  rw [isGitlinkMode_eq_false stages (Or.inr rfl),
    if_neg Bool.false_ne_true]
  unfold changedEntry removesCode
  dsimp only [Option.filter]
  rw [plain]
  by_cases deletes : isDeletionXy (StatusCode.text { index, worktree }) = true
  · rw [if_pos deletes, deletes, Bool.true_and]
    by_cases both : shipsDeleted (StatusCode.text { index, worktree }) = true
    · rw [if_pos both, both, Bool.not_true, if_neg Bool.false_ne_true]
    · rw [if_neg both, Bool.eq_false_iff.mpr both, Bool.not_false,
        if_pos rfl]
  · rw [if_neg deletes, Bool.eq_false_iff.mpr deletes, Bool.false_and,
      if_neg Bool.false_ne_true]

theorem shipped_moved {index worktree : Change} {source : List Char}
    (named : source ≠ []) (plain : normalizeWirePath path = path) :
    shipped policy options (changedEntry index worktree path (some source)) =
      some path := by
  unfold shipped
  dsimp only
  rw [isGitlinkMode_eq_false stages (Or.inr rfl),
    if_neg Bool.false_ne_true]
  unfold changedEntry
  dsimp only
  rw [Option.filter_some, if_pos (decide_eq_true named), plain]

theorem removed_moved {index worktree : Change} {source : List Char}
    (named : source ≠ []) (plain : normalizeWirePath source = source) :
    removed options (changedEntry index worktree path (some source)) =
      some source := by
  unfold removed
  dsimp only
  rw [isGitlinkMode_eq_false stages (Or.inr rfl),
    if_neg Bool.false_ne_true]
  unfold changedEntry
  dsimp only
  rw [Option.filter_some, if_pos (decide_eq_true named)]
  dsimp only
  rw [plain]

/-- An entry of a path outside the index ships it as the policy says. -/
theorem shipped_outside {entry : GitStatusEntry} (seen : entry.submodule = none)
    (kind : entry.kind =
      if copy.ignored entry.path then .ignored else .untracked)
    (plain : normalizeWirePath entry.path = entry.path) :
    shipped policy options entry =
      if includes policy copy entry.path then some entry.path else none := by
  unfold shipped includes
  dsimp only
  rw [isGitlinkMode_eq_false stages (Or.inl seen), if_neg Bool.false_ne_true,
    kind, plain]
  cases copy.ignored entry.path <;> rfl

end Entries

end Reports

/-! ## The plan against the trees -/

section Agreement

variable {copy : WorkingCopy} {entries : List GitStatusEntry}
  {policy : OverlaySourcePolicy} {options : PlanOptions} {path : List Char}

/-- What a status ships of a path in the index. -/
theorem shipped_of_staged (status : StatusOf copy entries)
    (stages : StagesOf copy options) (plain : PlainPaths entries)
    (staged : copy.index path ≠ none)
    (changed : copy.index path ≠ copy.head path ∨
      copy.work path ≠ none ∧ copy.work path ≠ copy.index path) :
    ∃ entry ∈ entries, shipped policy options entry = some path := by
  have index : copy.indexChange path ≠ .unmodified ↔
      copy.index path ≠ copy.head path := by
    unfold WorkingCopy.indexChange
    rw [Ne, changeOf_eq_unmodified, eq_comm]
  have worktree : copy.worktreeChange path =
      changeOf (copy.index path) (copy.work path) := if_neg staged
  have undeleted : copy.indexChange path ≠ .deleted := by
    unfold WorkingCopy.indexChange
    rw [Ne, changeOf_eq_deleted]
    exact fun gone => staged gone.2
  have differs : copy.indexChange path ≠ .unmodified ∨
      copy.worktreeChange path ≠ .unmodified := by
    refine changed.imp index.mpr fun differs => ?_
    rw [worktree, Ne, changeOf_eq_unmodified]
    exact fun same => differs.2 same.symm
  rcases status.changed path differs with
    ⟨entry, member, tracked, is⟩ | ⟨gone, -⟩
  · have isPlain : normalizeWirePath path = path :=
      is ▸ (plain entry member).1
    refine ⟨entry, member, ?_⟩
    cases status.reports entry member with
    | ordinary named differs =>
      have same : named = path := is
      subst same
      rw [shipped_ordinary stages isPlain, if_pos]
      rw [shipsCode_iff, if_neg undeleted]
      split
      · rename_i deleted
        rw [index]
        rcases changed with changed | ⟨there, -⟩
        · exact changed
        · rw [worktree, changeOf_eq_deleted] at deleted
          exact absurd deleted.2 there
      · exact differs
    | renamed named source _ _ _ _ isNamed =>
      have same : named = path := is
      exact same ▸ shipped_moved stages isNamed (same ▸ isPlain)
    | copied named source _ _ _ _ isNamed =>
      have same : named = path := is
      exact same ▸ shipped_moved stages isNamed (same ▸ isPlain)
    | untracked => cases tracked
    | ignored => cases tracked
  · exact absurd gone undeleted

/-- A path outside the index is shipped if the policy includes it. -/
theorem shipped_of_outside (status : StatusOf copy entries)
    (stages : StagesOf copy options) (plain : PlainPaths entries)
    (outside : copy.index path = none) (there : copy.work path ≠ none)
    (included : includes policy copy path = true) :
    ∃ entry ∈ entries, shipped policy options entry = some path := by
  rcases status.outside path outside there with ⟨entry, member, rfl, kind⟩
  refine ⟨entry, member, ?_⟩
  have seen : entry.submodule = none := by
    cases status.reports entry member with
    | untracked => rfl
    | ignored => rfl
    | ordinary => split at kind <;> cases kind
    | renamed => split at kind <;> cases kind
    | copied => split at kind <;> cases kind
  rw [shipped_outside stages seen kind (plain entry member).1, if_pos included]

/-- A code that ships is that of a path in the index. -/
theorem staged_of_shipsCode
    (code : shipsCode (copy.indexChange path) (copy.worktreeChange path) =
      true) :
    copy.index path ≠ none ∧
      (copy.work path ≠ none ∨ copy.index path ≠ copy.head path) := by
  have staged : copy.index path ≠ none := by
    intro outside
    rw [shipsCode_iff] at code
    unfold WorkingCopy.worktreeChange WorkingCopy.indexChange at code
    rw [if_pos outside, outside] at code
    cases head : copy.head path with
    | none =>
      rw [head] at code
      simp [changeOf] at code
    | some blob =>
      rw [head] at code
      simp [changeOf] at code
  refine ⟨staged, ?_⟩
  by_contra lost
  rw [not_or, not_not, not_not] at lost
  rw [shipsCode_iff] at code
  unfold WorkingCopy.worktreeChange WorkingCopy.indexChange at code
  rw [if_neg staged, lost.1, ← lost.2,
    changeOf_eq_unmodified.mpr rfl, if_neg (by decide),
    if_pos (changeOf_eq_deleted.mpr ⟨staged, rfl⟩)] at code
  exact code rfl

theorem copy_untracked (seen : copy.ignored path = false) :
    EntryKind.untracked =
      if copy.ignored path then .ignored else .untracked := by
  rw [seen]
  rfl

theorem copy_ignored (passed : copy.ignored path = true) :
    EntryKind.ignored =
      if copy.ignored path then .ignored else .untracked := by
  rw [passed]
  rfl

/-- What an entry ships is in the index, or the policy includes it. -/
theorem shipped_cases (stages : StagesOf copy options)
    {entry : GitStatusEntry} (reports : Reports copy entry)
    (plain : normalizeWirePath entry.path = entry.path)
    (ships : shipped policy options entry = some path) :
    copy.index path ≠ none ∧
        (copy.work path ≠ none ∨ copy.index path ≠ copy.head path) ∨
      copy.index path = none ∧ copy.work path ≠ none ∧
        includes policy copy path = true := by
  cases reports with
  | ordinary named changed =>
    have isPlain : normalizeWirePath named = named := plain
    rw [shipped_ordinary stages isPlain] at ships
    split at ships
    · rename_i code
      cases ships
      exact Or.inl (staged_of_shipsCode code)
    · cases ships
  | renamed named source fresh staged _ _ isNamed =>
    have isPlain : normalizeWirePath named = named := plain
    rw [shipped_moved stages isNamed isPlain] at ships
    cases ships
    exact Or.inl ⟨staged, Or.inr (fresh ▸ staged)⟩
  | copied named source fresh staged _ _ isNamed =>
    have isPlain : normalizeWirePath named = named := plain
    rw [shipped_moved stages isNamed isPlain] at ships
    cases ships
    exact Or.inl ⟨staged, Or.inr (fresh ▸ staged)⟩
  | untracked named unknown there seen =>
    rw [shipped_outside stages rfl (copy_untracked seen) plain] at ships
    split at ships
    · rename_i included
      cases ships
      exact Or.inr ⟨unknown, there, included⟩
    · cases ships
  | ignored named unknown there passed =>
    rw [shipped_outside stages rfl (copy_ignored passed) plain] at ships
    split at ships
    · rename_i included
      cases ships
      exact Or.inr ⟨unknown, there, included⟩
    · cases ships

/-- What the status ships of a path. -/
def Unshipped (policy : OverlaySourcePolicy) (options : PlanOptions)
    (entries : List GitStatusEntry) (path : List Char) : Prop :=
  ∀ entry ∈ entries, shipped policy options entry ≠ some path

/-- A path in the index that is not shipped is that of `HEAD`, and it is there
unchanged or it is gone. -/
theorem staged_of_unshipped (status : StatusOf copy entries)
    (stages : StagesOf copy options) (plain : PlainPaths entries)
    (unshipped : Unshipped policy options entries path)
    (staged : copy.index path ≠ none) :
    copy.index path = copy.head path ∧
      (copy.work path = none ∨ copy.work path = copy.index path) := by
  have ships : ¬ (copy.index path ≠ copy.head path ∨
      copy.work path ≠ none ∧ copy.work path ≠ copy.index path) := by
    intro changed
    have shipping : ∃ entry ∈ entries,
        shipped policy options entry = some path :=
      shipped_of_staged status stages plain staged changed
    rcases shipping with ⟨entry, member, ships⟩
    exact unshipped entry member ships
  rw [not_or, not_not, not_and_or, not_not, not_not] at ships
  exact ships

/-- A path outside the index that is not shipped is not wanted. -/
theorem wanted_of_outside (status : StatusOf copy entries)
    (stages : StagesOf copy options) (plain : PlainPaths entries)
    (unshipped : Unshipped policy options entries path)
    (outside : copy.index path = none) : wanted policy copy path = none := by
  unfold wanted
  split
  · rfl
  · rename_i included
    by_contra there
    have isIncluded : includes policy copy path = true := by
      by_contra isNot
      exact included ⟨outside, Bool.eq_false_iff.mpr isNot⟩
    rcases shipped_of_outside status stages plain outside there isIncluded with
      ⟨entry, member, ships⟩
    exact unshipped entry member ships

theorem wanted_of_staged (staged : copy.index path ≠ none) :
    wanted policy copy path = copy.work path :=
  if_neg fun outside => staged outside.1

section

variable (status : StatusOf copy entries) (stages : StagesOf copy options)
  (plain : PlainPaths entries)

include status stages plain

/-- A path that `HEAD` has and the index has not is removed. -/
theorem removed_of_gone (old : copy.head path ≠ none)
    (gone : copy.index path = none) :
    ∃ entry ∈ entries, removed options entry = some path := by
  have index : copy.indexChange path = .deleted :=
    changeOf_eq_deleted.mpr ⟨old, gone⟩
  have worktree : copy.worktreeChange path = .unmodified := if_pos gone
  rcases status.changed path (Or.inl (by rw [index]; nofun)) with
    ⟨entry, member, tracked, is⟩ | ⟨-, entry, member, is⟩
  · have isPlain : normalizeWirePath path = path :=
      is ▸ (plain entry member).1
    refine ⟨entry, member, ?_⟩
    cases status.reports entry member with
    | ordinary named _ =>
      have same : named = path := is
      subst same
      rw [removed_ordinary stages isPlain, index, worktree]
      rfl
    | renamed named source fresh =>
      have same : named = path := is
      exact absurd (same ▸ fresh) old
    | copied named source fresh =>
      have same : named = path := is
      exact absurd (same ▸ fresh) old
    | untracked => cases tracked
    | ignored => cases tracked
  · have isPlain : normalizeWirePath path = path :=
      (plain entry member).2 path is
    refine ⟨entry, member, ?_⟩
    cases status.reports entry member with
    | ordinary => cases is
    | renamed named source _ _ _ _ isNamed =>
      cases is
      exact removed_moved stages isNamed isPlain
    | copied named source _ _ _ _ isNamed =>
      cases is
      exact removed_moved stages isNamed isPlain
    | untracked => cases is
    | ignored => cases is

/-- A path that is removed and not shipped is not wanted. -/
theorem wanted_of_removed (unshipped : Unshipped policy options entries path)
    {entry : GitStatusEntry} (member : entry ∈ entries)
    (removes : removed options entry = some path) :
    wanted policy copy path = none := by
  by_cases outside : copy.index path = none
  · exact wanted_of_outside status stages plain unshipped outside
  have unchanged :=
    (staged_of_unshipped status stages plain unshipped outside).1
  rw [wanted_of_staged outside]
  have isPlain := plain entry member
  cases status.reports entry member with
  | ordinary named _ =>
    have namedPlain : normalizeWirePath named = named := isPlain.1
    rw [removed_ordinary stages namedPlain] at removes
    split at removes
    · rename_i code
      cases removes
      rw [removesCode_iff] at code
      rcases code.1 with index | worktree
      · exact absurd (changeOf_eq_deleted.mp index).2 outside
      · unfold WorkingCopy.worktreeChange at worktree
        rw [if_neg outside, changeOf_eq_deleted] at worktree
        exact worktree.2
    · cases removes
  | renamed named source _ _ _ gone isNamed =>
    rw [removed_moved stages isNamed (isPlain.2 source rfl)] at removes
    cases removes
    exact absurd gone outside
  | copied named source _ _ _ changed isNamed =>
    rw [removed_moved stages isNamed (isPlain.2 source rfl)] at removes
    cases removes
    exact absurd unchanged changed
  | untracked =>
    unfold removed at removes
    dsimp only at removes
    rw [isGitlinkMode_eq_false stages (Or.inl rfl)] at removes
    cases removes
  | ignored =>
    unfold removed at removes
    dsimp only at removes
    rw [isGitlinkMode_eq_false stages (Or.inl rfl)] at removes
    cases removes

/-- A path that is neither shipped nor removed is wanted as `HEAD` has it. -/
theorem wanted_of_untouched
    (unshipped : Unshipped policy options entries path)
    (unremoved : ∀ entry ∈ entries, removed options entry ≠ some path) :
    wanted policy copy path = copy.head path := by
  by_cases outside : copy.index path = none
  · rw [wanted_of_outside status stages plain unshipped outside]
    by_contra old
    rcases removed_of_gone status stages plain (Ne.symm old) outside with
      ⟨entry, member, removes⟩
    exact unremoved entry member removes
  rcases staged_of_unshipped status stages plain unshipped outside with
    ⟨unchanged, lost | same⟩
  · have index : copy.indexChange path = .unmodified :=
      changeOf_eq_unmodified.mpr unchanged.symm
    have worktree : copy.worktreeChange path = .deleted := by
      unfold WorkingCopy.worktreeChange
      rw [if_neg outside, changeOf_eq_deleted]
      exact ⟨outside, lost⟩
    rcases status.changed path (Or.inr (by rw [worktree]; nofun)) with
      ⟨entry, member, tracked, is⟩ | ⟨gone, -⟩
    · exfalso
      have isPlain : normalizeWirePath path = path :=
        is ▸ (plain entry member).1
      cases status.reports entry member with
      | ordinary named _ =>
        have same : named = path := is
        subst same
        apply unremoved _ member
        rw [removed_ordinary stages isPlain, index, worktree]
        rfl
      | renamed named source _ _ _ _ isNamed =>
        have same : named = path := is
        subst same
        exact unshipped _ member (shipped_moved stages isNamed isPlain)
      | copied named source _ _ _ _ isNamed =>
        have same : named = path := is
        subst same
        exact unshipped _ member (shipped_moved stages isNamed isPlain)
      | untracked => cases tracked
      | ignored => cases tracked
    · rw [index] at gone
      cases gone
  · rw [wanted_of_staged outside, same, unchanged]

end

end Agreement

section Rebuilt

variable {copy : WorkingCopy} {entries : List GitStatusEntry}
  {policy : OverlaySourcePolicy} {options : PlanOptions}
  {localeCompare : List Char → List Char → Ordering}

/-- A path that is shipped is in the working tree and wanted. -/
theorem wanted_of_shipped (status : StatusOf copy entries)
    (stages : StagesOf copy options) (plain : PlainPaths entries)
    (exist : StagedFilesExist copy) {path : List Char}
    {entry : GitStatusEntry} (member : entry ∈ entries)
    (ships : shipped policy options entry = some path) :
    copy.work path ≠ none ∧ wanted policy copy path = copy.work path := by
  rcases shipped_cases stages (status.reports entry member)
    (plain entry member).1 ships with
    ⟨staged, stays⟩ | ⟨outside, isThere, included⟩
  · refine ⟨?_, wanted_of_staged staged⟩
    rcases stays with isThere | changed
    · exact isThere
    · exact exist path staged changed
  · exact ⟨isThere, if_neg fun isNot => by
      rw [included] at isNot
      exact Bool.false_ne_true isNot.2.symm⟩

/-- Over a checkout of `HEAD` the plan leaves what is wanted. -/
theorem overlaid_eq_wanted (status : StatusOf copy entries)
    (stages : StagesOf copy options) (plain : PlainPaths entries)
    (exist : StagedFilesExist copy) :
    overlaid copy (computeOverlayPlan localeCompare entries policy options) =
      wanted policy copy := by
  funext path
  unfold overlaid
  split
  · rename_i inside
    rcases mem_files_iff.mp inside with ⟨entry, member, ships⟩
    exact (wanted_of_shipped status stages plain exist member ships).2.symm
  · rename_i outside
    have unshipped : Unshipped policy options entries path :=
      fun entry member ships =>
        outside (mem_files_iff.mpr ⟨entry, member, ships⟩)
    split
    · rename_i inside
      rcases (mem_deletions_iff.mp inside).1 with ⟨entry, member, removes⟩
      exact (wanted_of_removed status stages plain unshipped member
        removes).symm
    · rename_i kept
      exact (wanted_of_untouched status stages plain unshipped
        fun entry member removes => kept (mem_deletions_iff.mpr
          ⟨⟨entry, member, removes⟩, unshipped⟩)).symm

end Rebuilt

/-- The plan rebuilds the working tree exactly when no path that is changed in
the index is missing from the working tree. -/
theorem computeOverlayPlan_reproduces_iff
    {localeCompare : List Char → List Char → Ordering} {copy : WorkingCopy}
    {entries : List GitStatusEntry} {policy : OverlaySourcePolicy}
    {options : PlanOptions} (status : StatusOf copy entries)
    (stages : StagesOf copy options) (plain : PlainPaths entries) :
    Reproduces policy copy
        (computeOverlayPlan localeCompare entries policy options) ↔
      StagedFilesExist copy := by
  constructor
  · intro reproduces path staged changed
    exact reproduces.exist path (mem_files_iff.mpr
      (shipped_of_staged status stages plain staged (Or.inl changed)))
  · intro exist
    refine ⟨overlaid_eq_wanted status stages plain exist, ?_, ?_⟩
    · intro path inside
      rcases mem_files_iff.mp inside with ⟨entry, member, ships⟩
      exact (wanted_of_shipped status stages plain exist member ships).1
    · intro path inside gone
      rcases mem_files_iff.mp inside with ⟨entry, member, ships⟩
      exact (mem_deletions_iff.mp gone).2 entry member ships

/-- A tree with at most one file. -/
def oneFile (file : Option Blob) : Tree := fun path =>
  if path = ['a'] then file else none

def fileOf (content : List UInt8) : Blob where
  mode := .regular
  content := content

/-- A working copy of one path. -/
def oneFileCopy (head index work : Option Blob) : WorkingCopy where
  head := oneFile head
  index := oneFile index
  work := oneFile work
  ignored := fun _ => false

def plainPolicy : OverlaySourcePolicy where
  includeUntracked := true
  includeIgnored := []

def noOptions : PlanOptions where
  stageModes := []
  gitlinkCommits := []

/-- The status of a working copy with one path, which is in the index. -/
theorem statusOf_oneFile {head work : Option Blob} {file : Blob}
    (changed : changeOf head (some file) ≠ .unmodified ∨
      changeOf (some file) work ≠ .unmodified) :
    StatusOf (oneFileCopy head (some file) work)
      [changedEntry (changeOf head (some file)) (changeOf (some file) work)
        ['a'] none] where
  reports := by
    intro entry member
    rw [List.mem_singleton.mp member]
    exact .ordinary ['a'] changed
  changed := by
    intro path differs
    left
    refine ⟨_, List.mem_cons_self, rfl, ?_⟩
    by_contra other
    have none : ∀ file, oneFile file path = none :=
      fun _ => if_neg (Ne.symm other)
    rcases differs with differs | differs
    · apply differs
      change changeOf (oneFile head path) (oneFile (some file) path) = _
      rw [none, none]
      rfl
    · exact differs (if_pos (none (some file)))
  outside := by
    intro path unknown there
    exfalso
    have other : path ≠ ['a'] := by
      rintro rfl
      cases unknown
    exact there (if_neg other)

theorem stagesOf_noOptions (copy : WorkingCopy) :
    StagesOf copy noOptions := by
  intro path mode listed
  cases listed

theorem plainPaths_oneFile (index worktree : Change) :
    PlainPaths [changedEntry index worktree ['a'] none] := by
  intro entry member
  rw [List.mem_singleton.mp member]
  exact ⟨rfl, nofun⟩

theorem computeOverlayPlan_reproduces_iff_edited :
    Reproduces plainPolicy
      (oneFileCopy (some (fileOf [1])) (some (fileOf [1]))
        (some (fileOf [2])))
      (computeOverlayPlan (fun _ _ => .eq)
        [changedEntry .unmodified .modified ['a'] none] plainPolicy
        noOptions) := by
  refine (computeOverlayPlan_reproduces_iff
    (statusOf_oneFile (Or.inr ?_)) (stagesOf_noOptions _)
    (plainPaths_oneFile _ _)).mpr ?_
  · decide
  · intro path _ changed
    exact absurd rfl changed

/-- A file that was added to the index and then deleted is to be shipped. -/
theorem added_then_deleted_is_shipped :
    StatusOf (oneFileCopy none (some (fileOf [1])) none)
        [changedEntry .added .deleted ['a'] none] ∧
      StagesOf (oneFileCopy none (some (fileOf [1])) none) noOptions ∧
      PlainPaths [changedEntry .added .deleted ['a'] none] ∧
      ¬ Reproduces plainPolicy (oneFileCopy none (some (fileOf [1])) none)
        (computeOverlayPlan (fun _ _ => .eq)
          [changedEntry .added .deleted ['a'] none] plainPolicy
          noOptions) := by
  refine ⟨statusOf_oneFile (Or.inl (by decide)), stagesOf_noOptions _,
    plainPaths_oneFile _ _, ?_⟩
  intro reproduces
  exact reproduces.exist ['a'] (by decide) rfl

end Rbo.Snapshot.OverlayPlan
