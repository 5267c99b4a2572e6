import Rbo.Snapshot.OverlayPlan

/-!
# The source that a capture selects

A full capture lists the paths of the index, the untracked paths and the
ignored paths that the policy names, and ships those that are in the working
tree.  An overlay capture ships the plan of Git's status, and the agent applies
it to a checkout of `HEAD`.

The status that the overlay asks for leaves out the ignored paths, so that a
policy that names ignored paths selects them in one mode only.
-/

namespace Rbo.Snapshot.SourceSelection

open Rbo.Foundation
open Rbo.Snapshot.Capture (normalizeWirePath)
open Rbo.Snapshot.GitStatus
open Rbo.Snapshot.OverlayPlan

/-! ## The repository -/

/-- A working copy, some of whose paths may be unmerged; no file is at the
root itself. -/
structure Repository where
  copy : WorkingCopy
  unmerged : List Char → Bool
  staged : ∀ path, unmerged path = true → copy.index path ≠ none
  noRoot : copy.work [] = none

/-- The tree without the unmerged paths. -/
def Repository.hide (repository : Repository) (tree : Tree) : Tree := fun path =>
  if repository.unmerged path then none else tree path

/-- The working copy without the unmerged paths. -/
def Repository.merged (repository : Repository) : WorkingCopy where
  head := repository.hide repository.copy.head
  index := repository.hide repository.copy.index
  work := repository.hide repository.copy.work
  ignored := repository.copy.ignored

/-! ## The full capture -/

/-- What `git ls-files` prints: the index, the untracked paths, and the ignored
paths that match some pathspecs. -/
structure GitListings where
  tracked : List (List Char)
  others : List (List Char)
  othersIgnored : List (List Char) → List (List Char)

/-- What these commands are to print of a repository, over Git's matching of
pathspecs. -/
structure ListsOf (repository : Repository)
    (pathspec : List (List Char) → List Char → Bool) (git : GitListings) :
    Prop where
  tracked : ∀ path, path ∈ git.tracked ↔ repository.copy.index path ≠ none
  others : ∀ path, path ∈ git.others ↔
    repository.copy.index path = none ∧ repository.copy.work path ≠ none ∧
      repository.copy.ignored path = false
  othersIgnored : ∀ patterns path, path ∈ git.othersIgnored patterns ↔
    (repository.copy.index path = none ∧ repository.copy.work path ≠ none ∧
      repository.copy.ignored path = true) ∧ pathspec patterns path = true

def gitLsFilesOthersIgnored (git : GitListings)
    (paths : List (List Char)) : List (List Char) :=
  if paths = [] then [] else git.othersIgnored paths

def enumerateFullSourcePaths (git : GitListings)
    (policy : OverlaySourcePolicy) : List (List Char) :=
  let untracked := if policy.includeUntracked then git.others else []
  let ignoredExplicit := gitLsFilesOthersIgnored git policy.includeIgnored
  ((git.tracked ++ untracked ++ ignoredExplicit).eraseDups.map
    normalizeWirePath).insertionSort precedes

/-- The paths that `captureFullSnapshot` ships: files and links that are
there. -/
def fullPaths (repository : Repository) (git : GitListings)
    (policy : OverlaySourcePolicy) : List (List Char) :=
  (enumerateFullSourcePaths git policy).filter fun path =>
    repository.copy.work path ≠ none

/-! ## The overlay capture -/

/-- The entry that a record is about. -/
def entryOf (record : StatusRecord) : GitStatusEntry where
  path := Utf8.decode record.path.bytes
  origPath := record.origPath.map fun path => Utf8.decode path.bytes
  xy :=
    match record with
    | .ordinary code .. => code.text
    | .renamed code .. => code.text
    | .unmerged code .. => code.text
    | .untracked _ => ['?', '?']
    | .ignored _ => ['!', '!']
  kind := record.kind
  submodule := record.submodule

/-- What `git status --untracked-files=all` prints of a repository: the
changes, the untracked paths and the unmerged ones.  Without `--ignored` it
passes over the ignored paths. -/
structure RecordsOf (repository : Repository) (records : List StatusRecord) :
    Prop where
  status : ∃ ignored : List GitStatusEntry,
    (∀ entry ∈ ignored, entry.kind = .ignored) ∧
      StatusOf repository.merged
        ((records.filter fun record => record.letter ≠ 'u').map entryOf ++
          ignored)
  unignored : ∀ record ∈ records, record.kind ≠ .ignored
  unmerged : ∀ path, repository.unmerged path = true ↔
    ∃ record ∈ records, record.letter = 'u' ∧
      Utf8.decode record.path.bytes = path

/-- The plan of `captureGitOverlaySnapshot`. -/
def overlayPlan (localeCompare : List Char → List Char → Ordering)
    (records : List StatusRecord) (policy : OverlaySourcePolicy)
    (options : PlanOptions) : Plan :=
  computeOverlayPlan localeCompare (parsePorcelainV2 (print records)) policy
    options

/-- A path is there when the plan has been applied to a checkout of `HEAD`. -/
def Overlaid (repository : Repository) (plan : Plan) (path : List Char) :
    Prop :=
  path ∈ plan.files ∨
    repository.copy.head path ≠ none ∧ path ∉ plan.deletions

/-- Both modes select the same paths. -/
def Agree (repository : Repository) (git : GitListings)
    (policy : OverlaySourcePolicy) (plan : Plan) : Prop :=
  ∀ path, path ∈ fullPaths repository git policy ↔
    Overlaid repository plan path

/-! ## When they agree -/

/-- Names that are read as they were printed: no path has a backslash or starts
with `./`, none that changed has a space, and none that is unmerged a tab. -/
structure PlainNames (repository : Repository)
    (records : List StatusRecord) : Prop where
  normal : ∀ path, repository.copy.head path ≠ none ∨
      repository.copy.index path ≠ none ∨ repository.copy.work path ≠ none →
    normalizeWirePath path = path
  spaceFree : ∀ record ∈ records, record.code ≠ none →
    ' ' ∉ Utf8.decode record.path.bytes
  tabFree : ∀ record ∈ records, record.letter = 'u' →
    '\t' ∉ Utf8.decode record.path.bytes

/-- Nothing is unmerged, no path that is changed in the index is missing, and
no pathspec of the policy names an ignored path. -/
structure Selects (repository : Repository)
    (pathspec : List (List Char) → List Char → Bool)
    (policy : OverlaySourcePolicy) : Prop where
  merged : ∀ path, repository.unmerged path = false
  exist : StagedFilesExist repository.copy
  unnamed : ∀ path, repository.copy.index path = none →
    repository.copy.work path ≠ none → repository.copy.ignored path = true →
    policy.includeIgnored = [] ∨ pathspec policy.includeIgnored path = false

/-! ## The entries of a status -/

/-- A record is read as the entry it is about, when nothing ends its path
early. -/
theorem readBack_eq_entryOf {record : StatusRecord}
    (merged : record.letter ≠ 'u')
    (spaceFree : record.code ≠ none →
      ' ' ∉ Utf8.decode record.path.bytes) :
    readBack record = entryOf record := by
  cases record with
  | ordinary code submodule modes names path =>
    have last := getLastD_splitOn_eq_iff.mpr
      (spaceFree (Option.some_ne_none code))
    change trackedEntry _ none = _
    rw [trackedEntry_lineText (by rfl) none, last]
    rfl
  | renamed code submodule modes names copied score path origPath =>
    have last := getLastD_splitOn_eq_iff.mpr
      (spaceFree (Option.some_ne_none code))
    change trackedEntry _ (some _) = _
    rw [trackedEntry_lineText (by rfl), last]
    rfl
  | unmerged => exact absurd rfl merged
  | untracked path =>
    change otherEntry _ _ _ = _
    rw [otherEntry_lineText (by rfl)]
    rfl
  | ignored path =>
    change otherEntry _ _ _ = _
    rw [otherEntry_lineText (by rfl)]
    rfl

theorem tab_notMem_header (record : StatusRecord) :
    '\t' ∉ record.header := by
  intro member
  rcases mem_header member with space | plain
  · exact absurd space (by decide)
  · exact plain.2.1 rfl

/-- The path of an unmerged record is lost. -/
theorem readBack_unmerged {record : StatusRecord}
    (unmerged : record.letter = 'u')
    (tabFree : '\t' ∉ Utf8.decode record.path.bytes) :
    readBack record = {
      path := [], origPath := none, xy := ['U', 'U'], kind := .tracked
      submodule := none } := by
  have line : '\t' ∉ lineText record := by
    intro member
    rcases List.mem_append.mp member with header | path
    · exact tab_notMem_header record header
    · exact tabFree path
  cases record with
  | unmerged =>
    change unmergedEntry _ = _
    unfold unmergedEntry
    rw [List.splitOn_eq_singleton line]
    rfl
  | ordinary => simp [StatusRecord.letter] at unmerged
  | renamed => simp [StatusRecord.letter] at unmerged
  | untracked => simp [StatusRecord.letter] at unmerged
  | ignored => simp [StatusRecord.letter] at unmerged

section Plans

variable {localeCompare : List Char → List Char → Ordering}
  {records : List StatusRecord} {policy : OverlaySourcePolicy}
  {options : PlanOptions} {path : List Char}

theorem mem_files_overlayPlan :
    path ∈ (overlayPlan localeCompare records policy options).files ↔
      ∃ record ∈ records,
        shipped policy options (readBack record) = some path := by
  unfold overlayPlan
  rw [mem_files_iff, parsePorcelainV2_print]
  simp

theorem mem_deletions_overlayPlan :
    path ∈ (overlayPlan localeCompare records policy options).deletions ↔
      (∃ record ∈ records,
          removed options (readBack record) = some path) ∧
        ∀ record ∈ records,
          shipped policy options (readBack record) ≠ some path := by
  unfold overlayPlan
  rw [mem_deletions_iff, parsePorcelainV2_print]
  simp

/-- The policy without its patterns for ignored paths. -/
def unnaming (policy : OverlaySourcePolicy) : OverlaySourcePolicy :=
  { policy with includeIgnored := [] }

/-- The patterns speak of ignored entries alone. -/
theorem shipped_unnaming {entry : GitStatusEntry}
    (seen : entry.kind ≠ .ignored) :
    shipped (unnaming policy) options entry = shipped policy options entry := by
  unfold shipped unnaming
  dsimp only
  split
  · rfl
  · cases kind : entry.kind with
    | tracked => rfl
    | untracked => rfl
    | ignored => exact absurd kind seen

end Plans

/-! ## The paths of both modes -/

/-- The policy selects a path outside the index in a full capture. -/
def Listed (repository : Repository)
    (pathspec : List (List Char) → List Char → Bool)
    (policy : OverlaySourcePolicy) (path : List Char) : Prop :=
  repository.copy.index path ≠ none ∨
    (repository.copy.ignored path = false ∧ policy.includeUntracked = true) ∨
    (repository.copy.ignored path = true ∧ policy.includeIgnored ≠ [] ∧
      pathspec policy.includeIgnored path = true)

section Modes

variable {repository : Repository}
  {pathspec : List (List Char) → List Char → Bool} {git : GitListings}
  {records : List StatusRecord} {policy : OverlaySourcePolicy}
  {options : PlanOptions} {path : List Char}
  {localeCompare : List Char → List Char → Ordering}

/-- What the commands of a full capture list. -/
theorem mem_listing (lists : ListsOf repository pathspec git) :
    path ∈ git.tracked ++ (if policy.includeUntracked then git.others else []) ++
        gitLsFilesOthersIgnored git policy.includeIgnored ↔
      repository.copy.index path ≠ none ∨
        repository.copy.index path = none ∧ repository.copy.work path ≠ none ∧
          Listed repository pathspec policy path := by
  unfold gitLsFilesOthersIgnored Listed
  rw [List.mem_append, List.mem_append, lists.tracked]
  by_cases untracked : policy.includeUntracked = true <;>
    by_cases none_ : policy.includeIgnored = []
  · simp only [untracked, none_, if_true, lists.others, List.not_mem_nil]
    tauto
  · simp only [untracked, none_, if_true, if_false, lists.others,
      lists.othersIgnored]
    tauto
  · simp only [untracked, none_, if_true, List.not_mem_nil]
    tauto
  · simp only [untracked, none_, if_false, lists.othersIgnored]
    tauto

/-- What a full capture ships is in the working tree and listed. -/
theorem mem_fullPaths (lists : ListsOf repository pathspec git)
    (plain : PlainNames repository records) :
    path ∈ fullPaths repository git policy ↔
      repository.copy.work path ≠ none ∧
        Listed repository pathspec policy path := by
  unfold fullPaths enumerateFullSourcePaths
  dsimp only
  rw [List.mem_filter, decide_eq_true_eq, List.mem_insertionSort,
    List.mem_map, and_comm]
  refine and_congr_right fun there => ?_
  constructor
  · rintro ⟨other, listed, rfl⟩
    rw [List.mem_eraseDups, mem_listing lists] at listed
    rcases listed with staged | ⟨-, inWork, listed⟩
    · rw [plain.normal other (.inr (.inl staged))]
      exact .inl staged
    · rw [plain.normal other (.inr (.inr inWork))]
      exact listed
  · intro listed
    refine ⟨path, ?_, plain.normal path (.inr (.inr there))⟩
    rw [List.mem_eraseDups, mem_listing lists]
    by_cases staged : repository.copy.index path = none
    · exact .inr ⟨staged, there, listed⟩
    · exact .inl staged

/-- The paths of an entry are those of a tree. -/
theorem plain_of_reports (plain : PlainNames repository records)
    {entry : GitStatusEntry} (reports : Reports repository.copy entry) :
    normalizeWirePath entry.path = entry.path ∧
      ∀ source ∈ entry.origPath, normalizeWirePath source = source := by
  cases reports with
  | ordinary path changed =>
    refine ⟨plain.normal path ?_, by rintro _ ⟨⟩⟩
    by_contra absent
    simp only [not_or, not_not] at absent
    obtain ⟨head, index, work⟩ := absent
    unfold WorkingCopy.indexChange WorkingCopy.worktreeChange at changed
    rw [head, index, if_pos rfl] at changed
    simp [changeOf] at changed
  | renamed path source fresh staged old gone named =>
    refine ⟨plain.normal path (.inr (.inl staged)), ?_⟩
    rintro _ ⟨⟩
    exact plain.normal source (.inl old)
  | copied path source fresh staged old changed named =>
    refine ⟨plain.normal path (.inr (.inl staged)), ?_⟩
    rintro _ ⟨⟩
    exact plain.normal source (.inl old)
  | untracked path unknown there seen =>
    exact ⟨plain.normal path (.inr (.inr there)), by rintro _ ⟨⟩⟩
  | ignored path unknown there passed =>
    exact ⟨plain.normal path (.inr (.inr there)), by rintro _ ⟨⟩⟩

theorem kind_readBack (record : StatusRecord) :
    (readBack record).kind = record.kind := by
  cases record <;> rfl

/-- An ignored entry that no pattern names ships nothing. -/
theorem shipped_ignored (stages : StagesOf repository.copy options)
    {entry : GitStatusEntry} (reports : Reports repository.copy entry)
    (ignored : entry.kind = .ignored) :
    shipped (unnaming policy) options entry = none := by
  cases reports with
  | ignored path unknown there passed =>
    unfold shipped
    dsimp only
    rw [isGitlinkMode_eq_false stages (.inl rfl)]
    rfl
  | ordinary => cases ignored
  | renamed => cases ignored
  | copied => cases ignored
  | untracked => cases ignored

theorem removed_ignored (stages : StagesOf repository.copy options)
    {entry : GitStatusEntry} (reports : Reports repository.copy entry)
    (ignored : entry.kind = .ignored) : removed options entry = none := by
  cases reports with
  | ignored path unknown there passed =>
    unfold removed
    dsimp only
    rw [isGitlinkMode_eq_false stages (.inl rfl)]
    rfl
  | ordinary => cases ignored
  | renamed => cases ignored
  | copied => cases ignored
  | untracked => cases ignored

section WithIgnored

variable {ignored : List GitStatusEntry}
  (reported : RecordsOf repository records)
  (stages : StagesOf repository.copy options)
  (areIgnored : ∀ entry ∈ ignored, entry.kind = .ignored)
  (status : StatusOf repository.copy (records.map readBack ++ ignored))
include reported stages areIgnored status

theorem shipped_iff_unnaming :
    (∃ record ∈ records,
        shipped policy options (readBack record) = some path) ↔
      ∃ entry ∈ records.map readBack ++ ignored,
        shipped (unnaming policy) options entry = some path := by
  have same : ∀ record ∈ records,
      shipped (unnaming policy) options (readBack record) =
        shipped policy options (readBack record) := by
    intro record member
    apply shipped_unnaming
    rw [kind_readBack]
    exact reported.unignored record member
  constructor
  · rintro ⟨record, member, ships⟩
    exact ⟨readBack record, List.mem_append_left _
      (List.mem_map_of_mem member), (same record member).trans ships⟩
  · rintro ⟨entry, member, ships⟩
    rcases List.mem_append.mp member with listed | passed
    · obtain ⟨record, isRecord, rfl⟩ := List.mem_map.mp listed
      exact ⟨record, isRecord, (same record isRecord).symm.trans ships⟩
    · rw [shipped_ignored stages (status.reports entry member)
        (areIgnored entry passed)] at ships
      cases ships

omit reported in
theorem removed_iff_unnaming :
    (∃ record ∈ records, removed options (readBack record) = some path) ↔
      ∃ entry ∈ records.map readBack ++ ignored,
        removed options entry = some path := by
  constructor
  · rintro ⟨record, member, removes⟩
    exact ⟨readBack record, List.mem_append_left _
      (List.mem_map_of_mem member), removes⟩
  · rintro ⟨entry, member, removes⟩
    rcases List.mem_append.mp member with listed | passed
    · obtain ⟨record, isRecord, rfl⟩ := List.mem_map.mp listed
      exact ⟨record, isRecord, removes⟩
    · rw [removed_ignored stages (status.reports entry member)
        (areIgnored entry passed)] at removes
      cases removes

/-- The plan is that of the whole status, for a policy without patterns. -/
theorem overlaid_iff_unnaming :
    Overlaid repository (overlayPlan localeCompare records policy options)
        path ↔
      Overlaid repository (computeOverlayPlan localeCompare
        (records.map readBack ++ ignored) (unnaming policy) options) path := by
  unfold Overlaid
  rw [mem_files_overlayPlan, mem_deletions_overlayPlan, mem_files_iff,
    mem_deletions_iff,
    removed_iff_unnaming stages areIgnored status,
    ← shipped_iff_unnaming reported stages areIgnored status]
  have unshipped :
      (¬ ∃ record ∈ records,
          shipped policy options (readBack record) = some path) ↔
        ¬ ∃ entry ∈ records.map readBack ++ ignored,
          shipped (unnaming policy) options entry = some path :=
    not_congr (shipped_iff_unnaming reported stages areIgnored status)
  simp only [not_exists, not_and] at unshipped
  rw [unshipped]

end WithIgnored

section Merged

variable (unmerged : ∀ path, repository.unmerged path = false)
include unmerged

theorem merged_eq_copy : repository.merged = repository.copy := by
  unfold Repository.merged
  have shown : ∀ tree, repository.hide tree = tree := by
    intro tree
    funext path
    exact if_neg (by rw [unmerged path]; exact Bool.false_ne_true)
  rw [shown, shown, shown]

/-- The status of a repository without unmerged paths, with the ignored paths
that Git passes over. -/
theorem exists_statusOf (reported : RecordsOf repository records)
    (plain : PlainNames repository records) :
    ∃ ignored : List GitStatusEntry,
      (∀ entry ∈ ignored, entry.kind = .ignored) ∧
        StatusOf repository.copy (records.map readBack ++ ignored) ∧
        PlainPaths (records.map readBack ++ ignored) := by
  obtain ⟨ignored, areIgnored, status⟩ := reported.status
  have none_ : ∀ record ∈ records, record.letter ≠ 'u' := by
    intro record member letter
    have isUnmerged := (reported.unmerged _).mpr ⟨record, member, letter, rfl⟩
    rw [unmerged] at isUnmerged
    cases isUnmerged
  have all : records.filter (fun record => record.letter ≠ 'u') = records :=
    List.filter_eq_self.mpr fun record member =>
      decide_eq_true (none_ record member)
  have read : records.map entryOf = records.map readBack :=
    List.map_congr_left fun record member =>
      (readBack_eq_entryOf (none_ record member)
        (plain.spaceFree record member)).symm
  rw [merged_eq_copy unmerged, all, read] at status
  exact ⟨ignored, areIgnored, status, fun entry member =>
    plain_of_reports plain (status.reports entry member)⟩

end Merged

/-- What is left of `HEAD` and the plan is what the policy wants. -/
theorem overlaid_iff_wanted (merged : ∀ path, repository.unmerged path = false)
    (exist : StagedFilesExist repository.copy)
    (reported : RecordsOf repository records)
    (stages : StagesOf repository.copy options)
    (plain : PlainNames repository records) :
    Overlaid repository (overlayPlan localeCompare records policy options)
        path ↔
      wanted (unnaming policy) repository.copy path ≠ none := by
  obtain ⟨ignored, areIgnored, status, plainPaths⟩ :=
    exists_statusOf merged reported plain
  rw [overlaid_iff_unnaming reported stages areIgnored status,
    ← @overlaid_eq_wanted repository.copy _ (unnaming policy) options
      localeCompare status stages plainPaths exist]
  unfold Overlaid overlaid
  split
  · rename_i inside
    obtain ⟨entry, member, ships⟩ := mem_files_iff.mp inside
    exact iff_of_true (.inl inside)
      (wanted_of_shipped status stages plainPaths exist member ships).1
  · rename_i outside
    split
    · rename_i gone
      simp [outside, gone]
    · rename_i kept
      simp [outside, kept]

theorem wanted_unnaming_iff :
    wanted (unnaming policy) repository.copy path ≠ none ↔
      repository.copy.work path ≠ none ∧
        (repository.copy.index path ≠ none ∨
          repository.copy.ignored path = false ∧
            policy.includeUntracked = true) := by
  unfold wanted includes unnaming
  by_cases staged : repository.copy.index path = none
  · cases repository.copy.ignored path <;>
      cases policy.includeUntracked <;> simp [staged]
  · simp [staged]

/-- Both modes select the same paths when the names are plain and nothing is
unmerged, missing or ignored and named. -/
theorem agree_of_selects (lists : ListsOf repository pathspec git)
    (reported : RecordsOf repository records)
    (stages : StagesOf repository.copy options)
    (plain : PlainNames repository records)
    (selects : Selects repository pathspec policy) :
    Agree repository git policy
      (overlayPlan localeCompare records policy options) := by
  intro path
  rw [mem_fullPaths lists plain,
    overlaid_iff_wanted selects.merged selects.exist reported stages plain,
    wanted_unnaming_iff]
  refine and_congr_right fun there => ?_
  unfold Listed
  constructor
  · rintro (staged | untracked | ⟨ignored, some_, named⟩)
    · exact .inl staged
    · exact .inr untracked
    · by_cases staged : repository.copy.index path = none
      · rcases selects.unnamed path staged there ignored with none_ | unnamed
        · exact absurd none_ some_
        · rw [named] at unnamed
          cases unnamed
      · exact .inl staged
  · rintro (staged | untracked)
    · exact .inl staged
    · exact .inr (.inl untracked)

/-- The plan ships an unmerged path under the empty name, which no full capture
ships. -/
theorem merged_of_agree (lists : ListsOf repository pathspec git)
    (reported : RecordsOf repository records)
    (stages : StagesOf repository.copy options)
    (plain : PlainNames repository records)
    (agree : Agree repository git policy
      (overlayPlan localeCompare records policy options)) (path : List Char) :
    repository.unmerged path = false := by
  by_contra isUnmerged
  rw [Bool.not_eq_false] at isUnmerged
  obtain ⟨record, member, letter, -⟩ := (reported.unmerged path).mp isUnmerged
  have rooted : [] ∈
      (overlayPlan localeCompare records policy options).files := by
    refine mem_files_overlayPlan.mpr ⟨record, member, ?_⟩
    rw [readBack_unmerged letter (plain.tabFree record member letter)]
    unfold shipped
    dsimp only
    rw [isGitlinkMode_eq_false stages (.inl rfl)]
    rfl
  have shipped := (agree []).mpr (.inl rooted)
  exact ((mem_fullPaths lists plain).mp shipped).1 repository.noRoot

/-- Without patterns no plan leaves an ignored path. -/
theorem not_overlaid_of_ignored {entries : List GitStatusEntry}
    (status : StatusOf repository.copy entries)
    (stages : StagesOf repository.copy options) (plain : PlainPaths entries)
    (outside : repository.copy.index path = none)
    (ignored : repository.copy.ignored path = true) :
    ¬ Overlaid repository
      (computeOverlayPlan localeCompare entries (unnaming policy) options)
      path := by
  have unshipped : ∀ entry ∈ entries,
      shipped (unnaming policy) options entry ≠ some path := by
    intro entry member ships
    rcases shipped_cases stages (status.reports entry member)
        (plain entry member).1 ships with ⟨staged, -⟩ | ⟨-, -, included⟩
    · exact staged outside
    · unfold includes at included
      rw [if_pos ignored] at included
      cases included
  rintro (inside | ⟨old, kept⟩)
  · obtain ⟨entry, member, ships⟩ := mem_files_iff.mp inside
    exact unshipped entry member ships
  · exact kept (mem_deletions_iff.mpr
      ⟨removed_of_gone status stages plain old outside, unshipped⟩)

/-- With plain names nothing else makes them agree. -/
theorem selects_of_agree (lists : ListsOf repository pathspec git)
    (reported : RecordsOf repository records)
    (stages : StagesOf repository.copy options)
    (plain : PlainNames repository records)
    (agree : Agree repository git policy
      (overlayPlan localeCompare records policy options)) :
    Selects repository pathspec policy := by
  have merged := merged_of_agree lists reported stages plain agree
  obtain ⟨ignored, areIgnored, status, plainPaths⟩ :=
    exists_statusOf merged reported plain
  refine ⟨merged, ?_, ?_⟩
  · intro path staged changed
    have ships : ∃ entry ∈ records.map readBack ++ ignored,
        shipped (unnaming policy) options entry = some path :=
      shipped_of_staged status stages plainPaths staged (.inl changed)
    have inside : Overlaid repository
        (overlayPlan localeCompare records policy options) path :=
      (overlaid_iff_unnaming reported stages areIgnored status).mpr
        (.inl (mem_files_iff.mpr ships))
    exact ((mem_fullPaths lists plain).mp ((agree path).mpr inside)).1
  · intro path outside there isIgnored
    by_contra named
    rw [not_or, Bool.not_eq_false] at named
    have listed : path ∈ fullPaths repository git policy :=
      (mem_fullPaths lists plain).mpr
        ⟨there, .inr (.inr ⟨isIgnored, named.1, named.2⟩)⟩
    have kept := (overlaid_iff_unnaming reported stages areIgnored status).mp
      ((agree path).mp listed)
    exact not_overlaid_of_ignored status stages plainPaths outside isIgnored
      kept

end Modes

/-! ## Repositories of one file -/

/-- A repository of one path, without conflicts. -/
def oneFileRepository (tracked work : Option Blob) (ignored : Bool) :
    Repository where
  copy := { oneFileCopy tracked tracked work with ignored := fun _ => ignored }
  unmerged := fun _ => false
  staged := fun _ unmerged => absurd unmerged Bool.false_ne_true
  noRoot := (if_neg nofun : oneFile work [] = none)

/-- A pathspec without a wildcard names one path. -/
def literally (patterns : List (List Char)) (path : List Char) : Bool :=
  path ∈ patterns

/-- A tracked file that was edited. -/
def edited : Repository :=
  oneFileRepository (some (fileOf [1])) (some (fileOf [2])) false

def editedListings : GitListings where
  tracked := [['a']]
  others := []
  othersIgnored := fun _ => []

def editedRecords : List StatusRecord :=
  [.ordinary { index := .unmodified, worktree := .modified } .notSubmodule
    (33188, 33188, 33188) ([Fin.last 15], [Fin.last 15])
    { bytes := [97], nulFree := by decide }]

theorem oneFile_ne_none {file : Option Blob} {path : List Char} :
    oneFile file path ≠ none ↔ path = ['a'] ∧ file ≠ none := by
  unfold oneFile
  by_cases named : path = ['a']
  · rw [if_pos named]
    exact (and_iff_right named).symm
  · rw [if_neg named]
    exact iff_of_false (fun there => there rfl) fun there => named there.1

theorem plain_oneFile {tracked work : Option Blob} {ignored : Bool}
    (path : List Char)
    (there : (oneFileRepository tracked work ignored).copy.head path ≠ none ∨
      (oneFileRepository tracked work ignored).copy.index path ≠ none ∨
      (oneFileRepository tracked work ignored).copy.work path ≠ none) :
    normalizeWirePath path = path := by
  have named : path = ['a'] := by
    rcases there with head | index | work
    · exact (oneFile_ne_none.mp head).1
    · exact (oneFile_ne_none.mp index).1
    · exact (oneFile_ne_none.mp work).1
  rw [named]
  rfl

/-- An ignored file that the policy names. -/
def namedIgnored : Repository :=
  oneFileRepository none (some (fileOf [1])) true

def namedListings : GitListings where
  tracked := []
  others := []
  othersIgnored := fun patterns => if ['a'] ∈ patterns then [['a']] else []

def namingPolicy : OverlaySourcePolicy where
  includeUntracked := true
  includeIgnored := [['a']]

theorem listsOf_namedIgnored :
    ListsOf namedIgnored literally namedListings := by
  have outside : ∀ path, namedIgnored.copy.index path = none := by
    intro path
    by_contra staged
    exact (oneFile_ne_none.mp staged).2 rfl
  refine ⟨?_, ?_, ?_⟩
  · intro path
    exact iff_of_false List.not_mem_nil fun staged => staged (outside path)
  · intro path
    refine iff_of_false List.not_mem_nil ?_
    rintro ⟨-, -, seen⟩
    cases seen
  · intro patterns path
    have there : namedIgnored.copy.work path ≠ none ↔ path = ['a'] :=
      oneFile_ne_none.trans (and_iff_left (Option.some_ne_none _))
    unfold namedListings literally
    dsimp only
    rw [there, decide_eq_true_eq]
    split
    · rename_i named
      rw [List.mem_singleton]
      constructor
      · rintro rfl
        exact ⟨⟨outside _, rfl, rfl⟩, named⟩
      · exact fun listed => listed.1.2.1
    · rename_i unnamed
      refine iff_of_false List.not_mem_nil fun listed => ?_
      exact unnamed (listed.1.2.1 ▸ listed.2)

/-- Git's status says nothing of an ignored path. -/
theorem recordsOf_namedIgnored : RecordsOf namedIgnored [] := by
  refine ⟨⟨[{ path := ['a'], origPath := none, xy := ['!', '!']
              kind := .ignored, submodule := none }], ?_, ?_⟩,
    fun _ member => absurd member List.not_mem_nil, ?_⟩
  · intro entry member
    rw [List.mem_singleton.mp member]
  · rw [merged_eq_copy fun _ => rfl]
    refine ⟨?_, ?_, ?_⟩
    · intro entry member
      rw [List.mem_singleton.mp member]
      exact .ignored ['a'] rfl (Option.some_ne_none _) rfl
    · intro path differs
      exfalso
      have outside : oneFile none path = none := by
        by_contra staged
        exact (oneFile_ne_none.mp staged).2 rfl
      rcases differs with index | worktree
      · exact index (changeOf_eq_unmodified.mpr rfl)
      · exact worktree (if_pos outside)
    · intro path _ there
      exact ⟨_, List.mem_cons_self, (oneFile_ne_none.mp there).1.symm, rfl⟩
  · intro path
    refine iff_of_false Bool.false_ne_true ?_
    rintro ⟨record, member, -⟩
    cases member

theorem plainNames_namedIgnored : PlainNames namedIgnored [] where
  normal := plain_oneFile
  spaceFree := fun _ member => absurd member List.not_mem_nil
  tabFree := fun _ member => absurd member List.not_mem_nil

end Rbo.Snapshot.SourceSelection
