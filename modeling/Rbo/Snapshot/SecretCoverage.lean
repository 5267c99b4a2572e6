import Rbo.Snapshot.Capture

/-!
# The secret policy and the archive

The policy is evaluated on the path of a file inside its own root.  For a
project file that path is also the archive path.  A file of an additional root
is archived under the mount of the root, and its match is reported there, but
the mount takes no part in the match: a file that is on the denylist because
of its mount is archived without a warning and without being blocked.
-/

namespace Rbo.Snapshot.SecretCoverage

open Rbo.Foundation
open Rbo.Foundation.FileTree
open Rbo.Foundation.Results
open Rbo.Snapshot.SecretPolicy
open Rbo.Snapshot.Capture

/-- No file or link of the archive is on the denylist when the policy blocks,
and each that is on it is listed under its archive path when it warns. -/
structure PolicyCovers (secretPolicy : SecretPolicyMode)
    (result : CaptureResult) : Prop where
  block : secretPolicy = .block →
    ∀ written ∈ result.archive, written.1.content ≠ .directory →
      ¬ Denied written.1.path
  warn : secretPolicy = .warn →
    ∀ written ∈ result.archive, written.1.content ≠ .directory →
      Denied written.1.path →
      ∃ warning ∈ result.secretWarnings, warning.path = written.1.path

/-- The paths that a capture with this input evaluates: the path that is
matched, the archive path, and the path that a match is reported under. -/
inductive Checked (useOverlay : Bool) (files : FileSystem)
    (input : CaptureInput) :
    List Char → List Char → List Char → Prop where
  | project {wirePath : List Char} :
      wirePath ∈ projectPaths useOverlay files input →
      Checked useOverlay files input wirePath wirePath
        (normalizeSecretPath wirePath)
  | additional {root : AdditionalRoot} {relPaths : List (List Char)}
      {relPath : List Char} :
      root ∈ input.additionalRoots →
      enumerateAdditionalRootPaths files root = .ok relPaths →
      relPath ∈ relPaths →
      Checked useOverlay files input relPath
        (archivePath useOverlay root relPath)
        (archivePath useOverlay root relPath)

/-- Whenever an archive path is on the denylist, some path that is reported
under it is matched and on the denylist as well. -/
def MatchedAsArchived (useOverlay : Bool) (files : FileSystem)
    (input : CaptureInput) : Prop :=
  ∀ checked archived reported,
    Checked useOverlay files input checked archived reported →
    Denied archived →
    ∃ other otherArchived,
      Checked useOverlay files input other otherArchived archived ∧
      Denied other

/-! ## What a captured file reports -/

/-- The file reports the matches of one path under another. -/
structure Reports (secretPolicy : SecretPolicyMode)
    (checked reported : List Char) (file : CapturedFile) : Prop where
  entry : file.tarEntry.content ≠ .directory
  violations : secretPolicy = .block →
    (file.secretViolations = [] ↔ ¬ Denied checked)
  warnings : secretPolicy = .warn →
    ∀ warning, warning ∈ file.secretWarnings ↔
      warning.path = reported ∧
      warning.pattern ∈ defaultSecretDenylist ∧
      matchPattern checked warning.pattern = true

variable {useOverlay : Bool} {files : FileSystem} {input : CaptureInput}

variable {secretPolicy : SecretPolicyMode} {file : CapturedFile}

theorem CapturedAt.reports {repoRoot wirePath : List Char}
    (taken : CapturedAt files repoRoot wirePath secretPolicy file) :
    Reports secretPolicy wirePath (normalizeSecretPath wirePath) file := by
  refine ⟨?_, ?_, ?_⟩
  · rcases taken.content with ⟨content, _⟩ | ⟨⟨target, content⟩, _⟩
    · simp [content]
    · simp [content]
  · rintro rfl
    have checks : SecretPolicyMode.block ≠ .allow := by decide
    rw [taken.policy]
    exact findSecretPolicyViolations_eq_nil_iff checks
  · rintro rfl warning
    have checks : SecretPolicyMode.warn ≠ .allow := by decide
    rw [taken.policy]
    exact mem_findSecretPolicyViolations checks warning

variable {checked reported : List Char}

theorem Reports.underMount
    (reports : Reports secretPolicy checked reported file)
    (archived : List Char) :
    Reports secretPolicy checked archived (underMount archived file) := by
  refine ⟨reports.entry, ?_, ?_⟩
  · intro block
    rw [← reports.violations block]
    exact List.map_eq_nil_iff
  · intro warn warning
    have matched := reports.warnings warn
    change warning ∈ file.secretWarnings.map _ ↔ _
    rw [List.mem_map]
    constructor
    · rintro ⟨origin, member, rfl⟩
      obtain ⟨_, listed, passes⟩ := (matched origin).mp member
      exact ⟨rfl, listed, passes⟩
    · rintro ⟨same, listed, passes⟩
      refine ⟨{ warning with path := reported },
        (matched _).mpr ⟨rfl, listed, passes⟩, ?_⟩
      rw [← same]

/-! ## Captured files and evaluated paths -/

variable {result : CaptureResult} {project : List CapturedFile}

theorem checked_of_captured
    (collected : Collected useOverlay files input result project)
    (member : file ∈ allCaptured project result) :
    ∃ checked reported,
      Checked useOverlay files input checked file.tarEntry.path reported ∧
      Reports input.secretPolicy checked reported file := by
  rcases List.mem_append.mp member with inProject | inRoots
  · obtain ⟨wirePath, listed, taken⟩ :=
      exists_left_of_mem collected.fromProject inProject
    refine ⟨wirePath, normalizeSecretPath wirePath, ?_,
      CapturedAt.reports taken⟩
    rw [taken.path]
    exact .project listed
  · obtain ⟨answer, answered, inside⟩ := List.mem_flatMap.mp inRoots
    obtain ⟨root, rootMember, taken⟩ :=
      exists_left_of_mem collected.fromRoots answered
    obtain ⟨realSource, relPaths, _, listed, paths⟩ := taken.collected
    obtain ⟨relPath, relMember, _, base, at_, rfl⟩ :=
      exists_left_of_mem paths inside
    exact ⟨relPath, _, .additional rootMember listed relMember,
      (CapturedAt.reports at_).underMount _⟩

theorem captured_of_checked
    (collected : Collected useOverlay files input result project)
    {archived : List Char}
    (evaluated : Checked useOverlay files input checked archived reported) :
    ∃ file ∈ allCaptured project result,
      file.tarEntry.path = archived ∧
      Reports input.secretPolicy checked reported file := by
  cases evaluated with
  | project listed =>
    obtain ⟨file, member, taken⟩ :=
      exists_right_of_mem collected.fromProject listed
    exact ⟨file, List.mem_append_left _ member, taken.path,
      CapturedAt.reports taken⟩
  | additional rootMember listed relMember =>
    obtain ⟨answer, answered, taken⟩ :=
      exists_right_of_mem collected.fromRoots rootMember
    obtain ⟨realSource, relPaths, _, listedAgain, paths⟩ := taken.collected
    rw [listed] at listedAgain
    cases listedAgain
    obtain ⟨file, member, _, base, at_, rfl⟩ :=
      exists_right_of_mem paths relMember
    refine ⟨_, List.mem_append_right _
      (List.mem_flatMap.mpr ⟨answer, answered, member⟩), rfl, ?_⟩
    exact (CapturedAt.reports at_).underMount _

theorem Reports.denied_of_warning {warning : SecretPolicyViolation}
    (reports : Reports secretPolicy checked reported file)
    (warn : secretPolicy = .warn) (member : warning ∈ file.secretWarnings) :
    warning.path = reported ∧ Denied checked := by
  obtain ⟨same, listed, passes⟩ := (reports.warnings warn warning).mp member
  exact ⟨same, warning.pattern, listed, passes⟩

theorem Reports.exists_warning
    (reports : Reports secretPolicy checked reported file)
    (warn : secretPolicy = .warn) (denied : Denied checked) :
    ∃ warning ∈ file.secretWarnings, warning.path = reported := by
  obtain ⟨pattern, listed, passes⟩ := denied
  exact ⟨{ path := reported, pattern := pattern },
    (reports.warnings warn _).mpr ⟨rfl, listed, passes⟩, rfl⟩

/-! ## When the policy covers the archive -/

/-- Under a blocking policy nothing on the denylist was matched. -/
theorem not_denied_of_block
    (collected : Collected useOverlay files input result project)
    (block : input.secretPolicy = .block) {archived : List Char}
    (evaluated : Checked useOverlay files input checked archived reported) :
    ¬ Denied checked := by
  obtain ⟨file, member, _, reports⟩ := captured_of_checked collected evaluated
  rw [← reports.violations block]
  exact List.flatMap_eq_nil_iff.mp collected.violations file member

theorem covers_of_matchedAsArchived
    (collected : Collected useOverlay files input result project)
    (matched : input.secretPolicy ≠ .allow →
      MatchedAsArchived useOverlay files input) :
    PolicyCovers input.secretPolicy result := by
  constructor
  · intro block written member content denied
    obtain ⟨file, fileMember, same⟩ :=
      (mem_archive_iff collected content).mp ⟨written, member, rfl⟩
    obtain ⟨checked, reported, evaluated, _⟩ :=
      checked_of_captured collected fileMember
    rw [same] at evaluated
    obtain ⟨other, otherArchived, otherEvaluated, otherDenied⟩ :=
      matched (by rw [block]; decide) _ _ _ evaluated denied
    exact not_denied_of_block collected block otherEvaluated otherDenied
  · intro warn written member content denied
    obtain ⟨file, fileMember, same⟩ :=
      (mem_archive_iff collected content).mp ⟨written, member, rfl⟩
    obtain ⟨checked, reported, evaluated, _⟩ :=
      checked_of_captured collected fileMember
    rw [same] at evaluated
    obtain ⟨other, otherArchived, otherEvaluated, otherDenied⟩ :=
      matched (by rw [warn]; decide) _ _ _ evaluated denied
    obtain ⟨otherFile, otherMember, _, reports⟩ :=
      captured_of_checked collected otherEvaluated
    obtain ⟨warning, inside, path⟩ := reports.exists_warning warn otherDenied
    refine ⟨warning, ?_, path⟩
    rw [collected.warnings]
    exact List.mem_flatMap.mpr ⟨otherFile, otherMember, inside⟩

theorem matchedAsArchived_of_covers
    (collected : Collected useOverlay files input result project)
    (covers : PolicyCovers input.secretPolicy result)
    (checks : input.secretPolicy ≠ .allow) :
    MatchedAsArchived useOverlay files input := by
  intro checked archived reported evaluated denied
  obtain ⟨file, member, rfl, reports⟩ :=
    captured_of_checked collected evaluated
  obtain ⟨written, inside, same⟩ :=
    (mem_archive_iff collected reports.entry).mpr ⟨file, member, rfl⟩
  rw [← same] at denied ⊢
  have content : written.1.content ≠ .directory := same ▸ reports.entry
  cases policy : input.secretPolicy with
  | allow => exact absurd policy checks
  | block => exact absurd denied (covers.block policy written inside content)
  | warn =>
    obtain ⟨warning, listed, path⟩ :=
      covers.warn policy written inside content denied
    rw [collected.warnings] at listed
    obtain ⟨other, otherMember, warned⟩ := List.mem_flatMap.mp listed
    obtain ⟨otherChecked, otherReported, otherEvaluated, otherReports⟩ :=
      checked_of_captured collected otherMember
    obtain ⟨reportedPath, otherDenied⟩ :=
      otherReports.denied_of_warning policy warned
    rw [← path, reportedPath]
    exact ⟨otherChecked, _, otherEvaluated, otherDenied⟩

/-- The policy covers the archive of a successful capture exactly when each
archive path on the denylist is reported for a matched path on the denylist;
and a match of a denylist pattern is stable under nesting exactly when it does
not rest on where the path starts. -/
theorem secretPolicy_covers_iff
    (success : captureSnapshot useOverlay files input = .ok result) :
    (PolicyCovers input.secretPolicy result ↔
      (input.secretPolicy ≠ .allow →
        MatchedAsArchived useOverlay files input)) ∧
    ∀ pattern ∈ defaultSecretDenylist, ∀ path,
      matchPattern path pattern = true →
        (MatchesNested path pattern ↔ MatchesBelow path pattern) := by
  obtain ⟨project, collected⟩ := captureSnapshot_eq_ok success
  refine ⟨⟨?_, covers_of_matchedAsArchived collected⟩, ?_⟩
  · intro covers checks
    exact matchedAsArchived_of_covers collected covers checks
  · intro pattern listed path passes
    exact matchesNested_iff listed passes

/-! ## A mount on the denylist -/

/-- A project with a `.env` file, and a directory beside it. -/
def sampleFiles : FileSystem where
  entries :=
    [("home".toList, .directory
      [("repo".toList, .directory
        [(".env".toList, .file false [1]), ("main.c".toList, .file false [2])]),
       ("cloud".toList, .directory [("config".toList, .file false [3])])])]
  workingDirectory := []
  workingDirectory_resolved := resolved_nil

/-- A capture that mounts the directory beside the project. -/
def sampleInput (secretPolicy : SecretPolicyMode)
    (wirePaths : List (List Char)) (mountPath : List Char) : CaptureInput where
  repoRoot := "/home/repo".toList
  allowedProjectRoots := ["/home".toList]
  secretPolicy := secretPolicy
  additionalRoots :=
    [{ sourcePath := "/home/cloud".toList, mountPath := mountPath,
       include_ := ["**/*".toList], exclude := [] }]
  mainMount := "project".toList
  wirePaths := wirePaths
  stageModes := fun _ => none
  emptyDirectories := []
  toLowerCase := fun text => text.map Char.toLower
  otherChecks := fun _ => .ok ()

theorem secretPolicy_covers_iff_sample :
    ∃ result,
      captureSnapshot false sampleFiles
          (sampleInput .warn [".env".toList, "main.c".toList] "lib".toList) =
        .ok result ∧
      result.secretWarnings =
        [{ path := ".env".toList, pattern := ".env".toList }] ∧
      (PolicyCovers .warn result ↔
        (SecretPolicyMode.warn ≠ .allow →
          MatchedAsArchived false sampleFiles
            (sampleInput .warn [".env".toList, "main.c".toList]
              "lib".toList))) := by
  have checked :
      (captureSnapshot false sampleFiles
          (sampleInput .warn [".env".toList, "main.c".toList]
            "lib".toList)).toOption.any
        (fun result => result.secretWarnings =
          [{ path := ".env".toList, pattern := ".env".toList }]) = true := by
    decide +kernel
  obtain ⟨result, captured, warnings⟩ := exists_ok_of_any checked
  exact ⟨result, captured, by simpa using warnings,
    (secretPolicy_covers_iff captured).1⟩

/-- A file mounted under `.aws` is archived although the policy blocks, and the
pattern for that directory does not match it below another directory. -/
theorem mounted_secret_archived :
    (∃ result,
      captureSnapshot false sampleFiles
          (sampleInput .block ["main.c".toList] ".aws".toList) =
        .ok result ∧
      ¬ PolicyCovers .block result) ∧
    matchPattern ".aws".toList ".aws/".toList = true ∧
    matchPattern "x/.aws".toList ".aws/".toList = false := by
  refine ⟨?_, by decide +kernel, by decide +kernel⟩
  have checked :
      (captureSnapshot false sampleFiles
          (sampleInput .block ["main.c".toList] ".aws".toList)).toOption.any
        (fun result => result.archive.any fun written =>
          written.1.content ≠ .directory && Denied written.1.path) = true := by
    decide +kernel
  obtain ⟨result, captured, archived⟩ := exists_ok_of_any checked
  refine ⟨result, captured, ?_⟩
  intro covers
  obtain ⟨written, member, denied⟩ := List.any_eq_true.mp archived
  rw [Bool.and_eq_true, decide_eq_true_iff, decide_eq_true_iff] at denied
  exact covers.block rfl written member denied.1 denied.2

end Rbo.Snapshot.SecretCoverage
