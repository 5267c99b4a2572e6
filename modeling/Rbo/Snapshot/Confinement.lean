import Rbo.Foundation.Descent
import Rbo.Snapshot.Containment
import Rbo.Snapshot.Materialize

/-!
# Materialization stays in the workspace

Materialization should change nothing outside the workspace, and the links
that it makes should not lead out of it.

The checks compare the text of a path and the real path of its directory.  A
write follows a link that lies at the path itself, a deletion follows links
above its path, and the target of a link is resolved by its text only while
nothing is there.  So materialization stays in the workspace as long as no
link on the way climbs out of it.
-/

namespace Rbo.Snapshot.Confinement

open Rbo.Foundation
open Rbo.Foundation.Effect
open Rbo.Foundation.FileTree
open Rbo.Foundation.FileCalls
open Rbo.Foundation.Descent
open Rbo.Snapshot.Archive (ParsedTarEntry)
open Rbo.Snapshot.SecretPolicy (forwardSlashes)
open Rbo.Snapshot.Capture (isSafeRelativePath isPathContained isUnsafePiece)
open Rbo.Snapshot.Materialize

/-! ## What was changed where -/

/-- A run of one of the two programs. -/
inductive Materialization where
  | full (input : MaterializeFullSnapshotInput)
  | overlay (input : ApplyGitOverlayInput)

/-- A host before anything was changed. -/
def untouched (entries : List (Name × Node)) : Host :=
  { tree := .directory entries, changes := [] }

namespace Materialization

variable (tools : Tools) (run : Materialization) (entries : List (Name × Node))

/-- The workspace root, and the host once it is there. -/
def opened : Except Failure Location × Host :=
  match run with
  | .full input => (openWorkspace input.workspaceRoot).ended (untouched entries)
  | .overlay input =>
    (realpath (pieces input.workspaceRoot) : Work Location).ended
      (untouched entries)

/-- The host when the run is over, whether it failed or not. -/
def after : Host :=
  match run with
  | .full input =>
    ((materializeFullSnapshot tools input).ended (untouched entries)).2
  | .overlay input =>
    ((applyGitOverlay tools input).ended (untouched entries)).2

/-- What the run changed, apart from making the workspace root. -/
def made : List Change :=
  (run.after tools entries).changes.drop (run.opened entries).2.changes.length

end Materialization

/-- Every object that was created, overwritten, deleted or given a mode lies
below the root, and every link that was created leads below it or nowhere. -/
structure ConfinedTo (root : Location) (made : List Change) (tree : Node) :
    Prop where
  inside : ∀ change ∈ made, root <+: change.place
  links : ∀ change ∈ made, ∀ target, change.act = .link target →
    ∀ place, follow tree change.place = .ok place → root <+: place.location

/-- No link on the way to a changed object, or from a created link to where
it leads, climbs out of the root. -/
structure NoneClimbsOut (root : Location) (made : List Change)
    (tree : Node) : Prop where
  ways : LinksStay root made
  ends : ∀ change ∈ made, ∀ target, change.act = .link target →
    ∀ place, follow tree change.place = .ok place →
    ∀ link ∈ place.links, StaysBelow root link

/-- Changes that are confined as the calls confine them. -/
theorem ConfinedTo.of_confined {root : Location} {made : List Change}
    {tree : Node} (confined : Confined root made tree)
    (none_ : NoneClimbsOut root made tree) :
    ConfinedTo root made tree := by
  refine ⟨fun change member => ?_, fun change member target is place leads => ?_⟩
  · obtain ⟨names, shape, -⟩ := confined.under change member
    exact ⟨names, shape.symm⟩
  · have below := under_of_reach confined.rooted confined.resolved
      (confined.under change member) leads
    obtain ⟨names, shape, -⟩ :=
      below.2 (none_.ends change member target is place leads)
    exact ⟨names, shape.symm⟩

/-! ## Paths of the programs -/

/-- A path that lies strictly below the root. -/
def StrictlyUnder (root path : Location) : Prop :=
  ∃ names, path = root ++ names ∧ names ≠ [] ∧ ['.', '.'] ∉ names

variable {root path location : Location} {before : List Change}
  {answers : Unit → Prop}

theorem StrictlyUnder.under (strictly : StrictlyUnder root path) :
    Under root path := by
  obtain ⟨names, rfl, -, down⟩ := strictly
  exact ⟨names, rfl, down⟩

theorem StrictlyUnder.below {names : List Name} (under : Under root location)
    (nonempty : names ≠ []) (down : ['.', '.'] ∉ names) :
    StrictlyUnder root (location ++ names) := by
  obtain ⟨above, rfl, others⟩ := under
  refine ⟨above ++ names, List.append_assoc _ _ _, ?_, ?_⟩
  · simp [nonempty]
  · rw [List.mem_append, not_or]
    exact ⟨others, down⟩

/-- A safe path is resolved by appending its pieces. -/
theorem resolve_safe {path : List Char} (safe : isSafeRelativePath path = true) :
    resolve location path = location ++ pieces path ∧
      pieces path ≠ [] ∧ ['.', '.'] ∉ pieces path := by
  have ordinary : ∀ name ∈ pieces path, isUnsafePiece name = false :=
    fun name member => Containment.isUnsafePiece_of_mem_pieces safe member
  refine ⟨?_, List.splitOn_ne_nil _ _, fun member =>
    absurd (ordinary _ member) (by decide)⟩
  have relative : isAbsolute path = false := by
    rw [Bool.eq_false_iff]
    intro absolute
    cases path with
    | nil => cases absolute
    | cons first rest =>
      obtain rfl : first = '/' := by simpa [isAbsolute] using absolute
      exact absurd (ordinary [] (Containment.nil_mem_pieces_of_slash rest))
        (by decide)
  have appended :
      normalizePieces false location (pieces path ++ []) =
        normalizePieces false (location ++ pieces path) [] :=
    Containment.normalizePieces_append false location [] ordinary
  unfold resolve startOf
  rw [relative, if_neg Bool.false_ne_true, ← List.append_nil (pieces path),
    appended, List.append_nil]
  rfl

theorem strictlyUnder_resolve {path : List Char}
    (under : Under root location) (safe : isSafeRelativePath path = true) :
    StrictlyUnder root (resolve location path) := by
  obtain ⟨appended, nonempty, down⟩ := @resolve_safe location path safe
  rw [appended]
  exact StrictlyUnder.below under nonempty down

theorem StrictlyUnder.dropLast (strictly : StrictlyUnder root path) :
    Under root path.dropLast := by
  refine strictly.under.dropLast ?_
  obtain ⟨names, rfl, nonempty, -⟩ := strictly
  rw [List.length_append]
  exact Nat.lt_add_of_pos_right (List.length_pos_iff.mpr nonempty)

theorem keeps_call {call : Effect Host Failure Unit}
    (strictly : StrictlyUnder root path) (altering : Altering path call)
    (answered : answers ()) :
    Keeps (Confines root before) answers call := by
  obtain ⟨names, rfl, nonempty, down⟩ := strictly
  exact keeps_altering nonempty down altering answered

/-- A part that only reads. -/
theorem keeps_read {Answer : Type} {read : Host → Except Failure Answer} :
    Keeps (Confines root before) (fun _ => True) (reading read) :=
  keeps_reading fun _ _ _ _ => trivial

/-! ## The parts of the programs -/

/-- A check that throws, with what follows it. -/
theorem keeps_guard {Answer : Type} {condition : Prop}
    [Decidable condition] {failure : Failure}
    {rest : Work Answer} {answers : Answer → Prop}
    (passed : ¬ condition → Keeps (Confines root before) answers rest) :
    Keeps (Confines root before) answers
      (do
        if condition then
          throw failure
        rest) := by
  by_cases holds : condition
  · simp only [if_pos holds]
    have thrown :
        Keeps (Confines root before) (fun _ : PUnit => False)
          (throw failure : Work PUnit) := keeps_throw
    exact thrown.bind fun _ impossible => impossible.elim
  · simp only [if_neg holds]
    exact passed holds

theorem keeps_safeWritePath (relativePath : List Char)
    (under : Under root location) :
    Keeps (Confines root before) (StrictlyUnder root)
      (safeWritePath location relativePath) := by
  unfold safeWritePath
  refine keeps_guard fun safe => ?_
  have strictly : StrictlyUnder root (resolve location
      (forwardSlashes relativePath)) :=
    strictlyUnder_resolve under (by simpa using safe)
  refine keeps_guard fun _ => keeps_guard fun _ => ?_
  refine (keeps_makeDirectories strictly.dropLast trivial).bind
    fun _ (_ : True) => ?_
  refine keeps_read.bind fun _ _ => keeps_read.bind fun _ _ => ?_
  exact keeps_guard fun _ => keeps_pure strictly

theorem keeps_extractEntry {containRoot : Location} {entry : ParsedTarEntry}
    (strictly : StrictlyUnder root path) :
    Keeps (Confines root before) (fun _ => True)
      (extractEntry containRoot path entry) := by
  unfold extractEntry
  split
  · exact keeps_makeDirectories strictly.under trivial
  · refine keeps_guard fun _ => ?_
    have checked : Keeps (Confines root before) (fun _ => True)
        (assertSymlinkTargetContained containRoot path
          (entry.target.getD [])) := by
      unfold assertSymlinkTargetContained
      exact keeps_guard fun _ => keeps_guard fun _ => keeps_read
    refine checked.bind fun _ _ => ?_
    exact (keeps_call strictly (altering_symlink _ _) trivial).failingAs
  · refine (keeps_call strictly (altering_writeFile _ _) trivial).bind
      fun _ (_ : True) => ?_
    split
    · exact keeps_call strictly (altering_chmod _ _) trivial
    · exact keeps_pure trivial

theorem keeps_verifyFile {tools : Tools} {relativePath shownPath : List Char}
    {sha256 : List Char} {message : String} (under : Under root location) :
    Keeps (Confines root before) (fun _ => True)
      (verifyFile tools location relativePath shownPath sha256 message) := by
  unfold verifyFile
  refine (keeps_safeWritePath relativePath under).bind fun dest _ => ?_
  refine Keeps.bind keeps_read fun content _ => ?_
  exact keeps_guard fun _ => keeps_pure trivial

mutual

/-- The paths whose modes are changed lie below the directory. -/
theorem below_of_mem_readOnlyPaths {path : Location}
    {entries : List (Name × Node)} {item : Location × Int}
    (member : item ∈ readOnlyPaths path entries) :
    ∃ names, names ≠ [] ∧ item.1 = path ++ names := by
  match entries, member with
  | [], member =>
    rw [readOnlyPaths] at member
    cases member
  | entry :: rest, member =>
    rw [readOnlyPaths, List.mem_append] at member
    rcases member with here | later
    · exact below_of_mem_readOnlyEntry here
    · exact below_of_mem_readOnlyPaths later

theorem below_of_mem_readOnlyEntry {path : Location} {entry : Name × Node}
    {item : Location × Int} (member : item ∈ readOnlyEntry path entry) :
    ∃ names, names ≠ [] ∧ item.1 = path ++ names := by
  match entry, member with
  | (name, .directory entries), member =>
    rw [readOnlyEntry, List.mem_append, List.mem_singleton] at member
    rcases member with below | rfl
    · obtain ⟨names, -, at_⟩ := below_of_mem_readOnlyPaths below
      exact ⟨name :: names, by simp, by rw [at_, List.append_assoc]; rfl⟩
    · exact ⟨[name], by simp, rfl⟩
  | (name, .file executable content), member =>
    rw [readOnlyEntry, List.mem_singleton] at member
    exact ⟨[name], by simp, by rw [member]⟩
  | (name, .link target), member =>
    rw [readOnlyEntry, List.mem_singleton] at member
    exact ⟨[name], by simp, by rw [member]⟩

end

theorem keeps_applyReadOnlyTree (strictly : StrictlyUnder root path) :
    Keeps (Confines root before) (fun _ => True) (applyReadOnlyTree path) := by
  have protect : ∀ item : Location × Int, StrictlyUnder root item.1 →
      Keeps (Confines root before) (fun _ => True)
        (ignoring (chmod item.1 item.2)) := by
    intro item below
    have kept : Keeps (Confines root before) (fun _ => True)
        (chmod item.1 item.2) :=
      keeps_call below (altering_chmod _ _) trivial
    exact kept.ignoring trivial
  unfold applyReadOnlyTree
  refine Keeps.bind keeps_read fun entries _ => ?_
  refine Keeps.bind (keeps_forM trivial fun item member => ?_)
    fun _ (_ : True) => protect (path, 0o555) strictly
  rw [List.mem_filter] at member
  obtain ⟨names, nonempty, at_⟩ := below_of_mem_readOnlyPaths member.1
  have down : ['.', '.'] ∉ names := by
    have listed := member.2
    rw [isListed, at_, Bool.not_eq_true', List.contains_eq_mem,
      decide_eq_false_iff_not, List.mem_append, not_or] at listed
    exact listed.2
  refine protect item ?_
  rw [at_]
  exact StrictlyUnder.below strictly.under nonempty down

theorem keeps_protectRoots {roots : List SnapshotAdditionalRoot}
    (under : Under root location) :
    Keeps (Confines root before) (fun _ => True)
      (protectRoots location roots) := by
  refine keeps_forM trivial fun additional _ => ?_
  split
  · refine (keeps_safeWritePath _ under).bind fun mountPath strictly => ?_
    exact (keeps_applyReadOnlyTree strictly).ignoring trivial
  · exact keeps_pure trivial

theorem keeps_materializeInto {tools : Tools} {manifest : FullSnapshotManifest}
    {archiveData : List UInt8} :
    Keeps (Confines root before) (fun _ => True)
      (materializeInto tools manifest archiveData root) := by
  have self := under_self root
  unfold materializeInto
  refine (keeps_safeWritePath _ self).bind fun projectPath project => ?_
  refine (keeps_makeDirectories project.under trivial).bind
    fun _ (_ : True) => ?_
  refine Keeps.bind keeps_read fun entries _ => ?_
  refine Keeps.bind (keeps_forM trivial fun entry _ => ?_)
    fun _ (_ : True) => ?_
  · refine Keeps.bind keeps_read fun relative _ => ?_
    refine (keeps_safeWritePath _ self).bind fun dest strictly => ?_
    exact keeps_extractEntry strictly
  refine Keeps.bind (keeps_forM trivial fun emptyDir _ => ?_)
    fun _ (_ : True) => ?_
  · refine (keeps_safeWritePath _ self).bind fun dest strictly => ?_
    exact keeps_makeDirectories strictly.under trivial
  refine Keeps.bind (keeps_forM trivial fun file _ => ?_)
    fun _ (_ : True) => ?_
  · split
    · exact keeps_verifyFile self
    · exact keeps_pure trivial
  exact (keeps_protectRoots self).bind fun _ _ => keeps_pure trivial

theorem keeps_applyDeletion {deletion : List Char}
    (under : Under root location) :
    Keeps (Confines root before) (fun _ => True)
      (applyDeletion location deletion) := by
  unfold applyDeletion
  refine keeps_guard fun safe => keeps_guard fun _ => ?_
  exact keeps_call (strictlyUnder_resolve under (by simpa using safe))
    (altering_remove _) trivial

theorem keeps_applyEntry {manifest : GitOverlaySnapshotManifest}
    {entry : ParsedTarEntry} (under : Under root location) :
    Keeps (Confines root before) (fun _ => True)
      (applyEntry manifest root location entry) := by
  unfold applyEntry
  refine keeps_guard fun _ => keeps_guard fun _ => ?_
  have contained : ∀ containRoot, Under root containRoot →
      Keeps (Confines root before) (fun _ => True) (do
        let dest ← safeWritePath containRoot (Capture.normalizeWirePath entry.path)
        extractEntry containRoot dest entry) := by
    intro containRoot above
    refine (keeps_safeWritePath _ above).bind fun dest strictly => ?_
    exact keeps_extractEntry strictly
  refine contained _ ?_
  split
  · exact under_self root
  · exact under

theorem keeps_applyInto {tools : Tools} {manifest : GitOverlaySnapshotManifest}
    {archiveData : List UInt8} (under : Under root location) :
    Keeps (Confines root before) (fun _ => True)
      (applyInto tools manifest archiveData root location) := by
  unfold applyInto
  refine Keeps.bind (keeps_forM trivial fun deletion _ =>
    keeps_applyDeletion under) fun _ (_ : True) => ?_
  refine Keeps.bind keeps_read fun entries _ => ?_
  refine Keeps.bind (keeps_forM trivial fun entry _ =>
    keeps_applyEntry under) fun _ (_ : True) => ?_
  refine Keeps.bind (keeps_forM trivial fun emptyDir _ => ?_)
    fun _ (_ : True) => ?_
  · refine keeps_guard fun _ => ?_
    refine (keeps_safeWritePath _ under).bind fun dest strictly => ?_
    exact keeps_makeDirectories strictly.under trivial
  refine Keeps.bind (keeps_forM trivial fun file _ => ?_)
    fun _ (_ : True) => ?_
  · split
    · exact keeps_verifyFile under
    · exact keeps_pure trivial
  exact (keeps_protectRoots (under_self root)).bind
    fun _ _ => keeps_pure trivial

/-! ## The runs -/

/-- The root of the tree stays a directory. -/
def Rooted (host : Host) : Prop :=
  host.tree.look [] = some .directory

variable {host : Host}

theorem Rooted.alters {next : Host} (rooted : Rooted host)
    (alters : Alters path host next) :
    Rooted next := by
  have reached : ∀ {vacant : Bool} {place : Place},
      reach host.tree vacant FileSystem.maxLinks [] path = .ok place →
      Reached host.tree place.location := fun found =>
    (leads_of_reach found).reached rooted
      (reached_of_look rooted rooted nofun)
  cases alters with
  | nothing => exact rooted
  | entry act object found missing =>
    obtain ⟨parent, -, inside, rfl⟩ := entryPlace_eq_ok found
    exact look_nil_put rooted inside
  | content bytes found vacated =>
    obtain ⟨parent, name, at_, inside⟩ := (reached found).entry vacated
    change (host.tree.put _ _).look [] = _
    rw [at_]
    exact look_nil_put rooted inside
  | @mode place mode found =>
    change (withMode mode place.location host.tree).look [] = _
    unfold withMode
    split
    · rename_i present
      obtain ⟨parent, name, at_, inside⟩ :=
        (reached found).entry (by rw [present]; exact nofun)
      rw [at_]
      exact look_nil_put rooted inside
    · exact rooted
  | removal found =>
    obtain ⟨parent, -, inside, rfl⟩ := entryPlace_eq_ok found
    change (host.tree.erase _).look [] = _
    rw [Node.look_erase inside, if_neg (by simp)]
    exact rooted

/-- A host whose changes are confined, when no link climbs out. -/
def StaysInside (root : Location) (since : Nat) (host : Host) : Prop :=
  NoneClimbsOut root (host.changes.drop since) host.tree →
    ConfinedTo root (host.changes.drop since) host.tree

theorem staysInside_of_nil {since : Nat} (short : host.changes.length ≤ since) :
    StaysInside root since host := by
  intro _
  rw [List.drop_eq_nil_of_le short]
  exact ⟨nofun, nofun⟩

theorem staysInside_of_confines (confines : Confines root before host) :
    StaysInside root before.length host := by
  obtain ⟨made, shape, confined⟩ := confines
  intro none_
  rw [shape, List.drop_left] at none_ ⊢
  exact .of_confined (confined none_.ways) none_

/-- Where a run begins, nothing was changed yet. -/
theorem confines_start (rooted : Rooted host)
    (resolved : Resolved host.tree root) : Confines root host.changes host :=
  ⟨[], (List.append_nil _).symm, fun _ => ⟨rooted, resolved, nofun⟩⟩

theorem resolved_of_realpath {text : List Char} (real : answered (pieces text)
      ((follow host.tree (pieces text)).map (·.location)) = .ok root) :
    Resolved host.tree root := by
  have found := (answered_eq_ok.mp real).2
  cases followed : follow host.tree (pieces text) with
  | error errno =>
    rw [followed] at found
    cases found
  | ok place =>
    rw [followed] at found
    cases found
    exact resolved_of_follow (fun _ member => not_mem_of_mem_pieces member)
      followed

theorem ends_realpath {text : List Char} (rooted : Rooted host) :
    Ends (realpath (pieces text))
      (fun ending after => Rooted after ∧
        ∀ root, ending = .ok root → Resolved after.tree root) host :=
  ends_reading.mpr ⟨rooted, fun _ real => resolved_of_realpath real⟩

theorem ends_openWorkspace {text : List Char} (rooted : Rooted host) :
    Ends (openWorkspace text)
      (fun ending after => Rooted after ∧
        ∀ root, ending = .ok root → Resolved after.tree root) host := by
  have keeps : Keeps Rooted (fun _ => True) (makeDirectories (pieces text)) := by
    refine keeps_forM trivial fun above _ => ?_
    obtain ⟨change, same, alters⟩ :=
      altering_makeDirectory ((pieces text).take (above + 1))
    rw [same]
    exact keeps_changing trivial fun _ _ rooted made =>
      rooted.alters (alters _ _ made)
  refine ends_bind.mpr ((keeps host rooted).imp ?_)
  rintro ending after ⟨still, -⟩
  cases ending with
  | ok _ => exact ends_realpath still
  | error failure => exact ⟨still, nofun⟩

theorem rooted_untouched (entries : List (Name × Node)) :
    Rooted (untouched entries) :=
  rfl

theorem full_staysInside {tools : Tools} {input : MaterializeFullSnapshotInput}
    {entries : List (Name × Node)}
    (opened : ((openWorkspace input.workspaceRoot).ended
      (untouched entries)).1 = .ok root) :
    StaysInside root
      ((openWorkspace input.workspaceRoot).ended
        (untouched entries)).2.changes.length
      ((materializeFullSnapshot tools input).ended (untouched entries)).2 := by
  have start : Rooted _ ∧ ∀ root, _ = Except.ok root → Resolved _ root :=
    @ends_openWorkspace (untouched entries) input.workspaceRoot
      (rooted_untouched entries)
  change Ends (materializeFullSnapshot tools input)
    (fun _ host => StaysInside root _ host) (untouched entries)
  unfold materializeFullSnapshot
  rw [ends_bind, ends_reading]
  cases checkedSnapshot tools input.manifest input.archive
      (fun manifest => manifest.payloadSha256) "full snapshot"
      "Archive hash mismatch during materialization" with
  | error failure => exact staysInside_of_nil (Nat.zero_le _)
  | ok checked =>
    refine ends_bind.mpr ?_
    unfold Ends
    rw [opened]
    have begun := confines_start start.1 (start.2 root opened)
    exact (keeps_materializeInto _ begun).imp fun _ _ kept =>
      staysInside_of_confines kept.1

/-- A real path does not climb. -/
theorem keeps_realpath {text : List Char} :
    Keeps (Confines root before) (fun real => ['.', '.'] ∉ real)
      (realpath (pieces text)) := by
  refine keeps_reading fun host real _ found => ?_
  have resolved := resolved_of_realpath found
  intro member
  obtain ⟨above, below, shape⟩ := List.append_of_mem member
  exact (resolved above _ below shape).1.2.1 rfl

theorem overlay_staysInside {tools : Tools} {input : ApplyGitOverlayInput}
    {entries : List (Name × Node)}
    (opened : ((realpath (pieces input.workspaceRoot)).ended
      (untouched entries)).1 = .ok root) :
    StaysInside root
      ((realpath (pieces input.workspaceRoot)).ended
        (untouched entries)).2.changes.length
      ((applyGitOverlay tools input).ended (untouched entries)).2 := by
  change Ends (applyGitOverlay tools input)
    (fun _ host => StaysInside root 0 host) (untouched entries)
  unfold applyGitOverlay
  rw [ends_bind, ends_reading]
  cases checkedSnapshot tools input.manifest input.archive
      (fun manifest => manifest.payloadSha256) "git_overlay snapshot"
      "Overlay archive hash mismatch" with
  | error failure => exact staysInside_of_nil (Nat.le_refl _)
  | ok checked =>
    have applied : Keeps (Confines root []) (fun _ => True) (do
        let realProject ← realpath (pieces input.projectPath)
        if isPathContained root realProject = false then
          throw (rboError "materialization"
            "projectPath escapes workspaceRoot")
        applyInto tools checked.1 checked.2 root realProject) := by
      refine keeps_realpath.bind fun realProject down => ?_
      refine keeps_guard fun contained => keeps_applyInto ?_
      obtain ⟨names, rfl⟩ :=
        Containment.prefix_of_contained (by simpa using contained)
      rw [List.mem_append, not_or] at down
      exact ⟨names, rfl, down.2⟩
    refine ends_bind.mpr ?_
    unfold Ends
    rw [opened]
    have begun : Confines root [] (untouched entries) :=
      confines_start (rooted_untouched entries)
        (resolved_of_realpath opened)
    exact (applied _ begun).imp fun _ _ kept =>
      staysInside_of_confines kept.1

/-- As long as no link on the way climbs out of the workspace, every change
is made inside, and every link that is made leads inside. -/
theorem materialization_confined (tools : Tools) (run : Materialization)
    (entries : List (Name × Node)) (root : Location)
    (opened : (run.opened entries).1 = .ok root)
    (noneClimbsOut : NoneClimbsOut root (run.made tools entries)
      (run.after tools entries).tree) :
    ConfinedTo root (run.made tools entries)
      (run.after tools entries).tree := by
  cases run with
  | full input => exact full_staysInside opened noneClimbsOut
  | overlay input => exact overlay_staysInside opened noneClimbsOut

/-! ## A link inside and a link outside -/

section Samples

open Rbo.Snapshot.Archive (headerBytes blockPadding)

/-- A platform that stores an archive as it is and hashes nothing away. -/
def storing : Tools where
  sha256 bytes := bytes.map fun byte => Char.ofNat byte.toNat
  decompressTarZstd := some
  rounds := 2

def notes : List Char := ['n', 'o', 't', 'e', 's']

def linkArchive (target : List Char) : List UInt8 :=
  headerBytes notes [] target .symlink 0o120000 0 (List.replicate 8 0)

/-- An archive that holds one file of one byte. -/
def fileArchive : List UInt8 :=
  headerBytes notes [] [] .file 0o644 1 (List.replicate 8 0) ++ [1] ++
    blockPadding 1

/-- A full snapshot of one link. -/
def shippingLink : MaterializeFullSnapshotInput where
  manifest := .ok
    { mainMount := ['p'], mainMount_safe := by decide
      files := [.symlink notes], emptyDirectories := []
      additionalRoots := []
      payloadSha256 := storing.sha256 (linkArchive ['.']) }
  archive := .ok (linkArchive ['.'])
  workspaceRoot := ['/', 'w']

theorem materialization_confined_shippingLink :
    ConfinedTo [['w']]
      ((Materialization.full shippingLink).made storing [])
      ((Materialization.full shippingLink).after storing []).tree := by
  refine materialization_confined storing (.full shippingLink) [] [['w']]
    (by decide +kernel) ?_
  have made : (Materialization.full shippingLink).made storing [] =
      [⟨.makeDirectory, [['w'], ['p']], []⟩,
        ⟨.link ['.'], [['w'], ['p'], notes], []⟩] := by
    decide +kernel
  have followed :
      follow ((Materialization.full shippingLink).after storing []).tree
        [['w'], ['p'], notes] =
          .ok ⟨[['w'], ['p']], [⟨[['w'], ['p']], ['.']⟩]⟩ := by
    decide +kernel
  rw [made]
  refine ⟨?_, ?_⟩
  · intro change member link inside
    simp only [List.mem_cons, List.not_mem_nil, or_false] at member
    rcases member with rfl | rfl
    · cases inside
    · cases inside
  · intro change member target is place leads passed link
    simp only [List.mem_cons, List.not_mem_nil, or_false] at member
    rcases member with rfl | rfl
    · cases is
    · rw [followed] at leads
      cases leads
      obtain rfl := List.mem_singleton.mp link
      exact ⟨rfl, by decide⟩

/-- An overlay that ships one file. -/
def shippingFile : ApplyGitOverlayInput where
  manifest := .ok
    { files := [.file notes (storing.sha256 [1])], deletions := []
      emptyDirectories := [], additionalRoots := []
      payloadSha256 := storing.sha256 fileArchive }
  archive := .ok fileArchive
  workspaceRoot := ['/', 'w']
  projectPath := ['/', 'w', '/', 'p']

/-- A worktree in which the path of the file is a link to a file outside. -/
def linkedOut : List (Name × Node) :=
  [(['s'], .file false [0]),
    (['w'], .directory
      [(['p'], .directory [(notes, .link ['/', 's'])])])]

/-- The file is written through the link. -/
theorem applyGitOverlay_writes_outside :
    ¬ ∀ (tools : Tools) (run : Materialization)
      (entries : List (Name × Node)) (root : Location),
      (run.opened entries).1 = .ok root →
      ConfinedTo root (run.made tools entries)
        (run.after tools entries).tree := by
  intro confined
  have written :
      (Materialization.overlay shippingFile).made storing linkedOut =
        [⟨.write [1], [['s']], [⟨[['w'], ['p']], ['/', 's']⟩]⟩] := by
    decide +kernel
  have inside := (confined storing (.overlay shippingFile) linkedOut [['w']]
    (by decide +kernel)).inside
  rw [written] at inside
  exact absurd (inside _ List.mem_cons_self) (by decide)

end Samples

end Rbo.Snapshot.Confinement
