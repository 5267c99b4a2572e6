import Rbo.Snapshot.Capture

/-!
# What a capture may ship

A capture should ship only files whose real path lies under the real path of
an allowed root, and every file of an additional root should be archived at a
safe relative path under the mount of that root.

The project is admitted in both modes, and full mode admits each additional
root.  Overlay mode captures an additional root wherever it lies and whatever
its archive paths are.  In both modes a name with a backslash is read as a
path, so that it may climb out of the mount.
-/

namespace Rbo.Snapshot.Containment

open Rbo.Foundation
open Rbo.Foundation.FileTree
open Rbo.Foundation.Results
open Rbo.Snapshot.SecretPolicy
open Rbo.Snapshot.Capture

variable {useOverlay : Bool} {files : FileSystem} {input : CaptureInput}
  {result : CaptureResult} {project : List CapturedFile}

/-- The location lies under the real path of an allowed root. -/
def UnderAllowed (files : FileSystem) (input : CaptureInput)
    (location : Location) : Prop :=
  ∃ allowed ∈ input.allowedProjectRoots, ∃ root,
    files.realPath allowed = some root ∧ root <+: location

/-- The file that a path leads to lies under an allowed root. -/
def ShipsAllowed (files : FileSystem) (input : CaptureInput)
    (contentPath : List Char) : Prop :=
  ∃ location, files.realPath contentPath = some location ∧
    UnderAllowed files input location

/-- The archive path is a safe relative path under the mount. -/
def SafeUnderMount (mountPath path : List Char) : Prop :=
  isSafeRelativePath path = true ∧
  pieces (normalizeWirePath mountPath) <+: pieces path

/-- The archive holds only bytes of allowed files, and the files of each
additional root at safe paths under its mount. -/
structure ShipsOnlyAllowed (files : FileSystem) (input : CaptureInput)
    (result : CaptureResult) : Prop where
  allowed : ∀ written ∈ result.archive, ∀ contentPath,
    written.1.content = .file contentPath →
    ShipsAllowed files input contentPath
  mounted : ∀ answer ∈ result.additionalRoots, ∀ file ∈ answer.2,
    SafeUnderMount answer.1.mountPath file.tarEntry.path

/-! ## When it does -/

/-- Followed piece by piece from the mount, the path ends under the mount. -/
def StaysUnder (mountPath relPath : List Char) : Prop :=
  pieces (normalizeWirePath mountPath) <+:
    pieces (normalizeWirePath
      (['/'].intercalate
        (normalizePieces true (pieces mountPath) (pieces relPath))))

/-- A piece that a safe path may have. -/
def isSafePiece (piece : Name) : Bool :=
  !isUnsafePiece piece && !isReservedPiece piece

/-- Every piece of the path is one that a safe path may have. -/
def SafePieces (relPath : List Char) : Prop :=
  ∀ piece ∈ pieces (forwardSlashes relPath), isSafePiece piece = true

/-- What overlay mode does not check of an additional root: its mount and the
paths inside it are safe, and it lies under an allowed root itself or the
regular files that it lists do. -/
structure OverlayAdmits (files : FileSystem) (input : CaptureInput)
    (root : AdditionalRoot) (realSource : Location)
    (relPath : List Char) : Prop where
  mount : isSafeRelativePath (normalizeWirePath root.mountPath) = true
  inside : SafePieces relPath
  source : UnderAllowed files input realSource ∨
    ∀ executable bytes,
      files.lstat (resolveInside (render realSource) relPath) =
        some (.file executable bytes) →
      ShipsAllowed files input (resolveInside (render realSource) relPath)

/-- Every listed path of an additional root stays under the mount and, in
overlay mode, is one that the mode should have admitted. -/
def Admissible (useOverlay : Bool) (files : FileSystem)
    (input : CaptureInput) : Prop :=
  ∀ root ∈ input.additionalRoots, ∀ realSource relPaths,
    files.realPath root.sourcePath = some realSource →
    enumerateAdditionalRootPaths files root = .ok relPaths →
    ∀ relPath ∈ relPaths,
      if useOverlay then OverlayAdmits files input root realSource relPath
      else StaysUnder root.mountPath relPath

/-! ## Real paths -/

theorem prefix_of_contained {parent child : Location}
    (contained : isPathContained parent child = true) :
    parent <+: child := by
  unfold isPathContained at contained
  induction parent generalizing child with
  | nil => exact List.nil_prefix
  | cons first parent inductionHypothesis =>
    cases child with
    | nil => simp [relative] at contained
    | cons second child =>
      rw [relative] at contained
      split at contained
      · rename_i same
        rw [same, List.cons_prefix_cons]
        exact ⟨rfl, inductionHypothesis contained⟩
      · simp at contained

theorem UnderAllowed.mono {location below : Location}
    (under : UnderAllowed files input location)
    (inside : location <+: below) :
    UnderAllowed files input below := by
  obtain ⟨allowed, member, root, real, above⟩ := under
  exact ⟨allowed, member, root, real, above.trans inside⟩

/-- A check between two real paths compares the locations themselves. -/
theorem prefix_of_render_contained {parent child : Location}
    (parentResolved : Resolved files.root parent)
    (childResolved : Resolved files.root child)
    (contained :
      assertRealPathContained files (render parent) (render child) = .ok ()) :
    parent <+: child := by
  obtain ⟨realParent, realChild, parentReal, childReal, inside⟩ :=
    assertRealPathContained_eq_ok contained
  rw [FileSystem.realPath_render parentResolved] at parentReal
  rw [FileSystem.realPath_render childResolved] at childReal
  cases parentReal
  cases childReal
  exact prefix_of_contained inside

theorem underAllowed_of_findAllowedRoot {projectRoot : List Char}
    {realRoot : Location} {allowedRoots : List (List Char)}
    (resolved : Resolved files.root realRoot)
    (known : ∀ allowed ∈ allowedRoots,
      allowed ∈ input.allowedProjectRoots)
    (found :
      findAllowedRoot files projectRoot realRoot allowedRoots = .ok ()) :
    UnderAllowed files input realRoot := by
  induction allowedRoots with
  | nil => cases found
  | cons allowed others inductionHypothesis =>
    rw [findAllowedRoot] at found
    obtain ⟨realAllowed, real, found⟩ := bind_eq_ok.mp found
    have realAt := resolveRealPath_eq_ok.mp real
    split at found
    · rename_i contained
      exact ⟨allowed, known allowed List.mem_cons_self, realAllowed, realAt,
        prefix_of_render_contained (FileSystem.realPath_resolved realAt)
          resolved contained⟩
    · refine inductionHypothesis ?_ found
      intro other member
      exact known other (List.mem_cons_of_mem _ member)

/-- The repository of an admitted project lies under an allowed root. -/
theorem underAllowed_of_project
    (passed :
      assertAllowedProjectRoot files input.repoRoot
        input.allowedProjectRoots = .ok ()) :
    ∃ realRoot, files.realPath input.repoRoot = some realRoot ∧
      UnderAllowed files input realRoot := by
  obtain ⟨realRoot, real, found⟩ := bind_eq_ok.mp passed
  have realAt := resolveRealPath_eq_ok.mp real
  exact ⟨realRoot, realAt,
    underAllowed_of_findAllowedRoot (FileSystem.realPath_resolved realAt)
      (fun _ member => member) found⟩

theorem underAllowed_of_isRootAllowed {realSource : Location}
    (resolved : Resolved files.root realSource)
    (allowed : isRootAllowed files input realSource = true) :
    UnderAllowed files input realSource := by
  obtain ⟨candidate, member, passes⟩ := List.any_eq_true.mp allowed
  split at passes
  · rename_i found
    obtain ⟨realAllowed, real, contained⟩ := bind_eq_ok.mp found
    have realAt := resolveRealPath_eq_ok.mp real
    exact ⟨candidate, member, realAllowed, realAt,
      prefix_of_render_contained (FileSystem.realPath_resolved realAt)
        resolved contained⟩
  · cases passes

/-- A file captured below an allowed root is an allowed file. -/
theorem CapturedAt.shipsAllowed {rootPath wirePath : List Char}
    {secretPolicy : SecretPolicyMode} {file : CapturedFile}
    {realRoot : Location}
    (taken : CapturedAt files rootPath wirePath secretPolicy file)
    (real : files.realPath rootPath = some realRoot)
    (under : UnderAllowed files input realRoot) :
    ShipsAllowed files input (resolveInside rootPath wirePath) := by
  obtain ⟨realParent, realChild, parentReal, childReal, inside⟩ :=
    assertRealPathContained_eq_ok taken.contained
  rw [real] at parentReal
  cases parentReal
  exact ⟨realChild, childReal, under.mono (prefix_of_contained inside)⟩

/-! ## Safe paths -/

theorem forwardSlashes_idem (path : List Char) :
    forwardSlashes (forwardSlashes path) = forwardSlashes path := by
  simp only [forwardSlashes, List.map_map]
  refine List.map_congr_left ?_
  intro char _
  by_cases backslash : char = '\\'
  · simp [backslash]
  · simp [backslash]

theorem backslash_not_mem_forwardSlashes (path : List Char) :
    '\\' ∉ forwardSlashes path := by
  intro member
  obtain ⟨char, _, same⟩ := List.mem_map.mp member
  split at same
  · simp at same
  · contradiction

theorem nil_mem_pieces_of_slash (after : List Char) :
    [] ∈ pieces ('/' :: after) := by
  have first : pieces ('/' :: after) = [[]] ++ pieces after :=
    pieces_append [] after
  rw [first]
  exact List.mem_cons_self

theorem nil_mem_pieces_of_doubleSlash (before after : List Char) :
    [] ∈ pieces (before ++ '/' :: '/' :: after) := by
  rw [pieces_append]
  exact List.mem_append_right _ (nil_mem_pieces_of_slash after)

/-- A path without an empty piece, backslash or drive is not absolute and not
a URL. -/
theorem unsafeStart_eq_false {text : List Char}
    (noEmpty : [] ∉ pieces text)
    (noBackslash : '\\' ∉ text)
    (noDrive : hasDrive text = false) :
    (['/'].isPrefixOf text || ['/', '/'].isPrefixOf text ||
      ['\\', '\\'].isPrefixOf text || hasDrive text ||
      includes text [':', '/', '/']) = false := by
  rw [noDrive, Bool.eq_false_iff]
  simp only [Bool.or_eq_true, ne_eq, not_or, List.isPrefixOf_iff_prefix,
    includes_iff, Bool.false_eq_true, not_false_eq_true, and_true]
  refine ⟨⟨⟨?_, ?_⟩, ?_⟩, ?_⟩
  · rintro ⟨rest, rfl⟩
    exact noEmpty (nil_mem_pieces_of_slash rest)
  · rintro ⟨rest, rfl⟩
    exact noEmpty (nil_mem_pieces_of_slash _)
  · rintro ⟨rest, rfl⟩
    exact noBackslash List.mem_cons_self
  · rintro ⟨before, after, rfl⟩
    refine noEmpty ?_
    have shape :
        before ++ [':', '/', '/'] ++ after =
          (before ++ [':']) ++ '/' :: '/' :: after := by
      simp
    rw [shape]
    exact nil_mem_pieces_of_doubleSlash _ _

/-- A path is safe when its pieces are and it has no drive letter: the other
tests look for paths that have an unsafe piece. -/
theorem isSafeRelativePath_iff (value : List Char) :
    isSafeRelativePath value = true ↔
      hasDrive (forwardSlashes value) = false ∧ SafePieces value := by
  have reserved :
      containsWindowsReservedName (forwardSlashes value) =
        (pieces (forwardSlashes value)).any isReservedPiece := by
    rw [containsWindowsReservedName, forwardSlashes_idem]
  have noBackslash := backslash_not_mem_forwardSlashes value
  unfold isSafeRelativePath SafePieces
  dsimp only
  rw [reserved]
  generalize forwardSlashes value = text at noBackslash ⊢
  constructor
  · intro safe
    split_ifs at safe with empty start unsafe_
    simp only [Bool.or_eq_true, not_or, Bool.not_eq_true] at start
    refine ⟨start.1.2, ?_⟩
    intro piece member
    simp only [List.any_eq_true, not_exists, not_and, Bool.not_eq_true]
      at unsafe_
    have unreserved : isReservedPiece piece = false := by
      simp only [Bool.not_eq_true', List.any_eq_false,
        Bool.not_eq_true] at safe
      exact safe piece member
    simp [isSafePiece, unsafe_ piece member, unreserved]
  · rintro ⟨noDrive, safe⟩
    have noUnsafe : ∀ piece ∈ pieces text, isUnsafePiece piece = false := by
      intro piece member
      have both := safe piece member
      simp only [isSafePiece, Bool.and_eq_true, Bool.not_eq_true'] at both
      exact both.1
    have noEmpty : [] ∉ pieces text := fun member =>
      absurd (noUnsafe _ member) (by decide)
    have noCurrent : ['.'] ∉ pieces text := fun member =>
      absurd (noUnsafe _ member) (by decide)
    have empty : ¬ (text = [] ∨ text = ['.']) := by
      rintro (rfl | rfl)
      · exact noEmpty (by decide)
      · exact noCurrent (by decide)
    have unsafePieces : (pieces text).any isUnsafePiece = false := by
      rw [List.any_eq_false]
      intro piece member
      rw [noUnsafe piece member]
      decide
    have unreserved : (pieces text).any isReservedPiece = false := by
      rw [List.any_eq_false]
      intro piece member
      have both := safe piece member
      simp only [isSafePiece, Bool.and_eq_true, Bool.not_eq_true'] at both
      rw [both.2]
      decide
    rw [if_neg empty, unsafeStart_eq_false noEmpty noBackslash noDrive,
      unsafePieces, unreserved]
    rfl

/-! ## Archive paths of overlay mode -/

theorem forwardSlashes_normalizeWirePath (path : List Char) :
    forwardSlashes (normalizeWirePath path) = normalizeWirePath path := by
  have noBackslash : '\\' ∉ normalizeWirePath path := by
    intro member
    refine backslash_not_mem_forwardSlashes path ?_
    rcases dropCurrent_cases (forwardSlashes path) with kept | dropped
    · rw [normalizeWirePath, kept] at member
      exact member
    · rw [dropped]
      exact List.mem_append_right _ (List.mem_cons_of_mem _ member)
  unfold forwardSlashes
  conv_rhs => rw [← List.map_id (normalizeWirePath path)]
  refine List.map_congr_left ?_
  intro char member
  have other : char ≠ '\\' := fun same => noBackslash (same ▸ member)
  simp [other]

theorem overlayArchivePath_eq (root : AdditionalRoot) (relPath : List Char) :
    overlayArchivePath root relPath =
      normalizeWirePath root.mountPath ++ '/' :: forwardSlashes relPath := by
  rw [overlayArchivePath, forwardSlashes_append,
    forwardSlashes_normalizeWirePath]

theorem hasDrive_append (front path : List Char) :
    hasDrive (front ++ '/' :: path) = hasDrive front := by
  match front with
  | [] =>
    simp only [hasDrive, List.nil_append]
    split
    · rename_i shape
      cases shape
      decide
    · rfl
  | [first] => simp [hasDrive]
  | first :: second :: rest =>
    by_cases colon : second = ':'
    · simp [hasDrive, colon]
    · simp [hasDrive, colon]

/-- An overlay archive path always lies under the mount, and is safe when the
mount and the pieces below it are. -/
theorem safeUnderMount_overlay_iff (root : AdditionalRoot)
    (relPath : List Char) :
    SafeUnderMount root.mountPath (overlayArchivePath root relPath) ↔
      isSafeRelativePath (normalizeWirePath root.mountPath) = true ∧
      SafePieces relPath := by
  have below :
      pieces (normalizeWirePath root.mountPath) <+:
        pieces (overlayArchivePath root relPath) := by
    rw [overlayArchivePath_eq, pieces_append]
    exact List.prefix_append _ _
  have text :
      forwardSlashes (overlayArchivePath root relPath) =
        normalizeWirePath root.mountPath ++ '/' :: forwardSlashes relPath := by
    rw [overlayArchivePath_eq, forwardSlashes_append,
      forwardSlashes_normalizeWirePath, forwardSlashes_idem]
  unfold SafeUnderMount
  rw [and_iff_left below, isSafeRelativePath_iff, isSafeRelativePath_iff]
  unfold SafePieces
  rw [text, forwardSlashes_normalizeWirePath, hasDrive_append, pieces_append,
    List.forall_mem_append, and_assoc]

/-! ## Archive paths of full mode -/

theorem normalizePieces_append (allowAboveRoot : Bool)
    {names : List Name} (kept rest : List Name)
    (ordinary : ∀ name ∈ names, isUnsafePiece name = false) :
    normalizePieces allowAboveRoot kept (names ++ rest) =
      normalizePieces allowAboveRoot (kept ++ names) rest := by
  induction names generalizing kept with
  | nil => simp
  | cons name names inductionHypothesis =>
    have first := ordinary name List.mem_cons_self
    simp only [isUnsafePiece, Bool.or_eq_false_iff, beq_eq_false_iff_ne]
      at first
    have moves : staysPut name = false := by
      simp [staysPut, first.1.1, first.1.2]
    rw [List.cons_append, normalizePieces, if_neg (by simp [moves]),
      if_neg first.2,
      inductionHypothesis _ fun other member =>
        ordinary other (List.mem_cons_of_mem _ member)]
    simp

theorem intercalate_pieces (path : List Char) :
    ['/'].intercalate (pieces path) = path :=
  List.intercalate_splitOn '/'

theorem pieces_forwardSlashes_intercalate {names : List Name}
    (nonempty : names ≠ []) :
    pieces (forwardSlashes (['/'].intercalate names)) =
      names.flatMap fun name => pieces (forwardSlashes name) := by
  induction names with
  | nil => contradiction
  | cons name rest inductionHypothesis =>
    cases rest with
    | nil => simp
    | cons next others =>
      rw [List.intercalate_cons_cons, List.flatMap_cons,
        ← inductionHypothesis (by simp), List.append_assoc,
        List.singleton_append, forwardSlashes_append, pieces_append]

variable {path : List Char}

theorem safePieces_of_isSafeRelativePath
    (safe : isSafeRelativePath path = true) {name : Name}
    (member : name ∈ pieces (forwardSlashes path)) :
    isUnsafePiece name = false := by
  have inside := ((isSafeRelativePath_iff path).mp safe).2 name member
  simp only [isSafePiece, Bool.and_eq_true, Bool.not_eq_true'] at inside
  exact inside.1

/-- Backslashes only split pieces further, so the pieces between the slashes
of a safe path are not unsafe either. -/
theorem isUnsafePiece_of_mem_pieces {name : Name}
    (safe : isSafeRelativePath path = true) (member : name ∈ pieces path) :
    isUnsafePiece name = false := by
  have split :
      pieces (forwardSlashes path) =
        (pieces path).flatMap fun piece => pieces (forwardSlashes piece) := by
    have nonempty : pieces path ≠ [] := List.splitOn_ne_nil _ _
    rw [← pieces_forwardSlashes_intercalate nonempty, intercalate_pieces]
  rw [Bool.eq_false_iff]
  intro unsafe_
  have kept : name ∈ pieces (forwardSlashes name) := by
    simp only [isUnsafePiece, Bool.or_eq_true, beq_iff_eq] at unsafe_
    rcases unsafe_ with (rfl | rfl) | rfl
    · decide
    · decide
    · decide
  have inside : name ∈ pieces (forwardSlashes path) := by
    rw [split]
    exact List.mem_flatMap.mpr ⟨name, member, kept⟩
  rw [safePieces_of_isSafeRelativePath safe inside] at unsafe_
  cases unsafe_

theorem not_isSafeRelativePath_of_nil_mem
    (member : [] ∈ pieces (forwardSlashes path)) :
    isSafeRelativePath path ≠ true := by
  intro safe
  exact absurd (safePieces_of_isSafeRelativePath safe member) (by decide)

theorem normalize_of_relative (present : path ≠ [])
    (below : isAbsolute path = false) {body : List Char} (resolved :
      ['/'].intercalate (normalizePieces true [] (pieces path)) = body) :
    normalize path =
      if body = [] then
        if path.getLast? = some '/' then ['.', '/'] else ['.']
      else if path.getLast? = some '/' then body ++ ['/'] else body := by
  subst resolved
  simp only [FileTree.normalize, if_neg present, below, Bool.not_false]
  split_ifs <;> simp_all

theorem not_isSafeRelativePath_of_trailing (body : List Char) :
    isSafeRelativePath (normalizeWirePath (body ++ ['/'])) ≠ true := by
  refine not_isSafeRelativePath_of_nil_mem ?_
  rw [forwardSlashes_normalizeWirePath, normalizeWirePath,
    forwardSlashes_append]
  rcases dropCurrent_append (forwardSlashes body) (forwardSlashes []) with
    same | ⟨above, below⟩
  · rw [same]
    decide
  · rw [below, pieces_append]
    exact List.mem_append_right _ (by decide)

/-- A path that is safe once it is normalised has neither an empty normal form
nor a trailing slash. -/
theorem normalizeWirePath_normalize (present : path ≠ [])
    (below : isAbsolute path = false)
    (safe : isSafeRelativePath (normalizeWirePath (normalize path)) = true) :
    normalizeWirePath (normalize path) =
      normalizeWirePath
        (['/'].intercalate (normalizePieces true [] (pieces path))) := by
  rw [normalize_of_relative present below rfl] at safe ⊢
  split_ifs at safe ⊢
  · exact absurd safe (by decide)
  · exact absurd safe (by decide)
  · exact absurd safe (not_isSafeRelativePath_of_trailing _)
  · rfl

variable {root : AdditionalRoot} {relPath : List Char}

/-- The archive path of full mode is the mount followed by the pieces of the
path, resolved lexically. -/
theorem fullArchivePath_eq (mount : isSafeRelativePath root.mountPath = true)
    (safe : isSafeRelativePath (fullArchivePath root relPath) = true) :
    fullArchivePath root relPath =
      normalizeWirePath
        (['/'].intercalate
          (normalizePieces true (pieces root.mountPath) (pieces relPath))) := by
  have ordinary : ∀ name ∈ pieces root.mountPath, isUnsafePiece name = false :=
    fun name member => isUnsafePiece_of_mem_pieces mount member
  have present : root.mountPath ≠ [] := by
    intro missing
    rw [missing] at mount
    exact absurd mount (by decide)
  have below : ∀ rest, isAbsolute (root.mountPath ++ rest) = false := by
    intro rest
    cases start : root.mountPath with
    | nil => exact absurd start present
    | cons first others =>
      rw [Bool.eq_false_iff]
      intro absolute
      obtain rfl : first = '/' := by simpa [isAbsolute] using absolute
      rw [start] at ordinary
      exact absurd (ordinary [] (nil_mem_pieces_of_slash others)) (by decide)
  unfold fullArchivePath join at safe ⊢
  rw [if_neg present] at safe ⊢
  split_ifs at safe ⊢ with empty
  · have notAbsolute := below []
    rw [List.append_nil] at notAbsolute
    rw [normalizeWirePath_normalize present notAbsolute safe]
    have resolved := normalizePieces_append true [] [] ordinary
    rw [List.append_nil, List.nil_append] at resolved
    rw [resolved, empty]
    rfl
  · have nonempty : root.mountPath ++ '/' :: relPath ≠ [] := by simp
    rw [normalizeWirePath_normalize nonempty (below _) safe, pieces_append,
      normalizePieces_append true [] _ ordinary, List.nil_append]

/-- A full archive path is safe, and lies under the mount when the path inside
the root stays under it. -/
theorem safeUnderMount_full_iff
    (mount : isSafeRelativePath root.mountPath = true)
    (safe : isSafeRelativePath (fullArchivePath root relPath) = true) :
    SafeUnderMount root.mountPath (fullArchivePath root relPath) ↔
      StaysUnder root.mountPath relPath := by
  unfold SafeUnderMount StaysUnder
  rw [← fullArchivePath_eq mount safe, and_iff_right safe]

theorem normalizePieces_of_noParent {names : List Name} (kept : List Name)
    (noParent : ['.', '.'] ∉ names) :
    normalizePieces true kept names =
      kept ++ names.filter fun name => !staysPut name := by
  induction names generalizing kept with
  | nil => simp [normalizePieces]
  | cons name names inductionHypothesis =>
    rw [List.mem_cons, not_or] at noParent
    rw [normalizePieces]
    by_cases stays : staysPut name = true
    · rw [if_pos stays, inductionHypothesis kept noParent.2]
      simp [stays]
    · rw [if_neg stays, if_neg (Ne.symm noParent.1),
        inductionHypothesis _ noParent.2]
      simp [stays]

theorem intercalate_append {front back : List Name}
    (frontNonempty : front ≠ []) (backNonempty : back ≠ []) :
    ['/'].intercalate (front ++ back) =
      ['/'].intercalate front ++ '/' :: ['/'].intercalate back := by
  induction front with
  | nil => contradiction
  | cons name rest inductionHypothesis =>
    cases rest with
    | nil =>
      cases back with
      | nil => contradiction
      | cons next others => simp [List.intercalate_cons_cons]
    | cons next others =>
      have later := inductionHypothesis (by simp)
      rw [List.cons_append] at later
      rw [List.cons_append, List.cons_append,
        List.intercalate_cons_cons, later, List.intercalate_cons_cons]
      simp

theorem forwardSlashes_of_notMem (plain : '\\' ∉ path) :
    forwardSlashes path = path := by
  unfold forwardSlashes
  refine (List.map_congr_left ?_).trans (List.map_id _)
  intro char inside
  rw [if_neg]
  · rfl
  · rintro rfl
    exact plain inside

theorem dropCurrent_of_safe {first : Name} {others : List Name}
    {text : List Char}
    (shape : pieces text = first :: others)
    (safe : isUnsafePiece first = false) :
    dropCurrent text = text := by
  rcases dropCurrent_cases text with kept | dropped
  · exact kept
  · rw [dropped, pieces_append] at shape
    obtain rfl : ['.'] = first := (List.cons.inj shape).1
    exact absurd safe (by decide)

/-- A path without a `..` piece stays under its mount. -/
theorem staysUnder_of_noParent {mountPath : List Char}
    (mount : isSafeRelativePath mountPath = true)
    (noParent : ['.', '.'] ∉ pieces relPath) :
    StaysUnder mountPath relPath := by
  unfold StaysUnder
  rw [normalizePieces_of_noParent _ noParent]
  generalize (pieces relPath).filter (fun name => !staysPut name) = names
  have nonempty : pieces mountPath ≠ [] := List.splitOn_ne_nil _ _
  by_cases empty : names = []
  · rw [empty, List.append_nil, intercalate_pieces]
  · rw [intercalate_append nonempty empty, intercalate_pieces]
    cases start : pieces (forwardSlashes mountPath) with
    | nil => exact absurd start (List.splitOn_ne_nil _ _)
    | cons first others =>
      have safeFirst : isUnsafePiece first = false :=
        safePieces_of_isSafeRelativePath mount (start ▸ List.mem_cons_self)
      have joined :
          pieces (forwardSlashes mountPath ++
              '/' :: forwardSlashes (['/'].intercalate names)) =
            first ::
              (others ++
                pieces (forwardSlashes (['/'].intercalate names))) := by
        rw [pieces_append, start, List.cons_append]
      rw [normalizeWirePath, normalizeWirePath, forwardSlashes_append,
        dropCurrent_of_safe start safeFirst,
        dropCurrent_of_safe joined safeFirst, pieces_append]
      exact List.prefix_append _ _

/-! ## What a capture ships -/

theorem safeUnderMount_iff
    (mount : useOverlay = false → isSafeRelativePath root.mountPath = true)
    (safe : useOverlay = false →
      isSafeRelativePath (archivePath useOverlay root relPath) = true) :
    SafeUnderMount root.mountPath (archivePath useOverlay root relPath) ↔
      if useOverlay then
        isSafeRelativePath (normalizeWirePath root.mountPath) = true ∧
          SafePieces relPath
      else StaysUnder root.mountPath relPath := by
  cases useOverlay with
  | true => exact safeUnderMount_overlay_iff root relPath
  | false => exact safeUnderMount_full_iff (mount rfl) (safe rfl)

/-- The bytes of every captured project file are allowed. -/
theorem project_shipsAllowed
    (collected : Collected useOverlay files input result project)
    {file : CapturedFile} (member : file ∈ project)
    {contentPath : List Char}
    (content : file.tarEntry.content = .file contentPath) :
    ShipsAllowed files input contentPath := by
  obtain ⟨wirePath, _, taken⟩ :=
    exists_left_of_mem collected.fromProject member
  obtain ⟨realRoot, real, under⟩ := underAllowed_of_project collected.allowed
  rcases taken.content with ⟨file_, _⟩ | ⟨⟨target, link⟩, _⟩
  · rw [content] at file_
    cases file_
    exact CapturedAt.shipsAllowed taken real under
  · rw [content] at link
    cases link

/-- The source of an additional root admitted by full mode is allowed. -/
theorem RootCaptured.underAllowed
    {answer : AdditionalRoot × List CapturedFile} {realSource : Location}
    (taken : RootCaptured false files input root answer)
    (source : files.realPath root.sourcePath = some realSource) :
    UnderAllowed files input realSource := by
  obtain ⟨_, realAgain, sourceAgain, allowed⟩ := taken.admitted rfl
  rw [source] at sourceAgain
  cases sourceAgain
  exact underAllowed_of_isRootAllowed (FileSystem.realPath_resolved source)
    allowed

theorem CapturedAt.shipsAllowed_of_root {realSource : Location}
    {secretPolicy : SecretPolicyMode} {file : CapturedFile}
    (taken : CapturedAt files (render realSource) relPath secretPolicy file)
    (source : files.realPath root.sourcePath = some realSource)
    (under : UnderAllowed files input realSource) :
    ShipsAllowed files input (resolveInside (render realSource) relPath) :=
  CapturedAt.shipsAllowed taken
    (FileSystem.realPath_render (FileSystem.realPath_resolved source)) under

theorem admissible_of_ships
    (collected : Collected useOverlay files input result project)
    (ships : ShipsOnlyAllowed files input result) :
    Admissible useOverlay files input := by
  intro root rootMember realSource relPaths source listed relPath relMember
  obtain ⟨answer, answered, taken⟩ :=
    exists_right_of_mem collected.fromRoots rootMember
  obtain ⟨realAgain, relAgain, sourceAgain, listedAgain, paths⟩ :=
    taken.collected
  rw [source] at sourceAgain
  rw [listed] at listedAgain
  cases sourceAgain
  cases listedAgain
  obtain ⟨file, fileMember, safe, base, at_, rfl⟩ :=
    exists_right_of_mem paths relMember
  have mounted := ships.mounted answer answered _ fileMember
  rw [taken.same] at mounted
  have conditions :=
    (safeUnderMount_iff (fun full => (taken.admitted full).1) safe).mp mounted
  cases useOverlay with
  | false => exact conditions
  | true =>
    refine ⟨conditions.1, conditions.2, Or.inr ?_⟩
    intro executable bytes regular
    rcases at_.content with ⟨content, _⟩ | ⟨_, target, link⟩
    · have captured :
          underMount (archivePath true root relPath) base ∈
            allCaptured project result :=
        List.mem_append_right _
          (List.mem_flatMap.mpr ⟨answer, answered, fileMember⟩)
      have entry :
          (underMount (archivePath true root relPath) base).tarEntry.content ≠
            .directory := by
        change base.tarEntry.content ≠ .directory
        rw [content]
        nofun
      obtain ⟨written, inside, same⟩ :=
        (mem_archive_iff collected entry).mpr ⟨_, captured, rfl⟩
      refine ships.allowed written inside _ ?_
      rw [same]
      exact content
    · rw [regular] at link
      cases link

theorem ships_of_admissible
    (collected : Collected useOverlay files input result project)
    (admissible : Admissible useOverlay files input) :
    ShipsOnlyAllowed files input result := by
  constructor
  · intro written member contentPath content
    have entry : written.1.content ≠ .directory := by
      rw [content]
      nofun
    obtain ⟨file, captured, same⟩ :=
      (mem_archive_iff collected entry).mp ⟨written, member, rfl⟩
    rw [← same] at content
    rcases List.mem_append.mp captured with inProject | inRoots
    · exact project_shipsAllowed collected inProject content
    · obtain ⟨answer, answered, inside⟩ := List.mem_flatMap.mp inRoots
      obtain ⟨root, rootMember, taken⟩ :=
        exists_left_of_mem collected.fromRoots answered
      obtain ⟨realSource, relPaths, source, listed, paths⟩ := taken.collected
      obtain ⟨relPath, relMember, _, base, at_, rfl⟩ :=
        exists_left_of_mem paths inside
      have conditions :=
        admissible root rootMember realSource relPaths source listed relPath
          relMember
      rcases at_.content with ⟨regular, executable, bytes, found⟩ | ⟨link, _⟩
      · obtain rfl : resolveInside (render realSource) relPath = contentPath :=
          TarContent.file.inj (regular.symm.trans content)
        cases useOverlay with
        | false =>
          exact CapturedAt.shipsAllowed_of_root at_ source
            (RootCaptured.underAllowed taken source)
        | true =>
          rcases conditions.source with under | allowed
          · exact CapturedAt.shipsAllowed_of_root at_ source under
          · exact allowed executable bytes found
      · obtain ⟨target, symlink⟩ := link
        cases symlink.symm.trans content
  · intro answer answered file inside
    obtain ⟨root, rootMember, taken⟩ :=
      exists_left_of_mem collected.fromRoots answered
    obtain ⟨realSource, relPaths, source, listed, paths⟩ := taken.collected
    obtain ⟨relPath, relMember, safe, base, at_, rfl⟩ :=
      exists_left_of_mem paths inside
    have conditions :=
      admissible root rootMember realSource relPaths source listed relPath
        relMember
    rw [taken.same]
    refine
      (safeUnderMount_iff (fun full => (taken.admitted full).1) safe).mpr ?_
    cases useOverlay with
    | false => exact conditions
    | true => exact ⟨conditions.mount, conditions.inside⟩

/-- A successful capture ships only allowed files, and those of an additional
root at safe paths under its mount, exactly when every listed path of an
additional root is admissible.  A path without a `..` piece stays under its
mount, so in full mode only a name with a backslash can break it. -/
theorem ships_only_allowed_iff
    (success : captureSnapshot useOverlay files input = .ok result) :
    (ShipsOnlyAllowed files input result ↔
      Admissible useOverlay files input) ∧
    ∀ mountPath relPath, isSafeRelativePath mountPath = true →
      ['.', '.'] ∉ pieces relPath → StaysUnder mountPath relPath := by
  obtain ⟨project, collected⟩ := captureSnapshot_eq_ok success
  refine ⟨⟨admissible_of_ships collected, ships_of_admissible collected⟩, ?_⟩
  intro mountPath relPath mount noParent
  exact staysUnder_of_noParent mount noParent

/-! ## A directory outside every allowed root -/

/-- A project under the allowed root, and a file outside of it. -/
def sampleFiles : FileSystem where
  entries :=
    [("work".toList, .directory
      [("repo".toList, .directory [("main.c".toList, .file false [1])]),
       ("lib".toList, .directory [("a.h".toList, .file false [2])])]),
     ("etc".toList, .directory [("passwd".toList, .file false [3])])]
  workingDirectory := []
  workingDirectory_resolved := resolved_nil

/-- A capture with one additional root. -/
def sampleInput (sourcePath : List Char) : CaptureInput where
  repoRoot := "/work/repo".toList
  allowedProjectRoots := ["/work".toList]
  secretPolicy := .block
  additionalRoots :=
    [{ sourcePath := sourcePath, mountPath := "deps".toList,
       include_ := ["**/*".toList], exclude := [] }]
  mainMount := "project".toList
  wirePaths := ["main.c".toList]
  stageModes := fun _ => none
  emptyDirectories := []
  toLowerCase := fun text => text.map Char.toLower
  otherChecks := fun _ => .ok ()

theorem ships_only_allowed_iff_sample :
    ∃ result,
      captureSnapshot true sampleFiles (sampleInput "/work/lib".toList) =
        .ok result ∧
      result.archive.length = 2 ∧
      (ShipsOnlyAllowed sampleFiles (sampleInput "/work/lib".toList) result ↔
        Admissible true sampleFiles (sampleInput "/work/lib".toList)) := by
  have checked :
      (captureSnapshot true sampleFiles
          (sampleInput "/work/lib".toList)).toOption.any
        (fun result => result.archive.length = 2) = true := by
    decide +kernel
  obtain ⟨result, captured, length⟩ := exists_ok_of_any checked
  exact ⟨result, captured, by simpa using length,
    (ships_only_allowed_iff captured).1⟩

/-- Overlay mode ships a file outside every allowed root; full mode refuses the
same request. -/
theorem overlay_ships_outside_allowed :
    (∃ result,
      captureSnapshot true sampleFiles (sampleInput "/etc".toList) =
        .ok result ∧
      ¬ ShipsOnlyAllowed sampleFiles (sampleInput "/etc".toList) result) ∧
    captureSnapshot false sampleFiles (sampleInput "/etc".toList) =
      .error (.refused "materialization"
        "Additional root is not under allowed project roots: /etc") := by
  constructor
  · have checked :
        (captureSnapshot true sampleFiles
            (sampleInput "/etc".toList)).toOption.any
          (fun result => result.archive.any fun written =>
            written.1.content = .file "/etc/passwd".toList) = true := by
      decide +kernel
    obtain ⟨result, captured, archived⟩ := exists_ok_of_any checked
    obtain ⟨written, member, content⟩ := List.any_eq_true.mp archived
    refine ⟨result, captured, ?_⟩
    intro ships
    obtain ⟨location, real, allowed, listed, root, realRoot, inside⟩ :=
      ships.allowed written member _ (of_decide_eq_true content)
    have shipped :
        sampleFiles.realPath "/etc/passwd".toList =
          some ["etc".toList, "passwd".toList] := by
      decide +kernel
    have work :
        sampleFiles.realPath "/work".toList = some ["work".toList] := by
      decide +kernel
    obtain rfl : allowed = "/work".toList := List.mem_singleton.mp listed
    rw [shipped] at real
    rw [work] at realRoot
    cases real
    cases realRoot
    exact absurd inside (by decide)
  · decide +kernel

end Rbo.Snapshot.Containment
