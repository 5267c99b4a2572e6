import Rbo.Snapshot.Confinement

/-!
# Containment by segments

`isPathContained` looks at the text of the way from one path to another, and
`isSafeRelativePath` at the segments of a path.  Both agree with containment by
whole segments except where the first segment below the parent merely begins
with two dots: such a name is safe, and its path is not contained.

Paths are absolute and given as text, on a POSIX host.
-/

namespace Rbo.Snapshot.SegmentContainment

open Rbo.Foundation
open Rbo.Foundation.Effect
open Rbo.Foundation.FileTree
open Rbo.Foundation.FileCalls
open Rbo.Snapshot.SecretPolicy (forwardSlashes)
open Rbo.Snapshot.Capture (relative isPathContained isSafeRelativePath
  isUnsafePiece)
open Rbo.Snapshot.Materialize

/-- `resolve(path)` of an absolute path. -/
def segments (path : List Char) : Location :=
  resolve [] path

/-- `isPathContained`, of absolute paths as they are written. -/
def isPathContainedIn (parentPath childPath : List Char) : Bool :=
  isPathContained (segments parentPath) (segments childPath)

/-- A text that begins with two dots. -/
def StartsWithDots (text : List Char) : Prop :=
  ['.', '.'] <+: text

/-- The child lies below the parent, in a segment that begins with two
dots. -/
def BelowDots (parent child : Location) : Prop :=
  ∃ name below, child = parent ++ name :: below ∧ StartsWithDots name

/-! ## Containment -/

/-- Containment is that of segments, apart from a first one that begins with
two dots. -/
theorem isPathContained_iff (parent child : Location) :
    isPathContained parent child = true ↔
      parent <+: child ∧ ¬ BelowDots parent child := by
  induction parent generalizing child with
  | nil =>
    cases child with
    | nil => simp [isPathContained, relative, BelowDots]
    | cons name below =>
      simp [isPathContained, relative, BelowDots, StartsWithDots,
        ← Bool.not_eq_true]
  | cons first parent inductionHypothesis =>
    cases child with
    | nil => simp [isPathContained, relative]
    | cons second child =>
      by_cases same : first = second
      · have step := inductionHypothesis child
        subst same
        rw [show isPathContained (first :: parent) (first :: child) =
          isPathContained parent child by
            simp [isPathContained, relative], step,
          List.cons_prefix_cons]
        simp [BelowDots]
      · simp [isPathContained, relative, same, List.cons_prefix_cons]

/-- The way below a location is contained unless its first name begins with
two dots. -/
theorem isPathContained_append_iff (root : Location) {names : List Name}
    (nonempty : names ≠ []) :
    isPathContained root (root ++ names) = true ↔
      ¬ StartsWithDots (names.headD []) := by
  rw [isPathContained_iff, and_iff_right (List.prefix_append root names)]
  cases names with
  | nil => exact absurd rfl nonempty
  | cons name below => simp [BelowDots]

/-! ## Safe paths -/

theorem startsWithDots_head_pieces (path : List Char) :
    StartsWithDots ((pieces path).headD []) ↔ StartsWithDots path := by
  unfold StartsWithDots pieces
  match path with
  | [] => simp
  | [first] =>
    rw [List.splitOn_cons_eq_if_modifyHead]
    split <;> simp
  | first :: second :: rest =>
    rw [List.splitOn_cons_eq_if_modifyHead,
      List.splitOn_cons_eq_if_modifyHead]
    have shape := List.splitOn_ne_nil '/' rest
    cases parts : rest.splitOn '/' with
    | nil => exact absurd parts shape
    | cons front others =>
      split
      · rename_i slash
        simp_all [List.cons_prefix_cons]
      · split
        · rename_i slash
          simp_all [List.cons_prefix_cons]
        · simp [List.cons_prefix_cons]

theorem startsWithDots_forwardSlashes (path : List Char) :
    StartsWithDots (forwardSlashes path) ↔ StartsWithDots path := by
  have dot : ∀ char : Char,
      '.' = (if char = '\\' then '/' else char) ↔ '.' = char := by
    intro char
    split
    · rename_i backslash
      simp [backslash]
    · rfl
  unfold StartsWithDots forwardSlashes
  match path with
  | [] => rfl
  | [first] => simp [List.cons_prefix_cons]
  | first :: second :: rest =>
    simp [List.cons_prefix_cons, dot]

/-- A safe path leads into its root unless it begins with two dots. -/
theorem isPathContained_resolve_iff (root : Location) {path : List Char}
    (safe : isSafeRelativePath path = true) :
    isPathContained root (resolve root path) = true ↔
      ¬ StartsWithDots path := by
  obtain ⟨appended, nonempty, -⟩ := Confinement.resolve_safe safe
  rw [appended, isPathContained_append_iff root nonempty,
    startsWithDots_head_pieces]

/-! ## Materialization -/

variable {tree : Node} {vacant : Bool} {location : Location} {place : Place}

/-- A path leads where it says unless it meets a link. -/
theorem location_of_leads {names : List Name}
    (ordinary : ∀ name ∈ names, isUnsafePiece name = false)
    (leads : Leads tree vacant location names place)
    (unlinked : place.links = []) :
    place.location = location ++ names := by
  induction leads with
  | here location => exact (List.append_nil location).symm
  | stay _ stays _ _ =>
    have unsafe_ := ordinary _ List.mem_cons_self
    simp_all [staysPut, isUnsafePiece]
  | up _ _ _ => exact absurd (ordinary _ List.mem_cons_self) (by decide)
  | enter _ _ _ _ _ _ inductionHypothesis =>
    rw [inductionHypothesis
      (fun name member => ordinary name (List.mem_cons_of_mem _ member))
      unlinked, List.append_assoc]
    rfl
  | vacant _ _ _ _ _ => rfl
  | link _ _ _ _ _ _ _ => exact absurd unlinked (List.cons_ne_nil _ _)

theorem location_of_follow {path : Location}
    (ordinary : ∀ name ∈ path, isUnsafePiece name = false)
    (leads : follow tree path = .ok place) (unlinked : place.links = []) :
    place.location = path :=
  location_of_leads ordinary (leads_of_reach leads) unlinked

/-- An absolute path has no unsafe segment once it is resolved. -/
theorem ordinary_segments (path : List Char) :
    ∀ name ∈ segments path, isUnsafePiece name = false := by
  have kept : ∀ (todo kept : List Name),
      (∀ name ∈ kept, isUnsafePiece name = false) →
      ∀ name ∈ normalizePieces false kept todo, isUnsafePiece name = false := by
    intro todo
    induction todo with
    | nil => exact fun kept ordinary => ordinary
    | cons piece todo inductionHypothesis =>
      intro kept ordinary
      rw [normalizePieces, if_neg Bool.false_ne_true]
      split_ifs with stays up top
      · exact inductionHypothesis kept ordinary
      · exact inductionHypothesis kept ordinary
      · exact inductionHypothesis _ fun name member =>
          ordinary name (List.mem_of_mem_dropLast member)
      · refine inductionHypothesis _ fun name member => ?_
        rcases List.mem_append.mp member with old | new
        · exact ordinary name old
        · rw [List.mem_singleton.mp new]
          simp_all [isUnsafePiece, staysPut]
  unfold segments resolve startOf
  split <;> exact kept _ _ (List.forall_mem_nil _)

theorem system_of_answered {Answer : Type} {path : Location}
    {answer : Except Errno Answer} {failure : Failure}
    (refused : answered path answer = .error failure) :
    ∃ errno place, failure = .system errno place := by
  unfold answered at refused
  split at refused
  · exact ⟨_, _, (Except.error.inj refused).symm⟩
  · split at refused
    · cases refused
    · exact ⟨_, _, (Except.error.inj refused).symm⟩

/-- A real path is refused by the system alone, and is the path itself unless
it leads through a link. -/
theorem ends_realpath_ordinary {path : Location} {Answer : Type}
    {rest : Location → Work Answer}
    {condition : Except Failure Answer → Host → Prop} {host : Host}
    (ordinary : ∀ name ∈ path, isUnsafePiece name = false)
    (refused : ∀ errno place, condition (.error (.system errno place)) host)
    (linked : ∀ place, follow host.tree path = .ok place → place.links ≠ [] →
      (rest place.location).Ends condition host)
    (straight : (rest path).Ends condition host) :
    (realpath path >>= rest).Ends condition host := by
  refine ends_bind.mpr (ends_reading.mpr ?_)
  cases found : answered path ((follow host.tree path).map (·.location)) with
  | error failure =>
    obtain ⟨errno, place, rfl⟩ := system_of_answered found
    exact refused errno place
  | ok real =>
    have followed := (answered_eq_ok.mp found).2
    cases leads : follow host.tree path with
    | error errno =>
      rw [leads] at followed
      cases followed
    | ok place =>
      rw [leads] at followed
      cases followed
      by_cases unlinked : place.links = []
      · dsimp only
        rw [location_of_follow ordinary leads unlinked]
        exact straight
      · exact linked place leads unlinked

/-- Directories are refused by the system alone. -/
theorem system_of_makeDirectories (path : Location) (host : Host) :
    (makeDirectories path).Ends (fun ending _ =>
      ∀ failure, ending = .error failure →
        ∃ errno place, failure = .system errno place) host := by
  have called : ∀ (path : Location) (host : Host),
      (makeDirectory path).Ends (fun ending _ =>
        ∀ failure, ending = .error failure →
          ∃ errno place, failure = .system errno place) host := by
    intro path host
    refine ends_changing.mpr ⟨?_, fun _ _ _ impossible => nomatch impossible⟩
    rintro failure refused _ ⟨⟩
    exact system_of_answered refused
  unfold makeDirectories
  generalize List.range path.length = places
  induction places generalizing host with
  | nil => exact ends_pure.mpr fun _ impossible => nomatch impossible
  | cons above places inductionHypothesis =>
    change Ends (makeDirectory _ >>= fun _ => List.forM places _) _ host
    refine ends_bind.mpr ((called _ host).imp fun ending after system => ?_)
    cases ending with
    | ok answer => exact inductionHypothesis after
    | error failure => exact system

/-- Materialization refuses the path only where a link lies on the way. -/
def Accepted (workspaceRoot : Location) (relativePath : List Char) : Prop :=
  ∀ host next, (safeWritePath workspaceRoot relativePath).ended host =
      (.error (escapesWorkspace relativePath), next) →
    ∃ path, (path = workspaceRoot ∨
        path = (resolve workspaceRoot (forwardSlashes relativePath)).dropLast) ∧
      ∃ place, follow next.tree path = .ok place ∧ place.links ≠ []

variable {workspaceRoot : List Char} {path : List Char}

theorem safe_forwardSlashes (safe : isSafeRelativePath path = true) :
    isSafeRelativePath (forwardSlashes path) = true := by
  rw [Containment.isSafeRelativePath_iff] at safe ⊢
  unfold Containment.SafePieces at safe ⊢
  rwa [Containment.forwardSlashes_idem]

/-- A safe path that does not begin with two dots is refused only behind a
link. -/
theorem accepted_of_plain (safe : isSafeRelativePath path = true)
    (plain : ¬ StartsWithDots path) :
    Accepted (segments workspaceRoot) path := by
  have normalized := safe_forwardSlashes safe
  obtain ⟨appended, nonempty, -⟩ :=
    @Confinement.resolve_safe (segments workspaceRoot) _ normalized
  have ordinary : ∀ name ∈ segments workspaceRoot ++
      pieces (forwardSlashes path), isUnsafePiece name = false := by
    intro name member
    rcases List.mem_append.mp member with above | below
    · exact ordinary_segments workspaceRoot name above
    · exact Containment.isUnsafePiece_of_mem_pieces normalized below
  have contained : isPathContained (segments workspaceRoot)
      (segments workspaceRoot ++ pieces (forwardSlashes path)) = true := by
    rw [isPathContained_append_iff _ nonempty, startsWithDots_head_pieces,
      startsWithDots_forwardSlashes]
    exact plain
  generalize segments workspaceRoot = root at *
  obtain ⟨front, last, split⟩ :
      ∃ front last, pieces (forwardSlashes path) = front ++ [last] :=
    ⟨_, _, (List.dropLast_append_getLast nonempty).symm⟩
  rw [split] at appended contained ordinary
  have parentIs : (root ++ (front ++ [last])).dropLast = root ++ front := by
    rw [← List.append_assoc, List.dropLast_concat]
  have lastIs : (root ++ (front ++ [last])).getLastD [] = last := by
    rw [← List.append_assoc, List.getLastD_concat]
  have parentContained :
      ¬ (root ++ front ≠ root ∧ isPathContained root (root ++ front) = false) := by
    cases front with
    | nil => simp
    | cons name front =>
      rw [List.cons_append,
        isPathContained_append_iff _ (List.cons_ne_nil _ _)] at contained
      have inside : isPathContained root (root ++ name :: front) = true :=
        (isPathContained_append_iff _ (List.cons_ne_nil _ _)).mpr contained
      simp [inside]
  have ends : ∀ host, (safeWritePath root path).Ends (fun ending next =>
      ending = .error (escapesWorkspace path) →
        ∃ way, (way = root ∨ way = root ++ front) ∧
          ∃ place, follow next.tree way = .ok place ∧ place.links ≠ []) host := by
    intro host
    unfold safeWritePath
    dsimp only
    rw [appended, parentIs, lastIs, if_neg (by rw [normalized]; decide),
      if_neg (by rw [contained]; decide), if_neg parentContained]
    refine ends_bind.mpr ((system_of_makeDirectories (root ++ front) host).imp
      fun ending after system => ?_)
    cases ending with
    | error failure =>
      obtain ⟨errno, place, rfl⟩ := system failure rfl
      exact fun impossible => nomatch impossible
    | ok answer =>
      refine ends_realpath_ordinary
        (fun name member => ordinary name (List.mem_append_left _ member))
        (fun _ _ impossible => nomatch impossible) ?_ ?_
      · intro place leads linked
        refine ends_bind.mpr (ends_reading.mpr ?_)
        cases answered (root ++ front) ((follow after.tree
            (root ++ front)).map (·.location)) with
        | error failure =>
          exact fun _ => ⟨root, Or.inl rfl, place, leads, linked⟩
        | ok realParent =>
          dsimp only
          by_cases outside :
              isPathContained place.location (realParent ++ [last]) = false
          · rw [if_pos outside]
            exact fun _ => ⟨root, Or.inl rfl, place, leads, linked⟩
          · rw [if_neg outside]
            exact fun impossible => nomatch impossible
      · refine ends_realpath_ordinary
          (fun name member => ordinary name ?_)
          (fun _ _ impossible => nomatch impossible) ?_ ?_
        · rw [← List.append_assoc]
          exact List.mem_append_left _ member
        · intro place leads linked
          by_cases outside :
              isPathContained root (place.location ++ [last]) = false
          · rw [if_pos outside]
            exact fun _ => ⟨_, Or.inr rfl, place, leads, linked⟩
          · rw [if_neg outside]
            exact fun impossible => nomatch impossible
        · rw [List.append_assoc, if_neg (by rw [contained]; decide)]
          exact fun impossible => nomatch impossible
  intro host next refused
  have ending := ends host
  unfold Ends at ending
  rw [refused] at ending
  rw [appended, parentIs]
  exact ending rfl

/-- No path of an empty tree leads through a link. -/
theorem unlinked_of_empty {way : Location}
    (ordinary : ∀ name ∈ way, isUnsafePiece name = false)
    (leads : follow (.directory []) way = .ok place) :
    place.links = [] := by
  cases leads_of_reach leads with
  | here => rfl
  | stay _ stays _ =>
    have unsafe_ := ordinary _ List.mem_cons_self
    simp_all [staysPut, isUnsafePiece]
  | up _ _ => exact absurd (ordinary _ List.mem_cons_self) (by decide)
  | enter _ _ _ present _ _ => cases present
  | vacant _ _ _ _ permitted => cases permitted
  | link _ _ _ present _ _ => cases present

/-- A safe path that begins with two dots is refused before anything is
done. -/
theorem not_accepted_of_dots (safe : isSafeRelativePath path = true)
    (dots : StartsWithDots path) :
    ¬ Accepted (segments workspaceRoot) path := by
  have normalized := safe_forwardSlashes safe
  have outside : isPathContained (segments workspaceRoot)
      (resolve (segments workspaceRoot) (forwardSlashes path)) = false := by
    rw [← Bool.not_eq_true, isPathContained_resolve_iff _ normalized,
      startsWithDots_forwardSlashes, not_not]
    exact dots
  intro accepted
  have refused : (safeWritePath (segments workspaceRoot) path).ended
      ⟨.directory [], []⟩ =
        (.error (escapesWorkspace path), ⟨.directory [], []⟩) := by
    unfold safeWritePath
    dsimp only
    rw [if_neg (by rw [normalized]; decide), if_pos outside]
    rfl
  obtain ⟨way, isWay, place, leads, linked⟩ := accepted _ _ refused
  refine linked (unlinked_of_empty ?_ leads)
  obtain ⟨appended, -, -⟩ :=
    @Confinement.resolve_safe (segments workspaceRoot) _ normalized
  rcases isWay with rfl | rfl
  · exact ordinary_segments workspaceRoot
  · intro name member
    rw [appended] at member
    rcases List.mem_append.mp (List.mem_of_mem_dropLast member) with
      above | below
    · exact ordinary_segments workspaceRoot name above
    · exact Containment.isUnsafePiece_of_mem_pieces normalized below

/-! ## The result -/

/-- Containment is exact by segments if and only if no segment below the
parent begins with two dots.  A safe path is contained in every root, and
accepted by materialization, if and only if it does not begin with them. -/
theorem containment_exact_iff
    (parentPath childPath workspaceRoot path : List Char) :
    ((isPathContainedIn parentPath childPath = true ↔
        segments parentPath <+: segments childPath) ↔
      ¬ BelowDots (segments parentPath) (segments childPath)) ∧
    (isSafeRelativePath path = true →
      (isPathContained (segments workspaceRoot)
          (resolve (segments workspaceRoot) path) = true ↔
        ¬ StartsWithDots path) ∧
      (Accepted (segments workspaceRoot) path ↔ ¬ StartsWithDots path)) := by
  refine ⟨?_, fun safe => ⟨isPathContained_resolve_iff _ safe, ?_⟩⟩
  · rw [isPathContainedIn, isPathContained_iff]
    refine ⟨fun exact_ dots => ?_, fun plain => and_iff_left plain⟩
    obtain ⟨name, below, shape, starts⟩ := dots
    exact (exact_.mpr (shape ▸ List.prefix_append _ _)).2
      ⟨name, below, shape, starts⟩
  · exact ⟨fun accepted dots => not_accepted_of_dots safe dots accepted,
      accepted_of_plain safe⟩

/-- `..notes` is a safe path and lies in its root by segments, but is neither
contained nor accepted. -/
theorem dots_are_refused :
    isSafeRelativePath "..notes".toList = true ∧
    segments "/work".toList <+: segments "/work/..notes".toList ∧
    isPathContainedIn "/work".toList "/work/..notes".toList = false ∧
    isPathContained (segments "/work".toList)
      (resolve (segments "/work".toList) "..notes".toList) = false ∧
    ¬ Accepted (segments "/work".toList) "..notes".toList := by
  refine ⟨by decide, by decide, by decide, by decide, ?_⟩
  exact not_accepted_of_dots (by decide) (List.prefix_append ['.', '.'] _)

end Rbo.Snapshot.SegmentContainment
