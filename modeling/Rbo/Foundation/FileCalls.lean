import Rbo.Foundation.Effects
import Rbo.Foundation.Results
import Rbo.Foundation.TreeUpdates

/-!
# File system calls

The calls by which a program makes, writes and removes the objects of a file
tree, and changes their modes.  A path is absolute and given by its names; its
links are followed when the call is made, so that an object may lie somewhere
else than its path says.  Every change is recorded with the place where it was
made and the links that led there.

A mode is kept as far as it makes a file executable, and permissions stop no
call.
-/

namespace Rbo.Foundation.FileCalls

open Rbo.Foundation.FileTree

/-- Why the system refuses a call. -/
inductive Errno where
  | noEntry
  | notDirectory
  | isDirectory
  | present
  | tooManyLinks
  | invalid
  deriving DecidableEq

/-- A refused call, or an error that the program throws itself. -/
inductive Failure where
  | system (errno : Errno) (path : Location)
  | thrown (code message : String)
  deriving DecidableEq

/-! ## Where a path leads -/

/-- A link that was followed, with the directory that it lies in. -/
structure Link where
  directory : Location
  target : List Char
  deriving DecidableEq

/-- Where a path leads, and the links on the way. -/
structure Place where
  location : Location
  links : List Link
  deriving DecidableEq

/-- The place was reached behind a link. -/
def Place.behind (link : Link) (place : Place) : Place :=
  { place with links := link :: place.links }

/-- Follow the pieces from a location; a link is handed over with the pieces
left behind it.  The last piece may be missing if a vacant place will do. -/
def reachWith (tree : Node) (vacant : Bool)
    (onLink : Location → List Char → List Name → Except Errno Place) :
    Location → List Name → Except Errno Place
  | location, [] => .ok ⟨location, []⟩
  | location, name :: rest =>
    if tree.look location ≠ some .directory then
      .error .notDirectory
    else if staysPut name then
      reachWith tree vacant onLink location rest
    else if name = ['.', '.'] then
      reachWith tree vacant onLink location.dropLast rest
    else
      match tree.look (location ++ [name]) with
      | none =>
        if vacant ∧ rest = [] then .ok ⟨location ++ [name], []⟩
        else .error .noEntry
      | some (.link target) => onLink location target rest
      | some .directory =>
        reachWith tree vacant onLink (location ++ [name]) rest
      | some (.file ..) =>
        reachWith tree vacant onLink (location ++ [name]) rest

/-- Follow the pieces from a location through at most `budget` links. -/
def reach (tree : Node) (vacant : Bool) :
    Nat → Location → List Name → Except Errno Place
  | 0 => reachWith tree vacant fun _ _ _ => .error .tooManyLinks
  | budget + 1 =>
    reachWith tree vacant fun location target rest =>
      if target = [] then
        .error .noEntry
      else
        (reach tree vacant budget (startOf location target)
          (pieces target ++ rest)).map (Place.behind ⟨location, target⟩)

/-- The place of the object that a path leads to. -/
def follow (tree : Node) (path : Location) : Except Errno Place :=
  reach tree false FileSystem.maxLinks [] path

/-- The place of a file that is opened for writing, made if need be. -/
def destination (tree : Node) (path : Location) : Except Errno Place :=
  reach tree true FileSystem.maxLinks [] path

/-- The place that the last name of a path stands for; a link there is not
followed. -/
def entryPlace (tree : Node) (path : Location) : Except Errno Place := do
  let parent ← follow tree path.dropLast
  if tree.look parent.location = some .directory then
    return { parent with
      location := parent.location ++ [path.getLastD []] }
  else
    throw .notDirectory

/-- Whether a path leads to a directory. -/
def leadsToDirectory (tree : Node) (path : Location) : Bool :=
  match follow tree path with
  | .ok place => tree.look place.location = some .directory
  | .error _ => false

/-! ## Calls -/

/-- What was done to an object. -/
inductive Act where
  | makeDirectory
  | write (content : List UInt8)
  | setMode (mode : Int)
  | link (target : List Char)
  | remove
  deriving DecidableEq

/-- A change of the tree, with the links that led to its place. -/
structure Change where
  act : Act
  place : Location
  links : List Link
  deriving DecidableEq

/-- A file tree and the changes that were made to it, the first one first. -/
structure Host where
  tree : Node
  changes : List Change

/-- The host after a change. -/
def Host.changed (host : Host) (act : Act) (place : Place) (tree : Node) :
    Host :=
  { tree, changes := host.changes ++ [⟨act, place.location, place.links⟩] }

/-- A text that the system cannot take. -/
def hasNul (text : List Char) : Bool :=
  text.contains '\x00'

/-- An answer about a path, or the refusal of the call. -/
def answered {Answer : Type} (path : Location)
    (answer : Except Errno Answer) :
    Except Failure Answer :=
  if path.any hasNul then
    .error (.system .invalid path)
  else
    match answer with
    | .ok value => .ok value
    | .error errno => .error (.system errno path)

/-- Make a directory, unless the path leads to one. -/
def makeDirectory (path : Location) : Effect Host Failure Unit :=
  .changing fun host => answered path do
    if leadsToDirectory host.tree path then
      return host
    let place ← entryPlace host.tree path
    if host.tree.look place.location ≠ none then
      throw .present
    return host.changed .makeDirectory place
      (host.tree.put place.location .directory)

/-- `mkdir(path, { recursive: true })`. -/
def makeDirectories (path : Location) : Effect Host Failure Unit :=
  (List.range path.length).forM fun above => makeDirectory (path.take (above + 1))

/-- The object of a file after its content was written. -/
def written (content : List UInt8) : Option Object → Object
  | some (.file executable _) => .file executable content
  | _ => .file false content

/-- `writeFile(path, content)`. -/
def writeFile (path : Location) (content : List UInt8) :
    Effect Host Failure Unit :=
  .changing fun host => answered path do
    let place ← destination host.tree path
    if host.tree.look place.location = some .directory then
      throw .isDirectory
    return host.changed (.write content) place
      (host.tree.put place.location
        (written content (host.tree.look place.location)))

/-- Whether a mode lets someone execute a file: `mode & 0o111`. -/
def isExecutable (mode : Int) : Bool :=
  mode % 2 = 1 || mode / 8 % 2 = 1 || mode / 64 % 2 = 1

/-- The tree after the mode of an object was set. -/
def withMode (mode : Int) (place : Location) (tree : Node) : Node :=
  match tree.look place with
  | some (.file _ content) =>
    tree.put place (.file (isExecutable mode) content)
  | _ => tree

/-- `chmod(path, mode)`. -/
def chmod (path : Location) (mode : Int) : Effect Host Failure Unit :=
  .changing fun host => answered path do
    if mode < 0 then
      throw .invalid
    let place ← follow host.tree path
    return host.changed (.setMode mode) place
      (withMode mode place.location host.tree)

/-- `symlink(target, path)`. -/
def symlink (target : List Char) (path : Location) :
    Effect Host Failure Unit :=
  .changing fun host => answered path do
    let place ← entryPlace host.tree path
    if hasNul target then
      throw .invalid
    if target = [] then
      throw .noEntry
    if host.tree.look place.location ≠ none then
      throw .present
    return host.changed (.link target) place
      (host.tree.put place.location (.link target))

/-- `rm(path, { recursive: true, force: true })`. -/
def remove (path : Location) : Effect Host Failure Unit :=
  .changing fun host => answered path
    (match entryPlace host.tree path with
    | .error .noEntry => .ok host
    | .error errno => .error errno
    | .ok place =>
      if host.tree.look place.location = none then
        .ok host
      else
        .ok (host.changed .remove place
          (host.tree.erase place.location)))

/-- `realpath(path)`. -/
def realpath (path : Location) : Effect Host Failure Location :=
  .reading fun host => answered path
    ((follow host.tree path).map (·.location))

/-- `readFile(path)`. -/
def readFile (path : Location) : Effect Host Failure (List UInt8) :=
  .reading fun host => answered path do
    let place ← follow host.tree path
    match host.tree.look place.location with
    | some (.file _ content) => return content
    | _ => throw .isDirectory

/-- The node of the directory that a path leads to. -/
def readDirectory (path : Location) :
    Effect Host Failure (List (Name × Node)) :=
  .reading fun host => answered path do
    let place ← follow host.tree path
    match host.tree.at? place.location with
    | some (.directory entries) => return entries
    | _ => throw .notDirectory

/-! ## What a path leads to -/

section Places

variable {tree : Node} {vacant : Bool} {budget : Nat} {place : Place}
  {location : Location} {todo : List Name}

theorem isDirectory_iff_look :
    (tree.at? location).any Node.isDirectory = true ↔
      tree.look location = some .directory := by
  unfold Node.look
  cases tree.at? location with
  | none => exact iff_of_false (by simp) (by simp)
  | some node => cases node <;> simp [Node.isDirectory, Node.object]

theorem notLink_iff_look :
    (∃ node, tree.at? location = some node ∧ node.isLink = false) ↔
      ∃ object, tree.look location = some object ∧
        ∀ target, object ≠ .link target := by
  unfold Node.look
  cases tree.at? location with
  | none => exact iff_of_false (by simp) (by simp)
  | some node => cases node <;> simp [Node.isLink, Node.object]

/-- A resolved location, said of what stands above it. -/
theorem resolved_iff_look :
    Resolved tree location ↔
      ∀ above name below, location = above ++ name :: below →
        Ordinary name ∧ tree.look above = some .directory ∧
          ∃ object, tree.look (above ++ [name]) = some object ∧
            ∀ target, object ≠ .link target := by
  unfold Resolved
  simp only [isDirectory_iff_look, notLink_iff_look]

/-- Following a path with a record of its links ends where a walk ends. -/
theorem walkWith_of_reachWith
    {onLink : Location → List Char → List Name → Except Errno Place}
    {onWalked : Location → List Char → List Name → Option Location}
    (followed : ∀ location target rest place,
      onLink location target rest = .ok place →
      onWalked location target rest = some place.location)
    (reached : reachWith tree false onLink location todo = .ok place) :
    walkWith tree onWalked location todo = some place.location := by
  induction todo generalizing location with
  | nil =>
    cases reached
    rfl
  | cons name rest inductionHypothesis =>
    rw [reachWith] at reached
    rw [walkWith]
    by_cases inside : tree.look location = some .directory
    · rw [if_neg (not_not.mpr inside)] at reached
      rw [if_neg (by rw [isDirectory_iff_look.mpr inside]; decide)]
      by_cases stays : staysPut name = true
      · rw [if_pos stays] at reached ⊢
        exact inductionHypothesis reached
      rw [if_neg stays] at reached ⊢
      by_cases up : name = ['.', '.']
      · rw [if_pos up] at reached ⊢
        exact inductionHypothesis reached
      rw [if_neg up] at reached ⊢
      unfold Node.look at reached
      cases child : tree.at? (location ++ [name]) with
      | none =>
        rw [child] at reached
        cases reached
      | some node =>
        rw [child] at reached
        cases node with
        | directory entries => exact inductionHypothesis reached
        | file executable content => exact inductionHypothesis reached
        | link target => exact followed location target rest place reached
    · rw [if_pos inside] at reached
      cases reached

theorem walk_of_reach
    (reached : reach tree false budget location todo = .ok place) :
    walk tree budget location todo = some place.location := by
  induction budget generalizing location todo place with
  | zero =>
    refine walkWith_of_reachWith ?_ reached
    exact fun location target rest place impossible => nomatch impossible
  | succ budget inductionHypothesis =>
    refine walkWith_of_reachWith ?_ reached
    intro location target rest place followed
    split at followed
    · cases followed
    · rename_i nonempty
      rw [if_neg nonempty]
      cases later : reach tree false budget (startOf location target)
          (pieces target ++ rest) with
      | error errno =>
        rw [later] at followed
        cases followed
      | ok behind =>
        rw [later] at followed
        cases followed
        have walked :
            walk tree budget (startOf location target)
              (pieces target ++ rest) = some behind.location :=
          inductionHypothesis later
        exact walked

/-- A path of ordinary text leads to a resolved location. -/
theorem resolved_of_follow {path : Location}
    (named : ∀ name ∈ path, '/' ∉ name)
    (followed : follow tree path = .ok place) :
    Resolved tree place.location :=
  walk_resolved resolved_nil named (walk_of_reach followed)

/-- The ways along which a path leads to a place. -/
inductive Leads (tree : Node) (vacant : Bool) :
    Location → List Name → Place → Prop where
  | here (location : Location) : Leads tree vacant location [] ⟨location, []⟩
  | stay {location : Location} {name : Name} {rest : List Name} {place : Place}
      (inside : tree.look location = some .directory)
      (stays : staysPut name = true)
      (leads : Leads tree vacant location rest place) :
      Leads tree vacant location (name :: rest) place
  | up {location : Location} {rest : List Name} {place : Place}
      (inside : tree.look location = some .directory)
      (leads : Leads tree vacant location.dropLast rest place) :
      Leads tree vacant location (['.', '.'] :: rest) place
  | enter {location : Location} {name : Name} {rest : List Name}
      {place : Place} {object : Object}
      (inside : tree.look location = some .directory)
      (moves : staysPut name = false) (down : name ≠ ['.', '.'])
      (present : tree.look (location ++ [name]) = some object)
      (plain : ∀ target, object ≠ .link target)
      (leads : Leads tree vacant (location ++ [name]) rest place) :
      Leads tree vacant location (name :: rest) place
  | vacant {location : Location} {name : Name}
      (inside : tree.look location = some .directory)
      (moves : staysPut name = false) (down : name ≠ ['.', '.'])
      (missing : tree.look (location ++ [name]) = none)
      (permitted : vacant = true) :
      Leads tree vacant location [name] ⟨location ++ [name], []⟩
  | link {location : Location} {name : Name} {rest : List Name}
      {place : Place} {target : List Char}
      (inside : tree.look location = some .directory)
      (moves : staysPut name = false) (down : name ≠ ['.', '.'])
      (present : tree.look (location ++ [name]) = some (.link target))
      (nonempty : target ≠ [])
      (leads : Leads tree vacant (startOf location target)
        (pieces target ++ rest) place) :
      Leads tree vacant location (name :: rest)
        (place.behind ⟨location, target⟩)

theorem leads_of_reachWith
    {onLink : Location → List Char → List Name → Except Errno Place}
    (followed : ∀ location target rest place,
      onLink location target rest = .ok place →
      target ≠ [] ∧ ∃ behind,
        Leads tree vacant (startOf location target) (pieces target ++ rest)
          behind ∧ place = behind.behind ⟨location, target⟩)
    (reached : reachWith tree vacant onLink location todo = .ok place) :
    Leads tree vacant location todo place := by
  induction todo generalizing location with
  | nil =>
    cases reached
    exact .here location
  | cons name rest inductionHypothesis =>
    rw [reachWith] at reached
    by_cases inside : tree.look location = some .directory
    · rw [if_neg (not_not.mpr inside)] at reached
      by_cases stays : staysPut name = true
      · rw [if_pos stays] at reached
        exact .stay inside stays (inductionHypothesis reached)
      rw [if_neg stays] at reached
      by_cases up : name = ['.', '.']
      · rw [if_pos up] at reached
        rw [up]
        exact .up inside (inductionHypothesis reached)
      rw [if_neg up] at reached
      have moves : staysPut name = false := Bool.eq_false_iff.mpr stays
      split at reached
      · rename_i missing
        split at reached
        · rename_i last
          obtain ⟨permitted, rfl⟩ := last
          cases reached
          exact .vacant inside moves up missing permitted
        · cases reached
      · rename_i target present
        obtain ⟨nonempty, behind, leads, rfl⟩ :=
          followed location target rest place reached
        exact .link inside moves up present nonempty leads
      · rename_i present
        exact .enter inside moves up present nofun
          (inductionHypothesis reached)
      · rename_i present
        exact .enter inside moves up present nofun
          (inductionHypothesis reached)
    · rw [if_pos inside] at reached
      cases reached

theorem leads_of_reach
    (reached : reach tree vacant budget location todo = .ok place) :
    Leads tree vacant location todo place := by
  induction budget generalizing location todo place with
  | zero =>
    refine leads_of_reachWith ?_ reached
    exact fun location target rest place impossible => nomatch impossible
  | succ budget inductionHypothesis =>
    refine leads_of_reachWith ?_ reached
    intro location target rest place followed
    split_ifs at followed with empty
    cases later : reach tree vacant budget (startOf location target)
        (pieces target ++ rest) with
    | error errno =>
      rw [later] at followed
      cases followed
    | ok behind =>
      rw [later] at followed
      cases followed
      exact ⟨empty, behind, inductionHypothesis later, rfl⟩

/-- What stands at the end of a path, or could be made there: a directory, or
an entry of a directory that is no link. -/
structure Reached (tree : Node) (location : Location) : Prop where
  unlinked : ∀ target, tree.look location ≠ some (.link target)
  entry : tree.look location ≠ some .directory →
    ∃ parent name, location = parent ++ [name] ∧
      tree.look parent = some .directory

theorem reached_of_look {object : Object}
    (rooted : tree.look [] = some .directory)
    (present : tree.look location = some object)
    (plain : ∀ target, object ≠ .link target) :
    Reached tree location := by
  refine ⟨fun target same => ?_, fun differs => ?_⟩
  · rw [present] at same
    exact plain target (Option.some.inj same)
  · rcases List.eq_nil_or_concat location with rfl | ⟨parent, name, rfl⟩
    · exact absurd rooted differs
    · rw [List.concat_eq_append] at present ⊢
      refine ⟨parent, name, rfl, ?_⟩
      refine Node.look_above (List.cons_ne_nil name []) ?_
      rw [present]
      exact nofun

theorem look_dropLast (inside : tree.look location = some .directory) :
    tree.look location.dropLast = some .directory := by
  rcases List.eq_nil_or_concat location with rfl | ⟨above, name, rfl⟩
  · exact inside
  · rw [List.concat_eq_append] at inside ⊢
    rw [List.dropLast_concat]
    refine Node.look_above (List.cons_ne_nil name []) ?_
    rw [inside]
    exact nofun

theorem look_startOf (target : List Char)
    (inside : tree.look location = some .directory) :
    tree.look (startOf location target) = some .directory := by
  unfold startOf
  split
  · cases location with
    | nil => exact inside
    | cons name rest =>
      refine @Node.look_above tree [] (name :: rest) nofun ?_
      rw [List.nil_append, inside]
      exact nofun
  · exact inside

/-- A path leads to an object, or to a vacant place in a directory. -/
theorem Leads.reached (leads : Leads tree vacant location todo place)
    (rooted : tree.look [] = some .directory)
    (here : Reached tree location) :
    Reached tree place.location := by
  have directory : ∀ above, tree.look above = some .directory →
      Reached tree above :=
    fun above inside => reached_of_look rooted inside nofun
  induction leads with
  | here location => exact here
  | stay _ _ _ inductionHypothesis => exact inductionHypothesis here
  | up inside _ inductionHypothesis =>
    exact inductionHypothesis (directory _ (look_dropLast inside))
  | enter _ _ _ present plain _ inductionHypothesis =>
    exact inductionHypothesis (reached_of_look rooted present plain)
  | vacant inside _ _ missing _ =>
    exact ⟨fun target => by simp [missing], fun _ => ⟨_, _, rfl, inside⟩⟩
  | link inside _ _ _ _ _ inductionHypothesis =>
    exact inductionHypothesis (directory _ (look_startOf _ inside))

/-- From a resolved location on, the names above it are not followed again. -/
theorem reach_of_resolved (resolved : Resolved tree location) :
    reach tree vacant budget [] (location ++ todo) =
      reach tree vacant budget location todo := by
  rw [resolved_iff_look] at resolved
  have walked : ∀ (onLink : _ → _ → _ → Except Errno Place) above below,
      location = above ++ below →
      reachWith tree vacant onLink above (below ++ todo) =
        reachWith tree vacant onLink location todo := by
    intro onLink above below shape
    induction below generalizing above with
    | nil => rw [shape, List.append_nil, List.nil_append]
    | cons name below inductionHypothesis =>
      obtain ⟨ordinary, inside, object, present, plain⟩ :=
        resolved above name below shape
      rw [← inductionHypothesis (above ++ [name]) (by simp [shape]),
        List.cons_append, reachWith, if_neg (not_not.mpr inside),
        if_neg (by simp [ordinary.1]), if_neg ordinary.2.1, present]
      cases object with
      | directory => rfl
      | file executable content => rfl
      | link target => exact absurd rfl (plain target)
  cases budget with
  | zero => exact walked _ [] location rfl
  | succ budget => exact walked _ [] location rfl

theorem entryPlace_eq_ok {path : Location}
    (found : entryPlace tree path = .ok place) :
    ∃ parent, follow tree path.dropLast = .ok parent ∧
      tree.look parent.location = some .directory ∧
      place = { parent with
        location := parent.location ++ [path.getLastD []] } := by
  unfold entryPlace at found
  obtain ⟨parent, followed, found⟩ := Results.bind_eq_ok.mp found
  split at found
  · rename_i inside
    cases found
    exact ⟨parent, followed, inside, rfl⟩
  · cases found

theorem answered_eq_ok {Answer : Type} {path : Location}
    {answer : Except Errno Answer} {value : Answer} :
    answered path answer = .ok value ↔
      path.any hasNul = false ∧ answer = .ok value := by
  unfold answered
  by_cases nul : path.any hasNul = true
  · simp [nul]
  · rw [if_neg nul]
    cases answer with
    | ok found => simpa using fun _ => Bool.eq_false_iff.mpr nul
    | error errno => simp

end Places

/-! ## What a call may do -/

/-- The changes that a call on a path may make. -/
inductive Alters (path : Location) (host : Host) : Host → Prop where
  | nothing : Alters path host host
  | entry {place : Place} (act : Act) (object : Object)
      (found : entryPlace host.tree path = .ok place)
      (missing : host.tree.look place.location = none) :
      Alters path host
        (host.changed act place (host.tree.put place.location object))
  | content {place : Place} (bytes : List UInt8)
      (found : destination host.tree path = .ok place)
      (vacated : host.tree.look place.location ≠ some .directory) :
      Alters path host
        (host.changed (.write bytes) place
          (host.tree.put place.location
            (written bytes (host.tree.look place.location))))
  | mode {place : Place} (mode : Int)
      (found : follow host.tree path = .ok place) :
      Alters path host
        (host.changed (.setMode mode) place
          (withMode mode place.location host.tree))
  | removal {place : Place} (found : entryPlace host.tree path = .ok place) :
      Alters path host
        (host.changed .remove place (host.tree.erase place.location))

/-- A call that makes at most one change, at this path. -/
def Altering (path : Location) (call : Effect Host Failure Unit) : Prop :=
  ∃ change, call = .changing change ∧
    ∀ host next, change host = .ok next → Alters path host next

theorem altering_makeDirectory (path : Location) :
    Altering path (makeDirectory path) := by
  refine ⟨_, rfl, fun host next made => ?_⟩
  have made := (answered_eq_ok.mp made).2
  by_cases present : leadsToDirectory host.tree path = true
  · rw [if_pos present] at made
    cases made
    exact .nothing
  · rw [if_neg present] at made
    obtain ⟨place, found, made⟩ := Results.bind_eq_ok.mp made
    obtain ⟨missing, made⟩ := Results.guard_eq_ok.mp made
    cases made
    exact .entry _ _ found (not_not.mp missing)

theorem altering_writeFile (path : Location) (content : List UInt8) :
    Altering path (writeFile path content) := by
  refine ⟨_, rfl, fun host next made => ?_⟩
  have made := (answered_eq_ok.mp made).2
  obtain ⟨place, found, made⟩ := Results.bind_eq_ok.mp made
  obtain ⟨vacated, made⟩ := Results.guard_eq_ok.mp made
  cases made
  exact .content content found vacated

theorem altering_chmod (path : Location) (mode : Int) :
    Altering path (chmod path mode) := by
  refine ⟨_, rfl, fun host next made => ?_⟩
  have made := (answered_eq_ok.mp made).2
  obtain ⟨_, made⟩ := Results.guard_eq_ok.mp made
  obtain ⟨place, found, made⟩ := Results.bind_eq_ok.mp made
  cases made
  exact .mode mode found

theorem altering_symlink (target : List Char) (path : Location) :
    Altering path (symlink target path) := by
  refine ⟨_, rfl, fun host next made => ?_⟩
  have made := (answered_eq_ok.mp made).2
  obtain ⟨place, found, made⟩ := Results.bind_eq_ok.mp made
  obtain ⟨_, made⟩ := Results.guard_eq_ok.mp made
  obtain ⟨_, made⟩ := Results.guard_eq_ok.mp made
  obtain ⟨missing, made⟩ := Results.guard_eq_ok.mp made
  cases made
  exact .entry _ _ found (not_not.mp missing)

theorem altering_remove (path : Location) :
    Altering path (remove path) := by
  refine ⟨_, rfl, fun host next made => ?_⟩
  have made := (answered_eq_ok.mp made).2
  split at made
  · cases made
    exact .nothing
  · cases made
  · rename_i place found
    split at made
    · cases made
      exact .nothing
    · cases made
      exact .removal found

end Rbo.Foundation.FileCalls
