import Mathlib.Data.List.Basic

/-!
# File trees with symbolic links

A file tree holds directories, files and symbolic links.  A path is text; its
pieces between slashes are followed one at a time, and a link on the way is
replaced by the pieces of its target, at most forty times.  What is left is a
location: the names from the root down, none of them a link.

The lexical operations on path text are those of POSIX paths: `join` and
`normalize` drop `.` and resolve `..` against the piece before it, without
looking at the tree.
-/

namespace Rbo.Foundation.FileTree

/-- A piece of a path between two slashes. -/
abbrev Name := List Char

/-- The names from the root of the tree down to a node. -/
abbrev Location := List Name

/-- A node of a file tree. -/
inductive Node where
  | directory (entries : List (Name × Node))
  | file (executable : Bool) (content : List UInt8)
  | link (target : List Char)

namespace Node

/-- Whether the node is a directory. -/
def isDirectory : Node → Bool
  | .directory _ => true
  | _ => false

/-- Whether the node is a symbolic link. -/
def isLink : Node → Bool
  | .link _ => true
  | _ => false

/-- The node at a location; links are not followed. -/
def at? : Node → Location → Option Node
  | node, [] => some node
  | .directory entries, name :: rest =>
    (entries.lookup name).bind fun child => child.at? rest
  | .file .., _ :: _ => none
  | .link _, _ :: _ => none

end Node

/-! ## Lexical paths -/

/-- The pieces of a path between its slashes. -/
def pieces (path : List Char) : List Name :=
  path.splitOn '/'

/-- Whether a path starts at the root. -/
def isAbsolute (path : List Char) : Bool :=
  path.head? == some '/'

/-- A piece that stays where it is. -/
def staysPut (name : Name) : Bool :=
  name == [] || name == ['.']

/-- Resolve the pieces lexically on top of those already kept; `..` removes
the piece before it, and is itself kept only above the start. -/
def normalizePieces (allowAboveRoot : Bool) :
    List Name → List Name → List Name
  | kept, [] => kept
  | kept, name :: rest =>
    if staysPut name then
      normalizePieces allowAboveRoot kept rest
    else if name = ['.', '.'] then
      if kept.getLast? = none ∨ kept.getLast? = some ['.', '.'] then
        normalizePieces allowAboveRoot
          (if allowAboveRoot then kept ++ [name] else kept) rest
      else
        normalizePieces allowAboveRoot kept.dropLast rest
    else
      normalizePieces allowAboveRoot (kept ++ [name]) rest

/-- Lexical normal form of a path. -/
def normalize (path : List Char) : List Char :=
  if path = [] then
    ['.']
  else
    let body :=
      ['/'].intercalate
        (normalizePieces (!isAbsolute path) [] (pieces path))
    let trailing := path.getLast? = some '/'
    if body = [] then
      if isAbsolute path then ['/']
      else if trailing then ['.', '/'] else ['.']
    else
      (if isAbsolute path then ['/'] else []) ++ body ++
        (if trailing then ['/'] else [])

/-- Join two paths and normalise the result; an empty part is left out. -/
def join (first second : List Char) : List Char :=
  if first = [] then
    normalize second
  else if second = [] then
    normalize first
  else
    normalize (first ++ '/' :: second)

/-- The text of a location. -/
def render (location : Location) : List Char :=
  if location = [] then
    ['/']
  else
    ['/'].intercalate ([] :: location)

/-! ## Following a path -/

/-- Follow the pieces from a location; a link is handed over together with
the pieces left behind it. -/
def walkWith (tree : Node)
    (onLink : Location → List Char → List Name → Option Location) :
    Location → List Name → Option Location
  | location, [] => some location
  | location, name :: rest =>
    if (tree.at? location).any Node.isDirectory = false then
      none
    else if staysPut name then
      walkWith tree onLink location rest
    else if name = ['.', '.'] then
      walkWith tree onLink location.dropLast rest
    else
      match tree.at? (location ++ [name]) with
      | none => none
      | some (.link target) => onLink location target rest
      | some (.directory _) => walkWith tree onLink (location ++ [name]) rest
      | some (.file ..) => walkWith tree onLink (location ++ [name]) rest

/-- Where the pieces of a path begin. -/
def startOf (location : Location) (path : List Char) : Location :=
  if isAbsolute path then [] else location

/-- Follow the pieces from a location through at most `budget` links. -/
def walk (tree : Node) : Nat → Location → List Name → Option Location
  | 0 => walkWith tree fun _ _ _ => none
  | budget + 1 =>
    walkWith tree fun location target rest =>
      if target = [] then
        none
      else
        walk tree budget (startOf location target) (pieces target ++ rest)

/-- A name that a directory can hold. -/
def Ordinary (name : Name) : Prop :=
  staysPut name = false ∧ name ≠ ['.', '.'] ∧ '/' ∉ name

/-- Every name of the location can be entered without following a link. -/
def Resolved (tree : Node) (location : Location) : Prop :=
  ∀ above name below, location = above ++ name :: below →
    Ordinary name ∧
    (tree.at? above).any Node.isDirectory = true ∧
    ∃ node, tree.at? (above ++ [name]) = some node ∧ node.isLink = false

/-- A file tree and the working directory of the process. -/
structure FileSystem where
  entries : List (Name × Node)
  workingDirectory : Location
  workingDirectory_resolved : Resolved (.directory entries) workingDirectory

namespace FileSystem

def root (files : FileSystem) : Node :=
  .directory files.entries

/-- The links that one path may lead through. -/
def maxLinks : Nat :=
  40

/-- The location of a path with every link resolved. -/
def realPath (files : FileSystem) (path : List Char) : Option Location :=
  if path = [] then
    none
  else
    walk files.root maxLinks (startOf files.workingDirectory path) (pieces path)

/-- The node a path names, without following a link in its last piece. -/
def lstat (files : FileSystem) (path : List Char) : Option Node :=
  let last := (pieces path).getLast?.getD []
  if staysPut last ∨ last = ['.', '.'] then
    (files.realPath path).bind files.root.at?
  else
    (walk files.root maxLinks (startOf files.workingDirectory path)
      (pieces path).dropLast).bind fun parent =>
        files.root.at? (parent ++ [last])

end FileSystem

/-! ## Resolved locations -/

variable {tree : Node}

/-- No piece of a split text holds the separator. -/
theorem notMem_of_mem_splitOn {separator : Char} {text piece : List Char}
    (member : piece ∈ text.splitOn separator) :
    separator ∉ piece := by
  induction text generalizing piece with
  | nil =>
    simp only [List.splitOn_nil, List.mem_singleton] at member
    simp [member]
  | cons char rest inductionHypothesis =>
    rw [List.splitOn_cons_eq_if_modifyHead] at member
    split at member
    · rcases List.mem_cons.mp member with rfl | later
      · simp
      · exact inductionHypothesis later
    · rename_i differs
      cases parts : rest.splitOn separator with
      | nil => exact absurd parts (List.splitOn_ne_nil _ _)
      | cons first others =>
        rw [parts] at member inductionHypothesis
        rcases List.mem_cons.mp member with rfl | later
        · intro inside
          rcases List.mem_cons.mp inside with rfl | inside
          · simp at differs
          · exact inductionHypothesis List.mem_cons_self inside
        · exact inductionHypothesis (List.mem_cons_of_mem _ later)

theorem not_mem_of_mem_pieces {path : List Char} {name : Name}
    (member : name ∈ pieces path) :
    '/' ∉ name :=
  notMem_of_mem_splitOn member

theorem pieces_append (path rest : List Char) :
    pieces (path ++ '/' :: rest) = pieces path ++ pieces rest :=
  List.splitOn_append_cons_self path rest

theorem resolved_nil : Resolved tree [] := by
  intro above name below shape
  simp at shape

variable {location : Location}

theorem Resolved.dropLast (resolved : Resolved tree location) :
    Resolved tree location.dropLast := by
  intro above name below shape
  rcases List.eq_nil_or_concat location with rfl | ⟨front, last, rfl⟩
  · simp at shape
  · refine resolved above name (below ++ [last]) ?_
    rw [List.concat_eq_append, List.dropLast_concat] at shape
    simp [shape]

theorem Resolved.append {name : Name} {node : Node}
    (resolved : Resolved tree location) (ordinary : Ordinary name)
    (inside : (tree.at? location).any Node.isDirectory = true)
    (present : tree.at? (location ++ [name]) = some node)
    (plain : node.isLink = false) :
    Resolved tree (location ++ [name]) := by
  intro above other below shape
  rcases List.eq_nil_or_concat below with rfl | ⟨front, last, rfl⟩
  · obtain ⟨rfl, same⟩ := List.append_inj' shape rfl
    obtain rfl : name = other := by simpa using same
    exact ⟨ordinary, inside, node, present, plain⟩
  · refine resolved above other front ?_
    have split : location ++ [name] = (above ++ other :: front) ++ [last] := by
      simpa using shape
    exact (List.append_inj' split rfl).1

theorem walkWith_resolved
    {onLink : Location → List Char → List Name → Option Location}
    (onLink_resolved : ∀ location target rest final,
      Resolved tree location → (∀ name ∈ rest, '/' ∉ name) →
      onLink location target rest = some final → Resolved tree final)
    {final : Location} {todo : List Name} (resolved : Resolved tree location)
    (named : ∀ name ∈ todo, '/' ∉ name)
    (walked : walkWith tree onLink location todo = some final) :
    Resolved tree final := by
  induction todo generalizing location with
  | nil =>
    obtain rfl : location = final := by simpa [walkWith] using walked
    exact resolved
  | cons name rest inductionHypothesis =>
    have namedRest : ∀ other ∈ rest, '/' ∉ other := fun other member =>
      named other (List.mem_cons_of_mem _ member)
    rw [walkWith] at walked
    split_ifs at walked with outside stays up
    · exact inductionHypothesis resolved namedRest walked
    · exact inductionHypothesis resolved.dropLast namedRest walked
    · have ordinary : Ordinary name :=
        ⟨by simpa using stays, up, named name List.mem_cons_self⟩
      have inside : (tree.at? location).any Node.isDirectory = true := by
        simpa using outside
      split at walked
      · cases walked
      · exact onLink_resolved _ _ _ _ resolved namedRest walked
      · rename_i present
        exact inductionHypothesis
          (resolved.append ordinary inside present rfl) namedRest walked
      · rename_i present
        exact inductionHypothesis
          (resolved.append ordinary inside present rfl) namedRest walked

theorem Resolved.startOf (resolved : Resolved tree location)
    (path : List Char) :
    Resolved tree (startOf location path) := by
  unfold FileTree.startOf
  split
  · exact resolved_nil
  · exact resolved

/-- Whatever links a walk goes through, it ends at a resolved location. -/
theorem walk_resolved {budget : Nat} {final : Location} {todo : List Name}
    (resolved : Resolved tree location) (named : ∀ name ∈ todo, '/' ∉ name)
    (walked : walk tree budget location todo = some final) :
    Resolved tree final := by
  induction budget generalizing location final todo with
  | zero =>
    refine walkWith_resolved ?_ resolved named walked
    intro location target rest reached _ _ impossible
    cases impossible
  | succ budget inductionHypothesis =>
    refine walkWith_resolved ?_ resolved named walked
    intro location target rest reached resolved namedRest walked
    split_ifs at walked
    refine inductionHypothesis (resolved.startOf target) ?_ walked
    intro name member
    rcases List.mem_append.mp member with inTarget | inRest
    · exact not_mem_of_mem_pieces inTarget
    · exact namedRest name inRest

theorem walkWith_of_resolved
    {onLink : Location → List Char → List Name → Option Location}
    {todo : List Name} (resolved : Resolved tree (location ++ todo)) :
    walkWith tree onLink location todo = some (location ++ todo) := by
  induction todo generalizing location with
  | nil => simp [walkWith]
  | cons name rest inductionHypothesis =>
    obtain ⟨⟨moves, up, _⟩, inside, node, present, plain⟩ :=
      resolved location name rest rfl
    have later :
        walkWith tree onLink (location ++ [name]) rest =
          some (location ++ name :: rest) := by
      have shape : location ++ name :: rest = location ++ [name] ++ rest := by
        simp
      rw [shape]
      exact inductionHypothesis (shape ▸ resolved)
    rw [walkWith]
    cases node with
    | directory entries => simp [inside, moves, up, present, later]
    | file executable content => simp [inside, moves, up, present, later]
    | link target => cases plain

/-- A resolved location is reached by its own names. -/
theorem walk_of_resolved (budget : Nat) {todo : List Name}
    (resolved : Resolved tree (location ++ todo)) :
    walk tree budget location todo = some (location ++ todo) := by
  cases budget <;> exact walkWith_of_resolved resolved

theorem Resolved.slashFree (resolved : Resolved tree location) {name : Name}
    (member : name ∈ location) :
    '/' ∉ name := by
  obtain ⟨above, below, shape⟩ := List.append_of_mem member
  exact (resolved above name below shape).1.2.2

namespace FileSystem

variable {files : FileSystem}

theorem realPath_resolved {path : List Char} {location : Location}
    (real : files.realPath path = some location) :
    Resolved files.root location := by
  unfold realPath at real
  split_ifs at real
  exact walk_resolved (files.workingDirectory_resolved.startOf path)
    (fun _ member => not_mem_of_mem_pieces member) real

theorem pieces_render {location : Location}
    (resolved : Resolved tree location) (nonempty : location ≠ []) :
    pieces (render location) = [] :: location := by
  unfold pieces render
  rw [if_neg nonempty]
  refine List.splitOn_intercalate '/' ?_ (by simp)
  intro name member
  rcases List.mem_cons.mp member with rfl | inside
  · simp
  · exact resolved.slashFree inside

theorem isAbsolute_render (location : Location) :
    isAbsolute (render location) = true := by
  unfold render
  split
  · rfl
  · cases location with
    | nil => contradiction
    | cons name rest => simp [isAbsolute, List.intercalate]

/-- The text of a resolved location is its own real path. -/
theorem realPath_render {location : Location}
    (resolved : Resolved files.root location) :
    files.realPath (render location) = some location := by
  have absolute := isAbsolute_render location
  have present : render location ≠ [] := by
    intro missing
    rw [missing] at absolute
    cases absolute
  rw [realPath, if_neg present, startOf, if_pos absolute]
  by_cases empty : location = []
  · subst empty
    rfl
  · rw [pieces_render resolved empty]
    have walked :
        walk files.root maxLinks [] location = some ([] ++ location) :=
      walk_of_resolved maxLinks resolved
    exact walked

end FileSystem

end Rbo.Foundation.FileTree
