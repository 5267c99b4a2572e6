import Rbo.Foundation.FileTree

/-!
# Changing a file tree

What stands at a location is looked at without what lies below it.  A change
replaces or removes one entry of one directory, and a look at any location
outside that entry gives the same as before.
-/

namespace Rbo.Foundation.FileTree

/-- A node without what lies below it. -/
inductive Object where
  | directory
  | file (executable : Bool) (content : List UInt8)
  | link (target : List Char)
  deriving DecidableEq

/-- The node of a new object; a new directory is empty. -/
def Object.node : Object → Node
  | .directory => .directory []
  | .file executable content => .file executable content
  | .link target => .link target

namespace Node

def object : Node → Object
  | .directory _ => .directory
  | .file executable content => .file executable content
  | .link target => .link target

/-- What stands at a location. -/
def look (tree : Node) (location : Location) : Option Object :=
  (tree.at? location).map object

/-- The entries with this one in the place of the old one. -/
def setEntry (name : Name) (child : Node) :
    List (Name × Node) → List (Name × Node)
  | [] => [(name, child)]
  | entry :: entries =>
    if entry.1 = name then (name, child) :: entries
    else entry :: setEntry name child entries

/-- The entries without this one. -/
def dropEntry (name : Name) (entries : List (Name × Node)) :
    List (Name × Node) :=
  entries.filter fun entry => entry.1 ≠ name

/-- Change the entries of the directory at a location. -/
def revise (change : List (Name × Node) → List (Name × Node)) :
    Location → Node → Node
  | [], .directory entries => .directory (change entries)
  | name :: rest, .directory entries =>
    match entries.lookup name with
    | some child =>
      .directory (setEntry name (child.revise change rest) entries)
    | none => .directory entries
  | _, node => node

/-- Put an object at a location, in the place of what stands there. -/
def put (place : Location) (object : Object) (tree : Node) : Node :=
  tree.revise (setEntry (place.getLastD []) object.node) place.dropLast

/-- Remove what stands at a location and everything below it. -/
def erase (place : Location) (tree : Node) : Node :=
  tree.revise (dropEntry (place.getLastD [])) place.dropLast

/-! ## Entries -/

theorem lookup_cons_if (other : Name) (entry : Name × Node)
    (entries : List (Name × Node)) :
    (entry :: entries).lookup other =
      if other = entry.1 then some entry.2 else entries.lookup other := by
  rw [List.lookup_cons]
  by_cases same : other = entry.1
  · rw [if_pos same, beq_iff_eq.mpr same]
  · rw [if_neg same, beq_eq_false_iff_ne.mpr same]

theorem lookup_setEntry (name other : Name) (child : Node)
    (entries : List (Name × Node)) :
    (setEntry name child entries).lookup other =
      if other = name then some child else entries.lookup other := by
  induction entries with
  | nil => exact lookup_cons_if other (name, child) []
  | cons entry entries inductionHypothesis =>
    unfold setEntry
    by_cases here : entry.1 = name
    · rw [if_pos here, lookup_cons_if, lookup_cons_if, here]
      by_cases same : other = name
      · rw [if_pos same, if_pos same]
      · rw [if_neg same, if_neg same, if_neg same]
    · rw [if_neg here, lookup_cons_if, lookup_cons_if, inductionHypothesis]
      by_cases found : other = entry.1
      · rw [if_pos found, if_pos found, if_neg (found ▸ here)]
      · rw [if_neg found, if_neg found]

theorem lookup_dropEntry (name other : Name) (entries : List (Name × Node)) :
    (dropEntry name entries).lookup other =
      if other = name then none else entries.lookup other := by
  induction entries with
  | nil =>
    rw [List.lookup_nil, ite_self]
    rfl
  | cons entry entries inductionHypothesis =>
    unfold dropEntry at inductionHypothesis ⊢
    rw [List.filter_cons]
    by_cases here : entry.1 = name
    · rw [if_neg (by simpa using here), inductionHypothesis,
        lookup_cons_if, here]
      by_cases same : other = name
      · rw [if_pos same, if_pos same]
      · rw [if_neg same, if_neg same, if_neg same]
    · rw [if_pos (by simpa using here), lookup_cons_if, lookup_cons_if,
        inductionHypothesis]
      by_cases found : other = entry.1
      · rw [if_pos found, if_pos found, if_neg (found ▸ here)]
      · rw [if_neg found, if_neg found]

/-! ## Looking at a changed tree -/

variable {tree : Node}

@[simp]
theorem look_nil (tree : Node) : tree.look [] = some tree.object := by
  unfold look
  cases tree <;> rfl

theorem look_cons (entries : List (Name × Node)) (name : Name)
    (rest : Location) :
    (directory entries).look (name :: rest) =
      (entries.lookup name).bind fun child => child.look rest := by
  unfold look
  rw [at?]
  cases entries.lookup name <;> rfl

theorem look_node_nil (object : Object) :
    object.node.look [] = some object := by
  rw [look_nil]
  cases object <;> rfl

/-- Nothing lies below a new object. -/
theorem look_node_cons (object : Object) (name : Name) (rest : Location) :
    object.node.look (name :: rest) = none := by
  cases object <;> rfl

/-- What has something below it is a directory. -/
theorem look_above {above below : Location} (below_nonempty : below ≠ [])
    (present : tree.look (above ++ below) ≠ none) :
    tree.look above = some .directory := by
  induction above generalizing tree with
  | nil =>
    cases below with
    | nil => contradiction
    | cons name rest =>
      cases tree with
      | directory entries => rfl
      | file executable content => exact absurd rfl present
      | link target => exact absurd rfl present
  | cons name above inductionHypothesis =>
    cases tree with
    | directory entries =>
      rw [List.cons_append, look_cons] at present
      rw [look_cons]
      cases found : entries.lookup name with
      | none =>
        rw [found] at present
        exact absurd rfl present
      | some child =>
        rw [found] at present
        exact inductionHypothesis present
    | file executable content => exact absurd rfl present
    | link target => exact absurd rfl present

/-- Below the revised directory. -/
theorem look_revise_below {change : List (Name × Node) → List (Name × Node)}
    {location : Location} (name : Name) (rest : Location)
    (inside : tree.look location = some .directory) :
    ∃ entries,
      (∀ name rest, tree.look (location ++ name :: rest) =
        (directory entries).look (name :: rest)) ∧
      (tree.revise change location).look (location ++ name :: rest) =
        (directory (change entries)).look (name :: rest) := by
  induction location generalizing tree with
  | nil =>
    cases tree with
    | directory entries => exact ⟨entries, fun _ _ => rfl, rfl⟩
    | file executable content => cases inside
    | link target => cases inside
  | cons first location inductionHypothesis =>
    cases tree with
    | directory entries =>
      rw [look_cons] at inside
      cases found : entries.lookup first with
      | none =>
        rw [found] at inside
        cases inside
      | some child =>
        rw [found] at inside
        obtain ⟨below, same, revised⟩ := inductionHypothesis inside
        refine ⟨below, ?_, ?_⟩
        · intro name rest
          rw [List.cons_append, look_cons, found]
          exact same name rest
        · rw [revise, found, List.cons_append, look_cons,
            lookup_setEntry, if_pos rfl]
          exact revised
    | file executable content => cases inside
    | link target => cases inside

/-- Away from the entries of the revised directory. -/
theorem look_revise_outside
    {change : List (Name × Node) → List (Name × Node)}
    {location other : Location}
    (outside : ∀ name rest, other ≠ location ++ name :: rest) :
    (tree.revise change location).look other = tree.look other := by
  induction location generalizing tree other with
  | nil =>
    cases other with
    | nil =>
      rw [look_nil, look_nil]
      cases tree <;> rfl
    | cons name rest => exact absurd rfl (outside name rest)
  | cons first location inductionHypothesis =>
    cases tree with
    | directory entries =>
      rw [revise]
      cases found : entries.lookup first with
      | none => rfl
      | some child =>
        cases other with
        | nil => rfl
        | cons name rest =>
          dsimp only
          rw [look_cons, look_cons, lookup_setEntry]
          by_cases same : name = first
          · rw [if_pos same, same, found]
            refine inductionHypothesis ?_
            rintro next more rfl
            exact outside next more (by rw [same, List.cons_append])
          · rw [if_neg same]
    | file executable content => rfl
    | link target => rfl

/-- A look after an object was put somewhere. -/
theorem look_put {parent : Location} {name : Name} {object : Object}
    (inside : tree.look parent = some .directory) (other : Location) :
    (tree.put (parent ++ [name]) object).look other =
      if other = parent ++ [name] then some object
      else if parent ++ [name] <+: other then none
      else tree.look other := by
  unfold put
  rw [List.dropLast_concat, List.getLastD_concat]
  by_cases below : ∃ first rest, other = parent ++ first :: rest
  · obtain ⟨first, rest, rfl⟩ := below
    obtain ⟨entries, same, revised⟩ :=
      @look_revise_below _ (setEntry name object.node) _ first rest inside
    rw [revised, same, look_cons, look_cons, lookup_setEntry]
    by_cases named : first = name
    · rw [if_pos named, named]
      cases rest with
      | nil => rw [if_pos rfl]; exact look_node_nil object
      | cons next rest =>
        rw [if_neg (by simp), if_pos ⟨next :: rest, by simp⟩]
        exact look_node_cons object next rest
    · rw [if_neg named, if_neg (by simp [named]), if_neg]
      rintro ⟨more, shape⟩
      rw [List.append_assoc, List.append_cancel_left_eq] at shape
      exact named (List.cons.inj shape).1.symm
  · rw [look_revise_outside fun first rest shape =>
        below ⟨first, rest, shape⟩,
      if_neg fun shape => below ⟨name, [], shape⟩, if_neg]
    rintro ⟨more, shape⟩
    exact below ⟨name, more, by rw [← shape, List.append_assoc]; rfl⟩

/-- A look after an entry was removed. -/
theorem look_erase {parent : Location} {name : Name}
    (inside : tree.look parent = some .directory) (other : Location) :
    (tree.erase (parent ++ [name])).look other =
      if parent ++ [name] <+: other then none else tree.look other := by
  unfold erase
  rw [List.dropLast_concat, List.getLastD_concat]
  by_cases below : ∃ first rest, other = parent ++ first :: rest
  · obtain ⟨first, rest, rfl⟩ := below
    obtain ⟨entries, same, revised⟩ :=
      @look_revise_below _ (dropEntry name) _ first rest inside
    rw [revised, same, look_cons, look_cons, lookup_dropEntry]
    by_cases named : first = name
    · rw [if_pos named, named, if_pos ⟨rest, by simp⟩]
      rfl
    · rw [if_neg named, if_neg]
      rintro ⟨more, shape⟩
      rw [List.append_assoc, List.append_cancel_left_eq] at shape
      exact named (List.cons.inj shape).1.symm
  · rw [look_revise_outside fun first rest shape =>
        below ⟨first, rest, shape⟩, if_neg]
    rintro ⟨more, shape⟩
    exact below ⟨name, more, by rw [← shape, List.append_assoc]; rfl⟩

end Node

end Rbo.Foundation.FileTree
