import Rbo.Foundation.FileCalls

/-!
# Changes below a directory

A program that works on paths below a directory stays below it, as long as no
link that it follows climbs out.  A link stays below when its target climbs
first, no higher than the directory, and then only goes down: a step up behind
a name would count from wherever a link in between leads.
-/

namespace Rbo.Foundation.Descent

open Rbo.Foundation.FileTree
open Rbo.Foundation.FileCalls

/-- The pieces climb at most `depth` directories, and then only go down. -/
def descends : Nat → List Name → Bool
  | _, [] => true
  | depth, name :: rest =>
    if staysPut name then descends depth rest
    else if name = ['.', '.'] then
      depth != 0 && descends (depth - 1) rest
    else !rest.contains ['.', '.']

/-- The target of a link stays below the directory. -/
def StaysBelow (root : Location) (link : Link) : Prop :=
  isAbsolute link.target = false ∧
    descends (link.directory.length - root.length) (pieces link.target) = true

/-- A path that goes down from the directory. -/
def Under (root path : Location) : Prop :=
  ∃ names, path = root ++ names ∧ ['.', '.'] ∉ names

variable {root path location : Location} {tree : Node} {vacant : Bool}
  {todo : List Name} {place : Place}

/-! ## Paths -/

theorem descends_of_notMem (depth : Nat) {todo : List Name}
    (down : ['.', '.'] ∉ todo) :
    descends depth todo = true := by
  induction todo with
  | nil => rfl
  | cons name rest inductionHypothesis =>
    rw [List.mem_cons, not_or] at down
    rw [descends, if_neg (Ne.symm down.1)]
    split
    · exact inductionHypothesis down.2
    · simpa using down.2

theorem descends_append {depth : Nat} {first rest : List Name}
    (descending : descends depth first = true) (down : ['.', '.'] ∉ rest) :
    descends depth (first ++ rest) = true := by
  induction first generalizing depth with
  | nil => exact descends_of_notMem depth down
  | cons name first inductionHypothesis =>
    rw [List.cons_append, descends]
    rw [descends] at descending
    split
    · rename_i stays
      rw [if_pos stays] at descending
      exact inductionHypothesis descending
    · rename_i moves
      rw [if_neg moves] at descending
      split
      · rename_i up
        rw [if_pos up, Bool.and_eq_true] at descending
        rw [Bool.and_eq_true]
        exact ⟨descending.1, inductionHypothesis descending.2⟩
      · rename_i enters
        rw [if_neg enters] at descending
        rw [Bool.not_eq_true', List.contains_eq_mem,
          decide_eq_false_iff_not] at descending ⊢
        rw [List.mem_append, not_or]
        exact ⟨descending, down⟩

theorem Under.append {name : Name} (under : Under root location)
    (down : name ≠ ['.', '.']) :
    Under root (location ++ [name]) := by
  obtain ⟨names, rfl, others⟩ := under
  refine ⟨names ++ [name], List.append_assoc _ _ _, ?_⟩
  rw [List.mem_append, List.mem_singleton, not_or]
  exact ⟨others, Ne.symm down⟩

theorem Under.dropLast (under : Under root location)
    (deeper : root.length < location.length) :
    Under root location.dropLast := by
  obtain ⟨names, rfl, down⟩ := under
  rcases List.eq_nil_or_concat names with rfl | ⟨front, last, rfl⟩
  · simp at deeper
  · refine ⟨front, ?_, ?_⟩
    · rw [List.concat_eq_append, ← List.append_assoc, List.dropLast_concat]
    · intro member
      exact down (by rw [List.concat_eq_append]; exact
        List.mem_append_left _ member)

/-- A path that starts below the directory ends below it, when every link that
it follows stays below. -/
theorem under_of_leads (leads : Leads tree vacant location todo place)
    (under : Under root location)
    (descending :
      descends (location.length - root.length) todo = true)
    (stay : ∀ link ∈ place.links, StaysBelow root link) :
    Under root place.location := by
  induction leads with
  | here location => exact under
  | stay _ stays _ inductionHypothesis =>
    rw [descends, if_pos stays] at descending
    exact inductionHypothesis under descending stay
  | @up location rest place inside _ inductionHypothesis =>
    rw [descends, if_neg (by decide), if_pos rfl, Bool.and_eq_true,
      bne_iff_ne] at descending
    have deeper : root.length < location.length := by omega
    have shorter :
        location.dropLast.length - root.length =
          location.length - root.length - 1 := by
      rw [List.length_dropLast]
      omega
    refine inductionHypothesis (under.dropLast deeper) ?_ stay
    rw [shorter]
    exact descending.2
  | enter _ moves down _ _ _ inductionHypothesis =>
    rw [descends, if_neg (by simp [moves]), if_neg down,
      Bool.not_eq_true', List.contains_eq_mem,
      decide_eq_false_iff_not] at descending
    exact inductionHypothesis (under.append down)
      (descends_of_notMem _ descending) stay
  | vacant _ _ down _ _ => exact under.append down
  | link _ moves down _ _ _ inductionHypothesis =>
    rw [descends, if_neg (by simp [moves]), if_neg down,
      Bool.not_eq_true', List.contains_eq_mem,
      decide_eq_false_iff_not] at descending
    obtain ⟨relative, below⟩ := stay _ List.mem_cons_self
    refine inductionHypothesis ?_ ?_ fun link member =>
      stay link (List.mem_cons_of_mem _ member)
    · rw [startOf, if_neg (by simp [relative])]
      exact under
    · rw [startOf, if_neg (by simp [relative])]
      exact descends_append below descending

/-! ## The directory itself -/

/-- A resolved location stays resolved when what stands on the way stays. -/
theorem resolved_of_look {after : Node} (resolved : Resolved tree root)
    (same : ∀ above, above <+: root → tree.look above = some .directory →
      after.look above = some .directory)
    (last : ∀ above name, above ++ [name] <+: root →
      (∃ object, tree.look (above ++ [name]) = some object ∧
        ∀ target, object ≠ .link target) →
      ∃ object, after.look (above ++ [name]) = some object ∧
        ∀ target, object ≠ .link target) :
    Resolved after root := by
  rw [resolved_iff_look] at resolved ⊢
  intro above name below shape
  obtain ⟨ordinary, inside, present⟩ := resolved above name below shape
  refine ⟨ordinary, same above ⟨name :: below, shape.symm⟩ inside, ?_⟩
  exact last above name ⟨below, by simp [shape]⟩ present

/-- Only a link that is put on the way could bar it. -/
theorem resolved_put {parent : Location} {name : Name} {object : Object}
    (resolved : Resolved tree root)
    (inside : tree.look parent = some .directory)
    (vacated : tree.look (parent ++ [name]) ≠ some .directory)
    (plain : tree.look (parent ++ [name]) ≠ none →
      ∀ target, object ≠ .link target) :
    Resolved (tree.put (parent ++ [name]) object) root := by
  have below : ∀ other, tree.look other = some .directory →
      ¬ parent ++ [name] <+: other := by
    rintro _ found ⟨rest, rfl⟩
    cases rest with
    | nil => exact vacated (by simpa using found)
    | cons first rest =>
      refine vacated (Node.look_above (List.cons_ne_nil first rest) ?_)
      rw [found]
      exact nofun
  refine resolved_of_look resolved ?_ ?_
  · intro above _ found
    have outside := below above found
    rw [Node.look_put inside, if_neg, if_neg outside]
    · exact found
    · rintro rfl
      exact outside (List.prefix_refl _)
  · rintro above other - ⟨here, present, unlinked⟩
    rw [Node.look_put inside]
    by_cases same : above ++ [other] = parent ++ [name]
    · rw [if_pos same]
      refine ⟨object, rfl, plain ?_⟩
      rw [← same, present]
      exact nofun
    · rw [if_neg same, if_neg]
      · exact ⟨here, present, unlinked⟩
      · rintro ⟨rest, shape⟩
        rcases List.eq_nil_or_concat rest with rfl | ⟨front, last, rfl⟩
        · exact same (by simpa using shape.symm)
        · rw [List.concat_eq_append, ← List.append_assoc] at shape
          have upper := (List.append_inj' shape rfl).1
          refine below above ?_ ⟨front, upper⟩
          refine Node.look_above (List.cons_ne_nil other []) ?_
          rw [present]
          exact nofun

/-- A directory below which something was removed stays where it was. -/
theorem resolved_erase {parent : Location} {name : Name}
    (resolved : Resolved tree root)
    (inside : tree.look parent = some .directory)
    (below : root <+: parent) :
    Resolved (tree.erase (parent ++ [name])) root := by
  have outside : ∀ other, other <+: root → ¬ parent ++ [name] <+: other := by
    intro other above deeper
    have longer := (deeper.trans (above.trans below)).length_le
    rw [List.length_append, List.length_singleton] at longer
    omega
  refine resolved_of_look resolved ?_ ?_
  · intro above inRoot found
    rw [Node.look_erase inside, if_neg (outside above inRoot)]
    exact found
  · intro above other inRoot present
    rw [Node.look_erase inside, if_neg (outside _ inRoot)]
    exact present

/-! ## Calls below a directory -/

/-- Every link that was followed on the way to a change stays below. -/
def LinksStay (root : Location) (made : List Change) : Prop :=
  ∀ change ∈ made, ∀ link ∈ change.links, StaysBelow root link

/-- The directory stands where it stood, and every change was made below. -/
structure Confined (root : Location) (made : List Change) (tree : Node) :
    Prop where
  rooted : tree.look [] = some .directory
  resolved : Resolved tree root
  under : ∀ change ∈ made, Under root change.place

/-- The changes since then are confined as long as the links that they
followed stay below. -/
def Confines (root : Location) (before : List Change) (host : Host) : Prop :=
  ∃ made, host.changes = before ++ made ∧
    (LinksStay root made → Confined root made host.tree)

variable {before : List Change} {host next : Host}

theorem under_self (root : Location) : Under root root :=
  ⟨[], (List.append_nil root).symm, List.not_mem_nil⟩

/-- Where a path below the directory leads. -/
theorem under_of_reach {budget : Nat} (rooted : tree.look [] = some .directory)
    (resolved : Resolved tree root) (under : Under root path)
    (reached : reach tree vacant budget [] path = .ok place) :
    Reached tree place.location ∧
      ((∀ link ∈ place.links, StaysBelow root link) →
        Under root place.location) := by
  obtain ⟨names, rfl, down⟩ := under
  rw [reach_of_resolved resolved] at reached
  have leads := leads_of_reach reached
  have here : Reached tree root := by
    rcases List.eq_nil_or_concat root with rfl | ⟨above, name, shape⟩
    · exact reached_of_look rooted rooted nofun
    · rw [List.concat_eq_append] at shape
      obtain ⟨-, -, object, present, plain⟩ :=
        resolved_iff_look.mp resolved above name [] shape
      rw [shape]
      exact reached_of_look rooted present plain
  refine ⟨leads.reached rooted here, fun stay => ?_⟩
  refine under_of_leads leads (under_self root) ?_ stay
  exact descends_of_notMem _ down

/-- The place of an entry below the directory. -/
theorem under_of_entryPlace (rooted : tree.look [] = some .directory)
    (resolved : Resolved tree root) {names : List Name} (nonempty : names ≠ [])
    (down : ['.', '.'] ∉ names)
    (found : entryPlace tree (root ++ names) = .ok place) :
    ∃ parent name, place.location = parent ++ [name] ∧
      tree.look parent = some .directory ∧
      ((∀ link ∈ place.links, StaysBelow root link) →
        Under root parent ∧ Under root place.location) := by
  obtain ⟨parent, followed, inside, rfl⟩ := entryPlace_eq_ok found
  rcases List.eq_nil_or_concat names with rfl | ⟨front, last, rfl⟩
  · contradiction
  rw [List.concat_eq_append] at down followed ⊢
  rw [← List.append_assoc, List.dropLast_concat] at followed
  have upper : Under root (root ++ front) :=
    ⟨front, rfl, fun member => down (List.mem_append_left _ member)⟩
  have reached := under_of_reach rooted resolved upper followed
  refine ⟨parent.location, last, ?_, inside, fun stay => ?_⟩
  · rw [← List.append_assoc, List.getLastD_concat]
  · have below := reached.2 stay
    refine ⟨below, ?_⟩
    rw [← List.append_assoc, List.getLastD_concat]
    refine below.append ?_
    rintro rfl
    exact down (List.mem_append_right _ List.mem_cons_self)

/-- One more change keeps what was said of the changes before. -/
theorem Confines.changed {act : Act} {after : Node}
    (confines : Confines root before host)
    (step : host.tree.look [] = some .directory → Resolved host.tree root →
      (∀ link ∈ place.links, StaysBelow root link) →
      after.look [] = some .directory ∧ Resolved after root ∧
        Under root place.location) :
    Confines root before (host.changed act place after) := by
  obtain ⟨made, shape, confined⟩ := confines
  refine ⟨made ++ [⟨act, place.location, place.links⟩], ?_, fun stay => ?_⟩
  · rw [← List.append_assoc, ← shape]
    rfl
  have earlier : Confined root made host.tree := by
    refine confined fun change member => ?_
    exact stay change (List.mem_append_left _ member)
  obtain ⟨rooted, resolved, under⟩ := step earlier.rooted earlier.resolved
    (stay _ (List.mem_append_right _ List.mem_cons_self))
  refine ⟨rooted, resolved, fun change member => ?_⟩
  rcases List.mem_append.mp member with old | new
  · exact earlier.under change old
  · rw [List.mem_singleton.mp new]
    exact under

theorem look_nil_put {parent : Location} {name : Name} {object : Object}
    (rooted : tree.look [] = some .directory)
    (inside : tree.look parent = some .directory) :
    (tree.put (parent ++ [name]) object).look [] = some .directory := by
  rw [Node.look_put inside, if_neg (by simp), if_neg (by simp)]
  exact rooted

/-- A call on a path below the directory keeps its changes there. -/
theorem Confines.alters (confines : Confines root before host) {names : List Name}
    (nonempty : names ≠ []) (down : ['.', '.'] ∉ names)
    (alters : Alters (root ++ names) host next) :
    Confines root before next := by
  have under : Under root (root ++ names) := ⟨names, rfl, down⟩
  cases alters with
  | nothing => exact confines
  | entry act object found missing =>
    refine confines.changed fun rooted resolved stay => ?_
    obtain ⟨parent, name, at_, inside, below⟩ :=
      under_of_entryPlace rooted resolved nonempty down found
    have placed := (below stay).2
    rw [at_] at missing placed ⊢
    refine ⟨look_nil_put rooted inside, ?_, placed⟩
    refine resolved_put resolved inside ?_ ?_
    · rw [missing]
      exact nofun
    · exact fun present => absurd missing present
  | content bytes found vacated =>
    refine confines.changed fun rooted resolved stay => ?_
    obtain ⟨reached, below⟩ :=
      under_of_reach rooted resolved under found
    obtain ⟨parent, name, at_, inside⟩ := reached.entry vacated
    have placed := below stay
    rw [at_] at vacated placed ⊢
    refine ⟨look_nil_put rooted inside, ?_, placed⟩
    refine resolved_put resolved inside vacated ?_
    intro _ target
    unfold written
    split <;> exact nofun
  | @mode place mode found =>
    refine confines.changed fun rooted resolved stay => ?_
    obtain ⟨reached, below⟩ :=
      under_of_reach rooted resolved under found
    have placed := below stay
    unfold withMode
    split
    · rename_i present
      have differs : host.tree.look place.location ≠ some .directory := by
        rw [present]
        exact nofun
      obtain ⟨parent, name, at_, inside⟩ := reached.entry differs
      rw [at_] at differs placed ⊢
      refine ⟨look_nil_put rooted inside, ?_, placed⟩
      exact resolved_put resolved inside differs fun _ _ => nofun
    · exact ⟨rooted, resolved, placed⟩
  | removal found =>
    refine confines.changed fun rooted resolved stay => ?_
    obtain ⟨parent, name, at_, inside, below⟩ :=
      under_of_entryPlace rooted resolved nonempty down found
    obtain ⟨upper, placed⟩ := below stay
    rw [at_] at placed ⊢
    refine ⟨?_, ?_, placed⟩
    · rw [Node.look_erase inside, if_neg (by simp)]
      exact rooted
    · obtain ⟨front, rfl, -⟩ := upper
      exact resolved_erase resolved inside ⟨front, rfl⟩

/-! ## Programs below a directory -/

section Programs

open Effect

variable {answers : Unit → Prop} {names : List Name}

/-- A call on a path below the directory. -/
theorem keeps_altering {call : Effect Host Failure Unit}
    (nonempty : names ≠ []) (down : ['.', '.'] ∉ names)
    (altering : Altering (root ++ names) call) (answered : answers ()) :
    Keeps (Confines root before) answers call := by
  obtain ⟨change, rfl, alters⟩ := altering
  refine keeps_changing answered fun host next confines made => ?_
  exact confines.alters nonempty down (alters host next made)

/-- A directory on the way to the root is there already. -/
theorem keeps_makeDirectory_above {above : Location} {name : Name}
    (inRoot : above ++ [name] <+: root) (answered : answers ()) :
    Keeps (Confines root before) answers (makeDirectory (above ++ [name])) := by
  refine keeps_changing answered fun host next confines made => ?_
  have made := (answered_eq_ok.mp made).2
  by_cases present : leadsToDirectory host.tree (above ++ [name]) = true
  · rw [if_pos present] at made
    cases made
    exact confines
  · rw [if_neg present] at made
    obtain ⟨place, found, made⟩ := Results.bind_eq_ok.mp made
    obtain ⟨missing, made⟩ := Results.guard_eq_ok.mp made
    cases made
    refine confines.changed fun rooted resolved _ => absurd ?_ missing
    obtain ⟨below, shape⟩ := inRoot
    have steps := resolved_iff_look.mp resolved
    have upper : Resolved host.tree above := by
      rw [resolved_iff_look]
      intro front other back split
      exact steps front other (back ++ name :: below)
        (by rw [← shape, split]; simp)
    obtain ⟨parent, followed, -, rfl⟩ := entryPlace_eq_ok found
    rw [List.dropLast_concat] at followed
    unfold follow at followed
    rw [← List.append_nil above, reach_of_resolved upper] at followed
    obtain ⟨-, -, object, stands, -⟩ :=
      steps above name below (by rw [← shape]; simp)
    have at_ : parent.location = above := by
      cases leads_of_reach followed
      rfl
    rw [at_, List.getLastD_concat, stands]
    exact nofun

theorem keeps_makeDirectories (under : Under root path)
    (answered : answers ()) :
    Keeps (Confines root before) answers (makeDirectories path) := by
  obtain ⟨names, rfl, down⟩ := under
  refine keeps_forM answered fun above member => ?_
  rw [List.mem_range, List.length_append] at member
  by_cases inRoot : above < root.length
  · have whole : (root ++ names).take (above + 1) =
        root.take above ++ [root[above]] := by
      rw [List.take_append_of_le_length inRoot, List.take_succ_eq_append_getElem inRoot]
    rw [whole]
    refine keeps_makeDirectory_above ?_ answered
    rw [← List.take_succ_eq_append_getElem inRoot]
    exact List.take_prefix _ _
  · have below : (root ++ names).take (above + 1) =
        root ++ names.take (above + 1 - root.length) := by
      rw [List.take_append, List.take_of_length_le (by omega)]
    rw [below]
    refine keeps_altering ?_ ?_ (altering_makeDirectory _) answered
    · intro empty
      rcases List.take_eq_nil_iff.mp empty with zero | rfl
      · omega
      · simp at member
        omega
    · exact fun inside => down (List.mem_of_mem_take inside)

end Programs

end Rbo.Foundation.Descent
