import Mathlib.Data.List.Infix
import Rbo.Foundation.FileTree
import Rbo.Foundation.Wildcards

/-!
# The secret policy

A captured path is compared with a denylist of patterns.  A pattern with a
trailing slash names a directory, `*.` names an extension, any other star is a
run of characters, and the remaining patterns name a file.

A pattern is stable under nesting when a path that it matches still matches
below any directory.  File and extension patterns are.  A directory pattern
matches the bare name of the directory only at the top, and a pattern with a
star elsewhere is also tried on the whole path, which a directory in front of
it changes.
-/

namespace Rbo.Snapshot.SecretPolicy

open Rbo.Foundation
open Rbo.Foundation.FileTree

/-- What a capture does about a path on the denylist. -/
inductive SecretPolicyMode where
  | block
  | warn
  | allow
  deriving DecidableEq

/-- A path and the pattern that it matches. -/
structure SecretPolicyViolation where
  path : List Char
  pattern : List Char
  deriving DecidableEq

/-- Default denylist, as relative POSIX paths. -/
def defaultSecretDenylist : List (List Char) :=
  [".env".toList, ".env.*".toList, "*.pem".toList, "*.key".toList,
    "*.p12".toList, "*.pfx".toList, "id_rsa".toList, "id_ed25519".toList,
    "credentials.json".toList, "secrets.*".toList, ".aws/".toList,
    ".ssh/".toList]

/-- Every backslash as a slash. -/
def forwardSlashes (path : List Char) : List Char :=
  path.map fun char => if char = '\\' then '/' else char

/-- One leading `./` is dropped. -/
def dropCurrent : List Char → List Char
  | '.' :: '/' :: rest => rest
  | path => path

/-- The path as the patterns see it. -/
def normalizeSecretPath (path : List Char) : List Char :=
  dropCurrent (forwardSlashes path)

/-- The last piece of a path. -/
def baseName (path : List Char) : List Char :=
  (pieces path).getLast?.getD path

/-- Whether the text holds the part anywhere. -/
def includes (text part : List Char) : Bool :=
  text.tails.any part.isPrefixOf

/-- The characters that `.` matches in a regular expression. -/
def notLineTerminator (char : Char) : Bool :=
  char ≠ '\n' && char ≠ '\r' && char ≠ '\u2028' && char ≠ '\u2029'

/-- The pattern with each star as a run of characters. -/
def starTokens (pattern : List Char) : List (Wildcards.Token Char) :=
  [Wildcards.Token.run notLineTerminator].intercalate
    ((pattern.splitOn '*').map fun part => part.map .literal)

/-- Whether a path matches a pattern of the denylist. -/
def matchPattern (pathStr pattern : List Char) : Bool :=
  let path := normalizeSecretPath pathStr
  let pat := forwardSlashes pattern
  if ['/'].isSuffixOf pat then
    path == pat.dropLast || pat.isPrefixOf path || includes path ('/' :: pat)
  else if ['*', '.'].isPrefixOf pat then
    (pat.drop 1).isSuffixOf (baseName path) || baseName path == pat.drop 2
  else if pat.contains '*' then
    Wildcards.test (starTokens pat) path ||
      Wildcards.test (starTokens pat) (baseName path)
  else if ['.', '*'].isSuffixOf pat then
    -- Not reached: a pattern with a star was handled above.
    let stem := pat.dropLast.dropLast
    baseName path == stem || (stem ++ ['.']).isPrefixOf (baseName path)
  else
    path == pat || ('/' :: pat).isSuffixOf path || baseName path == pat

/-- The patterns that a path matches. -/
def findSecretPolicyViolations (pathStr : List Char)
    (mode : SecretPolicyMode) :
    List SecretPolicyViolation :=
  if mode = .allow then
    []
  else
    (defaultSecretDenylist.filter (matchPattern pathStr)).map fun pattern =>
      { path := normalizeSecretPath pathStr, pattern := pattern }

/-- The path matches some pattern of the denylist. -/
def Denied (path : List Char) : Prop :=
  ∃ pattern ∈ defaultSecretDenylist, matchPattern path pattern = true

instance (path : List Char) : Decidable (Denied path) :=
  inferInstanceAs
    (Decidable (∃ pattern ∈ defaultSecretDenylist, matchPattern path pattern = true))

theorem findSecretPolicyViolations_eq_nil_iff {path : List Char}
    {mode : SecretPolicyMode} (checks : mode ≠ .allow) :
    findSecretPolicyViolations path mode = [] ↔ ¬ Denied path := by
  simp [findSecretPolicyViolations, checks, Denied]

theorem mem_findSecretPolicyViolations {path : List Char}
    {mode : SecretPolicyMode} (checks : mode ≠ .allow)
    (violation : SecretPolicyViolation) :
    violation ∈ findSecretPolicyViolations path mode ↔
      violation.path = normalizeSecretPath path ∧
      violation.pattern ∈ defaultSecretDenylist ∧
      matchPattern path violation.pattern = true := by
  rw [findSecretPolicyViolations, if_neg checks, List.mem_map]
  constructor
  · rintro ⟨pattern, member, rfl⟩
    exact ⟨rfl, List.mem_filter.mp member⟩
  · rintro ⟨same, listed, passes⟩
    refine ⟨violation.pattern, List.mem_filter.mpr ⟨listed, passes⟩, ?_⟩
    rw [← same]

/-! ## Paths below a directory -/

theorem forwardSlashes_append (front path : List Char) :
    forwardSlashes (front ++ '/' :: path) =
      forwardSlashes front ++ '/' :: forwardSlashes path := by
  simp [forwardSlashes]

theorem dropCurrent_cases (path : List Char) :
    dropCurrent path = path ∨ path = ['.'] ++ '/' :: dropCurrent path := by
  unfold dropCurrent
  split
  · exact Or.inr rfl
  · exact Or.inl rfl

theorem dropCurrent_append (front path : List Char) :
    dropCurrent (front ++ '/' :: path) = path ∨
    ∃ above, dropCurrent (front ++ '/' :: path) = above ++ '/' :: path := by
  rcases dropCurrent_cases (front ++ '/' :: path) with same | dropped
  · exact Or.inr ⟨front, same⟩
  · match front, dropped with
    | [], dropped => simp at dropped
    | [first], dropped =>
      refine Or.inl ?_
      simpa using (List.append_cancel_left (congrArg List.tail dropped)).symm
    | first :: second :: rest, dropped =>
      refine Or.inr ⟨rest, ?_⟩
      have tails := congrArg (List.drop 2) dropped
      simpa using tails.symm

/-- A path below a directory is seen as itself or as lying below something. -/
theorem normalizeSecretPath_append (front path : List Char) :
    normalizeSecretPath (front ++ '/' :: path) = normalizeSecretPath path ∨
    ∃ above,
      normalizeSecretPath (front ++ '/' :: path) =
        above ++ '/' :: normalizeSecretPath path := by
  unfold normalizeSecretPath
  rw [forwardSlashes_append]
  rcases dropCurrent_append (forwardSlashes front) (forwardSlashes path) with
    same | ⟨above, below⟩
  · rw [same]
    rcases dropCurrent_cases (forwardSlashes path) with kept | dropped
    · exact Or.inl kept.symm
    · exact Or.inr ⟨['.'], dropped⟩
  · rw [below]
    rcases dropCurrent_cases (forwardSlashes path) with kept | dropped
    · exact Or.inr ⟨above, by rw [kept]⟩
    · refine Or.inr ⟨above ++ ['/', '.'], ?_⟩
      nth_rewrite 1 [dropped]
      simp

theorem baseName_append (above path : List Char) :
    baseName (above ++ '/' :: path) = baseName path := by
  have nonempty : pieces path ≠ [] := List.splitOn_ne_nil _ _
  unfold baseName
  rw [pieces_append, List.getLast?_append_of_ne_nil _ nonempty,
    List.getLast?_eq_some_getLast nonempty]
  rfl

@[simp]
theorem baseName_nested (front path : List Char) :
    baseName (normalizeSecretPath (front ++ '/' :: path)) =
      baseName (normalizeSecretPath path) := by
  rcases normalizeSecretPath_append front path with same | ⟨above, below⟩
  · rw [same]
  · rw [below, baseName_append]

/-! ## Which matches are stable under nesting -/

/-- The match does not depend on the path starting where it does: a directory
pattern matches more than the bare directory, and a pattern with a star that
is not an extension matches the last piece. -/
def MatchesBelow (path pattern : List Char) : Prop :=
  (['/'].isSuffixOf pattern = true →
    normalizeSecretPath path ≠ pattern.dropLast) ∧
  (pattern.contains '*' = true → ['*', '.'].isPrefixOf pattern = false →
    Wildcards.test (starTokens pattern)
      (baseName (normalizeSecretPath path)) = true)

/-- The pattern matches the path below every directory. -/
def MatchesNested (path pattern : List Char) : Prop :=
  ∀ front, matchPattern (front ++ '/' :: path) pattern = true

section Kinds

variable {path pattern : List Char}

theorem baseName_of_slashFree (slashFree : '/' ∉ pattern) :
    baseName pattern = pattern := by
  simp [baseName, pieces, List.splitOn_eq_singleton slashFree]

theorem matchesBelow_of_plain
    (noDirectory : ['/'].isSuffixOf pattern = false)
    (noStar : pattern.contains '*' = true →
      ['*', '.'].isPrefixOf pattern = true) :
    MatchesBelow path pattern := by
  constructor
  · intro directory
    rw [noDirectory] at directory
    cases directory
  · intro star noExtension
    rw [noStar star] at noExtension
    cases noExtension

/-- A file pattern is about the last piece only. -/
theorem stable_of_file
    (shape : ∀ text, matchPattern text pattern =
      (normalizeSecretPath text == pattern ||
        ('/' :: pattern).isSuffixOf (normalizeSecretPath text) ||
        baseName (normalizeSecretPath text) == pattern))
    (slashFree : '/' ∉ pattern)
    (noDirectory : ['/'].isSuffixOf pattern = false)
    (noStar : pattern.contains '*' = true →
      ['*', '.'].isPrefixOf pattern = true)
    (passes : matchPattern path pattern = true) :
    MatchesNested path pattern ↔ MatchesBelow path pattern := by
  refine iff_of_true ?_ (matchesBelow_of_plain noDirectory noStar)
  intro front
  have base : baseName (normalizeSecretPath path) = pattern := by
    rw [shape, Bool.or_eq_true, Bool.or_eq_true, beq_iff_eq, beq_iff_eq,
      List.isSuffixOf_iff_suffix] at passes
    rcases passes with (same | ⟨above, below⟩) | base
    · rw [same, baseName_of_slashFree slashFree]
    · rw [← below, baseName_append, baseName_of_slashFree slashFree]
    · exact base
  rw [shape, baseName_nested, base]
  simp

/-- An extension pattern is about the last piece only. -/
theorem stable_of_extension
    (shape : ∀ text, matchPattern text pattern =
      ((pattern.drop 1).isSuffixOf (baseName (normalizeSecretPath text)) ||
        baseName (normalizeSecretPath text) == pattern.drop 2))
    (noDirectory : ['/'].isSuffixOf pattern = false)
    (extension : ['*', '.'].isPrefixOf pattern = true)
    (passes : matchPattern path pattern = true) :
    MatchesNested path pattern ↔ MatchesBelow path pattern := by
  refine iff_of_true ?_
    (matchesBelow_of_plain noDirectory fun _ => extension)
  intro front
  rw [shape, baseName_nested, ← shape]
  exact passes

theorem includes_iff (text part : List Char) :
    includes text part = true ↔ part <:+: text := by
  unfold includes
  rw [List.any_eq_true]
  constructor
  · rintro ⟨tail, member, starts⟩
    exact (List.isPrefixOf_iff_prefix.mp starts).isInfix.trans
      ((List.mem_tails _ _).mp member).isInfix
  · rintro ⟨before, after, rfl⟩
    refine ⟨part ++ after, ?_, ?_⟩
    · rw [List.mem_tails, List.append_assoc]
      exact List.suffix_append _ _
    · exact List.isPrefixOf_iff_prefix.mpr (List.prefix_append _ _)

theorem normalizeSecretPath_below_x (path : List Char) :
    normalizeSecretPath (['x'] ++ '/' :: path) =
      'x' :: '/' :: forwardSlashes path := by
  simp [normalizeSecretPath, forwardSlashes, dropCurrent]

/-- What a directory pattern asks of a normalised path. -/
def inDirectory (name path : List Char) : Bool :=
  path == name || (name ++ ['/']).isPrefixOf path ||
    includes path ('/' :: name ++ ['/'])

theorem inDirectory_append {name : List Char} (above : List Char)
    (passes : inDirectory name path = true) (longer : path ≠ name) :
    inDirectory name (above ++ '/' :: path) = true := by
  unfold inDirectory at passes ⊢
  simp only [Bool.or_eq_true, beq_iff_eq, List.isPrefixOf_iff_prefix,
    includes_iff] at passes ⊢
  refine Or.inr ?_
  rcases passes with (same | ⟨after, below⟩) | ⟨before, after, below⟩
  · exact absurd same longer
  · exact ⟨above, after, by rw [← below]; simp⟩
  · exact ⟨above ++ '/' :: before, after, by rw [← below]; simp⟩

/-- A directory pattern is stable unless the path is the bare directory. -/
theorem stable_of_directory
    (shape : ∀ text, matchPattern text pattern =
      inDirectory pattern.dropLast (normalizeSecretPath text))
    (directory : ['/'].isSuffixOf pattern = true)
    (noStar : pattern.contains '*' = false)
    (bare : inDirectory pattern.dropLast
      ('x' :: '/' :: pattern.dropLast) = false)
    (bareCurrent : inDirectory pattern.dropLast
      ('x' :: '/' :: '.' :: '/' :: pattern.dropLast) = false)
    (passes : matchPattern path pattern = true) :
    MatchesNested path pattern ↔ MatchesBelow path pattern := by
  have condition :
      MatchesBelow path pattern ↔
        normalizeSecretPath path ≠ pattern.dropLast := by
    simp only [MatchesBelow, directory, noStar]
    simp
  rw [shape] at passes
  rw [condition]
  constructor
  · intro nested same
    have below := nested ['x']
    rw [shape, normalizeSecretPath_below_x] at below
    change dropCurrent (forwardSlashes path) = pattern.dropLast at same
    rcases dropCurrent_cases (forwardSlashes path) with kept | dropped
    · rw [← kept, same, bare] at below
      cases below
    · rw [dropped, same, List.singleton_append, bareCurrent] at below
      cases below
  · intro longer front
    rw [shape]
    rcases normalizeSecretPath_append front path with same | ⟨above, below⟩
    · rw [same]
      exact passes
    · rw [below]
      exact inDirectory_append above passes longer

/-- A star pattern is stable when it matches the last piece. -/
theorem stable_of_star {first : Char} {tokens : List (Wildcards.Token Char)}
    (shape : ∀ text, matchPattern text pattern =
      (Wildcards.test (starTokens pattern) (normalizeSecretPath text) ||
        Wildcards.test (starTokens pattern)
          (baseName (normalizeSecretPath text))))
    (starts : starTokens pattern = .literal first :: tokens)
    (other : first ≠ 'x')
    (noDirectory : ['/'].isSuffixOf pattern = false)
    (star : pattern.contains '*' = true)
    (noExtension : ['*', '.'].isPrefixOf pattern = false) :
    MatchesNested path pattern ↔ MatchesBelow path pattern := by
  have condition :
      MatchesBelow path pattern ↔
        Wildcards.test (starTokens pattern)
          (baseName (normalizeSecretPath path)) = true := by
    simp only [MatchesBelow, noDirectory, star, noExtension]
    simp
  rw [condition]
  constructor
  · intro nested
    have below := nested ['x']
    rw [shape, baseName_nested, Bool.or_eq_true,
      normalizeSecretPath_below_x] at below
    rcases below with whole | base
    · rw [starts] at whole
      exact absurd (Wildcards.head_of_test_literal whole).symm other
    · exact base
  · intro base front
    rw [shape, baseName_nested, base, Bool.or_true]

end Kinds

/-- A match of a pattern of the denylist is stable under nesting exactly when
it does not rest on where the path starts. -/
theorem matchesNested_iff {path pattern : List Char}
    (listed : pattern ∈ defaultSecretDenylist)
    (passes : matchPattern path pattern = true) :
    MatchesNested path pattern ↔ MatchesBelow path pattern := by
  simp only [defaultSecretDenylist, List.mem_cons, List.not_mem_nil,
    or_false] at listed
  rcases listed with rfl | rfl | rfl | rfl | rfl | rfl | rfl | rfl | rfl |
    rfl | rfl | rfl
  · exact stable_of_file (fun _ => rfl) (by decide) rfl (by decide) passes
  · exact stable_of_star (fun _ => rfl) rfl (by decide) rfl rfl rfl
  · exact stable_of_extension (fun _ => rfl) rfl rfl passes
  · exact stable_of_extension (fun _ => rfl) rfl rfl passes
  · exact stable_of_extension (fun _ => rfl) rfl rfl passes
  · exact stable_of_extension (fun _ => rfl) rfl rfl passes
  · exact stable_of_file (fun _ => rfl) (by decide) rfl (by decide) passes
  · exact stable_of_file (fun _ => rfl) (by decide) rfl (by decide) passes
  · exact stable_of_file (fun _ => rfl) (by decide) rfl (by decide) passes
  · exact stable_of_star (fun _ => rfl) rfl (by decide) rfl rfl rfl
  · exact stable_of_directory (fun _ => rfl) rfl rfl rfl rfl passes
  · exact stable_of_directory (fun _ => rfl) rfl rfl rfl rfl passes

end Rbo.Snapshot.SecretPolicy
