import Rbo.Foundation.Numerals
import Rbo.Foundation.PaddedOrder
import Rbo.Foundation.Utf16

/-!
# Version ranges

`compareVersionParts` compares two versions segment by segment, by number when
both segments are numbers and as texts otherwise.  `matchesVersionSpec` matches
a version against a range, an exact version or the start of one.

Two segments may be in one order as numbers and in the other one around a
segment that is no number.  Among versions without such segments the comparison
is consistent, and so are the ranges.
-/

namespace Rbo.Controller.VersionRanges

open Rbo.Foundation

abbrev Text := List Char

/-! ## Comparing versions -/

/-- `<` on texts. -/
def isBefore (first second : Text) : Prop :=
  Utf16.encode first < Utf16.encode second

instance (first second : Text) : Decidable (isBefore first second) :=
  inferInstanceAs (Decidable (_ < _))

/-- The loop of `compareVersionParts`, for one segment. -/
def compareSegments (av bv : Text) : Ordering :=
  match Number av, Number bv with
  | some an, some bn =>
    if an ≠ bn then if an < bn then .lt else .gt else .eq
  | _, _ => if av ≠ bv then if isBefore av bv then .lt else .gt else .eq

def compareVersionParts (a b : Text) : Ordering :=
  comparePadded compareSegments ['0'] (a.splitOn '.') (b.splitOn '.')

/-! ## Matching -/

inductive RangeOp where
  | atLeast
  | above
  | atMost
  | below
  deriving DecidableEq

def RangeOp.holds : RangeOp → Ordering → Bool
  | .atLeast, order => order.isGE
  | .above, order => order.isGT
  | .atMost, order => order.isLE
  | .below, order => order.isLT

/-- A character that `.` does not match. -/
def isLineTerminator (char : Char) : Bool :=
  char ∈ ['\n', '\r', '\u2028', '\u2029']

/-- `\s*(.+)$`, on the rest of a text without white space at its end. -/
def rangeTarget (rest : Text) : Option Text :=
  let target := trimStart rest
  if target = [] ∨ target.any isLineTerminator then none else some target

/-- `/^(>=|<=|>|<)\s*(.+)$/`, which tries the longer operators first. -/
def readRange : Text → Option (RangeOp × Text)
  | '>' :: '=' :: rest =>
    ((rangeTarget rest).map fun target => (.atLeast, target)).or
      ((rangeTarget ('=' :: rest)).map fun target => (.above, target))
  | '<' :: '=' :: rest =>
    ((rangeTarget rest).map fun target => (.atMost, target)).or
      ((rangeTarget ('=' :: rest)).map fun target => (.below, target))
  | '>' :: rest => (rangeTarget rest).map fun target => (.above, target)
  | '<' :: rest => (rangeTarget rest).map fun target => (.below, target)
  | _ => none

/-- `/^\d+(?:\.\d+)*$/`. -/
def isDotted (text : Text) : Bool :=
  (text.splitOn '.').all fun segment =>
    segment ≠ [] && segment.all Char.isDigit

def matchesVersionSpec (version spec : Text) : Bool :=
  let v := trim version
  let trimmed := trim spec
  if trimmed = [] ∨ trimmed = ['*'] ∨ trimmed = ['a', 'n', 'y'] then true
  else if v = trimmed then true
  else
    match readRange trimmed with
    | some (op, target) => op.holds (compareVersionParts v (trim target))
    | none => isDotted trimmed && (trimmed ++ ['.']).isPrefixOf v

/-! ## Consistent versions -/

/-- A version whose segments are allowed, and that does not start as a range
does. -/
def IsVersion (allowed : Text → Prop) (version : Text) : Prop :=
  (∃ char rest, version = char :: rest ∧ char ∉ ['<', '>', '=']) ∧
    ∀ segment ∈ version.splitOn '.', allowed segment

/-- The comparison is a total preorder on the versions, and the ranges follow
it. -/
structure Consistent (allowed : Text → Prop) : Prop where
  preorder : PreorderOn compareVersionParts (IsVersion allowed)
  atLeast : ∀ v a b, IsVersion allowed v → IsVersion allowed a →
    IsVersion allowed b →
    matchesVersionSpec v (['>', '='] ++ a) = true →
    matchesVersionSpec a (['>', '='] ++ b) = true →
    matchesVersionSpec v (['>', '='] ++ b) = true
  exactlyOne : ∀ v target, IsVersion allowed v → IsVersion allowed target →
    matchesVersionSpec v (['>', '='] ++ target) =
      !matchesVersionSpec v ('<' :: target)

/-- Two numbers around a text that is none, in the other order than theirs. -/
def Interleaved (first other second : Text) : Prop :=
  ∃ an bn, Number first = some an ∧ Number second = some bn ∧
    Number other = none ∧ isBefore first other ∧ isBefore other second ∧
    bn ≤ an

/-- Segments have no white space and no `.`, and there is the one that pads a
version. -/
structure AreSegments (allowed : Text → Prop) : Prop where
  zero : allowed ['0']
  dotless : ∀ segment, allowed segment → '.' ∉ segment
  spaceless : ∀ segment, allowed segment → ∀ char ∈ segment,
    isTrimmed char = false

/-! ## Segments -/

section Segments

variable {first second third a b c : Text} {an bn : ℚ}

theorem compareSegments_of_numbers (one : Number first = some an)
    (two : Number second = some bn) :
    compareSegments first second = compare an bn := by
  unfold compareSegments
  rw [one, two]
  dsimp only
  split
  · rename_i different
    split
    · rename_i less
      exact (compare_lt_iff_lt.mpr less).symm
    · rename_i notLess
      exact (compare_gt_iff_gt.mpr
        (lt_of_le_of_ne (not_lt.mp notLess) (Ne.symm different))).symm
  · rename_i same
    exact (compare_eq_iff_eq.mpr (not_not.mp same)).symm

theorem compareSegments_of_text
    (text : Number first = none ∨ Number second = none) :
    compareSegments first second =
      if first ≠ second then
        if isBefore first second then .lt else .gt
      else .eq := by
  unfold compareSegments
  rcases text with one | two
  · rw [one]
  · rw [two]
    cases Number first <;> rfl

theorem encode_injective {first second : Text}
    (same : Utf16.encode first = Utf16.encode second) : first = second := by
  rw [← Utf16.decode_encode first, same, Utf16.decode_encode]

theorem isBefore_trichotomy (first second : Text) :
    isBefore first second ∨ first = second ∨ isBefore second first := by
  by_cases before : isBefore first second
  · exact Or.inl before
  · by_cases after : isBefore second first
    · exact Or.inr (Or.inr after)
    · exact Or.inr (Or.inl (encode_injective
        (List.le_antisymm (List.not_lt.mp after) (List.not_lt.mp before))))

theorem isBefore_irrefl : ¬ isBefore first first :=
  List.lt_irrefl _

theorem isBefore_trans (before : isBefore first second)
    (after : isBefore second third) : isBefore first third :=
  List.lt_trans before after

/-- As texts, segments are compared by their code units. -/
theorem isLE_of_text (text : Number first = none ∨ Number second = none) :
    (compareSegments first second).isLE = true ↔
      ¬ isBefore second first := by
  rw [compareSegments_of_text text]
  rcases isBefore_trichotomy first second with before | rfl | after
  · have different : first ≠ second := by
      rintro rfl
      exact isBefore_irrefl before
    rw [if_pos different, if_pos before]
    exact iff_of_true rfl fun after =>
      isBefore_irrefl (isBefore_trans before after)
  · rw [if_neg (not_not.mpr rfl)]
    exact iff_of_true rfl isBefore_irrefl
  · have different : first ≠ second := by
      rintro rfl
      exact isBefore_irrefl after
    rw [if_pos different, if_neg fun before =>
      isBefore_irrefl (isBefore_trans before after)]
    exact iff_of_false Bool.false_ne_true (not_not.mpr after)

theorem isLE_of_numbers (one : Number first = some an)
    (two : Number second = some bn) :
    (compareSegments first second).isLE = true ↔ an ≤ bn := by
  rw [compareSegments_of_numbers one two, ← Ordering.ne_gt_iff_isLE]
  exact compare_le_iff_le

theorem swap_of_text (text : Number first = none ∨ Number second = none) :
    compareSegments second first = (compareSegments first second).swap := by
  rw [compareSegments_of_text text, compareSegments_of_text text.symm]
  rcases isBefore_trichotomy first second with before | rfl | after
  · have notAfter : ¬ isBefore second first := fun after =>
      isBefore_irrefl (isBefore_trans before after)
    have different : first ≠ second := by
      rintro rfl
      exact notAfter before
    rw [if_pos different, if_pos before, if_pos different.symm,
      if_neg notAfter]
    rfl
  · rw [if_neg (not_not.mpr rfl)]
    rfl
  · have notBefore : ¬ isBefore first second := fun before =>
      isBefore_irrefl (isBefore_trans before after)
    have different : first ≠ second := by
      rintro rfl
      exact notBefore after
    rw [if_pos different, if_neg notBefore, if_pos different.symm,
      if_pos after]
    rfl

theorem compareSegments_swap (first second : Text) :
    compareSegments second first = (compareSegments first second).swap := by
  cases one : Number first with
  | some an =>
    cases two : Number second with
    | some bn =>
      rw [compareSegments_of_numbers one two,
        compareSegments_of_numbers two one]
      exact Std.OrientedCmp.eq_swap
    | none => exact swap_of_text (Or.inr two)
  | none => exact swap_of_text (Or.inl one)

theorem notBefore_trans (before : ¬ isBefore second first)
    (after : ¬ isBefore third second) : ¬ isBefore third first :=
  List.not_lt.mpr (List.le_trans (List.not_lt.mp before)
    (List.not_lt.mp after))

/-- Two texts that are not in order are in the other one. -/
theorem isBefore_of_not (text : Number first = none ∧ Number second ≠ none ∨
      Number first ≠ none ∧ Number second = none)
    (not : ¬ isBefore second first) : isBefore first second := by
  rcases isBefore_trichotomy first second with before | rfl | after
  · exact before
  · rcases text with ⟨none, some⟩ | ⟨some, none⟩
    · exact absurd none some
    · exact absurd none some
  · exact absurd after not

/-- The comparison of the segments is transitive unless two numbers stand in
the wrong order around a text. -/
theorem compareSegments_trans
    (plain : ∀ first other second, first ∈ [a, b, c] → other ∈ [a, b, c] →
      second ∈ [a, b, c] → ¬ Interleaved first other second)
    (before : (compareSegments a b).isLE = true)
    (after : (compareSegments b c).isLE = true) :
    (compareSegments a c).isLE = true := by
  have inA : a ∈ [a, b, c] := by simp
  have inB : b ∈ [a, b, c] := by simp
  have inC : c ∈ [a, b, c] := by simp
  cases one : Number a with
  | none =>
    rw [isLE_of_text (.inl one)] at before ⊢
    cases two : Number b with
    | none =>
      rw [isLE_of_text (.inl two)] at after
      exact notBefore_trans before after
    | some bn =>
      cases three : Number c with
      | none =>
        rw [isLE_of_text (.inr three)] at after
        exact notBefore_trans before after
      | some cn =>
        rw [isLE_of_numbers two three] at after
        have strictly : isBefore a b :=
          isBefore_of_not (.inl ⟨one, by rw [two]; nofun⟩) before
        exact fun less => plain c a b inC inA inB
          ⟨cn, bn, three, two, one, less, strictly, after⟩
  | some an =>
    cases two : Number b with
    | none =>
      rw [isLE_of_text (.inr two)] at before
      rw [isLE_of_text (.inl two)] at after
      cases three : Number c with
      | none =>
        rw [isLE_of_text (.inr three)]
        exact notBefore_trans before after
      | some cn =>
        rw [isLE_of_numbers one three]
        by_contra greater
        exact plain a b c inA inB inC
          ⟨an, cn, one, three, two,
            isBefore_of_not (.inr ⟨by rw [one]; nofun, two⟩) before,
            isBefore_of_not (.inl ⟨two, by rw [three]; nofun⟩) after,
            (not_le.mp greater).le⟩
    | some bn =>
      rw [isLE_of_numbers one two] at before
      cases three : Number c with
      | none =>
        rw [isLE_of_text (.inr three)] at after ⊢
        have strictly : isBefore b c :=
          isBefore_of_not (.inr ⟨by rw [two]; nofun, three⟩) after
        exact fun less => plain b c a inB inC inA
          ⟨bn, an, two, one, three, strictly, less, before⟩
      | some cn =>
        rw [isLE_of_numbers two three] at after
        rw [isLE_of_numbers one three]
        exact before.trans after

/-- Around a text, two numbers in the wrong order would make a cycle. -/
theorem not_interleaved
    (trans : (compareSegments third first).isLE →
      (compareSegments first second).isLE →
      (compareSegments third second).isLE) :
    ¬ Interleaved first second third := by
  rintro ⟨an, bn, one, three, two, before, after, wrong⟩
  rw [isLE_of_numbers three one, isLE_of_text (.inr two),
    isLE_of_text (.inr two)] at trans
  exact trans wrong
    (fun back => isBefore_irrefl (isBefore_trans before back)) after

end Segments

/-! ## Versions -/

section Versions

variable {allowed : Text → Prop} {version target : Text}

/-- A character of a text is a separator or in one of the pieces. -/
theorem mem_of_splitOn {text : Text} {char : Char} (member : char ∈ text) :
    char = '.' ∨ ∃ segment ∈ text.splitOn '.', char ∈ segment := by
  induction text with
  | nil => cases member
  | cons head rest inductionHypothesis =>
    rw [List.splitOn_cons_eq_if_modifyHead]
    split
    · rename_i dot
      rcases List.mem_cons.mp member with rfl | later
      · exact Or.inl (beq_iff_eq.mp dot)
      · refine (inductionHypothesis later).imp_right ?_
        rintro ⟨segment, among, within⟩
        exact ⟨segment, List.mem_cons_of_mem _ among, within⟩
    · cases parts : rest.splitOn '.' with
      | nil => exact absurd parts (List.splitOn_ne_nil _ _)
      | cons first others =>
        rw [parts] at inductionHypothesis
        rcases List.mem_cons.mp member with rfl | later
        · exact Or.inr ⟨char :: first, List.mem_cons_self,
            List.mem_cons_self⟩
        · refine (inductionHypothesis later).imp_right ?_
          rintro ⟨segment, among, within⟩
          rcases List.mem_cons.mp among with rfl | other
          · exact ⟨head :: segment, List.mem_cons_self,
              List.mem_cons_of_mem _ within⟩
          · exact ⟨segment, List.mem_cons_of_mem _ other, within⟩

theorem spaceless_of_isVersion (segments : AreSegments allowed)
    (isVersion : IsVersion allowed version) :
    ∀ char ∈ version, isTrimmed char = false := by
  intro char member
  rcases mem_of_splitOn member with rfl | ⟨segment, among, within⟩
  · rfl
  · exact segments.spaceless segment (isVersion.2 segment among) char within

theorem trimStart_eq_self {text : Text}
    (spaceless : ∀ char ∈ text, isTrimmed char = false) :
    trimStart text = text := by
  unfold trimStart
  cases text with
  | nil => rfl
  | cons char text =>
    rw [List.dropWhile_cons_of_neg]
    rw [spaceless char List.mem_cons_self]
    exact Bool.false_ne_true

theorem trim_eq_self {text : Text}
    (spaceless : ∀ char ∈ text, isTrimmed char = false) :
    trim text = text := by
  unfold trim
  rw [trimStart_eq_self spaceless, trimStart_eq_self fun char member =>
    spaceless char (List.mem_reverse.mp member), List.reverse_reverse]

theorem rangeTarget_of_isVersion (segments : AreSegments allowed)
    (isVersion : IsVersion allowed target) :
    rangeTarget target = some target := by
  have spaceless := spaceless_of_isVersion segments isVersion
  obtain ⟨char, rest, shape, -⟩ := isVersion.1
  unfold rangeTarget
  dsimp only
  rw [trimStart_eq_self spaceless, if_neg]
  rintro (empty | ends)
  · rw [shape] at empty
    cases empty
  · obtain ⟨other, member, terminator⟩ := List.any_eq_true.mp ends
    have trimmed : isTrimmed other = true := by
      unfold isLineTerminator at terminator
      simp only [List.mem_cons, List.not_mem_nil, or_false,
        decide_eq_true_eq] at terminator
      rcases terminator with rfl | rfl | rfl | rfl <;> decide
    rw [spaceless other member] at trimmed
    cases trimmed

/-- What an operator before a version means. -/
theorem matchesVersionSpec_of_range (segments : AreSegments allowed)
    (isVersion : IsVersion allowed version)
    (isTarget : IsVersion allowed target) {operator : Text} {op : RangeOp}
    (symbols : ∀ char ∈ operator, char ∈ ['<', '>', '='])
    (some_ : operator ≠ [])
    (reads : readRange (operator ++ target) =
      (rangeTarget target).map fun target => (op, target)) :
    matchesVersionSpec version (operator ++ target) =
      op.holds (compareVersionParts version target) := by
  have spaceless := spaceless_of_isVersion segments isVersion
  have targetSpaceless := spaceless_of_isVersion segments isTarget
  have trimmed : trim (operator ++ target) = operator ++ target := by
    refine trim_eq_self fun char member => ?_
    rcases List.mem_append.mp member with symbol | inside
    · have among := symbols char symbol
      simp only [List.mem_cons, List.not_mem_nil, or_false] at among
      rcases among with rfl | rfl | rfl <;> decide
    · exact targetSpaceless char inside
  obtain ⟨symbol, others, shape⟩ := List.exists_cons_of_ne_nil some_
  have isSymbol : symbol ∈ ['<', '>', '='] :=
    symbols symbol (shape ▸ List.mem_cons_self)
  unfold matchesVersionSpec
  dsimp only
  rw [trim_eq_self spaceless, trimmed, reads,
    rangeTarget_of_isVersion segments isTarget, if_neg, if_neg]
  · dsimp only [Option.map_some]
    rw [trim_eq_self targetSpaceless]
  · obtain ⟨char, rest, isShape, plain⟩ := isVersion.1
    rw [shape, isShape]
    rintro same
    exact plain ((List.cons.inj same).1 ▸ isSymbol)
  · rw [shape]
    rintro (none | star | any)
    · cases none
    · have same := (List.cons.inj star).1
      rw [same] at isSymbol
      revert isSymbol
      decide
    · have same := (List.cons.inj any).1
      rw [same] at isSymbol
      revert isSymbol
      decide

theorem matchesVersionSpec_atLeast (segments : AreSegments allowed)
    (isVersion : IsVersion allowed version)
    (isTarget : IsVersion allowed target) :
    matchesVersionSpec version (['>', '='] ++ target) =
      (compareVersionParts version target).isGE := by
  refine @matchesVersionSpec_of_range _ _ _ segments isVersion isTarget
    ['>', '='] .atLeast (by simp) (List.cons_ne_nil _ _) ?_
  change ((rangeTarget target).map _).or _ = _
  rw [rangeTarget_of_isVersion segments isTarget]
  rfl

theorem matchesVersionSpec_below (segments : AreSegments allowed)
    (isVersion : IsVersion allowed version)
    (isTarget : IsVersion allowed target) :
    matchesVersionSpec version ('<' :: target) =
      (compareVersionParts version target).isLT := by
  refine @matchesVersionSpec_of_range _ _ _ segments isVersion isTarget
    ['<'] .below (by simp) (List.cons_ne_nil _ _) ?_
  obtain ⟨char, rest, rfl, plain⟩ := isTarget.1
  have notEqual : char ≠ '=' := by
    rintro rfl
    exact plain (by decide)
  change readRange ('<' :: char :: rest) = _
  unfold readRange
  split
  · rename_i same
    cases same
  · rename_i same
    exact absurd (List.cons.inj (List.cons.inj same).2).1 notEqual
  · rename_i same
    cases same
  · rename_i same
    obtain rfl := (List.cons.inj same).2
    rfl
  · rename_i other
    exact absurd rfl (other _)

/-- A version of two segments, of which the first is the padding. -/
theorem compareVersionParts_of_segments (segments : AreSegments allowed)
    {first second : Text} (one : allowed first) (two : allowed second) :
    IsVersion allowed (['.'].intercalate [['0'], first]) ∧
      compareVersionParts (['.'].intercalate [['0'], first])
          (['.'].intercalate [['0'], second]) =
        compareSegments first second := by
  have pieces : ∀ segment, allowed segment →
      (['.'].intercalate [['0'], segment]).splitOn '.' =
        [['0'], segment] := by
    intro segment is
    refine List.splitOn_intercalate _ (fun piece member => ?_)
      (List.cons_ne_nil _ _)
    rcases List.mem_cons.mp member with rfl | last
    · decide
    · rw [List.mem_singleton.mp last]
      exact segments.dotless segment is
  refine ⟨⟨⟨'0', '.' :: first, by simp [List.intercalate], by decide⟩, ?_⟩,
    ?_⟩
  · intro segment member
    rw [pieces first one] at member
    rcases List.mem_cons.mp member with rfl | last
    · exact segments.zero
    · rw [List.mem_singleton.mp last]
      exact one
  · have same : compareSegments ['0'] ['0'] = .eq := by decide +kernel
    unfold compareVersionParts
    rw [pieces first one, pieces second two]
    change (compareSegments ['0'] ['0']).then
      ((compareSegments first second).then .eq) = _
    rw [same]
    cases compareSegments first second <;> rfl

end Versions

/-- Versions are compared and matched consistently when no two of their
segments are numbers that stand in the wrong order around one that is none. -/
theorem consistent_iff {allowed : Text → Prop}
    (segments : AreSegments allowed) :
    Consistent allowed ↔
      ∀ first other second, allowed first → allowed other →
        allowed second → ¬ Interleaved first other second := by
  constructor
  · intro consistent first other second one two three
    obtain ⟨isFirst, -⟩ := compareVersionParts_of_segments segments one one
    obtain ⟨isOther, -⟩ := compareVersionParts_of_segments segments two two
    obtain ⟨isSecond, -⟩ :=
      compareVersionParts_of_segments segments three three
    have trans := consistent.preorder.trans _ _ _ isSecond isFirst isOther
    rw [(compareVersionParts_of_segments segments three one).2,
      (compareVersionParts_of_segments segments one two).2,
      (compareVersionParts_of_segments segments three two).2] at trans
    exact not_interleaved trans
  · intro plain
    have ofSegments : PreorderOn compareSegments allowed :=
      { swap := fun first second _ _ => compareSegments_swap first second
        trans := fun a b c one two three =>
          compareSegments_trans fun first other second inFirst inOther
              inSecond =>
            have among : ∀ text ∈ [a, b, c], allowed text := by
              simp only [List.forall_mem_cons]
              exact ⟨one, two, three, List.forall_mem_nil _⟩
            plain first other second (among first inFirst)
              (among other inOther) (among second inSecond) }
    have preorder : PreorderOn compareVersionParts (IsVersion allowed) :=
      { swap := fun a b one two =>
          (ofSegments.padded segments.zero).swap _ _ one.2 two.2
        trans := fun a b c one two three =>
          (ofSegments.padded segments.zero).trans _ _ _ one.2 two.2
            three.2 }
    refine ⟨preorder, ?_, ?_⟩
    · intro v a b isV isA isB
      rw [matchesVersionSpec_atLeast segments isV isA,
        matchesVersionSpec_atLeast segments isA isB,
        matchesVersionSpec_atLeast segments isV isB,
        preorder.swap a v isA isV, preorder.swap b a isB isA,
        preorder.swap b v isB isV, Ordering.isGE_swap, Ordering.isGE_swap,
        Ordering.isGE_swap]
      exact fun first second => preorder.trans b a v isB isA isV second first
    · intro v target isV isTarget
      rw [matchesVersionSpec_atLeast segments isV isTarget,
        matchesVersionSpec_below segments isV isTarget]
      cases compareVersionParts v target <;> rfl

/-- Among numbers alone there is nothing to stand in the wrong order. -/
theorem consistent_iff_small :
    Consistent fun segment => segment ∈ [['0'], ['1'], ['2']] := by
  refine (consistent_iff
    { zero := List.mem_cons_self
      dotless := by decide +kernel
      spaceless := by simp [isTrimmed] }).mpr ?_
  rintro first other second - small - ⟨an, bn, -, -, text, -⟩
  have number : ∀ other ∈ [['0'], ['1'], ['2']], Number other ≠ none := by
    decide +kernel
  exact number other small text

/-- `10` comes before `1a` and `1a` before `2`, but `2` before `10`; and with no
target neither range matches. -/
theorem versions_make_a_cycle :
    (¬ PreorderOn compareVersionParts fun _ => True) ∧
      (¬ ∀ v a b, matchesVersionSpec v (['>', '='] ++ a) = true →
        matchesVersionSpec a (['>', '='] ++ b) = true →
        matchesVersionSpec v (['>', '='] ++ b) = true) ∧
      ¬ ∀ v target, matchesVersionSpec v (['>', '='] ++ target) =
        !matchesVersionSpec v ('<' :: target) := by
  refine ⟨fun preorder => ?_, fun atLeast => ?_, fun exactlyOne => ?_⟩
  · have cycle := preorder.trans ['1', '0'] ['1', 'a'] ['2'] trivial trivial
      trivial (by decide +kernel) (by decide +kernel)
    revert cycle
    decide +kernel
  · have cycle := atLeast ['2'] ['1', 'a'] ['1', '0'] (by decide +kernel)
      (by decide +kernel)
    revert cycle
    decide +kernel
  · have neither := exactlyOne ['1'] []
    revert neither
    decide +kernel

end Rbo.Controller.VersionRanges
