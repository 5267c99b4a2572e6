import Rbo.Foundation.Run
import Rbo.Foundation.Utf16
import Rbo.Foundation.Weaving

/-!
# Completion by a match in the logs

`watchLogMatch` polls the two log files of an attempt.  A poll reads what was
added to each of them, decodes the two parts one by one and puts them behind a
window of bounded length, in which it looks for the patterns.  The files may
grow between the two reads of a poll.

Texts are code units.  A pattern is literal and of one line: an expression
without special characters matches where its text occurs.
-/

namespace Rbo.Executor.LogMatch

open Rbo.Foundation
open Rbo.Foundation.Weaving

/-- A JavaScript string. -/
abbrev Text := List UInt16

/-! ## The watcher -/

/-- The line feed. -/
def newline : UInt16 := 10

/-- The characters that mean something else than themselves in a regular
expression. -/
def isSpecial (unit : UInt16) : Bool :=
  (['\\', '^', '$', '.', '*', '+', '?', '(', ')', '[', ']', '\x7b', '\x7d',
    '|'].map fun char => char.toNat.toUInt16).contains unit

/-- A pattern that stands for its own text, within one line. -/
structure Literal (pattern : Text) : Prop where
  nonempty : pattern ≠ []
  plain : pattern.all (fun unit => !isSpecial unit) = true
  oneLine : newline ∉ pattern

/-- `run_until_log_match` with literal patterns. -/
structure Completion where
  successPattern : Text
  failurePattern : Option Text
  success_literal : Literal successPattern
  failure_literal : ∀ pattern, failurePattern = some pattern → Literal pattern

/-- `log_success` or `log_failure`. -/
inductive Verdict where
  | logSuccess
  | logFailure
  deriving DecidableEq

/-- The pattern that a verdict tells of. -/
def Completion.patternOf (completion : Completion) : Verdict → Option Text
  | .logSuccess => some completion.successPattern
  | .logFailure => completion.failurePattern

/-- `LOG_MATCH_WINDOW_BYTES`, which bounds a number of code units. -/
def logMatchWindow : Nat := 64 * 1024

/-- `buffer.toString('utf8')`. -/
def decode (bytes : List UInt8) : Text :=
  Utf16.encode (Utf8.decode bytes)

/-- `patternMatches` of a literal pattern. -/
def patternMatches (haystack pattern : Text) : Bool :=
  decide (pattern <:+: haystack)

/-- The text of a file behind an offset, and the next offset. -/
def readLogDelta (file : List UInt8) (offset : Nat) : Text × Nat :=
  if file.length ≤ offset then ([], offset)
  else (decode (file.drop offset), file.length)

/-- The two files, how far each was read, the window and the outcome. -/
structure Watch where
  stdout : List UInt8
  stderr : List UInt8
  stdoutOffset : Nat
  stderrOffset : Nat
  window : Text
  settled : Option Verdict
  deriving DecidableEq

/-- What happens: data is added to the files, or they are polled, and grow
between the two reads of the poll. -/
inductive Label where
  | append (stdout stderr : List UInt8)
  | poll (stdout stderr : List UInt8)
  deriving DecidableEq

/-- `window.slice(-LOG_MATCH_WINDOW_BYTES)` of a window that is too long. -/
def cutWindow (window : Text) : Text :=
  if logMatchWindow < window.length then
    window.drop (window.length - logMatchWindow)
  else window

/-- What a window settles. -/
def verdictOf (completion : Completion) (window : Text) : Option Verdict :=
  if completion.failurePattern.any (patternMatches window) then
    some .logFailure
  else if patternMatches window completion.successPattern then
    some .logSuccess
  else none

/-- The files after data was added. -/
def Watch.grown (watch : Watch) (stdout stderr : List UInt8) : Watch :=
  { watch with
    stdout := watch.stdout ++ stdout
    stderr := watch.stderr ++ stderr }

/-- One round of the loop of `watchLogMatch`. -/
def Watch.poll (completion : Completion) (watch : Watch)
    (stdout stderr : List UInt8) : Watch :=
  let stdoutDelta := readLogDelta watch.stdout watch.stdoutOffset
  let grown := watch.grown stdout stderr
  let stderrDelta := readLogDelta grown.stderr watch.stderrOffset
  let read :=
    { grown with
      stdoutOffset := stdoutDelta.2
      stderrOffset := stderrDelta.2 }
  if stdoutDelta.1 = [] ∧ stderrDelta.1 = [] then
    read
  else
    let window := cutWindow (watch.window ++ stdoutDelta.1 ++ stderrDelta.1)
    { read with window, settled := verdictOf completion window }

/-- A settled watcher polls no more. -/
def step (completion : Completion) (watch : Watch) : Label → Option Watch
  | .append stdout stderr => some (watch.grown stdout stderr)
  | .poll stdout stderr =>
    if watch.settled = none then some (watch.poll completion stdout stderr)
    else none

/-- A watcher over two empty files. -/
def fresh : Watch where
  stdout := []
  stderr := []
  stdoutOffset := 0
  stderrOffset := 0
  window := []
  settled := none

/-- The files and the watcher. -/
def watcher (completion : Completion) : Machine Watch Label where
  initial := fun watch => watch = fresh
  step := step completion

/-! ## Polls that find whole lines -/

/-- Reading a file in two parts cuts no character. -/
def CutsNone (file : List UInt8) (offset : Nat) : Prop :=
  decode file = decode (file.take offset) ++ decode (file.drop offset)

/-- A poll that cuts no character, finds new data of one stream only where
the other was read up to the end of a line, and no more new text than the
window holds besides a pattern. -/
structure Unbroken (completion : Completion) (watch : Watch)
    (stderr : List UInt8) : Prop where
  stdoutWhole : CutsNone watch.stdout watch.stdoutOffset
  stderrWhole : CutsNone (watch.stderr ++ stderr) watch.stderrOffset
  stderrLine : watch.stdoutOffset < watch.stdout.length →
    Marked newline (decode (watch.stderr.take watch.stderrOffset))
  stdoutLine : watch.stderrOffset < (watch.stderr ++ stderr).length →
    Marked newline (decode watch.stdout)
  fits : ∀ verdict pattern, completion.patternOf verdict = some pattern →
    pattern.length +
        (decode (watch.stdout.drop watch.stdoutOffset) ++
          decode ((watch.stderr ++ stderr).drop watch.stderrOffset)).length ≤
      logMatchWindow + 1

/-- Every poll is unbroken. -/
def allowed (completion : Completion) (watch : Watch) : Label → Prop
  | .append .. => True
  | .poll _ stderr => Unbroken completion watch stderr

/-! ## What the window holds -/

variable {completion : Completion}

/-- The window is the end of the texts of both files, as far as they were
read, woven into one; nothing is settled that does not occur in them, and
everything that does. -/
structure Sound (completion : Completion) (watch : Watch) : Prop where
  stdoutInside : watch.stdoutOffset ≤ watch.stdout.length
  stderrInside : watch.stderrOffset ≤ watch.stderr.length
  woven : ∃ all,
    Woven newline (decode (watch.stdout.take watch.stdoutOffset))
      (decode (watch.stderr.take watch.stderrOffset)) all ∧
    watch.window = lastOf logMatchWindow all ∧
    (∀ verdict, watch.settled = some verdict →
      ∃ pattern, completion.patternOf verdict = some pattern ∧
        pattern <:+: all) ∧
    (watch.settled = none → ∀ verdict pattern,
      completion.patternOf verdict = some pattern → ¬ pattern <:+: all)

theorem literal_of_patternOf {verdict : Verdict} {pattern : Text}
    (found : completion.patternOf verdict = some pattern) :
    Literal pattern := by
  cases verdict with
  | logSuccess =>
    cases found
    exact completion.success_literal
  | logFailure => exact completion.failure_literal pattern found

theorem cutWindow_eq (window : Text) :
    cutWindow window = lastOf logMatchWindow window := by
  unfold cutWindow lastOf
  split
  · rfl
  · rw [Nat.sub_eq_zero_of_le (by omega), List.drop_zero]

theorem readLogDelta_eq {file : List UInt8} {offset : Nat}
    (inside : offset ≤ file.length) :
    readLogDelta file offset = (decode (file.drop offset), file.length) := by
  unfold readLogDelta
  split
  · rename_i outside
    rw [List.drop_eq_nil_of_le outside, Nat.le_antisymm inside outside]
    rfl
  · rfl

theorem any_eq_true {pattern : Option Text} {test : Text → Bool} :
    pattern.any test = true ↔ ∃ text, pattern = some text ∧ test text = true := by
  cases pattern <;> simp

theorem verdictOf_some {window : Text} {verdict : Verdict}
    (settles : verdictOf completion window = some verdict) :
    ∃ pattern, completion.patternOf verdict = some pattern ∧
      pattern <:+: window := by
  unfold verdictOf at settles
  split_ifs at settles with failure success
  · cases settles
    obtain ⟨pattern, found, occurs⟩ := any_eq_true.mp failure
    exact ⟨pattern, found, of_decide_eq_true occurs⟩
  · cases settles
    exact ⟨_, rfl, of_decide_eq_true success⟩

theorem verdictOf_none {window : Text}
    (open_ : verdictOf completion window = none) {verdict : Verdict}
    {pattern : Text} (found : completion.patternOf verdict = some pattern) :
    ¬ pattern <:+: window := by
  intro occurs
  unfold verdictOf at open_
  split_ifs at open_ with failure success
  cases verdict with
  | logSuccess =>
    cases found
    exact success (decide_eq_true occurs)
  | logFailure =>
    exact failure (any_eq_true.mpr
      ⟨pattern, found, decide_eq_true occurs⟩)

theorem sound_fresh : Sound completion fresh where
  stdoutInside := Nat.le_refl 0
  stderrInside := Nat.le_refl 0
  woven := by
    refine ⟨[], .start, rfl, nofun, fun _ verdict pattern found occurs => ?_⟩
    exact (literal_of_patternOf found).nonempty (List.infix_nil.mp occurs)

theorem Sound.grown {watch : Watch} (sound : Sound completion watch)
    (stdout stderr : List UInt8) :
    Sound completion (watch.grown stdout stderr) where
  stdoutInside := by
    simpa [Watch.grown] using Nat.le_add_right_of_le sound.stdoutInside
  stderrInside := by
    simpa [Watch.grown] using Nat.le_add_right_of_le sound.stderrInside
  woven := by
    unfold Watch.grown
    rw [List.take_append_of_le_length sound.stdoutInside,
      List.take_append_of_le_length sound.stderrInside]
    exact sound.woven

/-- What a poll reads is woven behind what was read before. -/
theorem Sound.woven_poll {watch : Watch} (sound : Sound completion watch)
    {stderr : List UInt8} (unbroken : Unbroken completion watch stderr)
    {all : Text}
    (woven : Woven newline (decode (watch.stdout.take watch.stdoutOffset))
      (decode (watch.stderr.take watch.stderrOffset)) all) :
    Woven newline (decode watch.stdout) (decode (watch.stderr ++ stderr))
      (all ++ decode (watch.stdout.drop watch.stdoutOffset) ++
        decode ((watch.stderr ++ stderr).drop watch.stderrOffset)) := by
  have nothing : decode [] = [] := rfl
  rw [unbroken.stdoutWhole, unbroken.stderrWhole,
    List.take_append_of_le_length sound.stderrInside]
  refine .second _ (.first _ woven fun some_ => ?_) fun some_ => ?_
  · refine unbroken.stderrLine (Nat.lt_of_not_le fun ended => some_ ?_)
    rw [List.drop_eq_nil_of_le ended, nothing]
  · rw [← unbroken.stdoutWhole]
    refine unbroken.stdoutLine (Nat.lt_of_not_le fun ended => some_ ?_)
    rw [List.drop_eq_nil_of_le ended, nothing]

/-- A poll that is unbroken settles exactly what occurs in one of the files as
it read them. -/
theorem Sound.poll {watch : Watch} (sound : Sound completion watch)
    (open_ : watch.settled = none) (stdout : List UInt8) {stderr : List UInt8}
    (unbroken : Unbroken completion watch stderr) :
    Sound completion (watch.poll completion stdout stderr) ∧
      (watch.poll completion stdout stderr).stdoutOffset =
        watch.stdout.length ∧
      (watch.poll completion stdout stderr).stderrOffset =
        (watch.stderr ++ stderr).length := by
  obtain ⟨all, woven, window, -, fresh⟩ := sound.woven
  have wovenNext := sound.woven_poll unbroken woven
  have inside := sound.stdoutInside
  have insideGrown : watch.stderrOffset ≤ (watch.stderr ++ stderr).length :=
    (sound.grown stdout stderr).stderrInside
  have noneBefore := fresh open_
  unfold Watch.poll
  dsimp only [Watch.grown]
  rw [readLogDelta_eq inside, readLogDelta_eq insideGrown]
  dsimp only
  have fits := unbroken.fits
  generalize decode (watch.stdout.drop watch.stdoutOffset) = out at *
  generalize decode ((watch.stderr ++ stderr).drop watch.stderrOffset) = err
    at *
  split
  · rename_i nothing
    obtain ⟨rfl, rfl⟩ := nothing
    rw [List.append_nil, List.append_nil] at wovenNext
    refine ⟨⟨?_, Nat.le_refl _, all, ?_, window, ?_, fun _ => noneBefore⟩,
      rfl, rfl⟩
    · simp
    · rw [List.take_left, List.take_length]
      exact wovenNext
    · intro verdict settled
      rw [show watch.settled = some verdict from settled] at open_
      cases open_
  · have windowNext : cutWindow (watch.window ++ out ++ err) =
        lastOf logMatchWindow (all ++ out ++ err) := by
      rw [cutWindow_eq, window, List.append_assoc, lastOf_append,
        List.append_assoc]
    refine ⟨⟨?_, Nat.le_refl _, all ++ out ++ err, ?_, windowNext, ?_, ?_⟩,
      rfl, rfl⟩
    · simp
    · rw [List.take_left, List.take_length]
      exact wovenNext
    · intro verdict settled
      obtain ⟨pattern, found, occurs⟩ := verdictOf_some settled
      rw [windowNext] at occurs
      exact ⟨pattern, found, occurs.trans (List.drop_suffix _ _).isInfix⟩
    · intro unsettled verdict pattern found occurs
      refine verdictOf_none unsettled found ?_
      rw [windowNext, List.append_assoc]
      rw [List.append_assoc] at occurs
      exact infix_lastOf_of_new occurs (noneBefore verdict pattern found)
        (fits verdict pattern found)

/-! ## The result -/

theorem sound_of_reachable {watch : Watch}
    (reachable : (watcher completion).Reachable (allowed completion) watch) :
    Sound completion watch := by
  refine reachable.invariant ?_ ?_
  · rintro _ rfl
    exact sound_fresh
  · intro watch label next sound meets stepped
    cases label with
    | append stdout stderr =>
      cases stepped
      exact sound.grown stdout stderr
    | poll stdout stderr =>
      obtain ⟨open_, same⟩ := Option.ite_none_right_eq_some.mp stepped
      cases same
      exact (sound.poll open_ stdout meets).1

/-- In a run whose polls are all unbroken, a poll settles a verdict only if
its pattern occurs in the text of one of the files as the poll read them, and
if a pattern occurs in one of them it settles a verdict. -/
theorem log_match_is_exact {watch next : Watch}
    (reachable : (watcher completion).Reachable (allowed completion) watch)
    {stdout stderr : List UInt8}
    (unbroken : Unbroken completion watch stderr)
    (polled : step completion watch (.poll stdout stderr) = some next) :
    (∀ verdict, next.settled = some verdict →
      ∃ pattern, completion.patternOf verdict = some pattern ∧
        (pattern <:+: decode watch.stdout ∨
          pattern <:+: decode (watch.stderr ++ stderr))) ∧
    ((∃ verdict pattern, completion.patternOf verdict = some pattern ∧
        (pattern <:+: decode watch.stdout ∨
          pattern <:+: decode (watch.stderr ++ stderr))) →
      next.settled ≠ none) := by
  obtain ⟨open_, same⟩ := Option.ite_none_right_eq_some.mp polled
  cases same
  obtain ⟨⟨-, -, all, woven, -, settles, leaves⟩, stdoutRead, stderrRead⟩ :=
    (sound_of_reachable reachable).poll open_ stdout unbroken
  have stdoutIs : (watch.poll completion stdout stderr).stdout =
      watch.stdout ++ stdout := by
    unfold Watch.poll
    dsimp only
    split <;> rfl
  have stderrIs : (watch.poll completion stdout stderr).stderr =
      watch.stderr ++ stderr := by
    unfold Watch.poll
    dsimp only
    split <;> rfl
  rw [stdoutRead, stderrRead, stdoutIs, stderrIs, List.take_left,
    List.take_length] at woven
  constructor
  · intro verdict settled
    obtain ⟨pattern, found, occurs⟩ := settles verdict settled
    exact ⟨pattern, found,
      (woven.infix_iff (literal_of_patternOf found).oneLine).mp occurs⟩
  · rintro ⟨verdict, pattern, found, occurs⟩ unsettled
    exact leaves unsettled verdict pattern found
      ((woven.infix_iff (literal_of_patternOf found).oneLine).mpr occurs)

/-- A watcher for the text `ab`. -/
def seeking : Completion where
  successPattern := [97, 98]
  failurePattern := none
  success_literal := ⟨by decide, rfl, by decide⟩
  failure_literal := nofun

theorem log_match_is_exact_seeking :
    let watch := fresh.grown [97, 98] []
    Unbroken seeking watch [] ∧
      step seeking watch (.poll [] []) =
        some (watch.poll seeking [] []) ∧
      (watch.poll seeking [] []).settled ≠ none := by
  intro watch
  have unbroken : Unbroken seeking watch [] := by
    refine ⟨rfl, rfl, fun _ => Or.inl rfl,
      fun impossible => absurd impossible (by decide), ?_⟩
    rintro (_ | _) pattern found
    · cases found
      decide +kernel
    · cases found
  have reachable : (watcher seeking).Reachable (allowed seeking) watch :=
    @Machine.Reachable.next _ _ _ _ _ _ (.append [97, 98] []) (.start rfl)
      trivial rfl
  refine ⟨unbroken, rfl, ?_⟩
  exact (log_match_is_exact reachable unbroken rfl).2
    ⟨.logSuccess, [97, 98], rfl, Or.inl (by decide +kernel)⟩

/-- A pattern whose first character ends one stream and whose second begins
the other is found, and one that the other stream interrupts is missed. -/
theorem log_match_is_not_exact :
    (∃ watch, (watcher seeking).run fresh [.append [97] [98], .poll [] []] =
        some watch ∧ watch.settled = some .logSuccess ∧
      ¬ [97, 98] <:+: decode watch.stdout ∧
      ¬ [97, 98] <:+: decode watch.stderr) ∧
    ∃ watch, (watcher seeking).run fresh
        [.append [97] [120], .poll [] [], .append [98] [], .poll [] []] =
        some watch ∧ watch.settled = none ∧
      [97, 98] <:+: decode watch.stdout := by
  refine ⟨⟨_, rfl, ?_, ?_, ?_⟩, _, rfl, ?_, ?_⟩ <;> decide +kernel

end Rbo.Executor.LogMatch
