import Mathlib.Data.List.Sort
import Rbo.Foundation.Replace
import Rbo.Foundation.Utf16

/-!
# The redactor of an output stream

Secrets are replaced by a marker while the output arrives in chunks.  The
redactor keeps the end of what it has redacted, because a secret may begin
there, and redacts it again with the next chunk.
-/

namespace Rbo.Agent.Redactor

open Rbo.Foundation

/-- A string of the source. -/
abbrev Text := List UInt16

/-- `'[REDACTED]'`. -/
def marker : Text :=
  Utf16.encode "[REDACTED]".toList

/-- `StreamRedactor`. -/
structure StreamRedactor where
  secrets : List Text
  tailBuffer : Text
  maxSecretLength : Nat
  deriving DecidableEq

/-- The secrets that are not empty, the longer ones first. -/
def ordered (secrets : List Text) : List Text :=
  (secrets.filter fun secret => 0 < secret.length).insertionSort
    fun first second => second.length ≤ first.length

/-- The constructor of `StreamRedactor`. -/
def create (secrets : List Text) : StreamRedactor where
  secrets := ordered secrets
  tailBuffer := []
  maxSecretLength :=
    (ordered secrets).foldl (fun most secret => max most secret.length) 0

/-- `redacted.split(secret).join('[REDACTED]')`. -/
def replaceSecret (secret redacted : Text) : Text :=
  replaceAny [secret] marker redacted

/-- The loop over the secrets in `redact` and `flush`. -/
def redactSecrets (secrets : List Text) (text : Text) : Text :=
  secrets.foldl
    (fun redacted secret =>
      if secret <:+: redacted then replaceSecret secret redacted
      else redacted)
    text

namespace StreamRedactor

/-- `redact`: what is put out, and the redactor afterwards. -/
def redact (redactor : StreamRedactor) (chunk : Text) :
    Text × StreamRedactor :=
  if redactor.secrets.length = 0 then
    (chunk, redactor)
  else
    let combined := redactor.tailBuffer ++ chunk
    let redacted := redactSecrets redactor.secrets combined
    if redactor.maxSecretLength ≤ 1 then
      (redacted, { redactor with tailBuffer := [] })
    else
      let keepLength :=
        min (redactor.maxSecretLength - 1) redacted.length
      let outputLength := redacted.length - keepLength
      (redacted.take outputLength,
        { redactor with tailBuffer := redacted.drop outputLength })

/-- `flush`: what is put out at the end. -/
def flush (redactor : StreamRedactor) : Text :=
  if redactor.secrets.length = 0 ∨ redactor.tailBuffer.length = 0 then
    redactor.tailBuffer
  else
    redactSecrets redactor.secrets redactor.tailBuffer

/-- What is put out for some chunks, one by one, and by the `flush`. -/
def outputs (redactor : StreamRedactor) : List Text → List Text
  | [] => [redactor.flush]
  | chunk :: chunks =>
    (redactor.redact chunk).1 :: (redactor.redact chunk).2.outputs chunks

end StreamRedactor

/-- The whole output of a new redactor for some chunks. -/
def redactChunks (secrets : List Text) (chunks : List Text) : Text :=
  ((create secrets).outputs chunks).flatten

/-! ## One redaction -/

theorem redactSecrets_eq (secrets : List Text) (text : Text) :
    redactSecrets secrets text =
      secrets.foldl (fun text secret => replaceAny [secret] marker text)
        text := by
  unfold redactSecrets replaceSecret
  congr 1
  funext redacted secret
  split
  · rfl
  · rename_i absent
    rw [replaceAny_eq_self]
    intro word member
    rw [List.mem_singleton.mp member]
    exact absent

variable {secrets : List Text}

theorem redactSecrets_eq_self {text : Text}
    (absent : ∀ secret ∈ secrets, ¬ secret <:+: text) :
    redactSecrets secrets text = text := by
  induction secrets with
  | nil => rfl
  | cons secret secrets induction =>
    rw [List.forall_mem_cons] at absent
    unfold redactSecrets
    rw [List.foldl_cons, if_neg absent.1]
    exact induction absent.2

/-! ## The state between chunks -/

theorem mem_ordered {secret : Text} :
    secret ∈ ordered secrets ↔ secret ∈ secrets ∧ secret ≠ [] := by
  unfold ordered
  rw [List.mem_insertionSort, List.mem_filter, decide_eq_true_iff,
    List.length_pos_iff]

theorem length_le_max (secrets : List Text) (start : Nat) :
    start ≤ secrets.foldl (fun most secret => max most secret.length) start ∧
      ∀ secret ∈ secrets, secret.length ≤
        secrets.foldl (fun most secret => max most secret.length) start := by
  induction secrets generalizing start with
  | nil => exact ⟨Nat.le_refl _, fun _ member => by cases member⟩
  | cons first secrets induction =>
    have ⟨above, each⟩ := induction (max start first.length)
    rw [List.forall_mem_cons]
    refine ⟨?_, ?_, each⟩
    · exact Nat.le_trans (Nat.le_max_left _ _) above
    · exact Nat.le_trans (Nat.le_max_right _ _) above

theorem max_length_le (secrets : List Text) (start bound : Nat)
    (low : start ≤ bound)
    (each : ∀ secret ∈ secrets, secret.length ≤ bound) :
    secrets.foldl (fun most secret => max most secret.length) start ≤
      bound := by
  induction secrets generalizing start with
  | nil => exact low
  | cons first secrets induction =>
    rw [List.forall_mem_cons] at each
    exact induction _ (Nat.max_le.mpr ⟨low, each.1⟩) each.2

/-- What is fixed when a redactor is made. -/
structure StreamRedactor.Fits (redactor : StreamRedactor) : Prop where
  bounded : ∀ secret ∈ redactor.secrets,
    secret.length ≤ redactor.maxSecretLength

theorem create_fits (secrets : List Text) : (create secrets).Fits where
  bounded := (length_le_max (ordered secrets) 0).2

theorem redact_secrets (redactor : StreamRedactor) (chunk : Text) :
    (redactor.redact chunk).2.secrets = redactor.secrets ∧
      (redactor.redact chunk).2.maxSecretLength =
        redactor.maxSecretLength := by
  unfold StreamRedactor.redact
  split
  · exact ⟨rfl, rfl⟩
  · dsimp only
    split
    · exact ⟨rfl, rfl⟩
    · exact ⟨rfl, rfl⟩

/-- What is put out and what is kept make up the redacted text. -/
theorem redact_split (redactor : StreamRedactor) (chunk : Text)
    (noBuffer : redactor.secrets.length = 0 → redactor.tailBuffer = []) :
    (redactor.redact chunk).1 ++ (redactor.redact chunk).2.tailBuffer =
      redactSecrets redactor.secrets (redactor.tailBuffer ++ chunk) := by
  unfold StreamRedactor.redact
  split
  · rename_i none
    rw [noBuffer none, List.length_eq_zero_iff.mp none]
    simp [redactSecrets]
  · dsimp only
    split
    · exact List.append_nil _
    · exact List.take_append_drop _ _

variable {redactor : StreamRedactor}

theorem redact_noBuffer (chunk : Text)
    (noBuffer : redactor.secrets.length = 0 → redactor.tailBuffer = []) :
    (redactor.redact chunk).2.secrets.length = 0 →
      (redactor.redact chunk).2.tailBuffer = [] := by
  rw [(redact_secrets redactor chunk).1]
  intro none
  unfold StreamRedactor.redact
  rw [if_pos none]
  exact noBuffer none

theorem flush_eq_self
    (absent : ∀ secret ∈ redactor.secrets, ¬ secret <:+: redactor.tailBuffer) :
    redactor.flush = redactor.tailBuffer := by
  unfold StreamRedactor.flush
  split
  · rfl
  · exact redactSecrets_eq_self absent

/-- An output without secrets passes through unchanged. -/
theorem outputs_unchanged
    (noBuffer : redactor.secrets.length = 0 → redactor.tailBuffer = [])
    (chunks : List Text) (absent : ∀ secret ∈ redactor.secrets,
      ¬ secret <:+: redactor.tailBuffer ++ chunks.flatten) :
    (redactor.outputs chunks).flatten =
      redactor.tailBuffer ++ chunks.flatten := by
  induction chunks generalizing redactor with
  | nil =>
    rw [List.flatten_nil, List.append_nil] at absent ⊢
    show redactor.flush ++ [] = _
    rw [List.append_nil]
    exact flush_eq_self absent
  | cons chunk chunks induction =>
    rw [List.flatten_cons, ← List.append_assoc] at absent ⊢
    have clean : ∀ secret ∈ redactor.secrets,
        ¬ secret <:+: redactor.tailBuffer ++ chunk :=
      fun secret member inside =>
        absent secret member
          (inside.trans (List.prefix_append _ _).isInfix)
    have split := redact_split redactor chunk noBuffer
    rw [redactSecrets_eq_self clean] at split
    have later : ∀ secret ∈ (redactor.redact chunk).2.secrets,
        ¬ secret <:+:
          (redactor.redact chunk).2.tailBuffer ++ chunks.flatten := by
      rw [(redact_secrets redactor chunk).1]
      intro secret member inside
      apply absent secret member
      rw [← split, List.append_assoc]
      exact inside.trans (List.suffix_append _ _).isInfix
    show (redactor.redact chunk).1 ++
      ((redactor.redact chunk).2.outputs chunks).flatten = _
    rw [induction (redact_noBuffer chunk noBuffer) later, ← split,
      List.append_assoc]

/-! ## Secrets of one code unit -/

theorem replaceAny_append_of_short {secret : Text} {marker : Text}
    (short : secret.length = 1) (first second : Text) :
    replaceAny [secret] marker (first ++ second) =
      replaceAny [secret] marker first ++
        replaceAny [secret] marker second := by
  rcases List.length_eq_one_iff.mp short with ⟨unit, rfl⟩
  have apart : ∀ text, Apart [[unit]] text :=
    Apart.singleton (List.cons_ne_nil _ _)
  induction first with
  | nil => rfl
  | cons symbol first induction =>
    by_cases same : unit = symbol
    · subst same
      have whole : ∀ text : Text,
          replaceAny [[unit]] marker (unit :: text) =
            marker ++ replaceAny [[unit]] marker text :=
        fun text => (apart ([unit] ++ text)).replace List.mem_cons_self _
      rw [List.cons_append, whole, whole, induction, List.append_assoc]
    · have misses : ∀ text : Text, ∀ word ∈ [[unit]],
          ¬ word <+: symbol :: text := by
        intro text word member begins
        rw [List.mem_singleton.mp member] at begins
        exact same (List.cons_prefix_cons.mp begins).1
      rw [List.cons_append, replaceAny_miss (misses _),
        replaceAny_miss (misses _), induction, List.cons_append]

theorem redactSecrets_append_of_short
    (short : ∀ secret ∈ secrets, secret.length = 1) (first second : Text) :
    redactSecrets secrets (first ++ second) =
      redactSecrets secrets first ++ redactSecrets secrets second := by
  rw [redactSecrets_eq, redactSecrets_eq, redactSecrets_eq]
  induction secrets generalizing first second with
  | nil => rfl
  | cons secret secrets induction =>
    rw [List.forall_mem_cons] at short
    rw [List.foldl_cons, List.foldl_cons, List.foldl_cons,
      replaceAny_append_of_short short.1, induction short.2]

theorem outputs_short (some : redactor.secrets.length ≠ 0)
    (short : ∀ secret ∈ redactor.secrets, secret.length = 1)
    (most : redactor.maxSecretLength ≤ 1) (empty : redactor.tailBuffer = [])
    (chunks : List Text) :
    (redactor.outputs chunks).flatten =
      redactSecrets redactor.secrets chunks.flatten := by
  induction chunks with
  | nil =>
    show redactor.flush ++ [] = _
    unfold StreamRedactor.flush
    rw [empty, if_pos (Or.inr List.length_nil), List.flatten_nil,
      List.append_nil, redactSecrets_eq_self]
    intro secret member inside
    have unit := short secret member
    rw [List.infix_nil.mp inside] at unit
    cases unit
  | cons chunk chunks induction =>
    have step :
        redactor.redact chunk =
          (redactSecrets redactor.secrets chunk, redactor) := by
      unfold StreamRedactor.redact
      rw [if_neg some, empty]
      dsimp only
      rw [if_pos most, List.nil_append, ← empty]
    show (redactor.redact chunk).1 ++
      ((redactor.redact chunk).2.outputs chunks).flatten = _
    rw [step, induction, List.flatten_cons,
      redactSecrets_append_of_short short]

/-! ## Secrets that are clear of the marker -/

/-- The secrets of a redactor as pieces. -/
def StreamRedactor.words (redactor : StreamRedactor) :
    List (List (Option UInt16)) :=
  redactor.secrets.map (List.map some)

/--
The redactor between two chunks.  What it was given so far, redacted, is cut
where it has been put out; the cut may fall into a marker, and no secret
begins before it that could still be completed.
-/
structure Holds (redactor : StreamRedactor) (seen : Text)
    (before after : List (Option UInt16)) (front : Text) : Prop where
  replaced :
    replaceAny redactor.words [none] (seen.map some) = before ++ after
  ends : front <:+ marker
  closed : front = [] ∨ ∃ shorter, before = shorter ++ [none]
  kept : redactor.tailBuffer = front ++ render marker after
  sealed : ∀ tail, tail ≠ [] → tail <:+ before → ∀ word ∈ redactor.words,
    ¬ tail ++ after <+: word

section Clear

variable {redactor : StreamRedactor} {seen chunk : Text}
  {before after : List (Option UInt16)} {front : Text}

theorem Holds.apart (holds : Holds redactor seen before after front)
    (apart : Apart redactor.words ((seen ++ chunk).map some)) :
    Apart redactor.words (after ++ chunk.map some) := by
  rw [List.map_append] at apart
  have start : Apart redactor.words (seen.map some) :=
    apart.of_infix (List.prefix_append _ _).isInfix
  have left := apart.of_replaced start (gapless_map_some redactor.secrets)
  unfold StreamRedactor.words at left
  have replaced := holds.replaced
  unfold StreamRedactor.words at replaced
  rw [replaced, List.append_assoc] at left
  exact left.of_infix (List.suffix_append _ _).isInfix

theorem Holds.not_infix (holds : Holds redactor seen before after front)
    (apart : Apart redactor.words ((seen ++ chunk).map some))
    {word : List (Option UInt16)} (member : word ∈ redactor.words) :
    ¬ word <:+: before ++ after := by
  rw [List.map_append] at apart
  have start : Apart redactor.words (seen.map some) :=
    apart.of_infix (List.prefix_append _ _).isInfix
  rw [← holds.replaced]
  exact not_infix_replaceAny start (gapless_map_some redactor.secrets) member

/-- What was put out stays as it is when the next chunk is redacted. -/
theorem Holds.extended (holds : Holds redactor seen before after front)
    (apart : Apart redactor.words ((seen ++ chunk).map some)) :
    replaceAny redactor.words [none] ((seen ++ chunk).map some) =
      before ++
        replaceAny redactor.words [none] (after ++ chunk.map some) := by
  have absent : ∀ word ∈ redactor.words, ¬ word <:+: before ++ after :=
    fun word => holds.not_infix apart
  rw [List.map_append] at apart ⊢
  rw [← replaceAny_again apart (gapless_map_some redactor.secrets),
    holds.replaced, List.append_assoc]
  apply replaceAny_append
  intro tail nonempty ends word member begins
  rw [← List.append_assoc] at begins
  rcases List.prefix_or_prefix_of_prefix begins
      (List.prefix_append (tail ++ after) _) with inside | outside
  · apply absent word member
    rcases ends with ⟨ahead, split⟩
    rw [← split, List.append_assoc]
    exact inside.isInfix.trans (List.suffix_append _ _).isInfix
  · exact holds.sealed tail nonempty ends word member outside

theorem Holds.redacted (holds : Holds redactor seen before after front)
    (apart : Apart redactor.words ((seen ++ chunk).map some))
    (clear : ∀ secret ∈ redactor.secrets, Clear marker secret) :
    redactSecrets redactor.secrets (redactor.tailBuffer ++ chunk) =
      front ++
        render marker
          (replaceAny redactor.words [none] (after ++ chunk.map some)) := by
  have pieces :
      redactor.tailBuffer ++ chunk =
        front ++ render marker (after ++ chunk.map some) := by
    rw [holds.kept, render_append, render_map_some, List.append_assoc]
  rw [redactSecrets_eq, pieces]
  exact foldl_render (holds.apart apart) clear holds.ends

theorem render_length_of_raw {pieces : List (Option UInt16)}
    (raw : none ∉ pieces) :
    (render marker pieces).length = pieces.length := by
  induction pieces with
  | nil => rfl
  | cons piece pieces induction =>
    rw [List.mem_cons, not_or] at raw
    cases piece with
    | none => exact absurd rfl raw.1
    | some symbol =>
      rw [render_some, List.length_cons, List.length_cons,
        induction raw.2]

theorem mem_of_suffix_concat {Item : Type} {tail shorter : List Item}
    {last : Item} (nonempty : tail ≠ []) (ends : tail <:+ shorter ++ [last]) :
    last ∈ tail := by
  rcases List.suffix_concat_iff.mp ends with empty | ⟨front, split, _⟩
  · exact absurd empty nonempty
  · rw [split]
    exact List.mem_append_right _ List.mem_cons_self

/-- Behind a marker nothing can be completed. -/
theorem sealed_of_closed {tail shorter before more : List (Option UInt16)}
    (ends : before = shorter ++ [none]) (nonempty : tail ≠ [])
    (suffix : tail <:+ before) {word : List (Option UInt16)}
    (member : word ∈ redactor.words) : ¬ tail ++ more <+: word := by
  intro begins
  rw [ends] at suffix
  have gap := mem_of_suffix_concat nonempty suffix
  exact gapless_map_some redactor.secrets word member
    (begins.subset (List.mem_append_left _ gap))

/-- Where a whole buffer is kept, a secret before it would be complete. -/
theorem sealed_of_full {more tail : List (Option UInt16)}
    (fits : redactor.Fits)
    (absent : ∀ word ∈ redactor.words, ¬ word <:+: before ++ more)
    (full : (render marker more).length = redactor.maxSecretLength - 1)
    (nonempty : tail ≠ []) (suffix : tail <:+ before)
    {word : List (Option UInt16)} (member : word ∈ redactor.words) :
    ¬ tail ++ more <+: word := by
  intro begins
  rcases List.mem_map.mp member with ⟨secret, there, isWord⟩
  have raw : none ∉ more := by
    intro gap
    exact gapless_map_some redactor.secrets word member
      (begins.subset (List.mem_append_right _ gap))
  have bounded := fits.bounded secret there
  have short : word.length ≤ (tail ++ more).length := by
    have some := List.length_pos_iff.mpr nonempty
    rw [render_length_of_raw raw] at full
    rw [← isWord, List.length_map, List.length_append]
    omega
  have equal : tail ++ more = word := begins.eq_of_length_le short
  apply absent word member
  rw [← equal]
  rcases suffix with ⟨ahead, split⟩
  rw [← split, List.append_assoc]
  exact (List.suffix_append _ _).isInfix

theorem redact_eq (exist : redactor.secrets.length ≠ 0)
    (long : ¬ redactor.maxSecretLength ≤ 1) {redacted : Text}
    (is : redactSecrets redactor.secrets (redactor.tailBuffer ++ chunk) =
      redacted) :
    redactor.redact chunk =
      (redacted.take
          (redacted.length -
            min (redactor.maxSecretLength - 1) redacted.length),
        { redactor with
          tailBuffer :=
            redacted.drop
              (redacted.length -
                min (redactor.maxSecretLength - 1) redacted.length) }) := by
  unfold StreamRedactor.redact
  rw [if_neg exist]
  dsimp only
  rw [if_neg long, is]

/-- One chunk: more is put out, and the cut moves behind it. -/
theorem holds_redact (holds : Holds redactor seen before after front)
    (exist : redactor.secrets.length ≠ 0)
    (long : ¬ redactor.maxSecretLength ≤ 1) (fits : redactor.Fits)
    (apart : Apart redactor.words ((seen ++ chunk).map some))
    (clear : ∀ secret ∈ redactor.secrets, Clear marker secret) :
    ∃ more rest newFront,
      Holds (redactor.redact chunk).2 (seen ++ chunk) (before ++ more) rest
          newFront ∧
        (redactor.redact chunk).1 ++ newFront =
          front ++ render marker more := by
  have extended := holds.extended apart
  have redacted := holds.redacted apart clear
  have absent : ∀ word ∈ redactor.words,
      ¬ word <:+:
        before ++
          replaceAny redactor.words [none] (after ++ chunk.map some) := by
    intro word member
    rw [← extended]
    exact not_infix_replaceAny apart (gapless_map_some redactor.secrets)
      member
  have later := holds.apart apart
  rw [redact_eq exist long redacted]
  generalize pieces :
    replaceAny redactor.words [none] (after ++ chunk.map some) = found
      at *
  generalize keep :
    min (redactor.maxSecretLength - 1)
      (front ++ render marker found).length = keepLength at *
  generalize size :
    (front ++ render marker found).length - keepLength = outputLength at *
  by_cases nothing : outputLength = 0
  · subst nothing
    refine ⟨[], found, front, ⟨?_, holds.ends, ?_, rfl, ?_⟩, ?_⟩
    · rw [List.append_nil]
      exact extended
    · rw [List.append_nil]
      exact holds.closed
    · intro tail nonempty suffix word member begins
      rw [List.append_nil] at suffix
      have raw : none ∉ found := by
        intro gap
        exact gapless_map_some redactor.secrets word member
          (begins.subset (List.mem_append_right _ gap))
      rw [← pieces] at raw begins
      rw [replaceAny_eq_self_of_gap later raw, ← List.append_assoc] at begins
      exact holds.sealed tail nonempty suffix word member
        ((List.prefix_append _ _).trans begins)
    · rw [List.take_zero, List.nil_append, render_nil, List.append_nil]
  · have full : keepLength = redactor.maxSecretLength - 1 := by omega
    by_cases inside : outputLength < front.length
    · have closed : ∃ shorter, before = shorter ++ [none] := by
        apply holds.closed.resolve_left
        intro empty
        rw [empty] at inside
        exact absurd inside (Nat.not_lt_zero _)
      refine ⟨[], found, front.drop outputLength, ⟨?_, ?_, ?_, ?_, ?_⟩, ?_⟩
      · rw [List.append_nil]
        exact extended
      · exact (List.drop_suffix _ _).trans holds.ends
      · rw [List.append_nil]
        exact Or.inr closed
      · exact List.drop_append_of_le_length (Nat.le_of_lt inside)
      · intro tail nonempty suffix word member
        rw [List.append_nil] at suffix
        rcases closed with ⟨shorter, ends⟩
        exact sealed_of_closed ends nonempty suffix member
      · rw [List.take_append_of_le_length (Nat.le_of_lt inside),
          List.take_append_drop, render_nil, List.append_nil]
    · have ⟨more, rest, newFront, split, ends, cut, closed⟩ :
          ∃ more rest newFront,
            found = more ++ rest ∧ newFront <:+ marker ∧
              (render marker found).drop (outputLength - front.length) =
                newFront ++ render marker rest ∧
              (newFront = [] ∨ ∃ shorter, more = shorter ++ [none]) :=
        exists_cut found (outputLength - front.length)
      have dropped :
          (front ++ render marker found).drop outputLength =
            newFront ++ render marker rest := by
        rw [List.drop_append, List.drop_eq_nil_of_le (Nat.le_of_not_lt inside),
          List.nil_append, cut]
      refine ⟨more, rest, newFront, ⟨?_, ends, ?_, dropped, ?_⟩, ?_⟩
      · rw [List.append_assoc, ← split]
        exact extended
      · rcases closed with empty | ⟨shorter, last⟩
        · exact Or.inl empty
        · exact Or.inr ⟨before ++ shorter, by
            rw [last, List.append_assoc]⟩
      · intro tail nonempty suffix word member
        rcases closed with empty | ⟨shorter, last⟩
        · refine sealed_of_full fits ?_ ?_ nonempty suffix member
          · rw [List.append_assoc, ← split]
            exact absent
          · have length := congrArg List.length dropped
            rw [empty, List.nil_append, List.length_drop] at length
            omega
        · have concat : before ++ more = (before ++ shorter) ++ [none] := by
            rw [last, List.append_assoc]
          exact sealed_of_closed concat nonempty suffix member
      · have whole :
            ((front ++ render marker found).take outputLength ++ newFront) ++
                render marker rest =
              (front ++ render marker more) ++ render marker rest := by
          rw [List.append_assoc, ← dropped, List.take_append_drop,
            List.append_assoc, ← render_append, ← split]
        exact List.append_cancel_right whole

/-- All chunks: the output is the redaction of what the redactor was given. -/
theorem outputs_clear (holds : Holds redactor seen before after front)
    (exist : redactor.secrets.length ≠ 0)
    (long : ¬ redactor.maxSecretLength ≤ 1) (fits : redactor.Fits)
    (chunks : List Text)
    (apart : Apart redactor.words ((seen ++ chunks.flatten).map some))
    (clear : ∀ secret ∈ redactor.secrets, Clear marker secret) :
    ∃ rest,
      replaceAny redactor.words [none]
            ((seen ++ chunks.flatten).map some) = before ++ rest ∧
        (redactor.outputs chunks).flatten = front ++ render marker rest := by
  induction chunks generalizing redactor seen before after front with
  | nil =>
    rw [List.flatten_nil] at apart ⊢
    refine ⟨after, ?_, ?_⟩
    · rw [List.append_nil]
      exact holds.replaced
    · have again := holds.redacted apart clear
      have absent : ∀ word ∈ redactor.words, ¬ word <:+: after :=
        fun word member inside =>
          holds.not_infix apart member
            (inside.trans (List.suffix_append _ _).isInfix)
      rw [List.append_nil, List.map_nil, List.append_nil,
        replaceAny_eq_self absent] at again
      show redactor.flush ++ [] = _
      rw [List.append_nil]
      unfold StreamRedactor.flush
      split
      · exact holds.kept
      · exact again
  | cons chunk chunks induction =>
    rw [List.flatten_cons, ← List.append_assoc] at apart ⊢
    have first : Apart redactor.words ((seen ++ chunk).map some) := by
      rw [List.map_append] at apart
      exact apart.of_infix (List.prefix_append _ _).isInfix
    rcases holds_redact holds exist long fits first clear with
      ⟨more, after, newFront, next, put⟩
    have ⟨secrets, most⟩ := redact_secrets redactor chunk
    have words : (redactor.redact chunk).2.words = redactor.words := by
      unfold StreamRedactor.words
      rw [secrets]
    have nextFits : (redactor.redact chunk).2.Fits := by
      constructor
      rw [secrets, most]
      exact fits.bounded
    rw [← words] at apart
    rw [← secrets] at exist clear
    rw [← most] at long
    rcases induction next exist long nextFits apart clear with
      ⟨rest, replaced, flattened⟩
    refine ⟨more ++ rest, ?_, ?_⟩
    · rw [← List.append_assoc, ← words]
      exact replaced
    · show (redactor.redact chunk).1 ++
        ((redactor.redact chunk).2.outputs chunks).flatten = _
      rw [flattened, ← List.append_assoc, put, render_append,
        List.append_assoc]

end Clear

/-! ## Redaction does not depend on the chunks -/

/--
No two different secrets overlap in the text; and when a secret occurs in it,
so that a marker is put in its place, no secret can overlap the marker.
-/
structure Undisturbed (secrets : List Text) (text : Text) : Prop where
  apart : Apart (ordered secrets) text
  clear : (∃ secret ∈ ordered secrets, secret <:+: text) →
    ∀ secret ∈ ordered secrets, Clear marker secret

theorem redactChunks_of_undisturbed {chunks : List Text}
    (long : ¬ (create secrets).maxSecretLength ≤ 1)
    (undisturbed : Undisturbed secrets chunks.flatten) :
    redactChunks secrets chunks =
      redactSecrets (ordered secrets) chunks.flatten := by
  by_cases occurs : ∃ secret ∈ ordered secrets, secret <:+: chunks.flatten
  · have clear := undisturbed.clear occurs
    have exist : (create secrets).secrets.length ≠ 0 := by
      rcases occurs with ⟨secret, member, _⟩
      exact Nat.ne_of_gt (List.length_pos_of_mem member)
    have start : Holds (create secrets) [] [] [] [] := by
      refine ⟨rfl, List.nil_suffix, Or.inl rfl, rfl, ?_⟩
      intro tail nonempty suffix
      exact absurd (List.suffix_nil.mp suffix) nonempty
    have apart : Apart (create secrets).words
        (([] ++ chunks.flatten).map some) :=
      undisturbed.apart.map_some
    rcases outputs_clear start exist long (create_fits secrets) chunks apart
        clear with ⟨rest, replaced, flattened⟩
    have whole :=
      foldl_render undisturbed.apart.map_some clear List.nil_suffix
    rw [List.nil_append, render_map_some, List.nil_append,
      ← redactSecrets_eq] at whole
    rw [List.nil_append, List.nil_append] at replaced
    unfold redactChunks
    rw [flattened, List.nil_append, whole, ← replaced]
    rfl
  · have absent : ∀ secret ∈ ordered secrets,
        ¬ secret <:+: chunks.flatten :=
      fun secret member inside => occurs ⟨secret, member, inside⟩
    rw [redactSecrets_eq_self absent]
    exact outputs_unchanged (fun _ => rfl) chunks absent

theorem redactChunks_of_short {chunks : List Text}
    (short : ∀ secret ∈ secrets, secret.length ≤ 1) :
    redactChunks secrets chunks =
      redactSecrets (ordered secrets) chunks.flatten := by
  have unit : ∀ secret ∈ ordered secrets, secret.length = 1 := by
    intro secret member
    rcases mem_ordered.mp member with ⟨there, nonempty⟩
    have some := List.length_pos_iff.mpr nonempty
    have most := short secret there
    omega
  by_cases exist : (create secrets).secrets.length = 0
  · have none : ordered secrets = [] := List.length_eq_zero_iff.mp exist
    have absent : ∀ secret ∈ ordered secrets,
        ¬ secret <:+: chunks.flatten := by
      rw [none]
      intro secret member
      cases member
    rw [redactSecrets_eq_self absent]
    exact outputs_unchanged (fun _ => rfl) chunks absent
  · have most : (create secrets).maxSecretLength ≤ 1 := by
      apply max_length_le (ordered secrets) 0 1 (Nat.zero_le 1)
      intro secret member
      rw [unit secret member]
    exact outputs_short exist unit most rfl chunks

/--
The output does not depend on how the text is cut into chunks, when all
secrets are single code units or the text is undisturbed.
-/
theorem redaction_independent_of_chunks (secrets : List Text)
    (chunks : List Text)
    (condition : (∀ secret ∈ secrets, secret.length ≤ 1) ∨
      Undisturbed secrets chunks.flatten) :
    redactChunks secrets chunks = redactChunks secrets [chunks.flatten] ∧
      redactChunks secrets chunks =
        redactSecrets (ordered secrets) chunks.flatten := by
  have single : [chunks.flatten].flatten = chunks.flatten :=
    List.flatten_singleton
  have closed : ∀ others : List Text, others.flatten = chunks.flatten →
      redactChunks secrets others =
        redactSecrets (ordered secrets) chunks.flatten := by
    intro others same
    rw [← same]
    rw [← same] at condition
    by_cases short : ∀ secret ∈ secrets, secret.length ≤ 1
    · exact redactChunks_of_short short
    · apply redactChunks_of_undisturbed _ (condition.resolve_left short)
      intro most
      apply short
      intro secret member
      by_cases empty : secret = []
      · rw [empty]
        exact Nat.zero_le 1
      · exact Nat.le_trans
          ((create_fits secrets).bounded secret
            (mem_ordered.mpr ⟨member, empty⟩)) most
  refine ⟨?_, closed chunks rfl⟩
  rw [closed chunks rfl, closed [chunks.flatten] single]

/-- Two secrets, in an output that is cut inside both of them. -/
def cutSecrets : List Text × List Text :=
  (["hunter".toList, "s3t".toList].map Utf16.encode,
    ["a hun".toList, "ter b s".toList, "3".toList, "t.".toList].map
      Utf16.encode)

theorem redaction_independent_of_chunks_cutSecrets :
    redactChunks cutSecrets.1 cutSecrets.2 =
        redactChunks cutSecrets.1 [cutSecrets.2.flatten] ∧
      redactChunks cutSecrets.1 cutSecrets.2 =
        Utf16.encode "a [REDACTED] b [REDACTED].".toList := by
  have apart : Apart (ordered cutSecrets.1) cutSecrets.2.flatten :=
    Apart.of_disjoint (by decide +kernel) (by decide +kernel) _
  have clear : ∀ secret ∈ ordered cutSecrets.1, Clear marker secret := by
    have disjoint : ∀ secret ∈ ordered cutSecrets.1,
        secret ≠ [] ∧ secret.all (fun unit => !marker.contains unit) := by
      decide +kernel
    intro secret member
    have ⟨nonempty, apartFrom⟩ := disjoint secret member
    apply Clear.of_disjoint nonempty (by decide +kernel)
    intro unit there inMarker
    have outside := List.all_eq_true.mp apartFrom unit there
    rw [List.contains_iff_mem.mpr inMarker] at outside
    cases outside
  have ⟨same, whole⟩ :=
    redaction_independent_of_chunks cutSecrets.1 cutSecrets.2
      (Or.inr ⟨apart, fun _ => clear⟩)
  refine ⟨same, whole.trans ?_⟩
  decide +kernel

/--
A secret that begins another one: it is redacted before the other one is
complete, and the end of the longer secret is put out.
-/
theorem redaction_depends_on_chunks :
    ¬ ∀ secrets chunks : List Text,
      redactChunks secrets chunks =
        redactChunks secrets [chunks.flatten] := by
  intro independent
  have different :
      redactChunks [Utf16.encode "a".toList, Utf16.encode "ab".toList]
          [Utf16.encode "a".toList, Utf16.encode "b".toList] ≠
        redactChunks [Utf16.encode "a".toList, Utf16.encode "ab".toList]
          [[Utf16.encode "a".toList, Utf16.encode "b".toList].flatten] := by
    decide +kernel
  exact different (independent _ _)

/-! ## No secret is put out -/

theorem redactChunks_eq {chunks : List Text}
    (undisturbed : Undisturbed secrets chunks.flatten) :
    redactChunks secrets chunks =
      redactSecrets (ordered secrets) chunks.flatten := by
  by_cases most : (create secrets).maxSecretLength ≤ 1
  · apply redactChunks_of_short
    intro secret member
    by_cases empty : secret = []
    · exact empty ▸ Nat.zero_le 1
    · exact ((create_fits secrets).bounded secret
        (mem_ordered.mpr ⟨member, empty⟩)).trans most
  · exact redactChunks_of_undisturbed most undisturbed

/--
However an undisturbed text is cut into chunks, no secret is left in the
output, neither across two chunks nor with a part of a marker.
-/
theorem no_secret_put_out (secrets chunks : List Text)
    (undisturbed : Undisturbed secrets chunks.flatten) (secret : Text)
    (member : secret ∈ secrets) (nonempty : secret ≠ []) :
    ¬ secret <:+: redactChunks secrets chunks := by
  have kept := mem_ordered.mpr ⟨member, nonempty⟩
  rw [redactChunks_eq undisturbed]
  by_cases occurs : ∃ secret ∈ ordered secrets, secret <:+: chunks.flatten
  · have clear := undisturbed.clear occurs
    have apart := undisturbed.apart.map_some
    have whole := foldl_render apart clear List.nil_suffix
    rw [List.nil_append, render_map_some, ← redactSecrets_eq] at whole
    rw [whole]
    intro inside
    exact not_infix_replaceAny apart (gapless_map_some _)
      (List.mem_map_of_mem kept) ((clear secret kept).infix_pieces inside)
  · have absent : ∀ secret ∈ ordered secrets,
        ¬ secret <:+: chunks.flatten :=
      fun secret member inside => occurs ⟨secret, member, inside⟩
    rw [redactSecrets_eq_self absent]
    exact absent secret kept

/-- A secret that is cut in two. -/
theorem no_secret_put_out_cut :
    ¬ Utf16.encode "s3t".toList <:+:
      redactChunks [Utf16.encode "s3t".toList]
        [Utf16.encode "a s".toList, Utf16.encode "3t".toList] := by
  have only : ordered [Utf16.encode "s3t".toList] =
      [Utf16.encode "s3t".toList] := by decide +kernel
  apply no_secret_put_out _ _ _ _ List.mem_cons_self (by decide +kernel)
  constructor
  · rw [only]
    exact Apart.singleton (by decide +kernel) _
  · rw [only]
    intro _ secret member
    have apart : (Utf16.encode "s3t".toList).all
        (fun unit => !marker.contains unit) = true := by decide +kernel
    rw [List.mem_singleton.mp member]
    apply Clear.of_disjoint (by decide +kernel) (by decide +kernel)
    intro unit there inMarker
    have outside := List.all_eq_true.mp apart unit there
    rw [List.contains_iff_mem.mpr inMarker] at outside
    cases outside

end Rbo.Agent.Redactor
