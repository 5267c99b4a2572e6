import Mathlib.Data.List.Basic

/-!
# Reading frames from a stream

A reader cuts frames off the front of a buffer as long as a whole one is there
and keeps the rest.  Where the stream is cut into chunks makes no difference,
when a frame at the front stays the same whatever follows it.
-/

namespace Rbo.Foundation

universe byteLevel frameLevel

/-- How the first frame of a buffer is cut off. -/
structure Framing (Byte : Type byteLevel) (Frame : Type frameLevel) where
  next : List Byte → Option (Frame × List Byte)
  shorter : ∀ buffer frame rest, next buffer = some (frame, rest) →
    rest.length < buffer.length
  stable : ∀ buffer frame rest more, next buffer = some (frame, rest) →
    next (buffer ++ more) = some (frame, rest ++ more)

namespace Framing

variable {Byte : Type byteLevel} {Frame : Type frameLevel}
  (framing : Framing Byte Frame)

/-- Cut off at most so many frames. -/
def drainWith : Nat → List Byte → List Frame × List Byte
  | 0, buffer => ([], buffer)
  | rounds + 1, buffer =>
    match framing.next buffer with
    | none => ([], buffer)
    | some (frame, rest) =>
      (frame :: (drainWith rounds rest).1, (drainWith rounds rest).2)

/-- Cut off every frame; each is at least one byte long. -/
def drain (buffer : List Byte) : List Frame × List Byte :=
  framing.drainWith buffer.length buffer

/-- What each chunk of a stream completes, and what is left in the end. -/
def feed : List Byte → List (List Byte) → List (List Frame) × List Byte
  | buffer, [] => ([], buffer)
  | buffer, chunk :: chunks =>
    let drained := framing.drain (buffer ++ chunk)
    let later := feed drained.2 chunks
    (drained.1 :: later.1, later.2)

variable {framing}

theorem drainWith_nil (rounds : Nat) :
    framing.drainWith rounds [] = ([], []) := by
  cases rounds with
  | zero => rfl
  | succ rounds =>
    unfold drainWith
    cases cut : framing.next [] with
    | none => rfl
    | some pair =>
      exact absurd (framing.shorter [] pair.1 pair.2 cut)
        (Nat.not_lt_zero _)

/-- Rounds beyond the length of the buffer make no difference. -/
theorem drainWith_enough {first second : Nat} {buffer : List Byte}
    (enough : buffer.length ≤ first) (also : buffer.length ≤ second) :
    framing.drainWith first buffer = framing.drainWith second buffer := by
  induction first generalizing second buffer with
  | zero =>
    rw [List.eq_nil_of_length_eq_zero (Nat.le_zero.mp enough),
      drainWith_nil, drainWith_nil]
  | succ first inductionHypothesis =>
    cases second with
    | zero =>
      rw [List.eq_nil_of_length_eq_zero (Nat.le_zero.mp also),
        drainWith_nil, drainWith_nil]
    | succ second =>
      unfold drainWith
      cases cut : framing.next buffer with
      | none => rfl
      | some pair =>
        have shorter := framing.shorter buffer pair.1 pair.2 cut
        dsimp only
        rw [inductionHypothesis
          (Nat.lt_succ_iff.mp (Nat.lt_of_lt_of_le shorter enough))
          (Nat.lt_succ_iff.mp (Nat.lt_of_lt_of_le shorter also))]

/-- Without a whole frame at the front nothing is cut off. -/
theorem drain_of_none {buffer : List Byte}
    (none_ : framing.next buffer = none) :
    framing.drain buffer = ([], buffer) := by
  unfold drain
  cases buffer.length with
  | zero => rfl
  | succ rounds => rw [drainWith, none_]

/-- A whole frame at the front is cut off, and then what follows it. -/
theorem drain_of_some {buffer rest : List Byte} {frame : Frame}
    (cut : framing.next buffer = some (frame, rest)) :
    framing.drain buffer =
      (frame :: (framing.drain rest).1, (framing.drain rest).2) := by
  have shorter := framing.shorter buffer frame rest cut
  unfold drain
  cases size : buffer.length with
  | zero =>
    rw [size] at shorter
    exact absurd shorter (Nat.not_lt_zero _)
  | succ rounds =>
    rw [size] at shorter
    rw [drainWith, cut]
    dsimp only
    rw [drainWith_enough (Nat.lt_succ_iff.mp shorter) (Nat.le_refl _)]

/-- Frames cut off early are those that would be cut off later. -/
theorem drain_append (buffer more : List Byte) :
    framing.drain (buffer ++ more) =
      ((framing.drain buffer).1 ++
          (framing.drain ((framing.drain buffer).2 ++ more)).1,
        (framing.drain ((framing.drain buffer).2 ++ more)).2) := by
  generalize size : buffer.length = count
  induction count using Nat.strongRecOn generalizing buffer with
  | ind count inductionHypothesis =>
    cases cut : framing.next buffer with
    | none => rw [drain_of_none cut, List.nil_append]
    | some pair =>
      obtain ⟨frame, rest⟩ := pair
      have shorter := framing.shorter buffer frame rest cut
      rw [drain_of_some cut,
        drain_of_some (framing.stable buffer frame rest more cut),
        inductionHypothesis rest.length (size ▸ shorter) rest rfl]
      rfl

/-- What is left holds no whole frame at its front. -/
theorem next_drain (buffer : List Byte) :
    framing.next (framing.drain buffer).2 = none := by
  generalize size : buffer.length = count
  induction count using Nat.strongRecOn generalizing buffer with
  | ind count inductionHypothesis =>
    cases cut : framing.next buffer with
    | none =>
      rw [drain_of_none cut]
      exact cut
    | some pair =>
      obtain ⟨frame, rest⟩ := pair
      have shorter := framing.shorter buffer frame rest cut
      rw [drain_of_some cut]
      exact inductionHypothesis rest.length (size ▸ shorter) rest rfl

/-- A stream gives the same frames however it is cut into chunks. -/
theorem feed_eq_drain {buffer : List Byte} {chunks : List (List Byte)}
    (drained : framing.next buffer = none) :
    (framing.feed buffer chunks).1.flatten =
      (framing.drain (buffer ++ chunks.flatten)).1 := by
  induction chunks generalizing buffer with
  | nil =>
    rw [List.flatten_nil, List.append_nil, drain_of_none drained]
    rfl
  | cons chunk chunks inductionHypothesis =>
    unfold feed
    rw [List.flatten_cons, inductionHypothesis (next_drain _),
      List.flatten_cons, ← List.append_assoc,
      drain_append (buffer ++ chunk)]

end Framing

end Rbo.Foundation
