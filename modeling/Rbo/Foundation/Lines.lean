import Mathlib.Data.List.Basic

/-!
# Newline-terminated records in a text

A text file of newline-terminated records is read as its complete lines
together with the unterminated text after the last newline.  The file may be
read in pieces: the unterminated text of one piece is carried over and put in
front of the next.  The laws below say how the complete lines of a text built
by appending records are obtained, and that reading in pieces agrees with
reading at once.
-/

namespace Rbo.Foundation.Lines

/--
The complete lines of a text, each without its newline, and the text after
the last newline.
-/
def splitLines : List Char → List (List Char) × List Char
  | [] => ([], [])
  | head :: tail =>
    let split := splitLines tail
    if head = '\n' then
      ([] :: split.1, split.2)
    else
      match split.1 with
      | [] => ([], head :: split.2)
      | line :: lines => ((head :: line) :: lines, split.2)

def completeLines (text : List Char) : List (List Char) :=
  (splitLines text).1

/-- The unterminated text after the last newline. -/
def pendingText (text : List Char) : List Char :=
  (splitLines text).2

@[simp]
theorem splitLines_nil : splitLines [] = ([], []) :=
  rfl

@[simp]
theorem splitLines_newline (rest : List Char) :
    splitLines ('\n' :: rest) =
      ([] :: (splitLines rest).1, (splitLines rest).2) := by
  simp [splitLines]

/-- A text without a newline is pending as a whole. -/
theorem splitLines_of_noNewline
    {text : List Char} (noNewline : '\n' ∉ text) :
    splitLines text = ([], text) := by
  induction text with
  | nil => rfl
  | cons head tail induction =>
    have headNe : head ≠ '\n' := fun equal =>
      noNewline (by simp [equal])
    have tailNo : '\n' ∉ tail := fun member =>
      noNewline (List.mem_cons_of_mem _ member)
    simp [splitLines, headNe, induction tailNo]

theorem newline_notMem_pendingText (text : List Char) :
    '\n' ∉ pendingText text := by
  unfold pendingText
  induction text with
  | nil => simp
  | cons head tail induction =>
    by_cases newline : head = '\n'
    · subst newline
      simpa using induction
    · simp only [splitLines, newline, if_false]
      cases lines : (splitLines tail).1 with
      | nil =>
        simp only [List.mem_cons, not_or]
        exact ⟨fun equal => newline equal.symm, induction⟩
      | cons line rest => simpa using induction

/-- Reading a first record leaves the rest of the text to be split. -/
theorem splitLines_record_append
    {record : List Char} (noNewline : '\n' ∉ record)
    (rest : List Char) :
    splitLines (record ++ '\n' :: rest) =
      (record :: (splitLines rest).1, (splitLines rest).2) := by
  induction record with
  | nil => simp
  | cons head tail induction =>
    have headNe : head ≠ '\n' := fun equal =>
      noNewline (by simp [equal])
    have tailNo : '\n' ∉ tail := fun member =>
      noNewline (List.mem_cons_of_mem _ member)
    simp [splitLines, headNe, induction tailNo]

/--
Reading in two pieces: the lines of the first piece, then the lines of the
second piece with the pending text of the first in front.
-/
theorem splitLines_append (first second : List Char) :
    splitLines (first ++ second) =
      ((splitLines first).1 ++
          (splitLines ((splitLines first).2 ++ second)).1,
        (splitLines ((splitLines first).2 ++ second)).2) := by
  induction first with
  | nil => simp
  | cons head tail induction =>
    by_cases newline : head = '\n'
    · subst newline
      simp [induction]
    · simp only [List.cons_append, splitLines, newline, if_false,
        induction]
      cases lines : (splitLines tail).1 with
      | nil =>
        simp [splitLines, newline]
      | cons line rest => simp

/-- The records of a text are the text again, each with its newline. -/
def joinRecords : List (List Char) → List Char
  | [] => []
  | record :: records => record ++ '\n' :: joinRecords records

@[simp]
theorem joinRecords_nil : joinRecords [] = [] :=
  rfl

@[simp]
theorem joinRecords_cons (record : List Char) (records : List (List Char)) :
    joinRecords (record :: records) =
      record ++ '\n' :: joinRecords records :=
  rfl

theorem joinRecords_append (left right : List (List Char)) :
    joinRecords (left ++ right) = joinRecords left ++ joinRecords right := by
  induction left with
  | nil => rfl
  | cons record records induction => simp [induction]

/--
Records joined with newlines and followed by an unterminated tail are split
back into exactly these records and this tail.
-/
theorem splitLines_joinRecords
    {records : List (List Char)}
    (noNewline : ∀ record ∈ records, '\n' ∉ record)
    {tail : List Char} (tailNo : '\n' ∉ tail) :
    splitLines (joinRecords records ++ tail) = (records, tail) := by
  induction records with
  | nil => simpa using splitLines_of_noNewline tailNo
  | cons record rest induction =>
    have recordNo := noNewline record (List.mem_cons_self ..)
    have restNo : ∀ other ∈ rest, '\n' ∉ other := fun other member =>
      noNewline other (List.mem_cons_of_mem _ member)
    rw [joinRecords_cons, List.append_assoc, List.cons_append,
      splitLines_record_append recordNo, induction restNo]

/-- Every text is its complete lines followed by its pending text. -/
theorem joinRecords_completeLines (text : List Char) :
    joinRecords (completeLines text) ++ pendingText text = text := by
  unfold completeLines pendingText
  induction text with
  | nil => rfl
  | cons head tail induction =>
    by_cases newline : head = '\n'
    · subst newline
      simpa using induction
    · simp only [splitLines, newline, if_false]
      cases lines : (splitLines tail).1 with
      | nil =>
        rw [lines] at induction
        simpa using induction
      | cons line rest =>
        rw [lines] at induction
        simpa using induction

theorem newline_notMem_of_mem_completeLines
    {text line : List Char} (member : line ∈ completeLines text) :
    '\n' ∉ line := by
  unfold completeLines at member
  induction text generalizing line with
  | nil => simp at member
  | cons head tail induction =>
    by_cases newline : head = '\n'
    · subst newline
      simp only [splitLines_newline, List.mem_cons] at member
      rcases member with rfl | member
      · simp
      · exact induction member
    · simp only [splitLines, newline, if_false] at member
      cases lines : (splitLines tail).1 with
      | nil => simp [lines] at member
      | cons first rest =>
        simp only [lines, List.mem_cons] at member
        rcases member with rfl | member
        · simp only [List.mem_cons, not_or]
          exact ⟨fun equal => newline equal.symm,
            induction (by simp [lines])⟩
        · exact induction (by simp [lines, member])

/-! ## Reading in pieces -/

/-- The complete lines of a text that is read in two pieces. -/
theorem completeLines_append (first second : List Char) :
    completeLines (first ++ second) =
      completeLines first ++ completeLines (pendingText first ++ second) := by
  simp only [completeLines, pendingText, splitLines_append first second]

/-- The pending text of a text that is read in two pieces. -/
theorem pendingText_append (first second : List Char) :
    pendingText (first ++ second) =
      pendingText (pendingText first ++ second) := by
  simp only [pendingText, splitLines_append first second]

theorem pendingText_of_noNewline
    {text : List Char} (noNewline : '\n' ∉ text) :
    pendingText text = text := by
  rw [pendingText, splitLines_of_noNewline noNewline]

theorem completeLines_of_noNewline
    {text : List Char} (noNewline : '\n' ∉ text) :
    completeLines text = [] := by
  rw [completeLines, splitLines_of_noNewline noNewline]

theorem pendingText_record_append
    {record : List Char} (noNewline : '\n' ∉ record)
    (rest : List Char) :
    pendingText (record ++ '\n' :: rest) = pendingText rest := by
  rw [pendingText, splitLines_record_append noNewline, pendingText]

/--
While a text of short records is read, the pending text stays short: it is
always part of one record, or of the unterminated tail.
-/
theorem length_pendingText_le
    {records : List (List Char)} {tail : List Char} {bound : Nat}
    (noNewline : ∀ record ∈ records, '\n' ∉ record)
    (tailNo : '\n' ∉ tail)
    (short : ∀ record ∈ records, record.length ≤ bound)
    (tailShort : tail.length ≤ bound)
    {front : List Char} (isPrefix : front <+: joinRecords records ++ tail) :
    (pendingText front).length ≤ bound := by
  induction records generalizing front with
  | nil =>
    have tailPrefix : front <+: tail := by simpa using isPrefix
    have frontNo : '\n' ∉ front := fun member =>
      tailNo (tailPrefix.mem member)
    rw [pendingText_of_noNewline frontNo]
    exact Nat.le_trans tailPrefix.length_le tailShort
  | cons record rest induction =>
    have recordNo := noNewline record (by simp)
    have recordShort := short record (by simp)
    have layout :
        joinRecords (record :: rest) ++ tail =
          record ++ '\n' :: (joinRecords rest ++ tail) := by
      simp
    rw [layout] at isPrefix
    rcases List.prefix_or_prefix_of_prefix isPrefix
        (List.prefix_append record _) with inside | ⟨after, beyond⟩
    · have frontNo : '\n' ∉ front := fun member =>
        recordNo (inside.mem member)
      rw [pendingText_of_noNewline frontNo]
      exact Nat.le_trans inside.length_le recordShort
    · subst beyond
      rw [List.prefix_append_right_inj, List.prefix_cons_iff] at isPrefix
      rcases isPrefix with rfl | ⟨more, rfl, morePrefix⟩
      · rw [List.append_nil, pendingText_of_noNewline recordNo]
        exact recordShort
      · rw [pendingText_record_append recordNo]
        exact induction
          (fun other member =>
            noNewline other (List.mem_cons_of_mem _ member))
          (fun other member =>
            short other (List.mem_cons_of_mem _ member))
          morePrefix

end Rbo.Foundation.Lines
