import Rbo.Snapshot.Archive

/-!
# Reading arbitrary bytes as an archive

`parseTarArchive` keeps an offset, and each round moves it behind the header
and behind the content that the size field announces.  The size field is parsed
with a sign.

A size of `-512`, or of `-1024` or less, leads back to the header or before it.
Every other size leads at least one block on, so that without such a size the
reading ends after as many rounds as there are blocks.
-/

namespace Rbo.Snapshot.ArchiveReading

open Rbo.Foundation
open Rbo.Snapshot.Archive

/-! ## The rounds of the loop -/

/-- The header of the round at an offset. -/
def headerAt (tarData : List UInt8) (offset : Int) : List UInt8 :=
  subarray tarData offset (offset + 512)

/-- A whole header that is not empty is at the offset. -/
def Continues (tarData : List UInt8) (offset : Int) : Prop :=
  offset + 512 ≤ tarData.length ∧
    (headerAt tarData offset).all (· == 0) = false

/-- The offset after the round at an offset. -/
def nextOffset (tarData : List UInt8) (offset : Int) : Int :=
  (parseEntry tarData (headerAt tarData offset) (offset + 512)).2

/-- The offsets at which the loop tests its condition. -/
inductive Reached (tarData : List UInt8) : Int → Prop where
  | start : Reached tarData 0
  | next {offset : Int} (reached : Reached tarData offset)
      (continues : Continues tarData offset) :
      Reached tarData (nextOffset tarData offset)

/-- A header of an entry whose content follows it. -/
def HoldsContent (header : List UInt8) : Prop :=
  header[156]?.getD 0x30 ≠ 0x35 ∧ header[156]?.getD 0x30 ≠ 0x32

/-- `size` of a header. -/
def sizeOf (header : List UInt8) : Int :=
  readNumber header 124 136 0

/-- The size leads to a later header. -/
def LeadsOn (size : Int) : Prop :=
  size ≠ -512 ∧ -1024 < size

/-- No header that is reached has a size that leads back. -/
def SizesLeadOn (tarData : List UInt8) : Prop :=
  ∀ offset, Reached tarData offset → Continues tarData offset →
    HoldsContent (headerAt tarData offset) →
    LeadsOn (sizeOf (headerAt tarData offset))

/-- The reading ends, with at most one entry for each block and with contents
that are slices of the input; and every round moves the offset on. -/
structure ReadsThrough (tarData : List UInt8) : Prop where
  ends : ∃ entries, Parses tarData entries ∧
    entries.length ≤ tarData.length / 512 ∧
    ∀ entry ∈ entries, entry.content <:+: tarData
  advances : ∀ offset, Reached tarData offset → Continues tarData offset →
    offset < nextOffset tarData offset

/-! ## One round -/

variable {tarData : List UInt8}

theorem nextOffset_of_holdsContent {offset : Int}
    (holds : HoldsContent (headerAt tarData offset)) :
    nextOffset tarData offset =
      offset + 512 + sizeOf (headerAt tarData offset) +
        if (sizeOf (headerAt tarData offset)).tmod 512 = 0 then 0
        else 512 - (sizeOf (headerAt tarData offset)).tmod 512 := by
  unfold nextOffset parseEntry
  dsimp only
  rw [if_neg holds.1, if_neg holds.2]
  rfl

theorem nextOffset_of_not_holdsContent {offset : Int}
    (bare : ¬ HoldsContent (headerAt tarData offset)) :
    nextOffset tarData offset = offset + 512 := by
  unfold nextOffset parseEntry
  dsimp only
  by_cases directory : (headerAt tarData offset)[156]?.getD 0x30 = 0x35
  · rw [if_pos directory]
  · have symlink : (headerAt tarData offset)[156]?.getD 0x30 = 0x32 := by
      by_contra other
      exact bare ⟨directory, other⟩
    rw [if_neg directory, if_pos symlink]

theorem tmod_block (size : Int) :
    size.tmod 512 =
      if 0 ≤ size ∨ size % 512 = 0 then size % 512 else size % 512 - 512 := by
  have divides : (512 : Int) ∣ size ↔ size % 512 = 0 :=
    Int.dvd_iff_emod_eq_zero
  rw [Int.tmod_eq_emod]
  simp only [divides]
  split
  · exact Int.sub_zero _
  · rfl

theorem padded_of_leadsOn {size : Int} (leadsOn : LeadsOn size) :
    0 ≤ size + if size.tmod 512 = 0 then 0 else 512 - size.tmod 512 := by
  unfold LeadsOn at leadsOn
  rw [tmod_block]
  split
  · split <;> omega
  · split <;> omega

theorem padded_of_leadsBack {size : Int} (leadsBack : ¬ LeadsOn size) :
    (size + if size.tmod 512 = 0 then 0 else 512 - size.tmod 512) ≤ -512 := by
  unfold LeadsOn at leadsBack
  rw [tmod_block]
  split
  · split <;> omega
  · split <;> omega

/-- A round moves the offset at least one block on, unless its size leads
back. -/
theorem le_nextOffset {offset : Int}
    (leadsOn : HoldsContent (headerAt tarData offset) →
      LeadsOn (sizeOf (headerAt tarData offset))) :
    offset + 512 ≤ nextOffset tarData offset := by
  by_cases holds : HoldsContent (headerAt tarData offset)
  · have forward := padded_of_leadsOn (leadsOn holds)
    rw [nextOffset_of_holdsContent holds]
    omega
  · exact Int.le_of_eq (nextOffset_of_not_holdsContent holds).symm

theorem nextOffset_le {offset : Int}
    (holds : HoldsContent (headerAt tarData offset))
    (leadsBack : ¬ LeadsOn (sizeOf (headerAt tarData offset))) :
    nextOffset tarData offset ≤ offset := by
  have back := padded_of_leadsBack leadsBack
  rw [nextOffset_of_holdsContent holds]
  omega

/-- The offset advances in a round exactly when its size leads on. -/
theorem advances_iff {offset : Int} :
    offset < nextOffset tarData offset ↔
      (HoldsContent (headerAt tarData offset) →
        LeadsOn (sizeOf (headerAt tarData offset))) := by
  constructor
  · intro advances holds
    by_contra leadsBack
    exact absurd advances (Int.not_lt.mpr (nextOffset_le holds leadsBack))
  · intro leadsOn
    have forward := le_nextOffset leadsOn
    omega

/-! ## Whole runs -/

theorem subarray_isInfix (bytes : List UInt8) (start stop : Int) :
    subarray bytes start stop <:+: bytes :=
  (List.drop_suffix _ _).isInfix.trans (List.take_prefix _ _).isInfix

theorem content_parseEntry (header : List UInt8) (offset : Int) :
    (parseEntry tarData header offset).1.content <:+: tarData := by
  unfold parseEntry
  dsimp only
  split
  · exact List.nil_infix
  · split
    · exact List.nil_infix
    · exact subarray_isInfix _ _ _

theorem parseFrom_succ (rounds : Nat) (offset : Int) :
    parseFrom tarData (rounds + 1) offset =
      if offset + 512 ≤ tarData.length then
        if (headerAt tarData offset).all (· == 0) then some []
        else
          (parseFrom tarData rounds (nextOffset tarData offset)).map
            ((parseEntry tarData (headerAt tarData offset)
              (offset + 512)).1 :: ·)
      else some [] :=
  rfl

/-- While the sizes lead on, there is at most one round for each block that
is left, and one that ends the loop. -/
theorem parseFrom_ends (leadOn : SizesLeadOn tarData) {rounds : Nat}
    {offset : Int} (reached : Reached tarData offset)
    (enough : (tarData.length : Int) < offset + 512 * (rounds + 1)) :
    ∃ entries, parseFrom tarData (rounds + 1) offset = some entries ∧
      (entries = [] ∨ offset + 512 * entries.length ≤ tarData.length) ∧
      ∀ entry ∈ entries, entry.content <:+: tarData := by
  induction rounds generalizing offset with
  | zero =>
    have ended : ¬ offset + 512 ≤ tarData.length := by omega
    rw [parseFrom_succ, if_neg ended]
    exact ⟨[], rfl, .inl rfl, nofun⟩
  | succ rounds inductionHypothesis =>
    rw [parseFrom_succ]
    by_cases whole : offset + 512 ≤ tarData.length
    · rw [if_pos whole]
      by_cases empty : (headerAt tarData offset).all (· == 0) = true
      · rw [if_pos empty]
        exact ⟨[], rfl, .inl rfl, nofun⟩
      · have continues : Continues tarData offset :=
          ⟨whole, Bool.eq_false_iff.mpr empty⟩
        have forward := le_nextOffset (leadOn offset reached continues)
        rcases inductionHypothesis (reached.next continues)
          (by push_cast at enough; omega) with
          ⟨entries, ends, bounded, slices⟩
        rw [if_neg empty, ends]
        refine ⟨_, rfl, .inr ?_, ?_⟩
        · rw [List.length_cons]
          rcases bounded with rfl | bounded
          · rw [List.length_nil]
            omega
          · push_cast
            omega
        · exact List.forall_mem_cons.mpr ⟨content_parseEntry _ _, slices⟩
    · rw [if_neg whole]
      exact ⟨[], rfl, .inl rfl, nofun⟩

/-- Reading ends within one round for each block, with one entry for each at
most, each a slice of the input, and always advances, exactly when no header
that is reached has a size that leads back. -/
theorem parseTarArchive_readsThrough_iff (tarData : List UInt8) :
    ReadsThrough tarData ↔ SizesLeadOn tarData := by
  constructor
  · intro reads offset reached continues
    exact advances_iff.mp (reads.advances offset reached continues)
  · intro leadOn
    refine ⟨?_, fun offset reached continues =>
      advances_iff.mpr (leadOn offset reached continues)⟩
    have rounds := @parseFrom_ends tarData leadOn (tarData.length / 512) 0
      .start (by omega)
    rcases rounds with ⟨entries, ends, bounded, slices⟩
    refine ⟨entries, ⟨_, ends⟩, ?_, slices⟩
    rcases bounded with rfl | bounded
    · exact Nat.zero_le _
    · omega

/-! ## A size that leads back -/

/-- One block: a file `a` whose size field is `-0000001000`, which is `-512`. -/
def backward : List UInt8 :=
  97 :: List.replicate 123 0 ++ (45 :: List.replicate 6 48) ++
    [49, 48, 48, 48, 0] ++ List.replicate 20 0 ++ 48 :: List.replicate 355 0

theorem parseFrom_backward (rounds : Nat) :
    parseFrom backward rounds 0 = none := by
  have next : nextOffset backward 0 = 0 := by decide +kernel
  have whole : (0 : Int) + 512 ≤ backward.length := by decide +kernel
  have some : ¬ (headerAt backward 0).all (· == 0) = true := by
    decide +kernel
  induction rounds with
  | zero => rfl
  | succ rounds inductionHypothesis =>
    rw [parseFrom_succ, if_pos whole, if_neg some, next,
      inductionHypothesis]
    rfl

/-- The reading of one block never ends. -/
theorem parseTarArchive_never_ends :
    ∃ tarData : List UInt8, ¬ ReadsThrough tarData ∧
      ¬ ∃ entries, Parses tarData entries := by
  have endless : ¬ ∃ entries, Parses backward entries := by
    rintro ⟨entries, rounds, ends⟩
    cases (parseFrom_backward rounds).symm.trans ends
  refine ⟨backward, ?_, endless⟩
  intro reads
  obtain ⟨entries, parses, -⟩ := reads.ends
  exact endless ⟨entries, parses⟩

end Rbo.Snapshot.ArchiveReading
