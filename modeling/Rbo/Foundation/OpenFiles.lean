import Mathlib.Data.List.TakeDrop
import Mathlib.Logic.Function.Basic

/-!
# Open files

A path names a file, and a file keeps its content when it is renamed.  A
handle is open on the file and not on the path: what is written to it lands in
the file, wherever the file has got to, and a path that is opened for writing
while it names a file empties that file.

A file has one path at most, so that what is done to one path leaves the files
of the others as they are.
-/

namespace Rbo.Foundation

universe pathLevel byteLevel

/-- The files behind the paths, with the number of files so far. -/
structure Disk (Path : Type pathLevel) (Byte : Type byteLevel) where
  files : Path → Option Nat
  content : Nat → List Byte
  created : Nat

/-- The bytes land at the offset, behind a gap that reads as filler. -/
def overwrite {Byte : Type byteLevel} [Inhabited Byte] (content : List Byte)
    (offset : Nat) (bytes : List Byte) : List Byte :=
  content.take offset ++
    (List.replicate (offset - content.length) default ++
      (bytes ++ content.drop (offset + bytes.length)))

theorem overwrite_end {Byte : Type byteLevel} [Inhabited Byte]
    (content bytes : List Byte) :
    overwrite content content.length bytes = content ++ bytes := by
  unfold overwrite
  rw [List.take_length, Nat.sub_self, List.replicate_zero, List.nil_append,
    List.drop_eq_nil_of_le (Nat.le_add_right _ _), List.append_nil]

namespace Disk

variable {Path : Type pathLevel} {Byte : Type byteLevel}

/-- No file stands at a path. -/
def empty : Disk Path Byte where
  files _ := none
  content _ := []
  created := 0

/-- The file that a handle gets that is opened for writing. -/
def opened (disk : Disk Path Byte) (path : Path) : Nat :=
  (disk.files path).getD disk.created

/-- A path is opened for writing, which empties its file or creates one. -/
def openForWriting [DecidableEq Path] (disk : Disk Path Byte)
    (path : Path) : Disk Path Byte where
  files := Function.update disk.files path (some (disk.opened path))
  content := Function.update disk.content (disk.opened path) []
  created := disk.created + 1

/-- A handle writes at its offset. -/
def writeAt [Inhabited Byte] (disk : Disk Path Byte) (file offset : Nat)
    (bytes : List Byte) : Disk Path Byte :=
  { disk with
      content := Function.update disk.content file
        (overwrite (disk.content file) offset bytes) }

/-- The file gets another path, and the file that was there is lost. -/
def rename [DecidableEq Path] (disk : Disk Path Byte)
    (source target : Path) : Disk Path Byte :=
  { disk with
      files := Function.update (Function.update disk.files source none) target
        (disk.files source) }

def unlink [DecidableEq Path] (disk : Disk Path Byte) (path : Path) :
    Disk Path Byte :=
  { disk with files := Function.update disk.files path none }

/-- A file has one path at most, and new files are new. -/
structure Sound (disk : Disk Path Byte) : Prop where
  injective : ∀ first second file, disk.files first = some file →
    disk.files second = some file → first = second
  fresh : ∀ path file, disk.files path = some file → file < disk.created

/-- The same file with the same content stands at a path. -/
def SameAt (before after : Disk Path Byte) (path : Path) : Prop :=
  after.files path = before.files path ∧
    ∀ file, before.files path = some file →
      after.content file = before.content file

variable {disk : Disk Path Byte} {path other source target : Path}

theorem sound_empty : Sound (empty : Disk Path Byte) where
  injective _ _ _ found := nomatch found
  fresh _ _ found := nomatch found

theorem SameAt.refl : SameAt disk disk path :=
  ⟨rfl, fun _ _ => rfl⟩

/-- No other path leads to the file that is opened. -/
theorem Sound.opened_ne (sound : Sound disk) (different : other ≠ path)
    {file : Nat} (found : disk.files other = some file) :
    file ≠ disk.opened path := by
  unfold opened
  cases there : disk.files path with
  | none =>
    rw [Option.getD_none]
    exact Nat.ne_of_lt (sound.fresh other file found)
  | some standing =>
    rw [Option.getD_some]
    rintro rfl
    exact different (sound.injective other path file found there)

theorem Sound.opened_le (sound : Sound disk) :
    disk.opened path ≤ disk.created := by
  unfold opened
  cases there : disk.files path with
  | none => exact Nat.le_refl _
  | some standing => exact Nat.le_of_lt (sound.fresh path standing there)

section Writing

variable [Inhabited Byte] {file offset : Nat} {bytes : List Byte}

theorem Sound.writeAt (sound : Sound disk) :
    Sound (disk.writeAt file offset bytes) :=
  ⟨sound.injective, sound.fresh⟩

theorem content_writeAt :
    (disk.writeAt file offset bytes).content file =
      overwrite (disk.content file) offset bytes :=
  Function.update_self ..

theorem Sound.sameAt_writeAt (sound : Sound disk)
    (there : disk.files path = some file) (different : other ≠ path) :
    SameAt disk (disk.writeAt file offset bytes) other := by
  refine ⟨rfl, fun standing found => Function.update_of_ne ?_ ..⟩
  rintro rfl
  exact different (sound.injective other path standing found there)

end Writing

section Paths

variable [DecidableEq Path]

theorem Sound.openForWriting (sound : Sound disk) :
    Sound (disk.openForWriting path) where
  injective first second file firstFound secondFound := by
    change Function.update disk.files path _ first = _ at firstFound
    change Function.update disk.files path _ second = _ at secondFound
    rw [Function.update_apply] at firstFound secondFound
    split at firstFound
    · rename_i firstHere
      cases firstFound
      split at secondFound
      · rename_i secondHere
        rw [firstHere, secondHere]
      · rename_i different
        exact absurd rfl (sound.opened_ne different secondFound)
    · rename_i different
      split at secondFound
      · cases secondFound
        exact absurd rfl (sound.opened_ne different firstFound)
      · exact sound.injective first second file firstFound secondFound
  fresh other file found := by
    change Function.update disk.files path _ other = _ at found
    rw [Function.update_apply] at found
    split at found
    · cases found
      exact Nat.lt_succ_of_le sound.opened_le
    · exact Nat.lt_succ_of_lt (sound.fresh other file found)

theorem openForWriting_here :
    (disk.openForWriting path).files path = some (disk.opened path) ∧
      (disk.openForWriting path).content (disk.opened path) = [] :=
  ⟨Function.update_self .., Function.update_self ..⟩

theorem Sound.sameAt_openForWriting (sound : Sound disk)
    (different : other ≠ path) :
    SameAt disk (disk.openForWriting path) other :=
  ⟨Function.update_of_ne different .., fun _ found =>
    Function.update_of_ne (sound.opened_ne different found) ..⟩

theorem files_rename (disk : Disk Path Byte) (source target other : Path) :
    (disk.rename source target).files other =
      if other = target then disk.files source
      else if other = source then none else disk.files other := by
  change Function.update (Function.update disk.files source none) target _
    other = _
  rw [Function.update_apply, Function.update_apply]

theorem Sound.rename (sound : Sound disk) :
    Sound (disk.rename source target) where
  injective first second file firstFound secondFound := by
    rw [files_rename] at firstFound secondFound
    -- Behind the rename only the target leads to the file of the source.
    have moved : ∀ other, other ≠ source → disk.files other = some file →
        disk.files source ≠ some file :=
      fun other different found there =>
        different (sound.injective other source file found there)
    split at firstFound
    · rename_i firstHere
      split at secondFound
      · rename_i secondHere
        rw [firstHere, secondHere]
      · split at secondFound
        · cases secondFound
        · rename_i different
          exact absurd firstFound (moved second different secondFound)
    · split at firstFound
      · cases firstFound
      · rename_i different
        split at secondFound
        · exact absurd secondFound (moved first different firstFound)
        · split at secondFound
          · cases secondFound
          · exact sound.injective first second file firstFound secondFound
  fresh other file found := by
    rw [files_rename] at found
    split at found
    · exact sound.fresh source file found
    · split at found
      · cases found
      · exact sound.fresh other file found

theorem sameAt_rename (notSource : other ≠ source) (notTarget : other ≠ target) :
    SameAt disk (disk.rename source target) other :=
  ⟨by rw [files_rename, if_neg notTarget, if_neg notSource], fun _ _ => rfl⟩

theorem files_rename_target :
    (disk.rename source target).files target = disk.files source := by
  rw [files_rename, if_pos rfl]

theorem Sound.unlink (sound : Sound disk) : Sound (disk.unlink path) where
  injective first second file firstFound secondFound := by
    change Function.update disk.files path none first = _ at firstFound
    change Function.update disk.files path none second = _ at secondFound
    rw [Function.update_apply] at firstFound secondFound
    split at firstFound
    · cases firstFound
    · split at secondFound
      · cases secondFound
      · exact sound.injective first second file firstFound secondFound
  fresh other file found := by
    change Function.update disk.files path none other = _ at found
    rw [Function.update_apply] at found
    split at found
    · cases found
    · exact sound.fresh other file found

theorem sameAt_unlink (different : other ≠ path) :
    SameAt disk (disk.unlink path) other :=
  ⟨Function.update_of_ne different .., fun _ _ => rfl⟩

end Paths

end Disk

end Rbo.Foundation
