import FsFat.MountFileEntry
import FsFat.MountPathRoundTrip

/-!
The file entries of the mount tool: `mount_handle.c`, the function that gets one
by its path, and `mount_file_entry.c`. A file entry of the tool has the name at
the end of the path that led to it, and a path that ends with a separator does
not lead to one.
-/

namespace FsFat

open Bytes MountPathString

/-- What is mounted: the volume, and the time when it was. -/
structure MountHandle where
  una : MountLibUna
  fs : FileSystem
  image : List UInt8
  rootDirectory : Directory
  mountedTimestamp : UInt64

/-- `mount_file_entry_t`, without the file system. The name is without its end of string
character. -/
structure MountFileEntry where
  name : List UInt8
  fileEntry : FileEntry
  deriving DecidableEq

namespace MountFileEntry

/-- `mount_file_entry_initialize`. -/
def initialise (name : List UInt8) (nameLength : Nat) (fileEntry : FileEntry) :
    Except Error MountFileEntry :=
  if nameLength > ssizeMax - 1 then .error .valueExceedsMaximum
  else .ok ⟨name.take nameLength, fileEntry⟩

/-- `mount_file_entry_get_inode_change_time`, with `mount_file_system_get_mounted_timestamp`. -/
def getInodeChangeTime (mountHandle : MountHandle) : UInt64 := mountHandle.mountedTimestamp

/-- `mount_file_entry_get_file_mode`, where the file entry of the library is set. -/
def fileMode : Nat := 0x8000 ||| 0o444

/-- `mount_file_entry_get_number_of_sub_file_entries`. -/
def getNumberOfSubFileEntries (mountHandle : MountHandle) (fileEntry : MountFileEntry) :
    Except Error Nat :=
  fileEntry.fileEntry.getNumberOfSubFileEntries mountHandle.fs mountHandle.image

/-- `mount_file_entry_get_sub_file_entry_by_index`. The name that is copied has zero bytes behind
its end. -/
def getSubFileEntryByIndex (mountHandle : MountHandle) (fileEntry : MountFileEntry)
    (subFileEntryIndex : Nat) : Except Error MountFileEntry := do
  let subFileEntry ← fileEntry.fileEntry.getSubFileEntryByIndex mountHandle.fs mountHandle.image
    subFileEntryIndex
  let filename ← MountFileSystem.getFilenameFromFileEntry mountHandle.una subFileEntry
  pure ⟨filename, subFileEntry⟩

end MountFileEntry

namespace MountHandle

/-! ### The name of a path -/

/-- The length of a path without a separator at its end. -/
def pathLength (path : List UInt8) : Nat :=
  if 2 ≤ path.length ∧ byteAt path (path.length - 1) = libcpathSeparator then path.length - 1
  else path.length

/-- The loop from the end of the path to its last separator, or to its first character. -/
def lastSeparator (path : List UInt8) : Nat → Nat
  | 0 => 0
  | pathIndex + 1 =>
    if byteAt path (pathIndex + 1) = libcpathSeparator then pathIndex + 1
    else lastSeparator path pathIndex

/-- `mount_handle_get_file_entry_by_path`. The loop starts at the character behind the path, that
is a separator again where one was left out, and the length of the name then is below zero. -/
def getFileEntryByPath (mountHandle : MountHandle) (path : List UInt8) :
    Except Error (Option MountFileEntry) :=
  if path.length = 0 then .error .valueOutOfBounds
  else
    let length := pathLength path
    let index := lastSeparator path length
    let filenameLength := toUint64 ((length : Int) - (index + 1))
    match MountFileSystem.getFileEntryByPath mountHandle.una mountHandle.fs mountHandle.image
        mountHandle.rootDirectory (path.take length) with
    | .error e => .error e
    | .ok (false, _) => .ok none
    | .ok (true, fileEntry) =>
      (MountFileEntry.initialise (path.drop (index + 1)) filenameLength fileEntry).map some

def separatorByte : UInt8 := UInt8.ofNat libcpathSeparator

section Paths

variable {path : List UInt8}

theorem byteAt_eq_separator_iff {index : Nat} :
    byteAt path index = libcpathSeparator ↔ path[index]? = some separatorByte := by
  rw [byteAt, List.getD_eq_getElem?_getD]
  cases path[index]? with
  | none => simp [libcpathSeparator]
  | some byte =>
    rw [Option.getD_some, Option.some.injEq]
    constructor
    · intro h
      apply UInt8.toNat_inj.mp
      rw [h]
      rfl
    · intro h
      rw [h]
      rfl

theorem lastSeparator_le (path : List UInt8) (count : Nat) : lastSeparator path count ≤ count := by
  induction count with
  | zero => exact le_rfl
  | succ count ih =>
    unfold lastSeparator
    split
    · exact le_rfl
    · exact Nat.le_succ_of_le ih

/-- The loop ends at a separator, or at the first character. -/
theorem lastSeparator_eq_zero_or (path : List UInt8) (count : Nat) :
    lastSeparator path count = 0 ∨
      path[lastSeparator path count]? = some separatorByte := by
  induction count with
  | zero => exact Or.inl rfl
  | succ count ih =>
    unfold lastSeparator
    split
    · next h => exact Or.inr (byteAt_eq_separator_iff.mp h)
    · exact ih

/-- No separator is passed. -/
theorem not_separator_of_lastSeparator_lt {count index : Nat}
    (hlt : lastSeparator path count < index)
    (hle : index ≤ count) : path[index]? ≠ some separatorByte := by
  induction count with
  | zero => omega
  | succ count ih =>
    unfold lastSeparator at hlt
    split at hlt
    · omega
    · next h =>
      rcases Nat.lt_or_eq_of_le hle with hlt' | rfl
      · exact ih hlt (by omega)
      · exact fun hsome => h (byteAt_eq_separator_iff.mpr hsome)

/-- A separator behind which there is none is the one that is found. -/
theorem lastSeparator_eq {count index : Nat} (hle : index ≤ count)
    (hindex : index = 0 ∨ path[index]? = some separatorByte)
    (hbehind : ∀ i, index < i → i ≤ count → path[i]? ≠ some separatorByte) :
    lastSeparator path count = index := by
  rcases Nat.lt_trichotomy (lastSeparator path count) index with hlt | heq | hgt
  · rcases hindex with rfl | hsome
    · omega
    · exact absurd hsome (not_separator_of_lastSeparator_lt hlt hle)
  · exact heq
  · rcases lastSeparator_eq_zero_or path count with hzero | hsome
    · omega
    · exact absurd hsome (hbehind _ hgt (lastSeparator_le path count))

/-- A path that is looked up starts with a separator. -/
theorem head_of_getFileEntryByPath {una : MountLibUna} {fs : FileSystem} {image : List UInt8}
    {root : Directory} {found : Bool × FileEntry}
    (h : MountFileSystem.getFileEntryByPath una fs image root path = .ok found) :
    path.length ≤ ssizeMax - 1 ∧ path[0]? = some separatorByte := by
  obtain ⟨fileEntryPath, hcopy, _⟩ := bind_eq_ok_iff.mp h
  unfold copyToFileEntryPath at hcopy
  dsimp only at hcopy
  split at hcopy
  · cases hcopy
  next hlength =>
  split at hcopy
  · cases hcopy
  next hseparator =>
  exact ⟨by omega, byteAt_eq_separator_iff.mp (not_not.mp hseparator)⟩

/-- The name at the end of a path that leads to a file entry. -/
inductive EndsWithName : List UInt8 → List UInt8 → Prop where
  | root : EndsWithName [separatorByte] []
  | name {directory name : List UInt8} : name ≠ [] → separatorByte ∉ name →
      EndsWithName (directory ++ separatorByte :: name) name

theorem pathLength_of_ne (h : byteAt path (path.length - 1) ≠ libcpathSeparator) :
    pathLength path = path.length :=
  if_neg fun hboth => h hboth.2

/-- The name is behind the last separator. -/
theorem lastSeparator_of_endsWithName {name : List UInt8} (h : EndsWithName path name) :
    pathLength path = path.length ∧
      lastSeparator path path.length + 1 + name.length = path.length ∧
      path.drop (lastSeparator path path.length + 1) = name := by
  cases h with
  | root => exact ⟨by decide, by decide, by decide⟩
  | @name directory name hne hnot =>
    have hlength : (directory ++ separatorByte :: name).length =
        directory.length + 1 + name.length := by
      rw [List.length_append, List.length_cons]
      omega
    have hbehind : ∀ i, directory.length < i →
        (directory ++ separatorByte :: name)[i]? = name[i - (directory.length + 1)]? := by
      intro i hi
      rw [List.getElem?_append_right hi.le, List.getElem?_cons]
      have hsub : i - directory.length ≠ 0 := by omega
      rw [if_neg hsub, Nat.sub_sub]
    have hnone : ∀ i, directory.length < i →
        (directory ++ separatorByte :: name)[i]? ≠ some separatorByte := by
      intro i hi hsome
      rw [hbehind i hi] at hsome
      exact hnot (List.mem_of_getElem? hsome)
    have hindex : lastSeparator (directory ++ separatorByte :: name)
        (directory ++ separatorByte :: name).length = directory.length := by
      apply lastSeparator_eq
      · omega
      · right
        rw [List.getElem?_append_right le_rfl, Nat.sub_self]
        rfl
      · intro i hi _
        exact hnone i hi
    have hpositive : 0 < name.length := List.length_pos_of_ne_nil hne
    refine ⟨?_, ?_, ?_⟩
    · apply pathLength_of_ne
      intro hlast
      exact hnone _ (by omega) (byteAt_eq_separator_iff.mp hlast)
    · rw [hindex, hlength]
    · rw [hindex, List.drop_append, List.drop_of_length_le (Nat.le_succ _)]
      simp

theorem toUint64_filenameLength {length index count : Nat} (h : index + 1 + count = length)
    (hle : length ≤ ssizeMax - 1) : toUint64 ((length : Int) - (index + 1)) = count := by
  have hssize : ssizeMax = 9223372036854775807 := by decide
  have hcount : (length : Int) - (index + 1) = count := by omega
  rw [toUint64, hcount]
  omega

theorem initialise_of_le {name : List UInt8} (h : name.length ≤ ssizeMax - 1)
    (fileEntry : FileEntry) :
    MountFileEntry.initialise name name.length fileEntry = .ok ⟨name, fileEntry⟩ := by
  rw [MountFileEntry.initialise, if_neg (by omega), List.take_length]

/-- A path with another end has a separator there, and the loop does not leave it. -/
theorem lastSeparator_of_not_endsWithName (h0 : path[0]? = some separatorByte)
    (h : ∀ name, ¬ EndsWithName path name) :
    lastSeparator path (pathLength path) = pathLength path := by
  obtain ⟨hpositive, _⟩ := List.getElem?_eq_some_iff.mp h0
  rcases Nat.lt_or_ge path.length 2 with hshort | hlong
  · -- the path is that of the root directory
    obtain ⟨byte, rfl⟩ := List.length_eq_one_iff.mp (by omega : path.length = 1)
    have hbyte : byte = separatorByte := Option.some.inj h0
    rw [hbyte] at h
    exact absurd .root (h [])
  · by_cases hlast : byteAt path (path.length - 1) = libcpathSeparator
    · have hlength : pathLength path = path.length - 1 := if_pos ⟨hlong, hlast⟩
      rw [hlength]
      apply lastSeparator_eq le_rfl (Or.inr (byteAt_eq_separator_iff.mp hlast))
      omega
    · -- behind the last separator is a name
      have hsome : path[lastSeparator path path.length]? = some separatorByte := by
        rcases lastSeparator_eq_zero_or path path.length with hzero | hsome
        · rw [hzero]
          exact h0
        · exact hsome
      obtain ⟨hlt, hget⟩ := List.getElem?_eq_some_iff.mp hsome
      have hsplit : path.take (lastSeparator path path.length) ++
          separatorByte :: path.drop (lastSeparator path path.length + 1) = path := by
        rw [← hget, ← List.drop_eq_getElem_cons hlt, List.take_append_drop]
      have hname : EndsWithName (path.take (lastSeparator path path.length) ++
          separatorByte :: path.drop (lastSeparator path path.length + 1))
          (path.drop (lastSeparator path path.length + 1)) := by
        apply EndsWithName.name
        · intro hnil
          have hend : path.length ≤ lastSeparator path path.length + 1 :=
            List.drop_eq_nil_iff.mp hnil
          apply hlast
          rw [byteAt_eq_separator_iff, ← hsome]
          congr 1
          omega
        · intro hmem
          obtain ⟨i, hi⟩ := List.mem_iff_getElem?.mp hmem
          rw [List.getElem?_drop] at hi
          obtain ⟨hbound, _⟩ := List.getElem?_eq_some_iff.mp hi
          have hbehind : lastSeparator path path.length <
              lastSeparator path path.length + 1 + i := by omega
          exact not_separator_of_lastSeparator_lt hbehind hbound.le hi
      rw [hsplit] at hname
      exact absurd hname (h _)

end Paths

/-- A path leads to a file entry of the tool if it leads to one of the library and does not end
with a separator, or is that of the root directory. The name is what is behind the last
separator. -/
theorem getFileEntryByPath_eq_ok_some_iff {mountHandle : MountHandle} {path : List UInt8}
    {fileEntry : MountFileEntry} :
    mountHandle.getFileEntryByPath path = .ok (some fileEntry) ↔
      EndsWithName path fileEntry.name ∧
        MountFileSystem.getFileEntryByPath mountHandle.una mountHandle.fs mountHandle.image
          mountHandle.rootDirectory path = .ok (true, fileEntry.fileEntry) := by
  unfold getFileEntryByPath
  dsimp only
  constructor
  · intro h
    split at h
    · cases h
    split at h
    · cases h
    · cases h
    next found hfound =>
    obtain ⟨_, h0⟩ := head_of_getFileEntryByPath hfound
    have h0 : path[0]? = some separatorByte := by
      rw [List.getElem?_take] at h0
      split at h0
      · exact h0
      · cases h0
    by_cases hends : ∃ name, EndsWithName path name
    · obtain ⟨name, hends⟩ := hends
      obtain ⟨hlength, hsum, hdrop⟩ := lastSeparator_of_endsWithName hends
      rw [hlength] at h hfound
      rw [List.take_length] at hfound
      obtain ⟨hle, _⟩ := head_of_getFileEntryByPath hfound
      rw [toUint64_filenameLength hsum hle, hdrop, initialise_of_le (by omega)] at h
      injection h with h
      injection h with h
      subst h
      exact ⟨hends, hfound⟩
    · rw [lastSeparator_of_not_endsWithName h0 (not_exists.mp hends)] at h
      have hwraps : toUint64 ((pathLength path : Int) - (pathLength path + 1)) =
          2 ^ 64 - 1 := by
        rw [toUint64, sub_add_cancel_left]
        rfl
      rw [hwraps] at h
      cases h
  · rintro ⟨hends, hfound⟩
    obtain ⟨hlength, hsum, hdrop⟩ := lastSeparator_of_endsWithName hends
    obtain ⟨hle, _⟩ := head_of_getFileEntryByPath hfound
    rw [if_neg (by omega), hlength, List.take_length, hfound, toUint64_filenameLength hsum hle,
      hdrop]
    dsimp only
    rw [initialise_of_le (by omega)]
    rfl

end MountHandle

end FsFat
