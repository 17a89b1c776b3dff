import Mathlib.Tactic

/-!
The internal definitions of the library: file system formats, file attribute
flags, directory entry types and the limits that several modules share.

A function of the source returns 1, 0 or -1 and fills its result through a
pointer. Here it returns `Except Error α` when it has no middle value, and
`Except Error (Option α)` when 0 means that there is no result. The tests for
`NULL` arguments and for exhausted memory have no counterpart.
-/

namespace FsFat

/-- The file system formats, `LIBFSFAT_FILE_SYSTEM_FORMAT_*`. -/
inductive FileSystemFormat where
  | unknown
  | exfat
  | fat12
  | fat16
  | fat32
  deriving DecidableEq, Repr

/-- The directory entry types, `LIBFSFAT_DIRECTORY_ENTRY_TYPE_*`. -/
inductive DirectoryEntryType where
  | terminator
  | unallocated
  | shortName
  | vfatLongName
  | exfatAllocationBitmap
  | exfatDataStream
  | exfatFileEntry
  | exfatFileEntryName
  | exfatUpcaseTable
  | exfatUnknown
  | exfatVolumeLabel
  deriving DecidableEq, Repr

/-- The first error that a failing call sets, named after the check. -/
inductive Error where
  | readFailed
  | arrayIndexOutOfBounds
  | arrayMissing
  | offsetOutOfBounds
  | sizeOutOfBounds
  | leafValueSizeOutOfBounds
  | subNodeIndexOutOfBounds
  | notBranchNode
  | notLeafNode
  | clusterNumberAlreadyExists
  | unsupportedFileSystemFormat
  | totalNumberOfClustersOutOfBounds
  | missingBytesPerSector
  | missingAllocationTable
  | entryIndexOutOfBounds
  | directoryEntryAlreadySet
  | selfEntryAlreadySet
  | parentEntryAlreadySet
  | volumeLabelEntryAlreadySet
  | dataStreamEntryAlreadySet
  | missingCurrentFileEntry
  | vfatSequenceNumberOutOfBounds
  | nameAlreadySet
  | numberOfNameEntriesOutOfBounds
  | volumeLabelNameSizeOutOfBounds
  | unsupportedDirectoryEntryType
  | invalidSectorSignature
  | bytesPerSectorOutOfBounds
  | sectorsPerClusterBlockOutOfBounds
  | fileIOHandleAlreadySet
  | fileSystemAlreadySet
  | unsupportedAccessFlags
  | openFailed
  | getSizeFailed
  | createFileSystemFailed
  | missingDirectory
  | missingName
  | copyFailed
  | valueExceedsMaximum
  | valueOutOfBounds
  | unsupportedValue
  | getFailed
  | appendFailed
  /-- A loop was cut short. No function returns it: see the termination theorems. -/
  | iterationLimit
  deriving DecidableEq, Repr

/-- `libfsfat_io_handle_t`, without the abort flag. -/
structure IoHandle where
  volumeSize : Nat
  fileSystemFormat : FileSystemFormat
  bytesPerSector : Nat
  clusterBlockSize : Nat
  totalNumberOfClusters : Nat
  rootDirectoryOffset : Int
  firstClusterOffset : Int
  deriving DecidableEq, Repr

def fileAttributeFlagVolumeLabel : Nat := 0x08

def fileAttributeFlagDirectory : Nat := 0x10

/-- `LIBFSFAT_ACCESS_FLAG_READ`. -/
def accessFlagRead : BitVec 32 := 0x01

/-- `LIBFSFAT_ACCESS_FLAG_WRITE`. -/
def accessFlagWrite : BitVec 32 := 0x02

/-- `LIBFSFAT_SEPARATOR`, a backslash. -/
def separator : Nat := 0x5c

/-- `LIBFSFAT_MAXIMUM_NUMBER_OF_CLUSTERS_IN_FAT`. -/
def maximumNumberOfClustersInFat : Nat := 256 * 1024 * 1024 / 4

/-- `LIBFSFAT_BLOCK_TREE_NUMBER_OF_SUB_NODES`. -/
abbrev numberOfSubNodes : Nat := 256

/-- `MEMORY_MAXIMUM_ALLOCATION_SIZE`. -/
def memoryMaximumAllocationSize : Nat := 128 * 1024 * 1024

def int64Max : Nat := 2 ^ 63 - 1

def int32Max : Nat := 2 ^ 31 - 1

/-- The size of a directory entry, `sizeof( fsfat_directory_entry_t )`. -/
abbrev directoryEntrySize : Nat := 32

/-- The conversion of a 64-bit value to `off64_t`. -/
def toOff64 (x : Int) : Int := x.bmod (2 ^ 64)

/-- The conversion of an offset to `uint64_t`. -/
def toUint64 (x : Int) : Nat := (x % 2 ^ 64).toNat

/-- The conversion of a 32-bit value to `int`. -/
def toInt32 (x : Nat) : Int :=
  if x % 2 ^ 32 < 2 ^ 31 then (x % 2 ^ 32 : Nat) else (x % 2 ^ 32 : Nat) - (2 ^ 32 : Nat)

theorem toOff64_of_nonneg {x : Int} (h0 : 0 ≤ x) (h : x ≤ int64Max) : toOff64 x = x := by
  have hmax : (int64Max : Int) = 9223372036854775807 := rfl
  unfold toOff64
  rw [Int.bmod_def]
  push_cast
  split <;> omega

theorem toInt32_of_lt {x : Nat} (h : x < 2 ^ 31) : toInt32 x = x := by
  unfold toInt32
  rw [Nat.mod_eq_of_lt (by omega), if_pos h]

theorem exists_eq_ok_of_isOk {α : Type} {x : Except Error α} (h : x.isOk = true) :
    ∃ a, x = .ok a := by
  cases x with
  | error e => cases h
  | ok a => exact ⟨a, rfl⟩

/-- A lookup that succeeds and finds nothing. -/
theorem eq_ok_none_of_isNone {α : Type} {result : Except Error (Option α)}
    (h : result.toOption.map Option.isNone = some true) : result = .ok none := by
  cases result with
  | error error => cases h
  | ok found =>
    cases found with
    | none => rfl
    | some value => cases h

/-- A call after another: it succeeds when both do. -/
theorem bind_eq_ok_iff {α β : Type} {x : Except Error α} {f : α → Except Error β} {b : β} :
    (x >>= f) = .ok b ↔ ∃ a, x = .ok a ∧ f a = .ok b := by
  cases x <;> simp [bind, Except.bind]

theorem map_eq_ok_iff {α β : Type} {x : Except Error α} {f : α → β} {b : β} :
    x.map f = .ok b ↔ ∃ a, x = .ok a ∧ f a = b := by
  cases x <;> simp [Except.map]

end FsFat
