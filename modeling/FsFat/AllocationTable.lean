import FsFat.Definitions
import FsFat.Lib.Bytes

/-!
The allocation table: `libfsfat_allocation_table.c`. The table of the volume
holds for each cluster the next one; the reversed table holds for each cluster
the last one that names it as its next. Both are filled in one pass over the
sectors of the table.
-/

namespace FsFat

open Bytes

/-- `libfsfat_allocation_table_t`. The bounds are those of the function that
makes a table, and no function changes the number of cluster numbers. -/
structure AllocationTable where
  clusterNumbers : List Nat
  length_pos : 0 < clusterNumbers.length
  length_le : clusterNumbers.length ≤ maximumNumberOfClustersInFat
  value_lt : ∀ c ∈ clusterNumbers, c < 2 ^ 32

namespace AllocationTable

/-- `number_of_cluster_numbers`. -/
abbrev numberOfClusterNumbers (table : AllocationTable) : Nat := table.clusterNumbers.length

/-- A table in which all cluster numbers are zero. -/
def zeroed (totalNumberOfClusters : Nat) (hpos : 0 < totalNumberOfClusters)
    (hle : totalNumberOfClusters ≤ maximumNumberOfClustersInFat) : AllocationTable where
  clusterNumbers := List.replicate totalNumberOfClusters 0
  length_pos := by rwa [List.length_replicate]
  length_le := by rwa [List.length_replicate]
  value_lt := fun c hc => by rw [List.eq_of_mem_replicate hc]; norm_num

/-- `libfsfat_allocation_table_initialize`. -/
def create (totalNumberOfClusters : Nat) : Except Error AllocationTable :=
  if h : totalNumberOfClusters = 0 ∨ totalNumberOfClusters > maximumNumberOfClustersInFat then
    .error .totalNumberOfClustersOutOfBounds
  else .ok (zeroed totalNumberOfClusters (by omega) (by omega))

/-- An assignment to a 32-bit element of `cluster_numbers`. -/
def setClusterNumber (table : AllocationTable) (index value : Nat) : AllocationTable where
  clusterNumbers := table.clusterNumbers.set index (value % 2 ^ 32)
  length_pos := by rw [List.length_set]; exact table.length_pos
  length_le := by rw [List.length_set]; exact table.length_le
  value_lt := fun c hc => by
    rcases List.mem_or_eq_of_mem_set hc with hc | rfl
    · exact table.value_lt c hc
    · exact Nat.mod_lt _ (by norm_num)

/-- `libfsfat_allocation_table_get_cluster_number_by_index`. -/
def getClusterNumberByIndex (table : AllocationTable) (entryIndex : Int) : Except Error Nat :=
  if entryIndex < 0 ∨ entryIndex ≥ table.numberOfClusterNumbers then .error .entryIndexOutOfBounds
  else .ok (table.clusterNumbers.getD entryIndex.toNat 0)

/-- The variables of the loops that fill the tables. -/
structure ReadState where
  allocationTable : AllocationTable
  reversedAllocationTable : Option AllocationTable
  tableIndex : Nat

namespace ReadState

/-- The assignments for one entry. The number that is compared with the size of
the table need not be the one that is stored: for the first entry of a pair of
FAT-12 entries it has the bits of the second entry too. -/
def store (s : ReadState) (comparedNumber clusterNumber : Nat) : ReadState where
  allocationTable := s.allocationTable.setClusterNumber s.tableIndex clusterNumber
  reversedAllocationTable :=
    s.reversedAllocationTable.map fun reversed =>
      if comparedNumber < s.allocationTable.numberOfClusterNumbers then
        reversed.setClusterNumber clusterNumber s.tableIndex
      else reversed
  tableIndex := s.tableIndex + 1

/-- The table has no entry left to fill. -/
def isFull (s : ReadState) : Bool :=
  s.allocationTable.numberOfClusterNumbers ≤ s.tableIndex

end ReadState

/-- The number of bytes that an iteration of the inner loop takes. -/
def entryDataSize : FileSystemFormat → Nat
  | .fat12 => 3
  | .fat16 => 2
  | _ => 4

/-- An iteration of the inner loop. It does nothing once the table is full,
where the source leaves the loop. -/
def readEntry (format : FileSystemFormat) (tableData : List UInt8) (s : ReadState)
    (tableDataOffset : Nat) : ReadState :=
  if s.isFull then s
  else
    match format with
    | .fat12 =>
      let clusterNumber := uint24At tableData tableDataOffset
      let s := s.store clusterNumber (clusterNumber % 2 ^ 12)
      if s.isFull then s
      else s.store (clusterNumber / 2 ^ 12) (clusterNumber / 2 ^ 12)
    | .fat16 =>
      let clusterNumber := uint16At tableData tableDataOffset
      s.store clusterNumber clusterNumber
    | _ =>
      let clusterNumber := uint32At tableData tableDataOffset
      s.store clusterNumber clusterNumber

/-- The inner loop, with `count` iterations left. -/
def readEntries (format : FileSystemFormat) (tableData : List UInt8) :
    Nat → Nat → ReadState → ReadState
  | 0, _, s => s
  | count + 1, tableDataOffset, s =>
    readEntries format tableData count (tableDataOffset + entryDataSize format)
      (readEntry format tableData s tableDataOffset)

/-- The outer loop, with `count` sectors left, the last of them perhaps not a
whole one. What a short read leaves in the buffer behind its data is what was
there before. -/
def readSectors (ioHandle : IoHandle) (image : List UInt8) :
    Nat → Int → Nat → List UInt8 → ReadState → Except Error ReadState
  | 0, _, _, _, s => .ok s
  | count + 1, fileOffset, remaining, tableData, s =>
    let readSize := min ioHandle.bytesPerSector remaining
    match readAt image fileOffset readSize with
    | none => .error .readFailed
    | some data =>
      let tableData := data ++ tableData.drop readSize
      let entrySize := entryDataSize ioHandle.fileSystemFormat
      let count' := (readSize + entrySize - 1) / entrySize
      readSectors ioHandle image count (fileOffset + readSize) (remaining - readSize) tableData
        (readEntries ioHandle.fileSystemFormat tableData count' 0 s)

/-- `libfsfat_allocation_table_read_file_io_handle`: the tables after the call.
The content of newly allocated memory is an argument. -/
def readFileIOHandle (table : AllocationTable) (reversedTable : Option AllocationTable)
    (ioHandle : IoHandle) (image : List UInt8) (freshMemory : Nat → UInt8) (fileOffset : Int)
    (size : Nat) : Except Error (AllocationTable × Option AllocationTable) :=
  if ioHandle.bytesPerSector = 0 then .error .missingBytesPerSector
  else do
    let tableData := (List.range ioHandle.bytesPerSector).map freshMemory ++ [0, 0]
    let count := (size + ioHandle.bytesPerSector - 1) / ioHandle.bytesPerSector
    let s ← readSectors ioHandle image count fileOffset size tableData ⟨table, reversedTable, 0⟩
    pure (s.allocationTable, s.reversedAllocationTable)

/-! ### Entries of a table -/

theorem getClusterNumberByIndex_of_lt {table : AllocationTable} {index : Nat}
    (h : index < table.numberOfClusterNumbers) :
    table.getClusterNumberByIndex index = .ok (table.clusterNumbers.getD index 0) := by
  unfold getClusterNumberByIndex
  rw [if_neg (by omega), Int.toNat_natCast]

theorem getClusterNumberByIndex_eq_ok_iff {table : AllocationTable} {index : Int} {c : Nat} :
    table.getClusterNumberByIndex index = .ok c ↔
      0 ≤ index ∧ index < table.numberOfClusterNumbers ∧
        table.clusterNumbers.getD index.toNat 0 = c := by
  unfold getClusterNumberByIndex
  split
  · next h =>
    constructor
    · intro hc
      cases hc
    · rintro ⟨h0, h1, _⟩
      omega
  · next h =>
    constructor
    · intro hc
      injection hc with hc
      exact ⟨by omega, by omega, hc⟩
    · rintro ⟨_, _, rfl⟩
      rfl

/-- An index that is in the table is the same as an `int`. -/
theorem toInt32_of_lt_numberOfClusterNumbers {table : AllocationTable} {index : Nat}
    (h : index < table.numberOfClusterNumbers) : toInt32 index = index := by
  have hmax : maximumNumberOfClustersInFat = 67108864 := rfl
  have hle := table.length_le
  have hlt : index < table.clusterNumbers.length := h
  exact toInt32_of_lt (by omega)

end AllocationTable

end FsFat
