import FsFat.DirectoryContent

/-!
The boot record: `libfsfat_boot_record.c`. It says which file system format the
volume has, and where the allocation table, the root directory and the clusters
are. Of the values that are computed from it only the size of a cluster block is
bounded by checks.
-/

namespace FsFat

open Bytes

/-- `libfsfat_boot_record_t`. -/
structure BootRecord where
  fileSystemFormat : FileSystemFormat
  bytesPerSector : Nat
  clusterBlockSize : Nat
  totalNumberOfClusters : Nat
  volumeSerialNumber : Nat
  allocationTableOffset : Int
  allocationTableSize : Nat
  rootDirectoryCluster : Nat
  rootDirectoryOffset : Int
  rootDirectorySize : Nat
  firstClusterOffset : Int
  deriving DecidableEq, Repr

namespace BootRecord

/-- The size of a boot record, `sizeof( fsfat_boot_record_fat12_t )`. -/
abbrev bootRecordSize : Nat := 512

/-- The OEM name of exFAT: `EXFAT` and three spaces. -/
def exfatOemName : List UInt8 := [0x45, 0x58, 0x46, 0x41, 0x54, 0x20, 0x20, 0x20]

/-- The branches of `libfsfat_boot_record_read_data` for exFAT. The sizes of
sectors and cluster blocks are exponents of two. -/
def readExfatData (data : List UInt8) : Except Error BootRecord :=
  let bytesPerSector := byteAt data 108
  let sectorsPerClusterBlock := byteAt data 109
  if bytesPerSector < 9 ∨ bytesPerSector > 12 then .error .bytesPerSectorOutOfBounds
  else if sectorsPerClusterBlock > 25 then .error .sectorsPerClusterBlockOutOfBounds
  else
    .ok
      { fileSystemFormat := .exfat
        bytesPerSector := 2 ^ bytesPerSector
        clusterBlockSize := 2 ^ sectorsPerClusterBlock * 2 ^ bytesPerSector
        totalNumberOfClusters := uint32At data 92
        volumeSerialNumber := uint32At data 100
        allocationTableOffset := (uint32At data 80 * 2 ^ bytesPerSector : Nat)
        allocationTableSize := uint32At data 84 * 2 ^ bytesPerSector
        rootDirectoryCluster := uint32At data 96
        rootDirectoryOffset := 0
        rootDirectorySize := 0
        firstClusterOffset := (uint32At data 88 * 2 ^ bytesPerSector : Nat) }

/-- The values that are read from a boot record of FAT-12, FAT-16 or FAT-32. -/
structure FatFields where
  bytesPerSector : Nat
  sectorsPerClusterBlock : Nat
  numberOfReservedSectors : Nat
  numberOfAllocationTables : Nat
  numberOfRootDirectoryEntries : Nat
  totalNumberOfSectors : Nat
  allocationTableSize : Nat
  rootDirectoryCluster : Nat
  volumeSerialNumber : Nat

/-- The part of `libfsfat_boot_record_read_data` that reads these values. A boot
record without root directory entries and 16-bit sizes has those of FAT-32. -/
def readFatFields (data : List UInt8) : FatFields :=
  let numberOfRootDirectoryEntries := uint16At data 17
  let totalNumberOfSectors16 := uint16At data 19
  let allocationTableSize16 := uint16At data 22
  let totalNumberOfSectors32 := uint32At data 32
  let isFat32 : Bool := numberOfRootDirectoryEntries = 0 ∧ totalNumberOfSectors16 = 0 ∧
    allocationTableSize16 = 0
  { bytesPerSector := uint16At data 11
    sectorsPerClusterBlock := byteAt data 13
    numberOfReservedSectors := uint16At data 14
    numberOfAllocationTables := byteAt data 16
    numberOfRootDirectoryEntries
    totalNumberOfSectors :=
      if totalNumberOfSectors32 ≠ 0 then totalNumberOfSectors32 else totalNumberOfSectors16
    allocationTableSize := if isFat32 then uint32At data 36 else allocationTableSize16
    rootDirectoryCluster := if isFat32 then uint32At data 44 else 0
    volumeSerialNumber :=
      if isFat32 then if byteAt data 66 = 0x29 then uint32At data 67 else 0
      else if byteAt data 38 = 0x29 then uint32At data 39 else 0 }

namespace FatFields

/-- The number of clusters, in the 64-bit arithmetic of the source. The product
is one of 32 bits. -/
def totalNumberOfClusters (fields : FatFields) : Nat :=
  toUint64 ((fields.totalNumberOfSectors : Int) - fields.numberOfReservedSectors -
    (fields.numberOfAllocationTables * fields.allocationTableSize % 2 ^ 32 : Nat)) /
      fields.sectorsPerClusterBlock

/-- The offset of the first sector behind the allocation tables. -/
def dataOffset (fields : FatFields) : Nat :=
  (fields.numberOfReservedSectors + fields.numberOfAllocationTables * fields.allocationTableSize) *
    fields.bytesPerSector

/-- The size of a root directory that is a range. -/
def rootDirectorySize (fields : FatFields) : Nat :=
  if fields.rootDirectoryCluster = 0 then fields.numberOfRootDirectoryEntries * 32 else 0

end FatFields

/-- The file system format that the number of clusters says. -/
def fatFormat (totalNumberOfClusters : Nat) : FileSystemFormat :=
  if totalNumberOfClusters < 4085 then .fat12
  else if totalNumberOfClusters < 65525 then .fat16
  else .fat32

/-- The part of `libfsfat_boot_record_read_data` that checks and computes. -/
def ofFatFields (fields : FatFields) : Except Error BootRecord :=
  if fields.bytesPerSector ∉ [512, 1024, 2048, 4096] then .error .bytesPerSectorOutOfBounds
  else if fields.sectorsPerClusterBlock ∉ [1, 2, 4, 8, 16, 32, 64, 128] then
    .error .sectorsPerClusterBlockOutOfBounds
  else
    .ok
      { fileSystemFormat := fatFormat fields.totalNumberOfClusters
        bytesPerSector := fields.bytesPerSector
        clusterBlockSize := fields.sectorsPerClusterBlock * fields.bytesPerSector
        totalNumberOfClusters := fields.totalNumberOfClusters % 2 ^ 32
        volumeSerialNumber := fields.volumeSerialNumber
        allocationTableOffset := (fields.numberOfReservedSectors * fields.bytesPerSector : Nat)
        allocationTableSize := fields.allocationTableSize * fields.bytesPerSector
        rootDirectoryCluster := fields.rootDirectoryCluster
        rootDirectoryOffset := if fields.rootDirectoryCluster = 0 then fields.dataOffset else 0
        rootDirectorySize := fields.rootDirectorySize
        firstClusterOffset := (fields.dataOffset + fields.rootDirectorySize : Nat) }

/-- `libfsfat_boot_record_read_data`. -/
def readData (data : List UInt8) : Except Error BootRecord :=
  if data.length ≠ bootRecordSize then .error .sizeOutOfBounds
  else if byteAt data 510 ≠ 0x55 ∨ byteAt data 511 ≠ 0xaa then .error .invalidSectorSignature
  else if (data.drop 3).take 8 = exfatOemName then readExfatData data
  else ofFatFields (readFatFields data)

/-- `libfsfat_boot_record_read_file_io_handle`. -/
def readFileIOHandle (image : List UInt8) (fileOffset : Int) : Except Error BootRecord :=
  match readAt image fileOffset bootRecordSize with
  | none => .error .readFailed
  | some data => readData data

/-- The values of the I/O handle that are taken from the boot record. The offset
of the root directory is that of the first cluster when it is not a range. -/
def ioHandle (bootRecord : BootRecord) (volumeSize : Nat) : IoHandle where
  volumeSize := volumeSize
  fileSystemFormat := bootRecord.fileSystemFormat
  bytesPerSector := bootRecord.bytesPerSector
  clusterBlockSize := bootRecord.clusterBlockSize
  totalNumberOfClusters := bootRecord.totalNumberOfClusters
  rootDirectoryOffset :=
    if bootRecord.rootDirectorySize > 0 then bootRecord.rootDirectoryOffset
    else bootRecord.firstClusterOffset
  firstClusterOffset := bootRecord.firstClusterOffset

/-! ### What the checks say -/

section Accepted

variable {data : List UInt8} {bootRecord : BootRecord}

/-- The sectors and the cluster blocks of an accepted boot record. -/
structure IsAccepted (bootRecord : BootRecord) : Prop where
  format : bootRecord.fileSystemFormat ≠ .unknown
  bytesPerSector : ∃ k, 9 ≤ k ∧ k ≤ 12 ∧ bootRecord.bytesPerSector = 2 ^ k
  clusterBlockSize : ∃ k, 9 ≤ k ∧ k ≤ 37 ∧ bootRecord.clusterBlockSize = 2 ^ k
  allocationTableOffset : 0 ≤ bootRecord.allocationTableOffset
  allocationTableSize : bootRecord.bytesPerSector ∣ bootRecord.allocationTableSize
  firstClusterOffset : 0 ≤ bootRecord.firstClusterOffset

theorem readExfatData_isAccepted (h : readExfatData data = .ok bootRecord) :
    IsAccepted bootRecord := by
  simp only [readExfatData] at h
  split_ifs at h with hbytes hsectors
  injection h with h
  subst h
  have hexponent : 9 ≤ byteAt data 108 ∧ byteAt data 108 ≤ 12 := by omega
  exact
    { format := FileSystemFormat.noConfusion
      bytesPerSector := ⟨_, hexponent.1, hexponent.2, rfl⟩
      clusterBlockSize :=
        ⟨byteAt data 109 + byteAt data 108, by omega, by omega, (pow_add _ _ _).symm⟩
      allocationTableOffset := Int.natCast_nonneg _
      allocationTableSize := Nat.dvd_mul_left _ _
      firstClusterOffset := Int.natCast_nonneg _ }

theorem fatFormat_ne (totalNumberOfClusters : Nat) :
    fatFormat totalNumberOfClusters ≠ .unknown ∧ fatFormat totalNumberOfClusters ≠ .exfat := by
  unfold fatFormat
  split_ifs <;> exact ⟨by decide, by decide⟩

theorem two_pow_of_mem {n : Nat} (h : n ∈ [512, 1024, 2048, 4096]) :
    ∃ k, 9 ≤ k ∧ k ≤ 12 ∧ n = 2 ^ k := by
  simp only [List.mem_cons, List.not_mem_nil, or_false] at h
  rcases h with rfl | rfl | rfl | rfl
  · exact ⟨9, by decide, by decide, rfl⟩
  · exact ⟨10, by decide, by decide, rfl⟩
  · exact ⟨11, by decide, by decide, rfl⟩
  · exact ⟨12, by decide, by decide, rfl⟩

theorem two_pow_of_mem_sectors {n : Nat} (h : n ∈ [1, 2, 4, 8, 16, 32, 64, 128]) :
    ∃ k ≤ 7, n = 2 ^ k := by
  have hall : ∀ m ∈ [1, 2, 4, 8, 16, 32, 64, 128], ∃ k ≤ 7, m = 2 ^ k := by decide
  exact hall n h

theorem readFatFields_bounds (data : List UInt8) :
    (readFatFields data).numberOfReservedSectors < 2 ^ 16 ∧
      (readFatFields data).numberOfAllocationTables < 2 ^ 8 ∧
      (readFatFields data).allocationTableSize < 2 ^ 32 ∧
      (readFatFields data).numberOfRootDirectoryEntries < 2 ^ 16 := by
  have h16 := uint16At_lt data 22
  have h32 := uint32At_lt data 36
  refine ⟨uint16At_lt data 14, byteAt_lt data 16, ?_, uint16At_lt data 17⟩
  simp only [readFatFields]
  split <;> omega

/-- The offsets that are computed from values in these bounds. -/
theorem FatFields.dataOffset_le {fields : FatFields}
    (hreserved : fields.numberOfReservedSectors < 2 ^ 16)
    (htables : fields.numberOfAllocationTables < 2 ^ 8)
    (hsize : fields.allocationTableSize < 2 ^ 32) (hbytes : fields.bytesPerSector ≤ 2 ^ 12) :
    fields.dataOffset ≤ 2 ^ 53 := by
  have hmul : fields.numberOfAllocationTables * fields.allocationTableSize ≤ 2 ^ 8 * 2 ^ 32 :=
    Nat.mul_le_mul htables.le hsize.le
  have hsum : fields.numberOfReservedSectors +
      fields.numberOfAllocationTables * fields.allocationTableSize ≤ 2 ^ 41 := by omega
  calc fields.dataOffset ≤ 2 ^ 41 * 2 ^ 12 := Nat.mul_le_mul hsum hbytes
    _ = 2 ^ 53 := by norm_num

theorem ofFatFields_isAccepted {fields : FatFields} (h : ofFatFields fields = .ok bootRecord) :
    IsAccepted bootRecord := by
  unfold ofFatFields at h
  split at h
  · cases h
  next hbytes =>
  split at h
  · cases h
  next hsectors =>
  injection h with h
  subst h
  obtain ⟨k, hk9, hk12, hk⟩ := two_pow_of_mem (not_not.mp hbytes)
  obtain ⟨m, hm, hsectors⟩ := two_pow_of_mem_sectors (not_not.mp hsectors)
  exact
    { format := (fatFormat_ne _).1
      bytesPerSector := ⟨k, hk9, hk12, hk⟩
      clusterBlockSize := ⟨m + k, by omega, by omega, by rw [hsectors, hk, pow_add]⟩
      allocationTableOffset := Int.natCast_nonneg _
      allocationTableSize := Nat.dvd_mul_left _ _
      firstClusterOffset := Int.natCast_nonneg _ }

theorem readData_isAccepted (h : readData data = .ok bootRecord) : IsAccepted bootRecord := by
  unfold readData at h
  split_ifs at h
  · exact readExfatData_isAccepted h
  · exact ofFatFields_isAccepted h

/-- The root directory and the clusters are at small offsets: of at most 2^16
reserved sectors and 2^8 tables of 2^32 sectors, and the 2^16 entries of a root
directory that is a range. -/
theorem readData_offsets (h : readData data = .ok bootRecord) :
    (0 ≤ bootRecord.rootDirectoryOffset ∧ bootRecord.rootDirectoryOffset ≤ 2 ^ 60) ∧
      (0 ≤ bootRecord.firstClusterOffset ∧ bootRecord.firstClusterOffset ≤ 2 ^ 60) ∧
      bootRecord.rootDirectorySize ≤ 2 ^ 21 := by
  unfold readData at h
  split_ifs at h
  · simp only [readExfatData] at h
    split_ifs at h with hbytes hsectors
    injection h with h
    subst h
    have hcluster := uint32At_lt data 88
    have hpow : 2 ^ byteAt data 108 ≤ 2 ^ 12 := Nat.pow_le_pow_right (by norm_num) (by omega)
    have hmul : uint32At data 88 * 2 ^ byteAt data 108 ≤ 2 ^ 32 * 2 ^ 12 :=
      Nat.mul_le_mul hcluster.le hpow
    have hle : uint32At data 88 * 2 ^ byteAt data 108 ≤ 2 ^ 60 := hmul.trans (by norm_num)
    refine ⟨⟨le_rfl, by norm_num⟩, ⟨Int.natCast_nonneg _, ?_⟩, by norm_num⟩
    dsimp only
    exact_mod_cast hle
  · obtain ⟨hreserved, htables, hsize, hentries⟩ := readFatFields_bounds data
    generalize readFatFields data = fields at *
    unfold ofFatFields at h
    split at h
    · cases h
    next hbytes =>
    split at h
    · cases h
    injection h with h
    subst h
    obtain ⟨k, _, hk, hk'⟩ := two_pow_of_mem (not_not.mp hbytes)
    have hle : fields.bytesPerSector ≤ 2 ^ 12 := hk' ▸ Nat.pow_le_pow_right (by norm_num) hk
    have hoffset := FatFields.dataOffset_le hreserved htables hsize hle
    have hroot : fields.rootDirectorySize ≤ 2 ^ 21 := by
      unfold FatFields.rootDirectorySize
      split <;> omega
    have hcluster : fields.dataOffset + fields.rootDirectorySize ≤ 2 ^ 60 := by omega
    refine ⟨?_, ⟨Int.natCast_nonneg _, ?_⟩, hroot⟩
    · dsimp only
      split
      · exact ⟨Int.natCast_nonneg _, by omega⟩
      · exact ⟨le_rfl, by norm_num⟩
    · dsimp only
      exact_mod_cast hcluster

/-- The geometry that reading directories relies on. -/
theorem IsAccepted.blockGeometry (h : IsAccepted bootRecord) (volumeSize : Nat) :
    BlockGeometry (bootRecord.ioHandle volumeSize) :=
  ⟨h.clusterBlockSize⟩

end Accepted

/-- The boot record of an exFAT volume with four clusters of one sector. The
table is in the second sector, and the clusters are behind it. -/
def exfatBootSector : List UInt8 :=
  [0, 0, 0] ++ exfatOemName ++ List.replicate 69 0 ++
    [1, 0, 0, 0] ++ [1, 0, 0, 0] ++ [2, 0, 0, 0] ++ [4, 0, 0, 0] ++ [2, 0, 0, 0] ++
    List.replicate 8 0 ++ [9, 0] ++ List.replicate 400 0 ++ [0x55, 0xaa]

/-- What is read from this boot record. -/
def exfatBootRecord : BootRecord where
  fileSystemFormat := .exfat
  bytesPerSector := 512
  clusterBlockSize := 512
  totalNumberOfClusters := 4
  volumeSerialNumber := 0
  allocationTableOffset := 512
  allocationTableSize := 512
  rootDirectoryCluster := 2
  rootDirectoryOffset := 0
  rootDirectorySize := 0
  firstClusterOffset := 1024

theorem readData_exfatBootSector : readData exfatBootSector = .ok exfatBootRecord := by
  decide +kernel

end BootRecord

end FsFat
