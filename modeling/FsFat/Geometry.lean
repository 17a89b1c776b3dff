import FsFat.AllocationTable
import FsFat.BootRecord
import FsFat.DirectoryListing

/-!
The geometry of a FAT-12, FAT-16 or FAT-32 volume: where its boot record puts
the tables, the root directory and the clusters, and which format the number of
its clusters gives. The arithmetic is that of unsigned numbers of 32 and 64 bits,
and nothing checks that the tables are in the volume.
-/

namespace FsFat

open Bytes

namespace BootRecord

/-- A 16-bit number, least significant byte first. -/
def uint16Bytes (n : Nat) : List UInt8 := [UInt8.ofNat n, UInt8.ofNat (n / 2 ^ 8)]

/-- A 32-bit number, least significant byte first. -/
def uint32Bytes (n : Nat) : List UInt8 := uint16Bytes n ++ uint16Bytes (n / 2 ^ 16)

/-- A boot sector with sectors of 512 bytes, one of them reserved, cluster blocks
of one sector and one allocation table. -/
def fatBootSector (rootDirectoryEntries sectors16 tableSize16 sectors32 tableSize32
    rootDirectoryCluster : Nat) : List UInt8 :=
  List.replicate 11 0 ++ uint16Bytes 512 ++ [1] ++ uint16Bytes 1 ++ [1] ++
    uint16Bytes rootDirectoryEntries ++ uint16Bytes sectors16 ++ [0xf8] ++
    uint16Bytes tableSize16 ++ List.replicate 8 0 ++ uint32Bytes sectors32 ++
    uint32Bytes tableSize32 ++ List.replicate 4 0 ++ uint32Bytes rootDirectoryCluster ++
    List.replicate 462 0 ++ [0x55, 0xaa]

namespace FatFields

/-- The number of the first sector behind the allocation tables. -/
def endOfTables (fields : FatFields) : Nat :=
  fields.numberOfReservedSectors + fields.numberOfAllocationTables * fields.allocationTableSize

/-- The same number with the 32-bit product that the number of clusters is
computed with. -/
def endOfTables32 (fields : FatFields) : Nat :=
  fields.numberOfReservedSectors +
    fields.numberOfAllocationTables * fields.allocationTableSize % 2 ^ 32

/-- The number of clusters where no difference is negative. -/
theorem totalNumberOfClusters_of_le {fields : FatFields}
    (hsectors : fields.totalNumberOfSectors < 2 ^ 32)
    (h : fields.endOfTables32 ≤ fields.totalNumberOfSectors) :
    fields.totalNumberOfClusters =
      (fields.totalNumberOfSectors - fields.endOfTables32) / fields.sectorsPerClusterBlock := by
  unfold endOfTables32 at h ⊢
  unfold totalNumberOfClusters toUint64
  generalize fields.numberOfAllocationTables * fields.allocationTableSize % 2 ^ 32 = product at h ⊢
  congr 1
  omega

/-- A negative difference is a large number. -/
theorem totalNumberOfClusters_of_lt {fields : FatFields}
    (hreserved : fields.numberOfReservedSectors < 2 ^ 16)
    (h : fields.totalNumberOfSectors < fields.endOfTables32) :
    fields.totalNumberOfClusters =
      (2 ^ 64 - (fields.endOfTables32 - fields.totalNumberOfSectors)) /
        fields.sectorsPerClusterBlock := by
  have hproduct := Nat.mod_lt (fields.numberOfAllocationTables * fields.allocationTableSize)
    (Nat.two_pow_pos 32)
  unfold endOfTables32 at h ⊢
  unfold totalNumberOfClusters toUint64
  generalize fields.numberOfAllocationTables * fields.allocationTableSize % 2 ^ 32 = product
    at h hproduct ⊢
  congr 1
  omega

theorem endOfTables32_of_le {fields : FatFields}
    (hsectors : fields.totalNumberOfSectors < 2 ^ 32)
    (h : fields.endOfTables ≤ fields.totalNumberOfSectors) :
    fields.endOfTables32 = fields.endOfTables := by
  unfold endOfTables at h
  unfold endOfTables32 endOfTables
  rw [Nat.mod_eq_of_lt (by omega)]

end FatFields

theorem readFatFields_totalNumberOfSectors_lt (data : List UInt8) :
    (readFatFields data).totalNumberOfSectors < 2 ^ 32 := by
  have h16 := uint16At_lt data 19
  have h32 := uint32At_lt data 32
  unfold readFatFields
  dsimp only
  split <;> omega

/-- What an accepted boot record has from the values that are read. -/
structure IsReadFrom (fields : FatFields) (bootRecord : BootRecord) : Prop where
  bytesPerSector_mem : fields.bytesPerSector ∈ [512, 1024, 2048, 4096]
  sectorsPerClusterBlock_mem : fields.sectorsPerClusterBlock ∈ [1, 2, 4, 8, 16, 32, 64, 128]
  fileSystemFormat : bootRecord.fileSystemFormat = fatFormat fields.totalNumberOfClusters
  totalNumberOfClusters :
    bootRecord.totalNumberOfClusters = fields.totalNumberOfClusters % 2 ^ 32
  allocationTableOffset : bootRecord.allocationTableOffset =
    (fields.numberOfReservedSectors * fields.bytesPerSector : Nat)
  allocationTableSize :
    bootRecord.allocationTableSize = fields.allocationTableSize * fields.bytesPerSector
  rootDirectoryCluster : bootRecord.rootDirectoryCluster = fields.rootDirectoryCluster
  rootDirectoryOffset : bootRecord.rootDirectoryOffset =
    if fields.rootDirectoryCluster = 0 then (fields.dataOffset : Int) else 0
  rootDirectorySize : bootRecord.rootDirectorySize = fields.rootDirectorySize
  firstClusterOffset :
    bootRecord.firstClusterOffset = (fields.dataOffset + fields.rootDirectorySize : Nat)

section Accepted

variable {data : List UInt8} {bootRecord : BootRecord}

theorem readData_isReadFrom (h : readData data = .ok bootRecord)
    (hsignature : (data.drop 3).take 8 ≠ exfatOemName) :
    IsReadFrom (readFatFields data) bootRecord := by
  unfold readData at h
  rw [if_neg hsignature] at h
  split at h
  · cases h
  split at h
  · cases h
  generalize readFatFields data = fields at h ⊢
  unfold ofFatFields at h
  split at h
  · cases h
  next hbytes =>
  split at h
  · cases h
  next hsectors =>
  injection h with h
  subst h
  exact
    { bytesPerSector_mem := not_not.mp hbytes
      sectorsPerClusterBlock_mem := not_not.mp hsectors
      fileSystemFormat := rfl
      totalNumberOfClusters := rfl
      allocationTableOffset := rfl
      allocationTableSize := rfl
      rootDirectoryCluster := rfl
      rootDirectoryOffset := rfl
      rootDirectorySize := rfl
      firstClusterOffset := rfl }

/-- The values that a boot record should have for these fields, as unbounded
integers. -/
structure IsExact (fields : FatFields) (bootRecord : BootRecord) : Prop where
  endOfTables_le : fields.endOfTables ≤ fields.totalNumberOfSectors
  totalNumberOfClusters : (bootRecord.totalNumberOfClusters : Int) =
    ((fields.totalNumberOfSectors : Int) - fields.numberOfReservedSectors -
      fields.numberOfAllocationTables * fields.allocationTableSize) / fields.sectorsPerClusterBlock
  allocationTableOffset : bootRecord.allocationTableOffset =
    (fields.numberOfReservedSectors : Int) * fields.bytesPerSector
  allocationTableSize :
    bootRecord.allocationTableSize = fields.allocationTableSize * fields.bytesPerSector
  firstClusterOffset : bootRecord.firstClusterOffset =
    ((fields.numberOfReservedSectors : Int) +
      fields.numberOfAllocationTables * fields.allocationTableSize) * fields.bytesPerSector +
        if bootRecord.rootDirectoryCluster = 0 then fields.numberOfRootDirectoryEntries * 32 else 0

theorem IsReadFrom.sectorsPerClusterBlock_pos {fields : FatFields}
    (h : IsReadFrom fields bootRecord) : 0 < fields.sectorsPerClusterBlock := by
  obtain ⟨k, _, hk⟩ := two_pow_of_mem_sectors h.sectorsPerClusterBlock_mem
  rw [hk]
  exact Nat.two_pow_pos k

theorem IsReadFrom.sectorsPerClusterBlock_le {fields : FatFields}
    (h : IsReadFrom fields bootRecord) : fields.sectorsPerClusterBlock ≤ 2 ^ 7 := by
  obtain ⟨k, hle, hk⟩ := two_pow_of_mem_sectors h.sectorsPerClusterBlock_mem
  rw [hk]
  exact Nat.pow_le_pow_right (by norm_num) hle

theorem IsReadFrom.firstClusterOffset_eq {fields : FatFields}
    (h : IsReadFrom fields bootRecord) : bootRecord.firstClusterOffset =
      ((fields.numberOfReservedSectors : Int) +
        fields.numberOfAllocationTables * fields.allocationTableSize) * fields.bytesPerSector +
          if bootRecord.rootDirectoryCluster = 0 then fields.numberOfRootDirectoryEntries * 32
          else 0 := by
  rw [h.firstClusterOffset, h.rootDirectoryCluster, FatFields.dataOffset,
    FatFields.rootDirectorySize]
  split <;> push_cast <;> rfl

/-- The number of clusters is the exact one as long as the tables are in the volume. -/
theorem IsReadFrom.totalNumberOfClusters_eq_iff {fields : FatFields}
    (h : IsReadFrom fields bootRecord) (hsectors : fields.totalNumberOfSectors < 2 ^ 32) :
    (bootRecord.totalNumberOfClusters : Int) =
        ((fields.totalNumberOfSectors : Int) - fields.numberOfReservedSectors -
          fields.numberOfAllocationTables * fields.allocationTableSize) /
            fields.sectorsPerClusterBlock ↔
      fields.endOfTables ≤ fields.totalNumberOfSectors := by
  have hpos := h.sectorsPerClusterBlock_pos
  have hexact : (fields.totalNumberOfSectors : Int) - fields.numberOfReservedSectors -
      fields.numberOfAllocationTables * fields.allocationTableSize =
        fields.totalNumberOfSectors - (fields.endOfTables : Int) := by
    unfold FatFields.endOfTables
    push_cast
    ring
  rw [hexact]
  constructor
  · intro heq
    by_contra hlt
    -- A negative number of sectors has no clusters, not even with rounding down.
    have hneg : ((fields.totalNumberOfSectors : Int) - (fields.endOfTables : Int)) /
        fields.sectorsPerClusterBlock < 0 :=
      Int.ediv_neg_of_neg_of_pos (by omega) (by exact_mod_cast hpos)
    omega
  · intro hle
    rw [h.totalNumberOfClusters, FatFields.totalNumberOfClusters_of_le hsectors
      ((FatFields.endOfTables32_of_le hsectors hle).le.trans hle),
      FatFields.endOfTables32_of_le hsectors hle, ← Int.natCast_sub hle, ← Int.natCast_ediv]
    congr 1
    apply Nat.mod_eq_of_lt
    have hdiv := Nat.div_le_self (fields.totalNumberOfSectors - fields.endOfTables)
      fields.sectorsPerClusterBlock
    omega

/-- The arithmetic is exact for the boot records whose tables are in the volume.
For the others it is the number of clusters that is wrong. -/
theorem readData_isExact_iff (h : readData data = .ok bootRecord)
    (hsignature : (data.drop 3).take 8 ≠ exfatOemName) :
    IsExact (readFatFields data) bootRecord ↔
      (readFatFields data).endOfTables ≤ (readFatFields data).totalNumberOfSectors := by
  have hread := readData_isReadFrom h hsignature
  have hsectors := readFatFields_totalNumberOfSectors_lt data
  constructor
  · intro hexact
    exact hexact.endOfTables_le
  · intro hle
    exact
      { endOfTables_le := hle
        totalNumberOfClusters := (hread.totalNumberOfClusters_eq_iff hsectors).mpr hle
        allocationTableOffset := by rw [hread.allocationTableOffset]; push_cast; rfl
        allocationTableSize := hread.allocationTableSize
        firstClusterOffset := hread.firstClusterOffset_eq }

end Accepted

/-- A volume of 100 sectors with a table of one. -/
theorem readData_isExact_iff_small :
    ∃ bootRecord, readData (fatBootSector 16 100 1 0 0 0) = .ok bootRecord ∧
      (IsExact (readFatFields (fatBootSector 16 100 1 0 0 0)) bootRecord ↔
        (readFatFields (fatBootSector 16 100 1 0 0 0)).endOfTables ≤
          (readFatFields (fatBootSector 16 100 1 0 0 0)).totalNumberOfSectors) := by
  have hread : ∃ bootRecord, readData (fatBootSector 16 100 1 0 0 0) = .ok bootRecord :=
    exists_eq_ok_of_isOk (by decide +kernel)
  obtain ⟨bootRecord, hread⟩ := hread
  exact ⟨bootRecord, hread, readData_isExact_iff hread (by decide +kernel)⟩

/-- What is read for a volume of 100 sectors with a table of 200. -/
def overfullBootRecord : BootRecord where
  fileSystemFormat := .fat32
  bytesPerSector := 512
  clusterBlockSize := 512
  totalNumberOfClusters := 4294967195
  volumeSerialNumber := 0
  allocationTableOffset := 512
  allocationTableSize := 102400
  rootDirectoryCluster := 0
  rootDirectoryOffset := 102912
  rootDirectorySize := 512
  firstClusterOffset := 103424

theorem overfull_is_not_exact :
    readData (fatBootSector 16 100 200 0 0 0) = .ok overfullBootRecord ∧
      ((fatBootSector 16 100 200 0 0 0).drop 3).take 8 ≠ exfatOemName ∧
      ¬ IsExact (readFatFields (fatBootSector 16 100 200 0 0 0)) overfullBootRecord := by
  refine ⟨by decide +kernel, by decide +kernel, ?_⟩
  intro hexact
  exact absurd hexact.endOfTables_le (by decide +kernel)

/-! ### The format -/

namespace FatFields

/-- The sectors of the root directory area. -/
def rootDirectorySectors (fields : FatFields) : Nat :=
  (fields.numberOfRootDirectoryEntries * 32 + fields.bytesPerSector - 1) / fields.bytesPerSector

/-- The number of clusters of the data area, as the format document computes it. -/
def documentedNumberOfClusters (fields : FatFields) : Int :=
  ((fields.totalNumberOfSectors : Int) -
    (fields.endOfTables + fields.rootDirectorySectors : Nat)) / fields.sectorsPerClusterBlock

/-- The format that the document gives for this number. -/
def documentedFormat (fields : FatFields) : FileSystemFormat :=
  if fields.documentedNumberOfClusters < 4085 then .fat12
  else if fields.documentedNumberOfClusters < 65525 then .fat16
  else .fat32

theorem documentedFormat_eq {fields : FatFields}
    (h : fields.endOfTables + fields.rootDirectorySectors ≤ fields.totalNumberOfSectors) :
    fields.documentedFormat = fatFormat
      ((fields.totalNumberOfSectors - (fields.endOfTables + fields.rootDirectorySectors)) /
        fields.sectorsPerClusterBlock) := by
  unfold documentedFormat documentedNumberOfClusters fatFormat
  rw [← Int.natCast_sub h, ← Int.natCast_ediv]
  norm_cast

end FatFields

/-- The numbers of clusters from which on a volume has the next format. -/
def formatThresholds : List Nat := [4085, 65525]

theorem fatFormat_eq_iff (first second : Nat) :
    fatFormat first = fatFormat second ↔
      ∀ threshold ∈ formatThresholds, (threshold ≤ first ↔ threshold ≤ second) := by
  simp only [formatThresholds, List.forall_mem_cons, List.not_mem_nil, IsEmpty.forall_iff,
    implies_true, and_true]
  unfold fatFormat
  split_ifs <;> simp <;> omega

/-- The number of clusters is computed with the sectors of the root directory,
which the document takes off. This changes the format exactly if the data area
has too few clusters for a format and enough with these sectors. -/
theorem readData_documentedFormat_iff {data : List UInt8} {bootRecord : BootRecord}
    (h : readData data = .ok bootRecord) (hsignature : (data.drop 3).take 8 ≠ exfatOemName)
    (hdata : (readFatFields data).endOfTables + (readFatFields data).rootDirectorySectors ≤
      (readFatFields data).totalNumberOfSectors) :
    let fields := readFatFields data
    bootRecord.fileSystemFormat = fields.documentedFormat ↔
      ∀ threshold ∈ formatThresholds,
        fields.endOfTables + threshold * fields.sectorsPerClusterBlock ≤
            fields.totalNumberOfSectors →
          fields.endOfTables + fields.rootDirectorySectors +
              threshold * fields.sectorsPerClusterBlock ≤ fields.totalNumberOfSectors := by
  dsimp only
  have hread := readData_isReadFrom h hsignature
  have hsectors := readFatFields_totalNumberOfSectors_lt data
  generalize readFatFields data = fields at *
  have hpos := hread.sectorsPerClusterBlock_pos
  have hle : fields.endOfTables ≤ fields.totalNumberOfSectors := by omega
  have htables := FatFields.endOfTables32_of_le hsectors hle
  rw [hread.fileSystemFormat, FatFields.totalNumberOfClusters_of_le hsectors (htables.le.trans hle),
    htables, FatFields.documentedFormat_eq hdata, fatFormat_eq_iff]
  apply forall₂_congr
  intro threshold _
  rw [Nat.le_div_iff_mul_le hpos, Nat.le_div_iff_mul_le hpos]
  omega

/-- A volume with 4096 clusters, of which the root directory does not take one. -/
theorem readData_documentedFormat_iff_fat16 :
    ∃ bootRecord, readData (fatBootSector 16 4110 12 0 0 0) = .ok bootRecord ∧
      (let fields := readFatFields (fatBootSector 16 4110 12 0 0 0)
      bootRecord.fileSystemFormat = fields.documentedFormat ↔
        ∀ threshold ∈ formatThresholds,
          fields.endOfTables + threshold * fields.sectorsPerClusterBlock ≤
              fields.totalNumberOfSectors →
            fields.endOfTables + fields.rootDirectorySectors +
                threshold * fields.sectorsPerClusterBlock ≤ fields.totalNumberOfSectors) := by
  have hread : ∃ bootRecord, readData (fatBootSector 16 4110 12 0 0 0) = .ok bootRecord :=
    exists_eq_ok_of_isOk (by decide +kernel)
  obtain ⟨bootRecord, hread⟩ := hread
  exact ⟨bootRecord, hread,
    readData_documentedFormat_iff hread (by decide +kernel) (by decide +kernel)⟩

/-- With a reserved sector, a table of twelve sectors and a root directory of one,
these 4098 sectors have 4084 clusters. -/
theorem fat16_with_4084_clusters :
    ∃ bootRecord, readData (fatBootSector 16 4098 12 0 0 0) = .ok bootRecord ∧
      ((fatBootSector 16 4098 12 0 0 0).drop 3).take 8 ≠ exfatOemName ∧
      (readFatFields (fatBootSector 16 4098 12 0 0 0)).documentedNumberOfClusters = 4084 ∧
      (readFatFields (fatBootSector 16 4098 12 0 0 0)).documentedFormat = .fat12 ∧
      bootRecord.fileSystemFormat = .fat16 := by
  have hread : ∃ bootRecord, readData (fatBootSector 16 4098 12 0 0 0) = .ok bootRecord :=
    exists_eq_ok_of_isOk (by decide +kernel)
  have hsignature : ((fatBootSector 16 4098 12 0 0 0).drop 3).take 8 ≠ exfatOemName := by
    decide +kernel
  obtain ⟨bootRecord, hread⟩ := hread
  refine ⟨bootRecord, hread, hsignature, by decide +kernel, by decide +kernel, ?_⟩
  rw [(readData_isReadFrom hread hsignature).fileSystemFormat]
  decide +kernel

/-! ### The layout -/

/-- The fields are read from the places that FAT-32 has them at. -/
def IsFat32Layout (data : List UInt8) : Prop :=
  uint16At data 17 = 0 ∧ uint16At data 19 = 0 ∧ uint16At data 22 = 0

/-- Only FAT-32 has the layout of FAT-32, and the root directory is where the
format has it. -/
structure LayoutIsOfFormat (data : List UInt8) (bootRecord : BootRecord) : Prop where
  layout : IsFat32Layout data ↔ bootRecord.fileSystemFormat = .fat32
  fat32 : bootRecord.fileSystemFormat = .fat32 →
    bootRecord.rootDirectoryCluster = uint32At data 44 ∧ bootRecord.rootDirectorySize = 0
  other : bootRecord.fileSystemFormat ≠ .fat32 →
    bootRecord.rootDirectoryCluster = 0 ∧
      bootRecord.rootDirectoryOffset = bootRecord.allocationTableOffset +
        (byteAt data 16 * bootRecord.allocationTableSize : Nat) ∧
      bootRecord.rootDirectorySize = uint16At data 17 * 32 ∧
      bootRecord.firstClusterOffset =
        bootRecord.rootDirectoryOffset + bootRecord.rootDirectorySize

/-- The fields of a boot record with the layout of FAT-32. -/
theorem readFatFields_of_fat32Layout {data : List UInt8} (h : IsFat32Layout data) :
    (readFatFields data).allocationTableSize = uint32At data 36 ∧
      (readFatFields data).rootDirectoryCluster = uint32At data 44 ∧
      (readFatFields data).numberOfRootDirectoryEntries = 0 := by
  obtain ⟨hentries, hsectors, hsize⟩ := h
  unfold readFatFields
  simp only [hentries, hsectors, hsize, and_self, decide_true, if_true]

theorem readFatFields_of_not_fat32Layout {data : List UInt8} (h : ¬ IsFat32Layout data) :
    (readFatFields data).allocationTableSize = uint16At data 22 ∧
      (readFatFields data).rootDirectoryCluster = 0 := by
  unfold IsFat32Layout at h
  unfold readFatFields
  simp only [h, decide_false, Bool.false_eq_true, if_false, and_self]

section Layout

variable {data : List UInt8} {bootRecord : BootRecord}

/-- A volume that its tables do not fit in has more clusters than any. -/
theorem IsReadFrom.format_eq_fat32_iff {fields : FatFields} (h : IsReadFrom fields bootRecord)
    (hsectors : fields.totalNumberOfSectors < 2 ^ 32)
    (hreserved : fields.numberOfReservedSectors < 2 ^ 16) :
    bootRecord.fileSystemFormat = .fat32 ↔
      fields.totalNumberOfSectors < fields.endOfTables32 ∨
        fields.endOfTables32 + 65525 * fields.sectorsPerClusterBlock ≤
          fields.totalNumberOfSectors := by
  have hpos := h.sectorsPerClusterBlock_pos
  have hle := h.sectorsPerClusterBlock_le
  have hformat : fatFormat fields.totalNumberOfClusters = .fat32 ↔
      65525 ≤ fields.totalNumberOfClusters := by
    unfold fatFormat
    split_ifs <;> simp <;> omega
  rw [h.fileSystemFormat, hformat]
  rcases Nat.lt_or_ge fields.totalNumberOfSectors fields.endOfTables32 with hlt | hge
  · have hend : fields.endOfTables32 < 2 ^ 33 := by
      have hproduct := Nat.mod_lt (fields.numberOfAllocationTables * fields.allocationTableSize)
        (Nat.two_pow_pos 32)
      unfold FatFields.endOfTables32
      omega
    rw [FatFields.totalNumberOfClusters_of_lt hreserved hlt, Nat.le_div_iff_mul_le hpos]
    constructor
    · intro _
      exact Or.inl hlt
    · intro _
      omega
  · rw [FatFields.totalNumberOfClusters_of_le hsectors hge, Nat.le_div_iff_mul_le hpos]
    omega

/-- The layout and the format go together exactly for the boot records whose
header has the layout of FAT-32 if and only if its numbers, in 32 bits, give at
least 65525 clusters or less than none. -/
theorem readData_layoutIsOfFormat_iff (h : readData data = .ok bootRecord)
    (hsignature : (data.drop 3).take 8 ≠ exfatOemName) :
    let fields := readFatFields data
    LayoutIsOfFormat data bootRecord ↔
      (IsFat32Layout data ↔
        fields.totalNumberOfSectors < fields.endOfTables32 ∨
          fields.endOfTables32 + 65525 * fields.sectorsPerClusterBlock ≤
            fields.totalNumberOfSectors) := by
  dsimp only
  have hread := readData_isReadFrom h hsignature
  have hfat32 := hread.format_eq_fat32_iff (readFatFields_totalNumberOfSectors_lt data)
    (readFatFields_bounds data).1
  rw [← hfat32]
  constructor
  · intro hlayout
    exact hlayout.layout
  · intro hlayout
    refine ⟨hlayout, ?_, ?_⟩
    · intro hformat
      obtain ⟨_, hcluster, hentries⟩ := readFatFields_of_fat32Layout (hlayout.mpr hformat)
      refine ⟨hread.rootDirectoryCluster.trans hcluster, ?_⟩
      rw [hread.rootDirectorySize, FatFields.rootDirectorySize, hentries, Nat.zero_mul, ite_self]
    · intro hformat
      obtain ⟨_, hcluster⟩ := readFatFields_of_not_fat32Layout (hformat ∘ hlayout.mp)
      have htables : (readFatFields data).numberOfAllocationTables = byteAt data 16 := rfl
      have hentries : (readFatFields data).numberOfRootDirectoryEntries = uint16At data 17 := rfl
      have hsize : (readFatFields data).rootDirectorySize = uint16At data 17 * 32 := by
        rw [FatFields.rootDirectorySize, if_pos hcluster, hentries]
      refine ⟨hread.rootDirectoryCluster.trans hcluster, ?_, hread.rootDirectorySize.trans hsize, ?_⟩
      · rw [hread.rootDirectoryOffset, if_pos hcluster, hread.allocationTableOffset,
          hread.allocationTableSize, FatFields.dataOffset, htables]
        push_cast
        ring
      · rw [hread.firstClusterOffset, hread.rootDirectoryOffset, if_pos hcluster,
          hread.rootDirectorySize]
        push_cast
        rfl

end Layout

/-- A volume with the layout of FAT-12, which it is. -/
theorem readData_layoutIsOfFormat_iff_fat12 :
    ∃ bootRecord, readData (fatBootSector 16 100 1 0 0 0) = .ok bootRecord ∧
      (let fields := readFatFields (fatBootSector 16 100 1 0 0 0)
      LayoutIsOfFormat (fatBootSector 16 100 1 0 0 0) bootRecord ↔
        (IsFat32Layout (fatBootSector 16 100 1 0 0 0) ↔
          fields.totalNumberOfSectors < fields.endOfTables32 ∨
            fields.endOfTables32 + 65525 * fields.sectorsPerClusterBlock ≤
              fields.totalNumberOfSectors)) := by
  have hread : ∃ bootRecord, readData (fatBootSector 16 100 1 0 0 0) = .ok bootRecord :=
    exists_eq_ok_of_isOk (by decide +kernel)
  obtain ⟨bootRecord, hread⟩ := hread
  exact ⟨bootRecord, hread, readData_layoutIsOfFormat_iff hread (by decide +kernel)⟩

/-- What is read for a volume of 100 sectors with the layout of FAT-32. -/
def smallFat32BootRecord : BootRecord where
  fileSystemFormat := .fat12
  bytesPerSector := 512
  clusterBlockSize := 512
  totalNumberOfClusters := 98
  volumeSerialNumber := 0
  allocationTableOffset := 512
  allocationTableSize := 512
  rootDirectoryCluster := 2
  rootDirectoryOffset := 0
  rootDirectorySize := 0
  firstClusterOffset := 1024

theorem fat32Layout_of_fat12 :
    readData (fatBootSector 0 0 0 100 1 2) = .ok smallFat32BootRecord ∧
      ((fatBootSector 0 0 0 100 1 2).drop 3).take 8 ≠ exfatOemName ∧
      IsFat32Layout (fatBootSector 0 0 0 100 1 2) ∧
      ¬ LayoutIsOfFormat (fatBootSector 0 0 0 100 1 2) smallFat32BootRecord := by
  have hlayout : IsFat32Layout (fatBootSector 0 0 0 100 1 2) :=
    ⟨by decide +kernel, by decide +kernel, by decide +kernel⟩
  refine ⟨by decide +kernel, by decide +kernel, hlayout, ?_⟩
  intro h
  exact absurd (h.layout.mp hlayout) (by decide)

end BootRecord

/-! ### The clusters that a file can start at -/

/-- A directory entry with a short name gives a file this start cluster. -/
def CanStartAt (format : FileSystemFormat) (c : Nat) : Prop :=
  ∃ (data : List UInt8) (entry : DirectoryEntry), data.length = directoryEntrySize ∧
    DirectoryEntry.readData data format = .ok (some entry) ∧ entry.entryType = .shortName ∧
    entry.dataStartCluster = c

/-- The entry of an empty file with the name `_` and a start cluster. -/
def startClusterEntry (c : Nat) : List UInt8 :=
  [0x5f] ++ List.replicate 10 0x20 ++ [0x20] ++ List.replicate 14 0 ++
    BootRecord.uint16Bytes c ++ List.replicate 4 0

theorem uint16At_startClusterEntry {c : Nat} (h : c < 2 ^ 16) :
    uint16At (startClusterEntry c) 26 = c := by
  have hlow : byteAt (startClusterEntry c) 26 = c % 2 ^ 8 := UInt8.toNat_ofNat'
  have hhigh : byteAt (startClusterEntry c) (26 + 1) = c / 2 ^ 8 % 2 ^ 8 := UInt8.toNat_ofNat'
  rw [uint16At, hlow, hhigh, Nat.mod_eq_of_lt (by omega : c / 2 ^ 8 < 2 ^ 8), Nat.mod_add_div]

theorem readData_startClusterEntry (c : Nat) :
    DirectoryEntry.readData (startClusterEntry c) .fat32 =
      .ok (some (DirectoryEntry.readShortName (startClusterEntry c))) := by
  have hfirst : byteAt (startClusterEntry c) 0 = 0x5f := rfl
  have hne : startClusterEntry c ≠ DirectoryEntry.empty := by
    intro h
    rw [h] at hfirst
    exact absurd hfirst (by decide)
  have htype : DirectoryEntry.entryTypeOf (startClusterEntry c) .fat32 = .shortName := by
    simp [DirectoryEntry.entryTypeOf, hne, hfirst]
  rw [DirectoryEntry.readData, htype]

/-- An entry has 16 bits for the start cluster. -/
theorem canStartAt_fat32_iff (c : Nat) : CanStartAt .fat32 c ↔ c < 2 ^ 16 := by
  constructor
  · rintro ⟨data, entry, _, hread, htype, rfl⟩
    rcases readData_eq_some (by decide) hread with ⟨_, rfl⟩ | ⟨_, rfl⟩ | ⟨_, rfl⟩
    · exact uint16At_lt data 26
    · cases htype
    · cases htype
  · intro h
    exact ⟨startClusterEntry c, _, rfl, readData_startClusterEntry c, rfl,
      uint16At_startClusterEntry h⟩

/-- A volume with tables has at most 2^26 clusters. For FAT-32 a file can start at
each of them exactly if there are no more than 2^16. -/
theorem clusters_canStart_iff {bootRecord : BootRecord} {table : AllocationTable}
    (hformat : bootRecord.fileSystemFormat = .fat32)
    (htable : AllocationTable.create bootRecord.totalNumberOfClusters = .ok table) :
    bootRecord.totalNumberOfClusters ≤ 2 ^ 26 ∧
      ((∀ c, 2 ≤ c → c < bootRecord.totalNumberOfClusters →
        CanStartAt bootRecord.fileSystemFormat c) ↔
          bootRecord.totalNumberOfClusters ≤ 2 ^ 16) := by
  have hmax : bootRecord.totalNumberOfClusters ≤ maximumNumberOfClustersInFat := by
    unfold AllocationTable.create at htable
    split at htable
    · cases htable
    · omega
  refine ⟨hmax, ?_⟩
  rw [hformat]
  constructor
  · intro hall
    by_contra hlt
    have hstart := hall (2 ^ 16) (by norm_num) (Nat.lt_of_not_le hlt)
    exact absurd ((canStartAt_fat32_iff _).mp hstart) (Nat.lt_irrefl _)
  · intro hle c _ hc
    exact (canStartAt_fat32_iff c).mpr (lt_of_lt_of_le hc hle)

/-- What is read for a FAT-32 volume with a reserved sector and a table of 512. -/
def fat32BootRecord (totalNumberOfClusters : Nat) : BootRecord where
  fileSystemFormat := .fat32
  bytesPerSector := 512
  clusterBlockSize := 512
  totalNumberOfClusters := totalNumberOfClusters
  volumeSerialNumber := 0
  allocationTableOffset := 512
  allocationTableSize := 512 * 512
  rootDirectoryCluster := 2
  rootDirectoryOffset := 0
  rootDirectorySize := 0
  firstClusterOffset := 513 * 512

theorem clusters_canStart_iff_fat32 :
    BootRecord.readData (BootRecord.fatBootSector 0 0 0 66049 512 2) =
        .ok (fat32BootRecord 65536) ∧
      (∃ table, AllocationTable.create 65536 = .ok table) ∧
      65536 ≤ 2 ^ 26 ∧
      ((∀ c, 2 ≤ c → c < 65536 → CanStartAt .fat32 c) ↔ 65536 ≤ 2 ^ 16) := by
  have htable : AllocationTable.create (fat32BootRecord 65536).totalNumberOfClusters =
      .ok (AllocationTable.zeroed 65536 (by norm_num) (by decide)) := rfl
  exact ⟨by decide +kernel, ⟨_, htable⟩, clusters_canStart_iff rfl htable⟩

/-- The last cluster of a volume with 65537. -/
theorem last_cluster_cannot_start :
    BootRecord.readData (BootRecord.fatBootSector 0 0 0 66050 512 2) =
        .ok (fat32BootRecord 65537) ∧
      (∃ table, AllocationTable.create 65537 = .ok table) ∧
      2 ≤ 65536 ∧ 65536 < (fat32BootRecord 65537).totalNumberOfClusters ∧
      ¬ CanStartAt (fat32BootRecord 65537).fileSystemFormat 65536 := by
  refine ⟨by decide +kernel, ⟨AllocationTable.zeroed 65537 (by norm_num) (by decide), rfl⟩,
    by norm_num, by decide, ?_⟩
  intro hstart
  exact absurd ((canStartAt_fat32_iff _).mp hstart) (by decide)

end FsFat
