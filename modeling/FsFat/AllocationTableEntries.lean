import FsFat.BootRecord
import FsFat.Fat12AllocationTable

/-!
Reading the allocation table of a volume. The table has an entry for each
cluster and two more in front, and the arrays that it is read into have one for
each cluster: the entries of the last two clusters are not there.
-/

namespace FsFat

open Bytes

namespace AllocationTable

/-! ### The number of entries -/

section Number

variable {ioHandle : IoHandle} {image : List UInt8}

theorem readEntry_number (format : FileSystemFormat) (tableData : List UInt8) (s : ReadState)
    (offset : Nat) :
    (readEntry format tableData s offset).allocationTable.numberOfClusterNumbers =
      s.allocationTable.numberOfClusterNumbers := by
  unfold readEntry
  split
  · rfl
  · split
    · dsimp only
      split
      · exact ReadState.store_numberOfClusterNumbers _ _ _
      · rw [ReadState.store_numberOfClusterNumbers, ReadState.store_numberOfClusterNumbers]
    · exact ReadState.store_numberOfClusterNumbers _ _ _
    · exact ReadState.store_numberOfClusterNumbers _ _ _

theorem readEntries_number (format : FileSystemFormat) (tableData : List UInt8) (count : Nat)
    (s : ReadState) (offset : Nat) :
    (readEntries format tableData count offset s).allocationTable.numberOfClusterNumbers =
      s.allocationTable.numberOfClusterNumbers := by
  induction count generalizing s offset with
  | zero => rfl
  | succ count ih => rw [readEntries, ih, readEntry_number]

/-- The sectors are read one after the other, so that all of them are in the image. -/
theorem readSectors_ok {count : Nat} {fileOffset : Int} {remaining : Nat} {tableData : List UInt8}
    {s s' : ReadState}
    (h : readSectors ioHandle image count fileOffset remaining tableData s = .ok s') :
    s'.allocationTable.numberOfClusterNumbers = s.allocationTable.numberOfClusterNumbers ∧
      (count * ioHandle.bytesPerSector = remaining → 0 < count →
        0 ≤ fileOffset ∧ fileOffset.toNat + remaining ≤ image.length) := by
  induction count generalizing fileOffset remaining tableData s with
  | zero =>
    injection h with h
    subst h
    exact ⟨rfl, fun _ hpos => absurd hpos (Nat.lt_irrefl 0)⟩
  | succ count ih =>
    unfold readSectors at h
    dsimp only at h
    split at h
    · cases h
    · next data hdata =>
      obtain ⟨hnumber, himage⟩ := ih h
      rw [readEntries_number] at hnumber
      refine ⟨hnumber, fun hremaining _ => ?_⟩
      obtain ⟨h0, hle, _⟩ := readAt_eq_some_iff.mp hdata
      have hsucc : (count + 1) * ioHandle.bytesPerSector =
          count * ioHandle.bytesPerSector + ioHandle.bytesPerSector := Nat.succ_mul _ _
      have hmin : min ioHandle.bytesPerSector remaining = ioHandle.bytesPerSector := by omega
      rw [hmin] at hle himage
      refine ⟨h0, ?_⟩
      rcases Nat.eq_zero_or_pos count with rfl | hpos
      · omega
      · obtain ⟨_, hle'⟩ := himage (by omega) hpos
        omega

theorem readFileIOHandle_ok {table table' : AllocationTable}
    {reversed reversed' : Option AllocationTable} {freshMemory : Nat → UInt8} {fileOffset : Int}
    {size : Nat}
    (h : table.readFileIOHandle reversed ioHandle image freshMemory fileOffset size =
      .ok (table', reversed')) :
    0 < ioHandle.bytesPerSector ∧
      table'.numberOfClusterNumbers = table.numberOfClusterNumbers ∧
      (ioHandle.bytesPerSector ∣ size → 0 < size →
        0 ≤ fileOffset ∧ fileOffset.toNat + size ≤ image.length) := by
  unfold readFileIOHandle at h
  split at h
  · cases h
  next hbytes =>
  obtain ⟨s, hs, hresult⟩ := bind_eq_ok_iff.mp h
  injection hresult with hresult
  injection hresult with htable _
  obtain ⟨hnumber, himage⟩ := readSectors_ok hs
  refine ⟨Nat.pos_of_ne_zero hbytes, htable ▸ hnumber, ?_⟩
  rintro ⟨n, rfl⟩ hpos
  have hn : 0 < n := Nat.pos_of_mul_pos_left hpos
  rw [Nat.mul_comm ioHandle.bytesPerSector n] at himage ⊢
  rw [numberOfSectors_eq (Nat.pos_of_ne_zero hbytes)] at himage
  exact himage rfl hn

/-- A read that succeeds has filled the tables with the entries of the sectors. -/
theorem readFileIOHandle_filled {table table' : AllocationTable}
    {reversed reversed' : Option AllocationTable} {freshMemory : Nat → UInt8} {fileOffset : Int}
    {size : Nat} (hsize : ioHandle.bytesPerSector ∣ size)
    (h : table.readFileIOHandle reversed ioHandle image freshMemory fileOffset size =
      .ok (table', reversed')) :
    let data := (image.drop fileOffset.toNat).take size
    let s := ReadState.fill (tableEntry ioHandle.fileSystemFormat data ioHandle.bytesPerSector)
      (entriesPerSector ioHandle.fileSystemFormat ioHandle.bytesPerSector *
        (size / ioHandle.bytesPerSector)) ⟨table, reversed, 0⟩
    data.length = size ∧ s.allocationTable = table' ∧ s.reversedAllocationTable = reversed' := by
  obtain ⟨hpos, _, himage⟩ := readFileIOHandle_ok h
  rcases Nat.eq_zero_or_pos size with rfl | hsizePos
  · -- There is no sector, and the tables are left as they are.
    have hcount : (0 + ioHandle.bytesPerSector - 1) / ioHandle.bytesPerSector = 0 :=
      Nat.div_eq_of_lt (by omega)
    simp only [readFileIOHandle, if_neg (Nat.ne_of_gt hpos), hcount, readSectors, bind, Except.bind,
      pure, Except.pure, Except.ok.injEq, Prod.mk.injEq] at h
    rw [Nat.zero_div, Nat.mul_zero]
    exact ⟨by rw [List.take_zero, List.length_nil], h⟩
  · obtain ⟨h0, hle⟩ := himage hsize hsizePos
    have hdata := readAt_of_le h0 hle
    obtain ⟨n, rfl⟩ := hsize
    rw [Nat.mul_comm ioHandle.bytesPerSector n] at h hdata ⊢
    rw [readFileIOHandle_eq_fill hpos table reversed freshMemory hdata] at h
    injection h with h
    injection h with htable hreversed
    rw [Nat.mul_div_cancel n hpos]
    exact ⟨length_of_readAt hdata, htable, hreversed⟩

end Number

/-! ### The entries of 16 and 32 bits -/

section Decode

variable {format : FileSystemFormat}

theorem entryDataSize_cases (hformat : format ≠ .fat12) :
    (format = .fat16 ∧ entryDataSize format = 2) ∨
      (format ≠ .fat16 ∧ entryDataSize format = 4) := by
  cases format with
  | fat12 => exact absurd rfl hformat
  | fat16 => exact Or.inl ⟨rfl, rfl⟩
  | unknown => exact Or.inr ⟨FileSystemFormat.noConfusion, rfl⟩
  | exfat => exact Or.inr ⟨FileSystemFormat.noConfusion, rfl⟩
  | fat32 => exact Or.inr ⟨FileSystemFormat.noConfusion, rfl⟩

theorem storedEntry_of_le {tableData : List UInt8} {offset : Nat}
    (h : tableData.length ≤ offset) : storedEntry format tableData offset = 0 := by
  have h16 (index : Nat) (hle : tableData.length ≤ index) : uint16At tableData index = 0 := by
    rw [uint16At, byteAt_of_le hle, byteAt_of_le (Nat.le_add_right_of_le hle), Nat.mul_zero]
  rw [storedEntry, uint32At, h16 _ h, h16 _ (by omega)]
  split <;> rfl

/-- An entry has the bytes of its place, and no others. -/
theorem storedEntry_congr (hformat : format ≠ .fat12) {first second : List UInt8} {i j : Nat}
    (h : ∀ k < entryDataSize format, byteAt first (i + k) = byteAt second (j + k)) :
    storedEntry format first i = storedEntry format second j := by
  rcases entryDataSize_cases hformat with ⟨h16, hsize⟩ | ⟨h16, hsize⟩
  · rw [hsize] at h
    rw [storedEntry, storedEntry, if_pos h16, if_pos h16]
    exact uint16At_congr h
  · rw [hsize] at h
    rw [storedEntry, storedEntry, if_neg h16, if_neg h16]
    exact uint32At_congr h

/-- No entry lies in two sectors, so that an entry of a sector is one of the table. -/
theorem tableEntry_wide (hformat : format ≠ .fat12) {bytes m : Nat} (hm : 0 < m)
    (hbytes : bytes = entryDataSize format * m) (table : List UInt8) (i : Nat) :
    entriesPerSector format bytes = m ∧
      tableEntry format table bytes i =
        (storedEntry format table (entryDataSize format * i),
          storedEntry format table (entryDataSize format * i)) := by
  have hsize := entryDataSize_pos format
  have hperSector : entriesPerSector format bytes = m := by
    rw [entriesPerSector, entriesPerIteration, if_neg hformat, Nat.one_mul, hbytes,
      Nat.add_sub_assoc hsize, Nat.mul_add_div hsize, Nat.div_eq_of_lt (by omega), Nat.add_zero]
  refine ⟨hperSector, ?_⟩
  have hentry : storedEntry format
      ((table.drop (i / m * bytes)).take bytes ++ [0, 0]) (entryDataSize format * (i % m)) =
        storedEntry format table (entryDataSize format * i) := by
    apply storedEntry_congr hformat
    intro k hk
    have hin : entryDataSize format * (i % m) + k < bytes := by
      have hmul := Nat.mul_le_mul_left (entryDataSize format) (Nat.mod_lt i hm)
      rw [Nat.mul_succ, ← hbytes] at hmul
      omega
    have hplace : i / m * bytes + entryDataSize format * (i % m) = entryDataSize format * i := by
      calc i / m * bytes + entryDataSize format * (i % m)
          = entryDataSize format * (m * (i / m) + i % m) := by rw [hbytes]; ring
        _ = entryDataSize format * i := by rw [Nat.div_add_mod]
    rw [byteAt_sector, if_pos hin, ← Nat.add_assoc, hplace]
  rw [tableEntry, hperSector, sectorEntry, if_neg hformat, hentry]

/-- What is filled at an index of a new table: the entry that is stored there, and
zero where none is. -/
theorem fill_wide (hformat : format ≠ .fat12) {bytes m n : Nat} (hm : 0 < m)
    (hbytes : bytes = entryDataSize format * m) {data : List UInt8}
    (hdata : data.length = n * bytes) {table : AllocationTable}
    (htable : ∀ i, table.clusterNumbers.getD i 0 = 0) (reversedTable : Option AllocationTable)
    {i : Nat} (hi : i < table.numberOfClusterNumbers) :
    (ReadState.fill (tableEntry format data bytes) (entriesPerSector format bytes * n)
      ⟨table, reversedTable, 0⟩).allocationTable.clusterNumbers.getD i 0 =
        storedEntry format data (entryDataSize format * i) := by
  obtain ⟨hperSector, hentry⟩ := tableEntry_wide hformat hm hbytes data i
  rw [hperSector]
  by_cases hlt : i < m * n
  · rw [fill_getD _ (tableEntry_lt _ _ _) table reversedTable hi hlt, hentry]
  · have hbeyond : data.length ≤ entryDataSize format * i := by
      calc data.length = entryDataSize format * (m * n) := by
            rw [hdata, hbytes]
            ring
        _ ≤ entryDataSize format * i := Nat.mul_le_mul_left _ (Nat.le_of_not_lt hlt)
    have hstart : ReadState.RestZero ⟨table, reversedTable, 0⟩ := fun i _ => htable i
    rw [storedEntry_of_le hbeyond]
    apply hstart.fill
    rw [ReadState.fill_tableIndex _ (Nat.zero_le _), Nat.zero_add]
    exact le_trans (Nat.min_le_right _ _) (Nat.le_of_not_lt hlt)

/-- The entries of a new table after a read that succeeds: those of the stored
table as far as it goes, and zero behind it. No sector has a part of an entry,
as with the sectors of a boot record. -/
theorem readFileIOHandle_stored {ioHandle : IoHandle} {image : List UInt8} {fileOffset : Int}
    {size : Nat} {table table' : AllocationTable}
    {reversedTable reversedTable' : Option AllocationTable} {freshMemory : Nat → UInt8}
    (hformat : ioHandle.fileSystemFormat ≠ .fat12)
    (hbytes : entryDataSize ioHandle.fileSystemFormat ∣ ioHandle.bytesPerSector)
    (hsize : ioHandle.bytesPerSector ∣ size) (hzero : ∀ i, table.clusterNumbers.getD i 0 = 0)
    (h : table.readFileIOHandle reversedTable ioHandle image freshMemory fileOffset size =
      .ok (table', reversedTable')) {i : Nat} (hi : i < table.numberOfClusterNumbers) :
    table'.clusterNumbers.getD i 0 =
      storedEntry ioHandle.fileSystemFormat ((image.drop fileOffset.toNat).take size)
        (entryDataSize ioHandle.fileSystemFormat * i) := by
  obtain ⟨hpos, _⟩ := readFileIOHandle_ok h
  obtain ⟨hlength, rfl, _⟩ := readFileIOHandle_filled hsize h
  obtain ⟨m, hm⟩ := hbytes
  exact fill_wide hformat (Nat.pos_of_mul_pos_left (hm ▸ hpos)) hm
    (hlength.trans (Nat.div_mul_cancel hsize).symm) hzero reversedTable hi

end Decode

end AllocationTable

/-! ### The tables of a file system -/

/-- The part of `libfsfat_file_system_read_allocation_table` that makes the
reversed table, which exFAT does not have. -/
def createReversedTable (ioHandle : IoHandle) : Except Error (Option AllocationTable) :=
  if ioHandle.fileSystemFormat ∈ [.fat12, .fat16, .fat32] then
    (AllocationTable.create ioHandle.totalNumberOfClusters).map some
  else .ok none

/-- `libfsfat_file_system_read_allocation_table`, for a file system that has no
tables yet. -/
def readAllocationTable (ioHandle : IoHandle) (image : List UInt8) (freshMemory : Nat → UInt8)
    (fileOffset : Int) (size : Nat) : Except Error FileSystem := do
  let allocationTable ← AllocationTable.create ioHandle.totalNumberOfClusters
  let reversedAllocationTable ← createReversedTable ioHandle
  let (allocationTable, reversedAllocationTable) ←
    allocationTable.readFileIOHandle reversedAllocationTable ioHandle image freshMemory fileOffset
      size
  pure { ioHandle, allocationTable, reversedAllocationTable }

/-- The number of bits of an entry of the table. -/
def entryBits : FileSystemFormat → Nat
  | .fat12 => 12
  | .fat16 => 16
  | _ => 32

/-- A lookup of a cluster in the table gives a value, and other than for FAT-12
the one that is stored for the cluster in the image. -/
def IsFollowed (fs : FileSystem) (image : List UInt8) (tableOffset : Int) (c : Nat) : Prop :=
  ∃ value, fs.allocationTable.getClusterNumberByIndex c = .ok value ∧
    (fs.ioHandle.fileSystemFormat ≠ .fat12 →
      value = AllocationTable.storedEntry fs.ioHandle.fileSystemFormat
        (image.drop tableOffset.toNat)
        (AllocationTable.entryDataSize fs.ioHandle.fileSystemFormat * c))

section Tables

open AllocationTable BootRecord

variable {ioHandle : IoHandle} {image : List UInt8} {freshMemory : Nat → UInt8}
  {fileOffset : Int} {size : Nat} {fs : FileSystem}

theorem create_eq_ok {total : Nat} {table : AllocationTable}
    (h : AllocationTable.create total = .ok table) :
    table.numberOfClusterNumbers = total ∧ ∀ i, table.clusterNumbers.getD i 0 = 0 := by
  unfold AllocationTable.create at h
  split at h
  · cases h
  · injection h with h
    subst h
    refine ⟨List.length_replicate, fun i => ?_⟩
    rw [AllocationTable.zeroed, List.getD_eq_getElem?_getD, List.getElem?_replicate]
    split <;> rfl

theorem readAllocationTable_eq_ok
    (h : readAllocationTable ioHandle image freshMemory fileOffset size = .ok fs) :
    fs.ioHandle = ioHandle ∧
      ∃ (table : AllocationTable) (reversedTable : Option AllocationTable),
        table.numberOfClusterNumbers = ioHandle.totalNumberOfClusters ∧
        (∀ i, table.clusterNumbers.getD i 0 = 0) ∧
        table.readFileIOHandle reversedTable ioHandle image freshMemory fileOffset size =
          .ok (fs.allocationTable, fs.reversedAllocationTable) := by
  obtain ⟨table, htable, h⟩ := bind_eq_ok_iff.mp h
  obtain ⟨reversedTable, _, h⟩ := bind_eq_ok_iff.mp h
  obtain ⟨tables, htables, h⟩ := bind_eq_ok_iff.mp h
  injection h with h
  subst h
  obtain ⟨hnumber, hzero⟩ := create_eq_ok htable
  exact ⟨rfl, table, reversedTable, hnumber, hzero, htables⟩

/-- A table has one entry for each cluster of the volume. -/
theorem readAllocationTable_number
    (h : readAllocationTable ioHandle image freshMemory fileOffset size = .ok fs) :
    fs.allocationTable.numberOfClusterNumbers = ioHandle.totalNumberOfClusters := by
  obtain ⟨_, table, reversedTable, hnumber, _, hread⟩ := readAllocationTable_eq_ok h
  rw [(readFileIOHandle_ok hread).2.1, hnumber]

/-- The entries of 16 and 32 bits are those that are stored, and zero for the
clusters that the stored table has no entry for. -/
theorem readAllocationTable_stored
    (h : readAllocationTable ioHandle image freshMemory fileOffset size = .ok fs)
    (hformat : ioHandle.fileSystemFormat ≠ .fat12)
    (hbytes : entryDataSize ioHandle.fileSystemFormat ∣ ioHandle.bytesPerSector)
    (hsize : ioHandle.bytesPerSector ∣ size) {data : List UInt8}
    (hdata : readAt image fileOffset size = some data) {c : Nat}
    (hc : c < ioHandle.totalNumberOfClusters) :
    fs.allocationTable.clusterNumbers.getD c 0 =
      storedEntry ioHandle.fileSystemFormat data
        (entryDataSize ioHandle.fileSystemFormat * c) := by
  obtain ⟨_, table, reversedTable, hnumber, hzero, hread⟩ := readAllocationTable_eq_ok h
  obtain ⟨_, _, rfl⟩ := readAt_eq_some_iff.mp hdata
  exact readFileIOHandle_stored hformat hbytes hsize hzero hread (by rw [hnumber]; exact hc)

/-- The entries of 16 and 32 bits are those of the image. -/
theorem readAllocationTable_entry
    (h : readAllocationTable ioHandle image freshMemory fileOffset size = .ok fs)
    (hformat : ioHandle.fileSystemFormat ≠ .fat12)
    (hbytes : entryDataSize ioHandle.fileSystemFormat ∣ ioHandle.bytesPerSector)
    (hsize : ioHandle.bytesPerSector ∣ size) {c : Nat}
    (hc : c < ioHandle.totalNumberOfClusters)
    (hentry : entryDataSize ioHandle.fileSystemFormat * (c + 1) ≤ size) :
    fs.allocationTable.clusterNumbers.getD c 0 =
      storedEntry ioHandle.fileSystemFormat (image.drop fileOffset.toNat)
        (entryDataSize ioHandle.fileSystemFormat * c) := by
  obtain ⟨_, table, reversedTable, _, _, hread⟩ := readAllocationTable_eq_ok h
  obtain ⟨_, _, himage⟩ := readFileIOHandle_ok hread
  have hentryPos : 0 < entryDataSize ioHandle.fileSystemFormat := by
    rcases entryDataSize_cases hformat with ⟨_, h2⟩ | ⟨_, h4⟩ <;> omega
  obtain ⟨h0, hle⟩ := himage hsize
    (lt_of_lt_of_le (Nat.mul_pos hentryPos (Nat.succ_pos c)) hentry)
  rw [readAllocationTable_stored h hformat hbytes hsize (readAt_of_le h0 hle) hc]
  apply storedEntry_congr hformat
  intro k hk
  apply byteAt_take_of_lt
  rw [Nat.mul_succ] at hentry
  omega

theorem readAllocationTable_totalNumberOfClusters_pos
    (h : readAllocationTable ioHandle image freshMemory fileOffset size = .ok fs) :
    0 < ioHandle.totalNumberOfClusters := by
  rw [← readAllocationTable_number h]
  exact fs.allocationTable.length_pos

/-- The tables of an accepted boot record: a cluster is followed if it is below
the number of clusters. -/
theorem isFollowed_iff_lt {bootRecord : BootRecord} (haccepted : bootRecord.IsAccepted)
    {volumeSize : Nat}
    (h : readAllocationTable (bootRecord.ioHandle volumeSize) image freshMemory
      bootRecord.allocationTableOffset bootRecord.allocationTableSize = .ok fs) {c : Nat}
    (hentry : entryBits bootRecord.fileSystemFormat * (c + 1) ≤
      8 * bootRecord.allocationTableSize) :
    IsFollowed fs image bootRecord.allocationTableOffset c ↔
      c < bootRecord.totalNumberOfClusters := by
  have hnumber : fs.allocationTable.numberOfClusterNumbers = bootRecord.totalNumberOfClusters :=
    readAllocationTable_number h
  constructor
  · rintro ⟨value, hvalue, _⟩
    have hlt := (getClusterNumberByIndex_eq_ok_iff.mp hvalue).2.1
    rw [hnumber] at hlt
    exact_mod_cast hlt
  · intro hlt
    refine ⟨_, getClusterNumberByIndex_of_lt (by rw [hnumber]; exact hlt), ?_⟩
    have hio : fs.ioHandle = bootRecord.ioHandle volumeSize := (readAllocationTable_eq_ok h).1
    rw [hio]
    intro hformat
    obtain ⟨k, hk, _, hbytes⟩ := haccepted.bytesPerSector
    have hformat' : bootRecord.fileSystemFormat ≠ .fat12 := hformat
    have hbits : entryBits bootRecord.fileSystemFormat =
        8 * entryDataSize bootRecord.fileSystemFormat := by
      cases hcase : bootRecord.fileSystemFormat with
      | fat12 => exact absurd hcase hformat'
      | unknown => rfl
      | exfat => rfl
      | fat16 => rfl
      | fat32 => rfl
    have hdvd : entryDataSize bootRecord.fileSystemFormat ∣ 2 ^ k := by
      rcases entryDataSize_cases hformat' with ⟨_, h2⟩ | ⟨_, h4⟩
      · rw [h2]
        exact Nat.pow_dvd_pow 2 (by omega : 1 ≤ k)
      · rw [h4]
        exact Nat.pow_dvd_pow 2 (by omega : 2 ≤ k)
    rw [hbits, Nat.mul_assoc] at hentry
    rw [← hbytes] at hdvd
    exact readAllocationTable_entry h hformat hdvd haccepted.allocationTableSize hlt
      (Nat.le_of_mul_le_mul_left hentry (by decide))

/-- Of the clusters with an entry in the table of the volume, those from the
number of clusters on are not followed. All are followed exactly if the table of
the volume has no entry for the first of these. -/
theorem clusters_followed_iff {data : List UInt8} {bootRecord : BootRecord}
    (haccepted : BootRecord.readData data = .ok bootRecord) (volumeSize : Nat)
    (hread : readAllocationTable (bootRecord.ioHandle volumeSize) image freshMemory
      bootRecord.allocationTableOffset bootRecord.allocationTableSize = .ok fs) :
    let total := bootRecord.totalNumberOfClusters
    let bits := entryBits bootRecord.fileSystemFormat
    let tableBits := 8 * bootRecord.allocationTableSize
    (∀ c, 2 ≤ c → c < total + 2 → bits * (c + 1) ≤ tableBits →
      (IsFollowed fs image bootRecord.allocationTableOffset c ↔ c < total)) ∧
    ((∀ c, 2 ≤ c → c < total + 2 → bits * (c + 1) ≤ tableBits →
      IsFollowed fs image bootRecord.allocationTableOffset c) ↔
        tableBits < bits * (max 2 total + 1)) := by
  dsimp only
  have hiff (c : Nat) (hentry : entryBits bootRecord.fileSystemFormat * (c + 1) ≤
      8 * bootRecord.allocationTableSize) :
      IsFollowed fs image bootRecord.allocationTableOffset c ↔
        c < bootRecord.totalNumberOfClusters :=
    isFollowed_iff_lt (BootRecord.readData_isAccepted haccepted) hread hentry
  have hpos : 0 < bootRecord.totalNumberOfClusters :=
    readAllocationTable_totalNumberOfClusters_pos hread
  refine ⟨fun c _ _ hentry => hiff c hentry, ?_⟩
  constructor
  · intro hall
    by_contra hle
    -- The first entry that is left out has a number from two on.
    have hentry := Nat.le_of_not_lt hle
    have hfollowed := hall _ (Nat.le_max_left 2 _) (by omega) hentry
    have hlt := (hiff _ hentry).mp hfollowed
    omega
  · intro hlt c hc _ hentry
    apply (hiff c hentry).mpr
    have hsucc : c + 1 < max 2 bootRecord.totalNumberOfClusters + 1 :=
      Nat.lt_of_mul_lt_mul_left (lt_of_le_of_lt hentry hlt)
    omega

/-- Each of the clusters 2 to 5 ends its chain. -/
def exfatFullImage : List UInt8 :=
  exfatBootSector ++ List.replicate 24 0xff ++ List.replicate 2536 0

theorem exfatFullImage_reads :
    ∃ fs, readAllocationTable (exfatBootRecord.ioHandle 3072) exfatFullImage (fun _ => 0) 512 512 =
      .ok fs :=
  exists_eq_ok_of_isOk (by decide +kernel)

/-- The volume has four clusters, of which its table has entries for all. -/
theorem clusters_followed_iff_exfat :
    ∃ fs, readAllocationTable (exfatBootRecord.ioHandle 3072) exfatFullImage (fun _ => 0) 512 512 =
        .ok fs ∧
      (∀ c, 2 ≤ c → c < 4 + 2 → 32 * (c + 1) ≤ 8 * 512 →
        (IsFollowed fs exfatFullImage 512 c ↔ c < 4)) ∧
      ((∀ c, 2 ≤ c → c < 4 + 2 → 32 * (c + 1) ≤ 8 * 512 → IsFollowed fs exfatFullImage 512 c) ↔
        8 * 512 < 32 * (max 2 4 + 1)) := by
  obtain ⟨fs, hread⟩ := exfatFullImage_reads
  exact ⟨fs, hread, clusters_followed_iff readData_exfatBootSector 3072 hread⟩

/-- Clusters 4 and 5 of the volume have an entry in its table and are not
followed. -/
theorem last_clusters_not_followed :
    BootRecord.readData (exfatFullImage.take 512) = .ok exfatBootRecord ∧
    ∃ fs, readAllocationTable (exfatBootRecord.ioHandle 3072) exfatFullImage (fun _ => 0)
        exfatBootRecord.allocationTableOffset exfatBootRecord.allocationTableSize = .ok fs ∧
      ∀ c ∈ [4, 5], 2 ≤ c ∧ c < exfatBootRecord.totalNumberOfClusters + 2 ∧
        entryBits exfatBootRecord.fileSystemFormat * (c + 1) ≤
          8 * exfatBootRecord.allocationTableSize ∧
        ¬ IsFollowed fs exfatFullImage exfatBootRecord.allocationTableOffset c := by
  obtain ⟨fs, hread⟩ := exfatFullImage_reads
  refine ⟨by decide +kernel, fs, hread, ?_⟩
  intro c hc
  have hrange : 2 ≤ c ∧ c < exfatBootRecord.totalNumberOfClusters + 2 ∧
      entryBits exfatBootRecord.fileSystemFormat * (c + 1) ≤
        8 * exfatBootRecord.allocationTableSize ∧
      ¬ c < exfatBootRecord.totalNumberOfClusters := by
    revert c
    decide
  refine ⟨hrange.1, hrange.2.1, hrange.2.2.1, ?_⟩
  intro hfollowed
  apply hrange.2.2.2
  exact (isFollowed_iff_lt (BootRecord.readData_isAccepted readData_exfatBootSector) hread
    hrange.2.2.1).mp hfollowed

/-! ### The entries of new tables -/

/-- What the function reads from a table of whole sectors into new tables of `N`
cluster numbers: the entries of the stored table, and zero from the first entry
that is not there. The formats are those of 16 and 32 bits, and no entry lies in
two sectors: the sectors of a boot record have a multiple of 512 bytes. -/
theorem readFileIOHandle_entries {N : Nat} {table table' : AllocationTable}
    {reversedTable reversedTable' : Option AllocationTable}
    (hformat : ioHandle.fileSystemFormat ∈ [.fat16, .fat32, .exfat])
    (hbytes : entryDataSize ioHandle.fileSystemFormat ∣ ioHandle.bytesPerSector)
    (hsize : ioHandle.bytesPerSector ∣ size) (hcreate : AllocationTable.create N = .ok table)
    (h : table.readFileIOHandle reversedTable ioHandle image freshMemory fileOffset size =
      .ok (table', reversedTable')) :
    let data := (image.drop fileOffset.toNat).take size
    data.length = size ∧ table'.numberOfClusterNumbers = N ∧
      ∀ i < N, table'.clusterNumbers.getD i 0 =
        if ioHandle.fileSystemFormat = .fat16 then
          if 2 * i + 2 ≤ size then uint16At data (2 * i) else 0
        else if 4 * i + 4 ≤ size then uint32At data (4 * i) else 0 := by
  dsimp only
  have hne : ioHandle.fileSystemFormat ≠ .fat12 := by
    intro hfat12
    rw [hfat12] at hformat
    exact absurd hformat (by decide)
  obtain ⟨hnumber, hzero⟩ := create_eq_ok hcreate
  obtain ⟨_, hnumber', himage⟩ := readFileIOHandle_ok h
  have hlength : ((image.drop fileOffset.toNat).take size).length = size := by
    rw [List.length_take, List.length_drop]
    rcases Nat.eq_zero_or_pos size with rfl | hpos
    · exact Nat.zero_min _
    · obtain ⟨_, hle⟩ := himage hsize hpos
      omega
  refine ⟨hlength, hnumber'.trans hnumber, ?_⟩
  intro i hi
  rw [readFileIOHandle_stored hne hbytes hsize hzero h (hnumber ▸ hi)]
  -- A table of whole sectors has no part of an entry at its end.
  obtain ⟨m, hm⟩ := hbytes.trans hsize
  have hbehind (hle : size ≤ entryDataSize ioHandle.fileSystemFormat * i) :
      storedEntry ioHandle.fileSystemFormat ((image.drop fileOffset.toNat).take size)
        (entryDataSize ioHandle.fileSystemFormat * i) = 0 :=
    storedEntry_of_le (hlength.symm ▸ hle)
  rcases entryDataSize_cases hne with ⟨h16, hentry⟩ | ⟨h16, hentry⟩
  · rw [hentry] at hm hbehind ⊢
    rw [if_pos h16]
    split
    · exact if_pos h16
    · exact hbehind (by omega)
  · rw [hentry] at hm hbehind ⊢
    rw [if_neg h16]
    split
    · exact if_neg h16
    · exact hbehind (by omega)

theorem readFileIOHandle_entries_exfat :
    ∃ table table' reversedTable',
      AllocationTable.create 4 = .ok table ∧
      table.readFileIOHandle none (exfatBootRecord.ioHandle 3072) exfatFullImage (fun _ => 0) 512
        512 = .ok (table', reversedTable') ∧
      (let data := (exfatFullImage.drop (512 : Int).toNat).take 512
      data.length = 512 ∧ table'.numberOfClusterNumbers = 4 ∧
        ∀ i < 4, table'.clusterNumbers.getD i 0 =
          if (exfatBootRecord.ioHandle 3072).fileSystemFormat = .fat16 then
            if 2 * i + 2 ≤ 512 then uint16At data (2 * i) else 0
          else if 4 * i + 4 ≤ 512 then uint32At data (4 * i) else 0) := by
  have hread : ∃ tables, (zeroed 4 (by decide) (by decide)).readFileIOHandle none
      (exfatBootRecord.ioHandle 3072) exfatFullImage (fun _ => 0) 512 512 = .ok tables :=
    exists_eq_ok_of_isOk (by decide +kernel)
  obtain ⟨⟨table', reversedTable'⟩, hread⟩ := hread
  exact ⟨_, table', reversedTable', rfl, hread,
    readFileIOHandle_entries (by decide) (by decide) (by decide) rfl hread⟩

end Tables

end FsFat
