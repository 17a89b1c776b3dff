import FsFat.AllocationTable

/-!
The loops that read an allocation table fill its entries one after the other,
until the table is full or there are no more sectors. What they put at an index
follows from the bytes of one sector of the table, with two zero bytes behind it.
-/

namespace FsFat

open Bytes

namespace AllocationTable

/-! ### Filling one entry after the other -/

namespace ReadState

@[simp] theorem store_tableIndex (s : ReadState) (compared value : Nat) :
    (s.store compared value).tableIndex = s.tableIndex + 1 := rfl

@[simp] theorem store_numberOfClusterNumbers (s : ReadState) (compared value : Nat) :
    (s.store compared value).allocationTable.numberOfClusterNumbers =
      s.allocationTable.numberOfClusterNumbers :=
  List.length_set

theorem isFull_iff (s : ReadState) :
    s.isFull = true ↔ s.allocationTable.numberOfClusterNumbers ≤ s.tableIndex := by
  simp [isFull]

/-- The number of entries that a sector gives is filled, as far as there is room.
An entry is the number that is compared and the number that is stored. -/
def fill (entry : Nat → Nat × Nat) : Nat → ReadState → ReadState
  | 0, s => s
  | count + 1, s =>
    fill entry count
      (if s.isFull then s else s.store (entry s.tableIndex).1 (entry s.tableIndex).2)

section Fill

variable {entry : Nat → Nat × Nat}

theorem fill_add (first second : Nat) (s : ReadState) :
    fill entry (first + second) s = fill entry second (fill entry first s) := by
  induction first generalizing s with
  | zero => rw [Nat.zero_add, fill]
  | succ first ih => rw [Nat.add_right_comm, fill, fill, ih]

theorem fill_mul_succ (size count : Nat) (s : ReadState) :
    fill entry (size * (count + 1)) s = fill entry (size * count) (fill entry size s) := by
  rw [Nat.mul_succ, Nat.add_comm, fill_add]

/-- What each entry that is filled keeps, the whole run keeps. -/
theorem fill_induction {motive : ReadState → Prop} {s : ReadState} (h : motive s)
    (hstore : ∀ s, motive s → s.tableIndex < s.allocationTable.numberOfClusterNumbers →
      motive (s.store (entry s.tableIndex).1 (entry s.tableIndex).2)) (count : Nat) :
    motive (s.fill entry count) := by
  induction count generalizing s with
  | zero => exact h
  | succ count ih =>
    rw [fill]
    split
    · exact ih h
    · next hfull =>
      rw [s.isFull_iff, Nat.not_le] at hfull
      exact ih (hstore s h hfull)

@[simp] theorem fill_numberOfClusterNumbers (s : ReadState) (count : Nat) :
    (s.fill entry count).allocationTable.numberOfClusterNumbers =
      s.allocationTable.numberOfClusterNumbers :=
  fill_induction (motive := fun s' => s'.allocationTable.numberOfClusterNumbers =
    s.allocationTable.numberOfClusterNumbers) rfl
    (fun s' h _ => (s'.store_numberOfClusterNumbers _ _).trans h) count

theorem fill_tableIndex (entry : Nat → Nat × Nat) {s : ReadState}
    (h : s.tableIndex ≤ s.allocationTable.numberOfClusterNumbers) (count : Nat) :
    (s.fill entry count).tableIndex =
      min s.allocationTable.numberOfClusterNumbers (s.tableIndex + count) := by
  induction count generalizing s with
  | zero => exact (Nat.min_eq_right h).symm
  | succ count ih =>
    rw [fill]
    split
    · next hfull =>
      rw [s.isFull_iff] at hfull
      rw [ih h]
      omega
    · next hfull =>
      rw [s.isFull_iff, Nat.not_le] at hfull
      rw [ih (by simpa using hfull), store_tableIndex, store_numberOfClusterNumbers]
      omega

end Fill

/-- The entries before the table index have the values of `f`. -/
def Filled (s : ReadState) (f : Nat → Nat) : Prop :=
  s.tableIndex ≤ s.allocationTable.numberOfClusterNumbers ∧
    ∀ i < s.tableIndex, s.allocationTable.clusterNumbers.getD i 0 = f i

theorem Filled.store {s : ReadState} {f : Nat → Nat} (h : s.Filled f) {value : Nat}
    (compared : Nat) (hroom : s.tableIndex < s.allocationTable.numberOfClusterNumbers)
    (hvalue : value = f s.tableIndex) (hlt : value < 2 ^ 32) :
    (s.store compared value).Filled f := by
  refine ⟨by simpa using hroom, fun i hi => ?_⟩
  show (s.allocationTable.clusterNumbers.set s.tableIndex (value % 2 ^ 32)).getD i 0 = f i
  rw [Nat.mod_eq_of_lt hlt]
  have hlen : i < s.allocationTable.clusterNumbers.length := by
    simp only [store_tableIndex] at hi
    exact lt_of_lt_of_le hi hroom
  rw [List.getD_eq_getElem _ _ (by simpa using hlen), List.getElem_set]
  split
  · next heq => rw [← heq, hvalue]
  · next hne =>
    rw [← List.getD_eq_getElem _ 0 hlen]
    simp only [store_tableIndex] at hi
    exact h.2 i (by omega)

theorem Filled.fill {entry : Nat → Nat × Nat} {s : ReadState}
    (h : s.Filled fun i => (entry i).2) (hlt : ∀ i, (entry i).2 < 2 ^ 32) (count : Nat) :
    (s.fill entry count).Filled fun i => (entry i).2 :=
  fill_induction (motive := fun s => s.Filled fun i => (entry i).2) h
    (fun _ h hroom => h.store _ hroom rfl (hlt _)) count

/-- The entries from the table index on are zero, as in a new table. -/
def RestZero (s : ReadState) : Prop :=
  ∀ i, s.tableIndex ≤ i → s.allocationTable.clusterNumbers.getD i 0 = 0

theorem RestZero.store {s : ReadState} (h : s.RestZero) (compared value : Nat) :
    (s.store compared value).RestZero := by
  intro i hi
  rw [store_tableIndex] at hi
  have hset : (s.store compared value).allocationTable.clusterNumbers =
      s.allocationTable.clusterNumbers.set s.tableIndex (value % 2 ^ 32) := rfl
  rw [hset, List.getD_eq_getElem?_getD, List.getElem?_set_ne (by omega),
    ← List.getD_eq_getElem?_getD]
  exact h i (by omega)

theorem RestZero.fill {entry : Nat → Nat × Nat} {s : ReadState} (h : s.RestZero) (count : Nat) :
    (s.fill entry count).RestZero :=
  fill_induction (motive := RestZero) h (fun _ h _ => h.store _ _) count

end ReadState

/-! ### The entries of a sector -/

/-- The 12-bit entry of a packed table: the low 12 bits of three bytes for an
even index, and the high 12 bits for an odd one. -/
def fat12Entry (table : List UInt8) (index : Nat) : Nat :=
  if index % 2 = 0 then uint24At table (3 * (index / 2)) % 2 ^ 12
  else uint24At table (3 * (index / 2)) / 2 ^ 12

/-- The entry at an offset of a table with 16-bit or 32-bit entries. -/
def storedEntry (format : FileSystemFormat) (tableData : List UInt8) (offset : Nat) : Nat :=
  if format = .fat16 then uint16At tableData offset else uint32At tableData offset

/-- The numbers that are compared and stored for an entry of a sector. -/
def sectorEntry (format : FileSystemFormat) (tableData : List UInt8) (index : Nat) : Nat × Nat :=
  if format = .fat12 then
    (if index % 2 = 0 then uint24At tableData (3 * (index / 2)) else fat12Entry tableData index,
      fat12Entry tableData index)
  else
    (storedEntry format tableData (entryDataSize format * index),
      storedEntry format tableData (entryDataSize format * index))

/-- The number of entries that an iteration of the inner loop takes. -/
def entriesPerIteration (format : FileSystemFormat) : Nat := if format = .fat12 then 2 else 1

/-- The number of entries that are taken from a whole sector. -/
def entriesPerSector (format : FileSystemFormat) (bytesPerSector : Nat) : Nat :=
  entriesPerIteration format *
    ((bytesPerSector + entryDataSize format - 1) / entryDataSize format)

/-- The numbers for an entry of a table: counted from the start of a sector, with
zero bytes behind it. -/
def tableEntry (format : FileSystemFormat) (table : List UInt8) (bytesPerSector index : Nat) :
    Nat × Nat :=
  let count := entriesPerSector format bytesPerSector
  let sector := (table.drop (index / count * bytesPerSector)).take bytesPerSector
  sectorEntry format (sector ++ [0, 0]) (index % count)

theorem entryDataSize_pos (format : FileSystemFormat) : 0 < entryDataSize format := by
  unfold entryDataSize
  split <;> decide

theorem fat12Entry_lt (table : List UInt8) (index : Nat) : fat12Entry table index < 2 ^ 12 := by
  have h16 := uint16At_lt table (3 * (index / 2))
  have h8 := byteAt_lt table (3 * (index / 2) + 2)
  unfold fat12Entry uint24At
  split <;> omega

theorem storedEntry_lt (format : FileSystemFormat) (tableData : List UInt8) (offset : Nat) :
    storedEntry format tableData offset < 2 ^ 32 := by
  have h16 := uint16At_lt tableData offset
  have h32 := uint32At_lt tableData offset
  unfold storedEntry
  split <;> omega

theorem tableEntry_lt (format : FileSystemFormat) (table : List UInt8)
    (bytesPerSector index : Nat) : (tableEntry format table bytesPerSector index).2 < 2 ^ 32 := by
  unfold tableEntry sectorEntry
  dsimp only
  split
  · exact (fat12Entry_lt _ _).trans (by norm_num)
  · exact storedEntry_lt _ _ _

/-! ### The loops fill the table -/

section Loops

variable {format : FileSystemFormat} {entry : Nat → Nat × Nat}

/-- An iteration for a pair of FAT-12 entries. -/
theorem readEntry_fat12 (tableData : List UInt8) (s : ReadState) (k : Nat) :
    readEntry .fat12 tableData s (3 * k) =
      if s.isFull then s
      else
        let first := sectorEntry .fat12 tableData (2 * k)
        let second := sectorEntry .fat12 tableData (2 * k + 1)
        if (s.store first.1 first.2).isFull then s.store first.1 first.2
        else (s.store first.1 first.2).store second.1 second.2 := by
  have hfirst : sectorEntry .fat12 tableData (2 * k) =
      (uint24At tableData (3 * k), uint24At tableData (3 * k) % 2 ^ 12) := by
    rw [sectorEntry, if_pos rfl, fat12Entry, if_pos (Nat.mul_mod_right 2 k),
      if_pos (Nat.mul_mod_right 2 k), Nat.mul_div_cancel_left k (by decide)]
  have hsecond : sectorEntry .fat12 tableData (2 * k + 1) =
      (uint24At tableData (3 * k) / 2 ^ 12, uint24At tableData (3 * k) / 2 ^ 12) := by
    have hodd : ¬ (2 * k + 1) % 2 = 0 := by omega
    have hhalf : (2 * k + 1) / 2 = k := by omega
    rw [sectorEntry, if_pos rfl, fat12Entry, if_neg hodd, if_neg hodd, hhalf]
  rw [hfirst, hsecond]
  rfl

/-- An iteration for an entry of 16 or 32 bits. -/
theorem readEntry_wide (hformat : format ≠ .fat12) (tableData : List UInt8) (s : ReadState)
    (k : Nat) :
    readEntry format tableData s (entryDataSize format * k) =
      if s.isFull then s
      else s.store (sectorEntry format tableData k).1 (sectorEntry format tableData k).2 := by
  rw [sectorEntry, if_neg hformat]
  cases format with
  | fat12 => exact absurd rfl hformat
  | unknown => rfl
  | exfat => rfl
  | fat16 => rfl
  | fat32 => rfl

/-- One iteration fills the two entries of a pair, or one entry. -/
theorem readEntry_eq_fill {s : ReadState} {tableData : List UInt8} {k : Nat}
    (h : ∀ j < entriesPerIteration format,
      s.tableIndex + j < s.allocationTable.numberOfClusterNumbers →
        entry (s.tableIndex + j) =
          sectorEntry format tableData (entriesPerIteration format * k + j)) :
    readEntry format tableData s (entryDataSize format * k) =
      s.fill entry (entriesPerIteration format) := by
  rcases eq_or_ne format .fat12 with rfl | hformat
  · have hfill : s.fill entry (entriesPerIteration .fat12) =
        let s' := if s.isFull then s else s.store (entry s.tableIndex).1 (entry s.tableIndex).2
        if s'.isFull then s' else s'.store (entry s'.tableIndex).1 (entry s'.tableIndex).2 := rfl
    rw [hfill]
    apply (readEntry_fat12 tableData s k).trans
    by_cases hfull : s.isFull = true
    · simp only [hfull, if_true]
    · have hroom := hfull
      rw [s.isFull_iff, Nat.not_le] at hroom
      have hfirst : entry s.tableIndex = sectorEntry .fat12 tableData (2 * k) :=
        h 0 (by decide) hroom
      simp only [hfull, Bool.false_eq_true, if_false, hfirst]
      split
      · rfl
      · next hfull' =>
        rw [ReadState.isFull_iff, ReadState.store_tableIndex,
          ReadState.store_numberOfClusterNumbers, Nat.not_le] at hfull'
        have hsecond : entry (s.tableIndex + 1) = sectorEntry .fat12 tableData (2 * k + 1) :=
          h 1 (by decide) hfull'
        rw [ReadState.store_tableIndex, hsecond]
  · have hone : entriesPerIteration format = 1 := if_neg hformat
    rw [hone] at h ⊢
    have hfill : s.fill entry 1 =
        if s.isFull then s else s.store (entry s.tableIndex).1 (entry s.tableIndex).2 := rfl
    rw [hfill, readEntry_wide hformat]
    split
    · rfl
    · next hfull =>
      rw [s.isFull_iff, Nat.not_le] at hfull
      have hfirst := h 0 (by decide) hfull
      rw [Nat.one_mul, Nat.add_zero, Nat.add_zero] at hfirst
      rw [hfirst]

/-- The inner loop fills the entries of its iterations. -/
theorem readEntries_eq_fill (tableData : List UInt8) (count k : Nat) {s : ReadState}
    (hle : s.tableIndex ≤ s.allocationTable.numberOfClusterNumbers)
    (h : ∀ j < entriesPerIteration format * count,
      s.tableIndex + j < s.allocationTable.numberOfClusterNumbers →
        entry (s.tableIndex + j) =
          sectorEntry format tableData (entriesPerIteration format * k + j)) :
    readEntries format tableData count (entryDataSize format * k) s =
      s.fill entry (entriesPerIteration format * count) := by
  induction count generalizing k s with
  | zero => rfl
  | succ count ih =>
    have hstep : readEntries format tableData (count + 1) (entryDataSize format * k) s =
        readEntries format tableData count (entryDataSize format * (k + 1))
          (readEntry format tableData s (entryDataSize format * k)) := rfl
    rw [Nat.mul_succ] at h
    rw [hstep, readEntry_eq_fill fun j hj hlt => h j (by omega) hlt, ReadState.fill_mul_succ]
    have hindex := ReadState.fill_tableIndex entry hle (entriesPerIteration format)
    apply ih
    · rw [hindex, ReadState.fill_numberOfClusterNumbers]
      exact Nat.min_le_left _ _
    · intro j hj hlt
      rw [hindex, ReadState.fill_numberOfClusterNumbers] at hlt
      have hroom : min s.allocationTable.numberOfClusterNumbers
          (s.tableIndex + entriesPerIteration format) =
            s.tableIndex + entriesPerIteration format := by omega
      rw [hindex, hroom, Nat.add_assoc, h _ (by omega) (by omega), Nat.mul_succ, Nat.add_assoc]

/-- The outer loop fills the entries sector by sector. -/
theorem readSectors_eq_fill {ioHandle : IoHandle} {image table : List UInt8} {fileOffset : Int}
    {n : Nat} (hbytes : 0 < ioHandle.bytesPerSector)
    (hread : readAt image fileOffset (n * ioHandle.bytesPerSector) = some table) (count q : Nat)
    (hq : q + count = n) {s : ReadState} {tableData : List UInt8}
    (htail : tableData.drop ioHandle.bytesPerSector = [0, 0])
    (hindex : s.tableIndex = min s.allocationTable.numberOfClusterNumbers
      (entriesPerSector ioHandle.fileSystemFormat ioHandle.bytesPerSector * q)) :
    readSectors ioHandle image count (fileOffset + (q * ioHandle.bytesPerSector : Nat))
        (count * ioHandle.bytesPerSector) tableData s =
      .ok (s.fill (tableEntry ioHandle.fileSystemFormat table ioHandle.bytesPerSector)
        (entriesPerSector ioHandle.fileSystemFormat ioHandle.bytesPerSector * count)) := by
  set bytes := ioHandle.bytesPerSector with hbytesDef
  set format := ioHandle.fileSystemFormat with hformatDef
  set perSector := entriesPerSector format bytes with hperSector
  have hperSectorPos : 0 < perSector := by
    have hentry := entryDataSize_pos format
    have hiteration : 0 < entriesPerIteration format := by
      unfold entriesPerIteration
      split <;> decide
    exact Nat.mul_pos hiteration (Nat.div_pos (by omega) hentry)
  induction count generalizing q s tableData with
  | zero => rfl
  | succ count ih =>
    have hsucc : (count + 1) * bytes = count * bytes + bytes := Nat.succ_mul _ _
    have hmin : min bytes ((count + 1) * bytes) = bytes := by omega
    have hsum : n * bytes = q * bytes + (count + 1) * bytes := by rw [← hq]; ring
    have hsector := readAt_sub hread (q * bytes) bytes (by omega)
    set sector := (table.drop (q * bytes)).take bytes with hsectorDef
    have hlength : sector.length = bytes := length_of_readAt hsector
    have hle : s.tableIndex ≤ s.allocationTable.numberOfClusterNumbers := by
      rw [hindex]
      exact Nat.min_le_left _ _
    have hinner : readEntries format (sector ++ [0, 0])
        ((bytes + entryDataSize format - 1) / entryDataSize format) 0 s =
          s.fill (tableEntry format table bytes) perSector := by
      apply readEntries_eq_fill _ _ 0 hle
      intro j hj hlt
      have hjlt : j < perSector := hj
      have hstart : s.tableIndex = perSector * q := by omega
      rw [hstart, tableEntry, ← hperSector, Nat.mul_add_div hperSectorPos, Nat.div_eq_of_lt hjlt,
        Nat.add_zero, Nat.mul_add_mod, Nat.mod_eq_of_lt hjlt, Nat.mul_zero, Nat.zero_add]
    have hpadding : (sector ++ ([0, 0] : List UInt8)).drop bytes = [0, 0] := by
      rw [← hlength, List.drop_left]
    have hindex' := ReadState.fill_tableIndex (tableEntry format table bytes) hle perSector
    have hrest := ih (q + 1) (by omega) hpadding (by
      rw [hindex', ReadState.fill_numberOfClusterNumbers, hindex, Nat.mul_succ]
      omega)
    have hremaining : (count + 1) * bytes - bytes = count * bytes := by omega
    have hoffset : fileOffset + ((q * bytes : Nat) : Int) + (bytes : Int) =
        fileOffset + ((q + 1) * bytes : Nat) := by
      push_cast
      ring
    rw [ReadState.fill_mul_succ]
    unfold readSectors
    simp only [← hbytesDef, ← hformatDef, hmin, hsector, htail, hinner, hremaining, hoffset]
    exact hrest

/-- A table of whole sectors has as many iterations. -/
theorem numberOfSectors_eq {bytes n : Nat} (hpos : 0 < bytes) :
    (n * bytes + bytes - 1) / bytes = n := by
  rw [Nat.add_sub_assoc hpos, Nat.mul_comm, Nat.mul_add_div hpos, Nat.div_eq_of_lt (by omega),
    Nat.add_zero]

/-- The function fills the tables with the entries of the sectors. -/
theorem readFileIOHandle_eq_fill {ioHandle : IoHandle} {image data : List UInt8} {fileOffset : Int}
    {n : Nat} (hbytes : 0 < ioHandle.bytesPerSector) (table : AllocationTable)
    (reversedTable : Option AllocationTable) (freshMemory : Nat → UInt8)
    (hread : readAt image fileOffset (n * ioHandle.bytesPerSector) = some data) :
    table.readFileIOHandle reversedTable ioHandle image freshMemory fileOffset
        (n * ioHandle.bytesPerSector) =
      let s := ReadState.fill (tableEntry ioHandle.fileSystemFormat data ioHandle.bytesPerSector)
        (entriesPerSector ioHandle.fileSystemFormat ioHandle.bytesPerSector * n)
        ⟨table, reversedTable, 0⟩
      .ok (s.allocationTable, s.reversedAllocationTable) := by
  have hpadding : ((List.range ioHandle.bytesPerSector).map freshMemory ++
      ([0, 0] : List UInt8)).drop ioHandle.bytesPerSector = [0, 0] :=
    List.drop_left' (by rw [List.length_map, List.length_range])
  have hsectors := readSectors_eq_fill hbytes hread n 0 (Nat.zero_add n) hpadding
    (s := ⟨table, reversedTable, 0⟩) (by rw [Nat.mul_zero, Nat.min_zero])
  rw [Nat.zero_mul, Nat.cast_zero, Int.add_zero] at hsectors
  simp only [readFileIOHandle, if_neg (Nat.ne_of_gt hbytes), numberOfSectors_eq hbytes, hsectors,
    bind, Except.bind, pure, Except.pure]

/-- What is filled at an index of the table. -/
theorem fill_getD (entry : Nat → Nat × Nat) (hlt : ∀ i, (entry i).2 < 2 ^ 32)
    (table : AllocationTable) (reversedTable : Option AllocationTable) {count i : Nat}
    (hi : i < table.numberOfClusterNumbers) (hcount : i < count) :
    (ReadState.fill entry count ⟨table, reversedTable, 0⟩).allocationTable.clusterNumbers.getD i 0 =
      (entry i).2 := by
  have hstart : ReadState.Filled ⟨table, reversedTable, 0⟩ fun i => (entry i).2 :=
    ⟨Nat.zero_le _, fun i hi => absurd hi (Nat.not_lt_zero i)⟩
  apply (hstart.fill hlt count).2
  rw [ReadState.fill_tableIndex entry (Nat.zero_le _), Nat.zero_add]
  exact lt_min hi hcount

end Loops

end AllocationTable

end FsFat
