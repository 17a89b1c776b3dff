import FsFat.AllocationTable
import FsFat.Lib.Loop

/-!
The accesses of `libfsfat_allocation_table_read_file_io_handle` to its buffers. The loops over the
sectors of the table and over the entries of a sector are one loop here, whose state has the
variables of the function and every access so far. It ends, leaves none of the buffers, and gives
the tables of `AllocationTable.readFileIOHandle`.
-/

namespace FsFat.AllocationTable

open Bytes

/-- An access to an element of a buffer, with its index. -/
inductive Access where
  | readTableData (index : Nat)
  | writeTableData (index : Nat)
  | writeClusterNumber (index : Nat)
  | writeReversedClusterNumber (index : Nat)
  deriving DecidableEq, Repr

/-- The element is one of the buffer. -/
def Access.IsInBounds (bytesPerSector numberOfClusterNumbers : Nat) : Access → Prop
  | .readTableData index => index < bytesPerSector + 2
  | .writeTableData index => index < bytesPerSector + 2
  | .writeClusterNumber index => index < numberOfClusterNumbers
  | .writeReversedClusterNumber index => index < numberOfClusterNumbers

instance (bytesPerSector numberOfClusterNumbers : Nat) :
    DecidablePred (Access.IsInBounds bytesPerSector numberOfClusterNumbers)
  | .readTableData index => inferInstanceAs (Decidable (index < bytesPerSector + 2))
  | .writeTableData index => inferInstanceAs (Decidable (index < bytesPerSector + 2))
  | .writeClusterNumber index => inferInstanceAs (Decidable (index < numberOfClusterNumbers))
  | .writeReversedClusterNumber index =>
    inferInstanceAs (Decidable (index < numberOfClusterNumbers))

/-- `libbfio_handle_read_buffer_at_offset`: from an offset and a size, the count that it returns
and the bytes that it puts at the start of the buffer. -/
abbrev BufferReader := Int → Nat → Int × List UInt8

/-- Reading from an image, all bytes or an error. -/
def imageReader (image : List UInt8) : BufferReader := fun offset size =>
  match readAt image offset size with
  | none => (-1, [])
  | some data => (size, data)

theorem length_imageReader_le (image : List UInt8) (offset : Int) (size : Nat) :
    (imageReader image offset size).2.length ≤ size := by
  unfold imageReader
  split
  · exact Nat.zero_le size
  · next hread => exact (length_of_readAt hread).le

/-- The variables of the function. The elements of the tables are those of `cluster_numbers`, the
inner loop is entered between two reads. -/
structure TableReader where
  clusterNumbers : List Nat
  reversedClusterNumbers : Option (List Nat)
  tableData : List UInt8
  readSize : Nat
  tableOffset : Nat
  fileOffset : Int
  inInnerLoop : Bool
  tableDataOffset : Nat
  tableIndex : Nat
  accesses : List Access

namespace TableReader

/-- The state before the outer loop, behind the two assignments at the end of the buffer. -/
def start (bytesPerSector : Nat) (freshMemory : Nat → UInt8) (fileOffset : Int)
    (clusterNumbers : List Nat) (reversedClusterNumbers : Option (List Nat)) : TableReader where
  clusterNumbers := clusterNumbers
  reversedClusterNumbers := reversedClusterNumbers
  tableData := (List.range bytesPerSector).map freshMemory ++ [0, 0]
  readSize := bytesPerSector
  tableOffset := 0
  fileOffset := fileOffset
  inInnerLoop := false
  tableDataOffset := 0
  tableIndex := 0
  accesses := [.writeTableData bytesPerSector, .writeTableData (bytesPerSector + 1)]

/-- The bytes that libbfio puts at the start of the buffer. -/
def fillBuffer (s : TableReader) (data : List UInt8) : TableReader :=
  { s with
    tableData := data ++ s.tableData.drop data.length
    accesses := s.accesses ++ (List.range data.length).map .writeTableData }

/-- Behind a read without an error, the start of the inner loop. -/
def enterInnerLoop (s : TableReader) (readSize : Nat) : TableReader :=
  { s with
    readSize := readSize
    fileOffset := s.fileOffset + readSize
    tableOffset := s.tableOffset + readSize
    tableDataOffset := 0
    inInnerLoop := true }

/-- The end of the inner loop, by its condition or by a `break`. -/
def leaveInnerLoop (s : TableReader) : TableReader := { s with inInnerLoop := false }

/-- `byte_stream_copy_to_uintX_little_endian`, and the bytes are behind `table_data_offset`. -/
def skipBytes (s : TableReader) (count : Nat) : TableReader :=
  { s with
    tableDataOffset := s.tableDataOffset + count
    accesses := s.accesses ++
      (List.range count).map fun k => .readTableData (s.tableDataOffset + k) }

/-- The condition of the assignment to the reversed table, for the number that it compares. -/
def writesReversed (s : TableReader) (comparedNumber : Nat) : Bool :=
  s.reversedClusterNumbers.isSome ∧ comparedNumber < s.clusterNumbers.length % 2 ^ 32

/-- The assignments for one entry. -/
def store (s : TableReader) (comparedNumber clusterNumber : Nat) : TableReader :=
  { s with
    clusterNumbers := s.clusterNumbers.set s.tableIndex (clusterNumber % 2 ^ 32)
    reversedClusterNumbers :=
      if s.writesReversed comparedNumber then
        s.reversedClusterNumbers.map fun reversed =>
          reversed.set clusterNumber (s.tableIndex % 2 ^ 32)
      else s.reversedClusterNumbers
    tableIndex := s.tableIndex + 1
    accesses := s.accesses ++ .writeClusterNumber s.tableIndex ::
      if s.writesReversed comparedNumber then [.writeReversedClusterNumber clusterNumber]
      else [] }

/-- The table has no entry left to fill. -/
def isFull (s : TableReader) : Bool := s.clusterNumbers.length ≤ s.tableIndex

/-- The body of the inner loop behind its first `break`. -/
def readEntry (format : FileSystemFormat) (s : TableReader) : TableReader :=
  match format with
  | .fat12 =>
    let clusterNumber := uint24At s.tableData s.tableDataOffset
    let s := (s.skipBytes 3).store clusterNumber (clusterNumber % 2 ^ 12)
    if s.isFull then s.leaveInnerLoop
    else s.store (clusterNumber / 2 ^ 12) (clusterNumber / 2 ^ 12)
  | .fat16 =>
    let clusterNumber := uint16At s.tableData s.tableDataOffset
    (s.skipBytes 2).store clusterNumber clusterNumber
  | _ =>
    let clusterNumber := uint32At s.tableData s.tableDataOffset
    (s.skipBytes 4).store clusterNumber clusterNumber

/-- `read_size` of the next read. -/
def nextReadSize (s : TableReader) (size : Nat) : Nat :=
  if s.readSize > size - s.tableOffset then size - s.tableOffset else s.readSize

/-- An iteration of the inner loop when it is entered, otherwise the part of an iteration of the
outer loop before it. -/
def step (format : FileSystemFormat) (readBuffer : BufferReader) (size : Nat) (s : TableReader) :
    Loop.Step TableReader (Except Error Unit × TableReader) :=
  if s.inInnerLoop then
    if s.tableDataOffset < s.readSize then
      if s.isFull then .next s.leaveInnerLoop
      else .next (s.readEntry format)
    else .next s.leaveInnerLoop
  else if s.tableOffset < size then
    let readSize := s.nextReadSize size
    let read := readBuffer s.fileOffset readSize
    if read.1 ≠ readSize then .done (.error .readFailed, s.fillBuffer read.2)
    else .next ((s.fillBuffer read.2).enterInnerLoop readSize)
  else .done (.ok (), s)

/-! ### Every access is inside -/

variable {format : FileSystemFormat} {readBuffer : BufferReader} {size bytesPerSector n : Nat}

/-- What holds between any two iterations: both tables have their `n` elements, the next read has
bytes and they fit in the buffer, the inner loop is at a multiple of the size of its steps, and no
access so far was outside. -/
structure IsInBounds (format : FileSystemFormat) (bytesPerSector n : Nat) (s : TableReader) :
    Prop where
  clusterNumbers : s.clusterNumbers.length = n
  reversedClusterNumbers : ∀ reversed ∈ s.reversedClusterNumbers, reversed.length = n
  tableData : s.tableData.length = bytesPerSector + 2
  readSize_pos : 0 < s.readSize
  readSize_le : s.readSize ≤ bytesPerSector
  aligned : entryDataSize format ∣ s.tableDataOffset
  accesses : ∀ access ∈ s.accesses, access.IsInBounds bytesPerSector n

theorem start_isInBounds (hpos : 0 < bytesPerSector) (freshMemory : Nat → UInt8)
    (fileOffset : Int) {clusterNumbers : List Nat} {reversedClusterNumbers : Option (List Nat)}
    (hreversed : ∀ reversed ∈ reversedClusterNumbers, reversed.length = clusterNumbers.length) :
    (start bytesPerSector freshMemory fileOffset clusterNumbers
      reversedClusterNumbers).IsInBounds format bytesPerSector clusterNumbers.length where
  clusterNumbers := rfl
  reversedClusterNumbers := hreversed
  tableData := by simp [start]
  readSize_pos := hpos
  readSize_le := le_rfl
  aligned := dvd_zero _
  accesses := by simp [start, Access.IsInBounds]

theorem IsInBounds.leaveInnerLoop {s : TableReader} (h : s.IsInBounds format bytesPerSector n) :
    s.leaveInnerLoop.IsInBounds format bytesPerSector n := ⟨h.1, h.2, h.3, h.4, h.5, h.6, h.7⟩

/-- What libbfio puts into the buffer is inside, as it is not more than what fits. -/
theorem IsInBounds.fillBuffer {s : TableReader} (h : s.IsInBounds format bytesPerSector n)
    {data : List UInt8} (hdata : data.length ≤ bytesPerSector) :
    (s.fillBuffer data).IsInBounds format bytesPerSector n := by
  refine ⟨h.1, h.2, ?_, h.4, h.5, h.6, ?_⟩
  · have hlength := h.tableData
    simp only [TableReader.fillBuffer, List.length_append, List.length_drop]
    omega
  · intro access haccess
    rcases List.mem_append.mp haccess with hbefore | hnew
    · exact h.accesses access hbefore
    · obtain ⟨index, hindex, rfl⟩ := List.mem_map.mp hnew
      have hlt := List.mem_range.mp hindex
      change index < bytesPerSector + 2
      omega

theorem IsInBounds.enterInnerLoop {s : TableReader} (h : s.IsInBounds format bytesPerSector n)
    {readSize : Nat} (hpos : 0 < readSize) (hle : readSize ≤ bytesPerSector) :
    (s.enterInnerLoop readSize).IsInBounds format bytesPerSector n :=
  ⟨h.1, h.2, h.3, hpos, hle, dvd_zero _, h.7⟩

/-- The next read has at least one byte and at most those that are left. -/
theorem IsInBounds.nextReadSize {s : TableReader} (h : s.IsInBounds format bytesPerSector n)
    (hlt : s.tableOffset < size) :
    0 < s.nextReadSize size ∧ s.nextReadSize size ≤ bytesPerSector ∧
      s.tableOffset + s.nextReadSize size ≤ size := by
  have hpos := h.readSize_pos
  have hle := h.readSize_le
  unfold TableReader.nextReadSize
  split <;> omega

/-- The bytes of an entry are inside: a step of three or two bytes that starts before the end of
the sector ends at most two bytes behind it, and one of four bytes does not pass it. -/
theorem entry_isInBounds (hfour : 4 ∣ bytesPerSector) {offset : Nat}
    (haligned : entryDataSize format ∣ offset) (hlt : offset < bytesPerSector) {k : Nat}
    (hk : k < entryDataSize format) : offset + k < bytesPerSector + 2 := by
  cases format <;> simp only [entryDataSize] at haligned hk <;> omega

theorem IsInBounds.skipBytes (hfour : 4 ∣ bytesPerSector) {s : TableReader}
    (h : s.IsInBounds format bytesPerSector n) (hlt : s.tableDataOffset < s.readSize) :
    (s.skipBytes (entryDataSize format)).IsInBounds format bytesPerSector n := by
  have hle := h.readSize_le
  refine ⟨h.1, h.2, h.3, h.4, h.5, (Nat.dvd_add_right h.aligned).mpr dvd_rfl, ?_⟩
  intro access haccess
  rcases List.mem_append.mp haccess with hbefore | hnew
  · exact h.accesses access hbefore
  · obtain ⟨k, hk, rfl⟩ := List.mem_map.mp hnew
    exact entry_isInBounds hfour h.aligned (by omega) (List.mem_range.mp hk)

/-- The element of the reversed table is inside, as its index is at most the number that was
compared. -/
theorem IsInBounds.store {s : TableReader} (h : s.IsInBounds format bytesPerSector n)
    (hindex : s.tableIndex < n) {comparedNumber clusterNumber : Nat}
    (hle : clusterNumber ≤ comparedNumber) :
    (s.store comparedNumber clusterNumber).IsInBounds format bytesPerSector n := by
  refine ⟨?_, ?_, h.3, h.4, h.5, h.6, ?_⟩
  · exact (List.length_set).trans h.clusterNumbers
  · intro reversed hreversed
    simp only [TableReader.store] at hreversed
    split at hreversed
    · obtain ⟨before, hbefore, rfl⟩ := Option.mem_map.mp hreversed
      exact (List.length_set).trans (h.reversedClusterNumbers before hbefore)
    · exact h.reversedClusterNumbers reversed hreversed
  · intro access haccess
    rcases List.mem_append.mp haccess with hbefore | hnew
    · exact h.accesses access hbefore
    rcases List.mem_cons.mp hnew with rfl | hnew
    · exact hindex
    · split at hnew
      · next hwrites =>
        obtain rfl := List.mem_singleton.mp hnew
        have hcompared := (of_decide_eq_true hwrites).2
        have hmod := Nat.mod_le s.clusterNumbers.length (2 ^ 32)
        have hlength := h.clusterNumbers
        change clusterNumber < n
        omega
      · cases hnew

theorem isFull_iff {s : TableReader} (h : s.IsInBounds format bytesPerSector n) :
    s.isFull = false ↔ s.tableIndex < n := by
  rw [isFull, decide_eq_false_iff_not, Nat.not_le, h.clusterNumbers]

theorem IsInBounds.readEntry (hfour : 4 ∣ bytesPerSector) {s : TableReader}
    (h : s.IsInBounds format bytesPerSector n) (hlt : s.tableDataOffset < s.readSize)
    (hfull : s.isFull = false) :
    (s.readEntry format).IsInBounds format bytesPerSector n := by
  have hindex := (isFull_iff h).mp hfull
  have hskip := h.skipBytes hfour hlt
  cases format with
  | fat12 =>
    have hfirst := hskip.store hindex
      (Nat.mod_le (uint24At s.tableData s.tableDataOffset) (2 ^ 12))
    simp only [TableReader.readEntry]
    split
    · exact hfirst.leaveInnerLoop
    · next hnotFull =>
      apply hfirst.store _ le_rfl
      exact (isFull_iff hfirst).mp (Bool.eq_false_iff.mpr hnotFull)
  | fat16 => exact hskip.store hindex le_rfl
  | unknown => exact hskip.store hindex le_rfl
  | exfat => exact hskip.store hindex le_rfl
  | fat32 => exact hskip.store hindex le_rfl

/-! ### The loops end -/

/-- A bound on the iterations that are left: for each byte of the table that is not read those of
a sector, and those of the sector that the inner loop is in. -/
def remaining (bytesPerSector size : Nat) (s : TableReader) : Nat :=
  (size - s.tableOffset) * (bytesPerSector + 2) +
    if s.inInnerLoop then s.readSize - s.tableDataOffset + 1 else 0

/-- An iteration of the inner loop moves behind its bytes and may leave the loop. -/
theorem readEntry_position (format : FileSystemFormat) (s : TableReader) :
    (s.readEntry format).readSize = s.readSize ∧
      (s.readEntry format).tableOffset = s.tableOffset ∧
      (s.readEntry format).tableDataOffset = s.tableDataOffset + entryDataSize format := by
  cases format with
  | fat12 =>
    unfold readEntry
    dsimp only
    split <;> exact ⟨rfl, rfl, rfl⟩
  | _ => exact ⟨rfl, rfl, rfl⟩

theorem readEntry_remaining_lt {s : TableReader} (hinner : s.inInnerLoop = true)
    (hlt : s.tableDataOffset < s.readSize) :
    (s.readEntry format).remaining bytesPerSector size < s.remaining bytesPerSector size := by
  obtain ⟨hsize, htable, hoffset⟩ := readEntry_position format s
  have hentry : 0 < entryDataSize format := by cases format <;> decide
  unfold remaining
  rw [hsize, htable, hoffset, if_pos hinner]
  split <;> omega

theorem leaveInnerLoop_remaining_lt {s : TableReader} (hinner : s.inInnerLoop = true) :
    s.leaveInnerLoop.remaining bytesPerSector size < s.remaining bytesPerSector size := by
  simp only [remaining, leaveInnerLoop, hinner, if_true, Bool.false_eq_true, if_false]
  omega

theorem enterInnerLoop_remaining_lt {s : TableReader} (houter : s.inInnerLoop = false)
    (data : List UInt8) {readSize : Nat} (hpos : 0 < readSize) (hle : readSize ≤ bytesPerSector)
    (hsize : s.tableOffset + readSize ≤ size) :
    ((s.fillBuffer data).enterInnerLoop readSize).remaining bytesPerSector size <
      s.remaining bytesPerSector size := by
  have hless : size - (s.tableOffset + readSize) + 1 ≤ size - s.tableOffset := by omega
  have hmul := Nat.mul_le_mul_right (bytesPerSector + 2) hless
  rw [Nat.succ_mul] at hmul
  unfold remaining
  rw [houter, if_neg Bool.false_ne_true]
  simp only [enterInnerLoop, fillBuffer, if_true]
  omega

/-- An iteration keeps every access inside and comes closer to the end, or is the last. -/
theorem IsInBounds.step (hfour : 4 ∣ bytesPerSector)
    (hread : ∀ offset count, (readBuffer offset count).2.length ≤ count) {s : TableReader}
    (h : s.IsInBounds format bytesPerSector n) :
    (∃ s', step format readBuffer size s = .next s' ∧ s'.IsInBounds format bytesPerSector n ∧
        s'.remaining bytesPerSector size < s.remaining bytesPerSector size) ∨
      ∃ exit, step format readBuffer size s = .done exit ∧
        exit.2.IsInBounds format bytesPerSector n := by
  unfold TableReader.step
  split
  · next hinner =>
    have hleave : s.leaveInnerLoop.remaining bytesPerSector size <
        s.remaining bytesPerSector size := leaveInnerLoop_remaining_lt hinner
    split
    · next hlt =>
      split
      · exact .inl ⟨_, rfl, h.leaveInnerLoop, hleave⟩
      · next hfull =>
        exact .inl ⟨_, rfl, h.readEntry hfour hlt (Bool.eq_false_iff.mpr hfull),
          readEntry_remaining_lt hinner hlt⟩
    · exact .inl ⟨_, rfl, h.leaveInnerLoop, hleave⟩
  next houter =>
  split
  · next hlt =>
    obtain ⟨hpos, hle, hend⟩ := h.nextReadSize hlt
    have hfill := h.fillBuffer ((hread s.fileOffset _).trans hle)
    dsimp only
    split
    · exact .inr ⟨_, rfl, hfill⟩
    · exact .inl ⟨_, rfl, hfill.enterInnerLoop hpos hle,
        enterInnerLoop_remaining_lt (Bool.eq_false_iff.mpr houter) _ hpos hle hend⟩
  · exact .inr ⟨_, rfl, h⟩

/-- The function ends, and none of its accesses is outside of its buffer. -/
theorem table_reading_stays_in_bounds (hbytes : bytesPerSector ∈ [512, 1024, 2048, 4096])
    (hread : ∀ offset count, (readBuffer offset count).2.length ≤ count)
    (format : FileSystemFormat) (size : Nat) (freshMemory : Nat → UInt8) (fileOffset : Int)
    {clusterNumbers : List Nat} {reversedClusterNumbers : Option (List Nat)}
    (hreversed : ∀ reversed ∈ reversedClusterNumbers,
      reversed.length = clusterNumbers.length) :
    ∃ exit, Loop.Returns (step format readBuffer size)
        (start bytesPerSector freshMemory fileOffset clusterNumbers reversedClusterNumbers) exit ∧
      ∀ access ∈ exit.2.accesses,
        access.IsInBounds bytesPerSector clusterNumbers.length := by
  have hfour : 4 ∣ bytesPerSector ∧ 0 < bytesPerSector := by
    simp only [List.mem_cons, List.not_mem_nil, or_false] at hbytes
    omega
  have hstart : (start bytesPerSector freshMemory fileOffset clusterNumbers
      reversedClusterNumbers).IsInBounds format bytesPerSector clusterNumbers.length :=
    start_isInBounds hfour.2 freshMemory fileOffset hreversed
  obtain ⟨exit, hreturns, hexit⟩ := Loop.exists_returns_of_measure (remaining bytesPerSector size)
    (fun s hs => IsInBounds.step hfour.1 hread hs) hstart
  exact ⟨exit, hreturns, hexit.accesses⟩

/-- A FAT-12 table of five bytes, which end within the second pair of entries. -/
theorem table_reading_stays_in_bounds_five_bytes :
    ∃ exit, Loop.Returns (step .fat12 (imageReader [0xf8, 0xff, 0xff, 0x03, 0x40]) 5)
        (start 512 (fun _ => 0) 0 [0, 0, 0, 0] (some [0, 0, 0, 0])) exit ∧
      ∀ access ∈ exit.2.accesses, access.IsInBounds 512 4 := by
  apply table_reading_stays_in_bounds (by decide) (length_imageReader_le _)
  intro reversed hreversed
  obtain rfl := Option.some.inj hreversed
  rfl

/-! ### The tables it gives -/

/-- The variables of the loops have the same values. -/
def Matches (s : TableReader) (r : ReadState) : Prop :=
  s.clusterNumbers = r.allocationTable.clusterNumbers ∧
    s.reversedClusterNumbers = r.reversedAllocationTable.map AllocationTable.clusterNumbers ∧
    s.tableIndex = r.tableIndex

/-- What the inner loop does not change. -/
def SameSector (s s' : TableReader) : Prop :=
  s'.tableData = s.tableData ∧ s'.readSize = s.readSize ∧ s'.tableOffset = s.tableOffset ∧
    s'.fileOffset = s.fileOffset

/-- The conversion to `uint32_t` does not change the number of elements of a table. -/
theorem numberOfClusterNumbers_mod (table : AllocationTable) :
    table.clusterNumbers.length % 2 ^ 32 = table.clusterNumbers.length := by
  have hle := table.length_le
  have hmax : maximumNumberOfClustersInFat = 67108864 := rfl
  exact Nat.mod_eq_of_lt (by omega)

theorem Matches.store {s : TableReader} {r : ReadState} (h : s.Matches r)
    (comparedNumber clusterNumber : Nat) :
    (s.store comparedNumber clusterNumber).Matches (r.store comparedNumber clusterNumber) := by
  obtain ⟨hnumbers, hreversed, hindex⟩ := h
  refine ⟨?_, ?_, ?_⟩
  · simp only [TableReader.store, ReadState.store, setClusterNumber, hnumbers, hindex]
  · simp only [TableReader.store, ReadState.store, writesReversed, hnumbers, hreversed, hindex,
      numberOfClusterNumbers_mod]
    cases r.reversedAllocationTable with
    | none => rfl
    | some reversed =>
      simp only [Option.map_some, Option.isSome_some, true_and, decide_eq_true_eq]
      split <;> rfl
  · simp only [TableReader.store, ReadState.store, hindex]

theorem Matches.isFull_eq {s : TableReader} {r : ReadState} (h : s.Matches r) :
    s.isFull = r.isFull := by
  simp only [isFull, ReadState.isFull, h.1, h.2.2]

/-- One iteration of the inner loop. When it leaves the loop the table is full. -/
theorem Matches.readEntry (format : FileSystemFormat) {s : TableReader} {r : ReadState}
    (h : s.Matches r) (hfull : s.isFull = false) (hinner : s.inInnerLoop = true) :
    (s.readEntry format).Matches (AllocationTable.readEntry format s.tableData r
        s.tableDataOffset) ∧
      ((s.readEntry format).inInnerLoop = false → (s.readEntry format).isFull = true) := by
  have hskip (count : Nat) : (s.skipBytes count).Matches r := h
  have hentry : ¬ r.isFull = true := by rw [← h.isFull_eq, hfull]; exact Bool.false_ne_true
  unfold AllocationTable.readEntry
  rw [if_neg hentry]
  cases format with
  | fat12 =>
    have hfirst := (hskip 3).store (uint24At s.tableData s.tableDataOffset)
      (uint24At s.tableData s.tableDataOffset % 2 ^ 12)
    simp only [TableReader.readEntry, ← hfirst.isFull_eq]
    split
    · next hbreak => exact ⟨hfirst, fun _ => hbreak⟩
    · refine ⟨hfirst.store _ _, ?_⟩
      intro hleft
      cases hinner.symm.trans hleft
  | _ =>
    refine ⟨(hskip _).store _ _, ?_⟩
    intro hleft
    cases hinner.symm.trans hleft

theorem readEntry_sameSector (format : FileSystemFormat) (s : TableReader) :
    s.SameSector (s.readEntry format) := by
  cases format with
  | fat12 =>
    unfold readEntry
    dsimp only
    split <;> exact ⟨rfl, rfl, rfl, rfl⟩
  | _ => exact ⟨rfl, rfl, rfl, rfl⟩

/-- Nothing is read into a full table. -/
theorem readEntries_of_isFull {tableData : List UInt8} {r : ReadState} (hfull : r.isFull = true)
    (count offset : Nat) : readEntries format tableData count offset r = r := by
  induction count generalizing offset with
  | zero => rfl
  | succ count ih =>
    have hentry : AllocationTable.readEntry format tableData r offset = r := if_pos hfull
    rw [readEntries, hentry, ih]

/-- The iterations of the inner loop from an offset in the sector on. -/
def entriesLeft (format : FileSystemFormat) (s : TableReader) : Nat :=
  (s.readSize - s.tableDataOffset + entryDataSize format - 1) / entryDataSize format

/-- An iteration of the inner loop takes one of those that are left. -/
theorem entriesLeft_readEntry {s : TableReader} {count : Nat}
    (h : s.entriesLeft format = count + 1) :
    s.tableDataOffset < s.readSize ∧ (s.readEntry format).entriesLeft format = count := by
  obtain ⟨hsize, -, hoffset⟩ := readEntry_position format s
  unfold entriesLeft at h ⊢
  rw [hsize, hoffset]
  cases format <;> simp only [entryDataSize] at h ⊢ <;> omega

theorem le_of_entriesLeft_eq_zero {s : TableReader} (h : s.entriesLeft format = 0) :
    s.readSize ≤ s.tableDataOffset := by
  unfold entriesLeft at h
  cases format <;> simp only [entryDataSize] at h <;> omega

/-- The inner loop fills the entries of the sector and comes back to the outer loop. -/
theorem Matches.innerLoop (format : FileSystemFormat) (readBuffer : BufferReader) (size : Nat)
    {s : TableReader} {r : ReadState} (h : s.Matches r) (hinner : s.inInnerLoop = true) :
    ∃ s', Loop.Reachable (TableReader.step format readBuffer size) s s' ∧
      s'.inInnerLoop = false ∧ s.SameSector s' ∧
      s'.Matches (readEntries format s.tableData (s.entriesLeft format) s.tableDataOffset r) := by
  induction hcount : s.entriesLeft format generalizing s r with
  | zero =>
    have hle := le_of_entriesLeft_eq_zero hcount
    have hstep : TableReader.step format readBuffer size s = .next s.leaveInnerLoop := by
      rw [TableReader.step, if_pos hinner, if_neg (Nat.not_lt.mpr hle)]
    exact ⟨s.leaveInnerLoop, .single hstep, rfl, ⟨rfl, rfl, rfl, rfl⟩, h⟩
  | succ count ih =>
    obtain ⟨hlt, hleft⟩ := entriesLeft_readEntry hcount
    cases hfull : s.isFull with
    | true =>
      have hstep : TableReader.step format readBuffer size s = .next s.leaveInnerLoop := by
        rw [TableReader.step, if_pos hinner, if_pos hlt, if_pos hfull]
      rw [readEntries_of_isFull (h.isFull_eq.symm.trans hfull)]
      exact ⟨s.leaveInnerLoop, .single hstep, rfl, ⟨rfl, rfl, rfl, rfl⟩, h⟩
    | false =>
      have hstep : TableReader.step format readBuffer size s = .next (s.readEntry format) := by
        rw [TableReader.step, if_pos hinner, if_pos hlt, if_neg (Bool.eq_false_iff.mp hfull)]
      obtain ⟨hmatches, hbreak⟩ := h.readEntry format hfull hinner
      have hsame := readEntry_sameSector format s
      rw [readEntries, ← (readEntry_position format s).2.2]
      cases hinner' : (s.readEntry format).inInnerLoop with
      | false =>
        rw [readEntries_of_isFull (hmatches.isFull_eq.symm.trans (hbreak hinner'))]
        exact ⟨s.readEntry format, .single hstep, hinner', hsame, hmatches⟩
      | true =>
        obtain ⟨s', hreach, houter, hsame', hmatches'⟩ := ih hmatches hinner' hleft
        rw [hsame.1] at hmatches'
        refine ⟨s', .head hstep hreach, houter, ?_, hmatches'⟩
        exact ⟨hsame'.1.trans hsame.1, hsame'.2.1.trans hsame.2.1,
          hsame'.2.2.1.trans hsame.2.2.1, hsame'.2.2.2.trans hsame.2.2.2⟩

/-- The function returns as the loop over the sectors does, and with its tables. -/
def ExitMatches (exit : Except Error Unit × TableReader) (result : Except Error ReadState) :
    Prop :=
  exit.1 = result.map (fun _ => ()) ∧ ∀ r, result = .ok r → exit.2.Matches r

/-- A read takes one of the sectors that are left, the last of them perhaps not a whole one. -/
theorem sectorsLeft_succ {rest count : Nat} (hpos : 0 < bytesPerSector)
    (h : (rest + bytesPerSector - 1) / bytesPerSector = count + 1) :
    0 < rest ∧
      (rest - min bytesPerSector rest + bytesPerSector - 1) / bytesPerSector = count := by
  have hrest : 0 < rest := by
    rcases Nat.eq_zero_or_pos rest with rfl | hrest
    · rw [Nat.div_eq_of_lt (by omega)] at h
      cases h
    · exact hrest
  refine ⟨hrest, ?_⟩
  have hsplit : rest + bytesPerSector - 1 = (rest - 1) + bytesPerSector := by omega
  rw [hsplit, Nat.add_div_right _ hpos] at h
  rcases Nat.le_total bytesPerSector rest with hle | hle
  · have hless : rest - min bytesPerSector rest + bytesPerSector - 1 = rest - 1 := by omega
    rw [hless]
    omega
  · have hnone : rest - min bytesPerSector rest + bytesPerSector - 1 = bytesPerSector - 1 := by
      omega
    rw [Nat.div_eq_of_lt (by omega)] at h
    rw [hnone, Nat.div_eq_of_lt (by omega)]
    omega

theorem nextReadSize_eq (s : TableReader) (size : Nat) :
    s.nextReadSize size = min s.readSize (size - s.tableOffset) := by
  unfold nextReadSize
  split <;> omega

/-- The outer loop reads the sectors one after the other. -/
theorem Matches.outerLoop {ioHandle : IoHandle} (image : List UInt8) (size : Nat) {count : Nat}
    (hpos : 0 < ioHandle.bytesPerSector) {s : TableReader} {r : ReadState} (h : s.Matches r)
    (houter : s.inInnerLoop = false)
    (hreadSize : min s.readSize (size - s.tableOffset) =
      min ioHandle.bytesPerSector (size - s.tableOffset))
    (hcount : (size - s.tableOffset + ioHandle.bytesPerSector - 1) / ioHandle.bytesPerSector =
      count) :
    ∃ exit, Loop.Returns
        (TableReader.step ioHandle.fileSystemFormat (imageReader image) size) s exit ∧
      ExitMatches exit (readSectors ioHandle image count s.fileOffset (size - s.tableOffset)
        s.tableData r) := by
  have hinner : ¬ s.inInnerLoop = true := by rw [houter]; exact Bool.false_ne_true
  induction count generalizing s r with
  | zero =>
    have hend : ¬ s.tableOffset < size := by
      intro hlt
      have hone : 1 ≤ (size - s.tableOffset + ioHandle.bytesPerSector - 1) /
          ioHandle.bytesPerSector := (Nat.le_div_iff_mul_le hpos).mpr (by omega)
      omega
    have hstep : TableReader.step ioHandle.fileSystemFormat (imageReader image) size s =
        .done (.ok (), s) := by
      rw [TableReader.step, if_neg hinner, if_neg hend]
    refine ⟨_, .of_done hstep, rfl, ?_⟩
    intro r' hr
    obtain rfl := Except.ok.inj hr
    exact h
  | succ count ih =>
    obtain ⟨hrest, hcount'⟩ := sectorsLeft_succ hpos hcount
    have hlt : s.tableOffset < size := by omega
    set readSize := min ioHandle.bytesPerSector (size - s.tableOffset) with hreadSizeDef
    have hnext : s.nextReadSize size = readSize := by rw [nextReadSize_eq, hreadSize]
    rw [readSectors, ← hreadSizeDef]
    cases hdata : readAt image s.fileOffset readSize with
    | none =>
      have hstep : TableReader.step ioHandle.fileSystemFormat (imageReader image) size s =
          .done (.error .readFailed, s.fillBuffer []) := by
        rw [TableReader.step, if_neg hinner, if_pos hlt, hnext]
        simp only [imageReader, hdata]
        rw [if_pos (by omega)]
      refine ⟨_, .of_done hstep, rfl, ?_⟩
      intro r' hr
      cases hr
    | some data =>
      have hlength : data.length = readSize := length_of_readAt hdata
      have hstep : TableReader.step ioHandle.fileSystemFormat (imageReader image) size s =
          .next ((s.fillBuffer data).enterInnerLoop readSize) := by
        rw [TableReader.step, if_neg hinner, if_pos hlt, hnext]
        simp only [imageReader, hdata]
        rw [if_neg (not_not.mpr rfl)]
      have hentered : ((s.fillBuffer data).enterInnerLoop readSize).Matches r := h
      obtain ⟨s', hreach, houter', hsame, hmatches⟩ :=
        hentered.innerLoop ioHandle.fileSystemFormat (imageReader image) size rfl
      obtain ⟨htableData, hsize, htable, hfile⟩ := hsame
      have hrest' : size - s'.tableOffset = size - s.tableOffset - readSize := by
        rw [htable]
        exact Nat.sub_add_eq size s.tableOffset readSize
      have hsize' : s'.readSize = readSize := hsize
      obtain ⟨exit, hreturns, hexit⟩ := ih hmatches houter' (by rw [hrest', hsize']; omega)
        (by rw [hrest']; exact hcount') (by rw [houter']; exact Bool.false_ne_true)
      refine ⟨exit, .of_next hstep (hreach.returns hreturns), ?_⟩
      rw [htableData, hfile, hrest'] at hexit
      simp only [enterInnerLoop, fillBuffer, entriesLeft, Nat.sub_zero, hlength] at hexit
      exact hexit

/-- With the bytes of an image the function gives the tables of `readFileIOHandle`, and returns an
error exactly when that does. -/
theorem returns_readFileIOHandle (table : AllocationTable)
    (reversedTable : Option AllocationTable) {ioHandle : IoHandle}
    (hpos : 0 < ioHandle.bytesPerSector) (image : List UInt8) (freshMemory : Nat → UInt8)
    (fileOffset : Int) (size : Nat) :
    ∃ exit, Loop.Returns (step ioHandle.fileSystemFormat (imageReader image) size)
        (start ioHandle.bytesPerSector freshMemory fileOffset table.clusterNumbers
          (reversedTable.map AllocationTable.clusterNumbers)) exit ∧
      let result := table.readFileIOHandle reversedTable ioHandle image freshMemory fileOffset size
      exit.1 = result.map (fun _ => ()) ∧
        ∀ tables, result = .ok tables → exit.2.clusterNumbers = tables.1.clusterNumbers ∧
          exit.2.reversedClusterNumbers = tables.2.map AllocationTable.clusterNumbers := by
  have hstart : (start ioHandle.bytesPerSector freshMemory fileOffset table.clusterNumbers
      (reversedTable.map AllocationTable.clusterNumbers)).Matches ⟨table, reversedTable, 0⟩ :=
    ⟨rfl, rfl, rfl⟩
  obtain ⟨exit, hreturns, hresult, htables⟩ :=
    hstart.outerLoop image size hpos rfl rfl rfl
  refine ⟨exit, hreturns, ?_⟩
  simp only [readFileIOHandle, if_neg (Nat.ne_of_gt hpos), bind, Except.bind, pure, Except.pure]
  simp only [start, Nat.sub_zero] at hresult htables
  cases hsectors : readSectors ioHandle image
      ((size + ioHandle.bytesPerSector - 1) / ioHandle.bytesPerSector) fileOffset size
      ((List.range ioHandle.bytesPerSector).map freshMemory ++ [0, 0])
      ⟨table, reversedTable, 0⟩ with
  | error e =>
    rw [hsectors] at hresult
    refine ⟨hresult, ?_⟩
    intro tables htables
    cases htables
  | ok r =>
    rw [hsectors] at hresult
    refine ⟨hresult, ?_⟩
    intro tables heq
    obtain rfl := Except.ok.inj heq
    obtain ⟨hnumbers, hreversed, -⟩ := htables r hsectors
    exact ⟨hnumbers, hreversed⟩

end TableReader

end FsFat.AllocationTable
