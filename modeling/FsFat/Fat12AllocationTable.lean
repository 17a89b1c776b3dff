import FsFat.AllocationTableFill

/-!
The decoding of a FAT-12 allocation table. Two entries share three bytes, and
no sector size is a multiple of three. The function that reads the table starts
on a new pair of entries at every sector, with zero bytes behind the sector, so
it finds an entry at its place in the table only in the first sector, and only
when the entry does not continue in the second.
-/

namespace FsFat

open Bytes

namespace AllocationTable

/-- The number of entries that the function takes from a whole sector. -/
def fat12EntriesPerSector (bytesPerSector : Nat) : Nat := 2 * ((bytesPerSector + 2) / 3)

/-- The entry that the function finds for an index: counted from the start of a
sector, with zero bytes behind it. -/
def fat12SectorEntry (table : List UInt8) (bytesPerSector index : Nat) : Nat :=
  let count := fat12EntriesPerSector bytesPerSector
  let sector := (table.drop (index / count * bytesPerSector)).take bytesPerSector
  fat12Entry (sector ++ [0, 0]) (index % count)

/-! ### The entries that are filled -/

/-- What the function puts at an index, for a table of whole sectors. -/
theorem readFileIOHandle_fat12 {ioHandle : IoHandle} {image data : List UInt8} {fileOffset : Int}
    {n : Nat} (hformat : ioHandle.fileSystemFormat = .fat12) (hbytes : 0 < ioHandle.bytesPerSector)
    (table : AllocationTable) (reversedTable : Option AllocationTable) (freshMemory : Nat → UInt8)
    (hread : readAt image fileOffset (n * ioHandle.bytesPerSector) = some data) :
    ∃ table' reversedTable',
      table.readFileIOHandle reversedTable ioHandle image freshMemory fileOffset
        (n * ioHandle.bytesPerSector) = .ok (table', reversedTable') ∧
      ∀ i < table.numberOfClusterNumbers, 12 * (i + 1) ≤ 8 * (n * ioHandle.bytesPerSector) →
        table'.clusterNumbers.getD i 0 = fat12SectorEntry data ioHandle.bytesPerSector i := by
  refine ⟨_, _, readFileIOHandle_eq_fill hbytes table reversedTable freshMemory hread, ?_⟩
  intro i hi hbits
  rw [hformat]
  have hthird : ioHandle.bytesPerSector ≤ 3 * ((ioHandle.bytesPerSector + 2) / 3) := by omega
  have hmul := Nat.mul_le_mul_left n hthird
  have hperSector : entriesPerSector .fat12 ioHandle.bytesPerSector * n =
      2 * (n * ((ioHandle.bytesPerSector + 2) / 3)) := by
    have hdef : entriesPerSector .fat12 ioHandle.bytesPerSector =
        2 * ((ioHandle.bytesPerSector + 2) / 3) := rfl
    rw [hdef]
    ring
  have hassoc : n * (3 * ((ioHandle.bytesPerSector + 2) / 3)) =
      3 * (n * ((ioHandle.bytesPerSector + 2) / 3)) := by ring
  exact fill_getD _ (tableEntry_lt _ _ _) table reversedTable hi (by rw [hperSector]; omega)

/-! ### Where the two entries are the same -/

theorem fat12Entry_of_even {table : List UInt8} {index : Nat} (h : index % 2 = 0) :
    fat12Entry table index =
      byteAt table (3 * (index / 2)) + 2 ^ 8 * (byteAt table (3 * (index / 2) + 1) % 2 ^ 4) := by
  have h0 := byteAt_lt table (3 * (index / 2))
  have h1 := byteAt_lt table (3 * (index / 2) + 1)
  have h2 := byteAt_lt table (3 * (index / 2) + 2)
  rw [fat12Entry, if_pos h, uint24At, uint16At]
  omega

theorem fat12Entry_of_odd {table : List UInt8} {index : Nat} (h : index % 2 = 1) :
    fat12Entry table index =
      byteAt table (3 * (index / 2) + 1) / 2 ^ 4 + 2 ^ 4 * byteAt table (3 * (index / 2) + 2) := by
  have h0 := byteAt_lt table (3 * (index / 2))
  have h1 := byteAt_lt table (3 * (index / 2) + 1)
  have h2 := byteAt_lt table (3 * (index / 2) + 2)
  rw [fat12Entry, if_neg (by omega), uint24At, uint16At]
  omega

/-- A byte of the buffer: of the sector, or a zero byte behind it. -/
theorem byteAt_sector {table : List UInt8} {bytes q : Nat} (index : Nat) :
    byteAt ((table.drop (q * bytes)).take bytes ++ [0, 0]) index =
      if index < bytes then byteAt table (q * bytes + index) else 0 := by
  have hzeros := byteAt_append_zeros ((table.drop (q * bytes)).take bytes) 2 index
  rw [show List.replicate 2 (0 : UInt8) = [0, 0] from rfl] at hzeros
  rw [hzeros]
  split
  · next h => rw [byteAt_take_of_lt _ h, byteAt_drop]
  · next h =>
    rw [byteAt_of_le]
    simp only [List.length_take]
    omega

/-- An entry that lies in the first sector is found at its place. -/
theorem fat12SectorEntry_of_le (table : List UInt8) {bytes index : Nat}
    (h : 12 * (index + 1) ≤ 8 * bytes) :
    fat12SectorEntry table bytes index = fat12Entry table index := by
  have hcount : index < fat12EntriesPerSector bytes := by
    rw [fat12EntriesPerSector]
    omega
  rw [fat12SectorEntry, Nat.div_eq_of_lt hcount, Nat.mod_eq_of_lt hcount]
  rcases Nat.mod_two_eq_zero_or_one index with heven | hodd
  · rw [fat12Entry_of_even heven, fat12Entry_of_even heven, byteAt_sector, byteAt_sector,
      if_pos (by omega), if_pos (by omega), Nat.zero_mul, Nat.zero_add, Nat.zero_add]
  · rw [fat12Entry_of_odd hodd, fat12Entry_of_odd hodd, byteAt_sector, byteAt_sector,
      if_pos (by omega), if_pos (by omega), Nat.zero_mul, Nat.zero_add, Nat.zero_add]

/-- A table with a single bit set, the last but three of an entry. -/
def singleBitTable (length index : Nat) : List UInt8 :=
  (List.replicate length 0).set (3 * (index / 2) + 1 + index % 2) 1

theorem byteAt_singleBitTable {length index : Nat} (h : 12 * (index + 1) ≤ 8 * length) (k : Nat) :
    byteAt (singleBitTable length index) k =
      if k = 3 * (index / 2) + 1 + index % 2 then 1 else 0 := by
  rw [byteAt, List.getD_eq_getElem?_getD, singleBitTable, List.getElem?_set]
  split
  · next heq =>
    subst heq
    rw [if_pos (by rw [List.length_replicate]; omega), if_pos rfl]
    rfl
  · next hne =>
    rw [if_neg (fun heq => hne heq.symm), List.getElem?_replicate]
    split <;> rfl

/-- The entry of the table with a single bit is not zero. -/
theorem fat12Entry_singleBitTable {length index : Nat} (h : 12 * (index + 1) ≤ 8 * length) :
    fat12Entry (singleBitTable length index) index ≠ 0 := by
  rcases Nat.mod_two_eq_zero_or_one index with heven | hodd
  · rw [fat12Entry_of_even heven, byteAt_singleBitTable h, byteAt_singleBitTable h,
      if_neg (by omega), if_pos (by omega)]
    norm_num
  · rw [fat12Entry_of_odd hodd, byteAt_singleBitTable h, byteAt_singleBitTable h,
      if_neg (by omega), if_pos (by omega)]
    norm_num

/-- Past the first sector the function does not see the bit: an entry starts
there at least one byte too early, and behind the sector there are zero bytes. -/
theorem fat12SectorEntry_singleBitTable {length bytes index : Nat} (hthree : bytes % 3 ≠ 0)
    (hlength : 12 * (index + 1) ≤ 8 * length) (h : 8 * bytes < 12 * (index + 1)) :
    fat12SectorEntry (singleBitTable length index) bytes index = 0 := by
  have hcountEq : fat12EntriesPerSector bytes = 2 * ((bytes + 2) / 3) := rfl
  set pairs := (bytes + 2) / 3 with hpairs
  have hlt : bytes + 1 ≤ 3 * pairs := by omega
  have hpos : 0 < 2 * pairs := by omega
  set q := index / (2 * pairs) with hq
  set j := index % (2 * pairs) with hj
  have hdiv : index = 2 * (pairs * q) + j := by
    rw [hq, hj, ← Nat.mul_assoc]
    exact (Nat.div_add_mod _ _).symm
  have hmul := Nat.mul_le_mul_right q hlt
  have hleft : (bytes + 1) * q = q * bytes + q := by ring
  have hright : 3 * pairs * q = 3 * (pairs * q) := by ring
  rw [hleft, hright] at hmul
  have hzero (k : Nat) (hk : k < 2 + j % 2) :
      byteAt (((singleBitTable length index).drop (q * bytes)).take bytes ++ [0, 0])
        (3 * (j / 2) + k) = 0 := by
    rw [byteAt_sector]
    split
    · next hin =>
      rw [byteAt_singleBitTable hlength, if_neg]
      intro heq
      rcases Nat.eq_zero_or_pos q with hq0 | hqpos
      · rw [hq0, Nat.mul_zero, Nat.mul_zero, Nat.zero_add] at hdiv
        rw [hq0, Nat.zero_mul] at heq
        omega
      · omega
    · rfl
  rw [fat12SectorEntry, hcountEq, ← hq, ← hj]
  rcases Nat.mod_two_eq_zero_or_one j with heven | hodd
  · have h0 := hzero 0 (by omega)
    rw [Nat.add_zero] at h0
    rw [fat12Entry_of_even heven, h0, hzero 1 (by omega)]
    rfl
  · rw [fat12Entry_of_odd hodd, hzero 1 (by omega), hzero 2 (by omega)]
    rfl

/-! ### The decoding of the table -/

/-- Reading the table gives the entry of the table at an index, wherever the
table lies in the image. -/
def DecodesFat12Entry (table : AllocationTable) (reversedTable : Option AllocationTable)
    (ioHandle : IoHandle) (freshMemory : Nat → UInt8) (data : List UInt8) (index : Nat) : Prop :=
  ∀ image fileOffset, readAt image fileOffset data.length = some data →
    ∃ table' reversedTable',
      table.readFileIOHandle reversedTable ioHandle image freshMemory fileOffset data.length =
          .ok (table', reversedTable') ∧
        table'.clusterNumbers.getD index 0 = fat12Entry data index

private theorem decodesFat12Entry_iff_sectorEntry {table : AllocationTable}
    {reversedTable : Option AllocationTable} {ioHandle : IoHandle} {freshMemory : Nat → UInt8}
    {data : List UInt8} {index n : Nat} (hformat : ioHandle.fileSystemFormat = .fat12)
    (hbytes : 0 < ioHandle.bytesPerSector) (hdata : data.length = n * ioHandle.bytesPerSector)
    (hindex : index < table.numberOfClusterNumbers) (hbits : 12 * (index + 1) ≤ 8 * data.length) :
    table.DecodesFat12Entry reversedTable ioHandle freshMemory data index ↔
      fat12SectorEntry data ioHandle.bytesPerSector index = fat12Entry data index := by
  rw [hdata] at hbits
  constructor
  · intro h
    have hread : readAt data 0 data.length = some data := by
      rw [readAt_of_le le_rfl (by simp)]
      simp
    obtain ⟨t, r, hok, hentry⟩ := h data 0 hread
    rw [hdata] at hread hok
    obtain ⟨t', r', hok', hspec⟩ :=
      readFileIOHandle_fat12 hformat hbytes table reversedTable freshMemory hread
    rw [hok] at hok'
    injection hok' with hok'
    injection hok' with ht hr
    rw [← hspec index hindex hbits, ← ht, hentry]
  · intro h image fileOffset hread
    rw [hdata] at hread ⊢
    obtain ⟨t, r, hok, hspec⟩ :=
      readFileIOHandle_fat12 hformat hbytes table reversedTable freshMemory hread
    exact ⟨t, r, hok, by rw [hspec index hindex hbits, h]⟩

/-- For a table of whole sectors and an entry in it: reading finds the entry if
it lies in the first sector, or if the twelve bits that are taken for it happen
to be the same. No entry past the first sector is found in every table. -/
theorem decodesFat12Entry_iff (ioHandle : IoHandle) (hformat : ioHandle.fileSystemFormat = .fat12)
    (hbytes : ioHandle.bytesPerSector ∈ [512, 1024, 2048, 4096]) (table : AllocationTable)
    (reversedTable : Option AllocationTable) (freshMemory : Nat → UInt8) (n index : Nat)
    (hindex : index < table.numberOfClusterNumbers)
    (hbits : 12 * (index + 1) ≤ 8 * (n * ioHandle.bytesPerSector)) :
    (∀ data : List UInt8, data.length = n * ioHandle.bytesPerSector →
      (table.DecodesFat12Entry reversedTable ioHandle freshMemory data index ↔
        12 * (index + 1) ≤ 8 * ioHandle.bytesPerSector ∨
          fat12SectorEntry data ioHandle.bytesPerSector index = fat12Entry data index)) ∧
    ((∀ data : List UInt8, data.length = n * ioHandle.bytesPerSector →
      table.DecodesFat12Entry reversedTable ioHandle freshMemory data index) ↔
        12 * (index + 1) ≤ 8 * ioHandle.bytesPerSector) := by
  have hmem : ioHandle.bytesPerSector = 512 ∨ ioHandle.bytesPerSector = 1024 ∨
      ioHandle.bytesPerSector = 2048 ∨ ioHandle.bytesPerSector = 4096 := by
    simpa using hbytes
  have hpos : 0 < ioHandle.bytesPerSector := by omega
  have hiff (data : List UInt8) (hdata : data.length = n * ioHandle.bytesPerSector) :
      table.DecodesFat12Entry reversedTable ioHandle freshMemory data index ↔
        12 * (index + 1) ≤ 8 * ioHandle.bytesPerSector ∨
          fat12SectorEntry data ioHandle.bytesPerSector index = fat12Entry data index := by
    rw [decodesFat12Entry_iff_sectorEntry hformat hpos hdata hindex (by rw [hdata]; exact hbits)]
    constructor
    · exact Or.inr
    · rintro (hle | heq)
      · exact fat12SectorEntry_of_le data hle
      · exact heq
  refine ⟨hiff, ⟨fun hall => ?_, fun hle data hdata => (hiff data hdata).mpr (Or.inl hle)⟩⟩
  by_contra hgt
  have hlength : (singleBitTable (n * ioHandle.bytesPerSector) index).length =
      n * ioHandle.bytesPerSector := by
    rw [singleBitTable, List.length_set, List.length_replicate]
  rcases (hiff _ hlength).mp (hall _ hlength) with hle | heq
  · exact hgt hle
  · rw [fat12SectorEntry_singleBitTable (by omega) hbits (by omega)] at heq
    exact fat12Entry_singleBitTable hbits heq.symm

/-- The first entry of a table of one sector is found in every such table. -/
theorem decodesFat12Entry_iff_floppy :
    (12 * (1 + 1) ≤ 8 * (1 * 512)) ∧
    ((∀ data : List UInt8, data.length = 1 * 512 →
      ((zeroed 4 (by decide) (by decide)).DecodesFat12Entry none
          ⟨0, .fat12, 512, 512, 4, 0, 0⟩ (fun _ => 0) data 1 ↔
        12 * (1 + 1) ≤ 8 * 512 ∨ fat12SectorEntry data 512 1 = fat12Entry data 1)) ∧
    ((∀ data : List UInt8, data.length = 1 * 512 →
      (zeroed 4 (by decide) (by decide)).DecodesFat12Entry none
        ⟨0, .fat12, 512, 512, 4, 0, 0⟩ (fun _ => 0) data 1) ↔ 12 * (1 + 1) ≤ 8 * 512)) :=
  ⟨by decide, decodesFat12Entry_iff ⟨0, .fat12, 512, 512, 4, 0, 0⟩ rfl (by decide)
    (zeroed 4 (by decide) (by decide)) none (fun _ => 0) 1 1 (by decide) (by decide)⟩

/-- Entry 341 of a table of two sectors of 512 bytes lies in both. In a table
where only the lowest bit of the second sector is set, the entry is 16 and the
function finds 0. -/
theorem fat12_entry_across_sectors :
    (singleBitTable 1024 341).length = 2 * 512 ∧ fat12Entry (singleBitTable 1024 341) 341 = 16 ∧
      ¬ (zeroed 342 (by decide) (by decide)).DecodesFat12Entry none
        ⟨0, .fat12, 512, 512, 342, 0, 0⟩ (fun _ => 0) (singleBitTable 1024 341) 341 := by
  have hlength : (singleBitTable 1024 341).length = 2 * 512 := by
    rw [singleBitTable, List.length_set, List.length_replicate]
  have hentry : fat12Entry (singleBitTable 1024 341) 341 = 16 := by
    rw [fat12Entry_of_odd (by decide), byteAt_singleBitTable (by decide),
      byteAt_singleBitTable (by decide)]
    decide
  have hnumber : (zeroed 342 (by decide) (by decide)).numberOfClusterNumbers = 342 :=
    List.length_replicate
  refine ⟨hlength, hentry, ?_⟩
  rw [decodesFat12Entry_iff_sectorEntry rfl (by decide) hlength (by rw [hnumber]; decide)
    (by rw [hlength]; decide), fat12SectorEntry_singleBitTable (by decide) (by decide) (by decide),
    hentry]
  decide

end AllocationTable

end FsFat
