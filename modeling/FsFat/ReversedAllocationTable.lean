import FsFat.AllocationTableEntries

/-!
The reversed allocation table: for a cluster number the index of the last entry
that has this number and was taken for one of the table. The first entry of a
pair of FAT-12 entries is taken for one only if the number of both entries
together is below the size of the table.
-/

namespace FsFat

open Bytes

namespace AllocationTable

theorem getD_setClusterNumber (table : AllocationTable) (index value c : Nat)
    (hc : c < table.numberOfClusterNumbers) :
    (table.setClusterNumber index value).clusterNumbers.getD c 0 =
      if index = c then value % 2 ^ 32 else table.clusterNumbers.getD c 0 := by
  have hset : (table.setClusterNumber index value).clusterNumbers =
      table.clusterNumbers.set index (value % 2 ^ 32) := rfl
  have hlength : c < (table.clusterNumbers.set index (value % 2 ^ 32)).length := by
    rw [List.length_set]
    exact hc
  rw [hset, List.getD_eq_getElem _ _ hlength, List.getElem_set, List.getD_eq_getElem _ _ hc]

/-! ### What the reversed table holds -/

namespace ReadState

/-- An index is written to the reversed table for a cluster number. -/
def IsWrittenFor (entry : Nat → Nat × Nat) (number c i : Nat) : Prop :=
  (entry i).1 < number ∧ (entry i).2 = c

instance (entry : Nat → Nat × Nat) (number c : Nat) :
    DecidablePred (IsWrittenFor entry number c) :=
  fun _ => inferInstanceAs (Decidable (_ ∧ _))

/-- The reversed table has the last index that was written for a cluster number. -/
def Reversed (s : ReadState) (entry : Nat → Nat × Nat) : Prop :=
  ∀ reversedTable, s.reversedAllocationTable = some reversedTable →
    reversedTable.numberOfClusterNumbers = s.allocationTable.numberOfClusterNumbers ∧
      ∀ c < s.allocationTable.numberOfClusterNumbers,
        reversedTable.clusterNumbers.getD c 0 =
          Nat.findGreatest (IsWrittenFor entry s.allocationTable.numberOfClusterNumbers c)
            (s.tableIndex - 1)

/-- The last index that is written for a cluster number when one more is. -/
theorem findGreatest_isWrittenFor (entry : Nat → Nat × Nat) (number c i : Nat) :
    Nat.findGreatest (IsWrittenFor entry number c) i =
      if IsWrittenFor entry number c i then i
      else Nat.findGreatest (IsWrittenFor entry number c) (i - 1) := by
  cases i with
  | zero => exact (ite_self 0).symm
  | succ i => exact Nat.findGreatest_succ i

theorem Reversed.store {s : ReadState} {entry : Nat → Nat × Nat} (h : s.Reversed entry)
    (hroom : s.tableIndex < s.allocationTable.numberOfClusterNumbers) :
    (s.store (entry s.tableIndex).1 (entry s.tableIndex).2).Reversed entry := by
  intro reversedTable' h'
  obtain ⟨reversedTable, hsome, hreversed⟩ := Option.map_eq_some_iff.mp h'
  obtain ⟨hnumber, hlast⟩ := h reversedTable hsome
  have hmod : s.tableIndex % 2 ^ 32 = s.tableIndex := by
    have hlt : s.tableIndex < s.allocationTable.clusterNumbers.length := hroom
    have hle := s.allocationTable.length_le
    have hmax : maximumNumberOfClustersInFat = 67108864 := rfl
    exact Nat.mod_eq_of_lt (by omega)
  rw [store_numberOfClusterNumbers, store_tableIndex, Nat.add_sub_cancel]
  constructor
  · rw [← hnumber, ← hreversed]
    split
    · exact List.length_set
    · rfl
  · intro c hc
    rw [findGreatest_isWrittenFor, ← hlast c hc, ← hreversed]
    rcases Nat.lt_or_ge (entry s.tableIndex).1 s.allocationTable.numberOfClusterNumbers
      with hlt | hge
    · rw [if_pos hlt, getD_setClusterNumber _ _ _ _ (hnumber ▸ hc), hmod]
      simp only [IsWrittenFor, hlt, true_and]
    · rw [if_neg hge.not_gt, if_neg (fun hwritten => hge.not_gt hwritten.1)]

theorem Reversed.fill {s : ReadState} {entry : Nat → Nat × Nat} (h : s.Reversed entry)
    (count : Nat) : (s.fill entry count).Reversed entry :=
  fill_induction (motive := fun s => s.Reversed entry) h (fun _ h hroom => h.store hroom) count

/-- The state that the loops start in, with new tables. -/
theorem reversed_of_zero (entry : Nat → Nat × Nat) {table reversedTable : AllocationTable}
    (hnumber : reversedTable.numberOfClusterNumbers = table.numberOfClusterNumbers)
    (hzero : ∀ i, reversedTable.clusterNumbers.getD i 0 = 0) :
    Reversed ⟨table, some reversedTable, 0⟩ entry := by
  intro reversedTable' h
  injection h with h
  subst h
  exact ⟨hnumber, fun c _ => hzero c⟩

end ReadState

/-! ### The numbers that are compared -/

section Compared

variable {data : List UInt8} {bytes i : Nat}

theorem fat12EntriesPerSector_even (bytes : Nat) : fat12EntriesPerSector bytes % 2 = 0 :=
  Nat.mul_mod_right 2 _

/-- The first entry of a pair is compared together with the second. -/
theorem tableEntry_fat12_of_even (hi : i % 2 = 0) :
    (tableEntry .fat12 data bytes i).1 =
      fat12SectorEntry data bytes i + 2 ^ 12 * fat12SectorEntry data bytes (i + 1) := by
  have heven := fat12EntriesPerSector_even bytes
  have hdef : entriesPerSector .fat12 bytes = fat12EntriesPerSector bytes := rfl
  rw [fat12SectorEntry, fat12SectorEntry, tableEntry, hdef]
  generalize fat12EntriesPerSector bytes = count at heven ⊢
  obtain ⟨half, rfl⟩ : ∃ half, i = 2 * half := ⟨i / 2, by omega⟩
  obtain ⟨pairs, rfl⟩ : ∃ pairs, count = 2 * pairs := ⟨count / 2, by omega⟩
  have hdiv : (2 * half + 1) / (2 * pairs) = 2 * half / (2 * pairs) := by
    rw [← Nat.div_div_eq_div_mul, ← Nat.div_div_eq_div_mul]
    congr 1
    omega
  have hfirst : 2 * half % (2 * pairs) = 2 * (half % pairs) := Nat.mul_mod_mul_left 2 half pairs
  have hsecond : (2 * half + 1) % (2 * pairs) = 2 * (half % pairs) + 1 := by
    have hadd := Nat.div_add_mod (2 * half + 1) (2 * pairs)
    have hadd' := Nat.div_add_mod (2 * half) (2 * pairs)
    rw [hdiv] at hadd
    omega
  rw [hdiv, hfirst, hsecond, sectorEntry, if_pos rfl, fat12Entry, fat12Entry]
  have hodd : ¬ (2 * (half % pairs) + 1) % 2 = 0 := by omega
  have hhalf : (2 * (half % pairs) + 1) / 2 = half % pairs := by omega
  rw [if_pos (Nat.mul_mod_right 2 _), if_pos (Nat.mul_mod_right 2 _), if_neg hodd, hhalf,
    Nat.mul_div_cancel_left _ (by decide)]
  exact (Nat.mod_add_div _ _).symm

/-- All other entries are compared as they are. -/
theorem tableEntry_compared {format : FileSystemFormat} (h : format = .fat12 → i % 2 = 1) :
    (tableEntry format data bytes i).1 = (tableEntry format data bytes i).2 := by
  rw [tableEntry, sectorEntry]
  split
  · next hformat =>
    have hodd : ¬ i % entriesPerSector format bytes % 2 = 0 := by
      have heven := fat12EntriesPerSector_even bytes
      have hdef : entriesPerSector format bytes = fat12EntriesPerSector bytes := by
        rw [hformat]
        rfl
      rw [hdef, Nat.mod_mod_of_dvd i (Nat.dvd_of_mod_eq_zero heven), h hformat]
      decide
    exact if_neg hodd
  · rfl

/-- Behind the last sector there are no entries. -/
theorem fat12SectorEntry_beyond {n : Nat} (hdata : data.length = n * bytes)
    (hi : fat12EntriesPerSector bytes * n ≤ i) (hpos : 0 < fat12EntriesPerSector bytes) :
    fat12SectorEntry data bytes i = 0 := by
  have hsector : n ≤ i / fat12EntriesPerSector bytes := by
    rw [Nat.le_div_iff_mul_le hpos, Nat.mul_comm]
    exact hi
  have hdrop : data.drop (i / fat12EntriesPerSector bytes * bytes) = [] := by
    rw [List.drop_eq_nil_iff, hdata]
    exact Nat.mul_le_mul_right bytes hsector
  have hzero (index : Nat) : uint24At [0, 0] index = 0 := by
    have hbyte (index : Nat) : byteAt [0, 0] index = 0 := by
      rw [byteAt]
      rcases index with _ | _ | index <;> rfl
    rw [uint24At, uint16At, hbyte, hbyte, hbyte, Nat.mul_zero, Nat.mul_zero]
  rw [fat12SectorEntry, hdrop, List.take_nil, List.nil_append, fat12Entry, hzero]
  exact ite_self 0

end Compared

/-! ### The inverse of the table -/

/-- The last place where something holds, if it holds at no other place. -/
theorem findGreatest_eq_iff_of_unique {P : Nat → Prop} [DecidablePred P] {last i : Nat}
    (hpos : 0 < i) (hunique : ∀ j, i < j → j ≤ last → P i → ¬ P j) :
    Nat.findGreatest P last = i ↔ i ≤ last ∧ P i := by
  rw [Nat.findGreatest_eq_iff]
  constructor
  · rintro ⟨hle, hholds, _⟩
    exact ⟨hle, hholds hpos.ne'⟩
  · rintro ⟨hle, hholds⟩
    exact ⟨hle, fun _ => hholds, fun j hlt hj => hunique j hlt hj hholds⟩

/-- No cluster of the table is the next one of two. The entries of the first two
are no cluster numbers. -/
structure NamesEachOnce (table : AllocationTable) : Prop where
  first : ∀ i < 2, i < table.numberOfClusterNumbers →
    table.numberOfClusterNumbers ≤ table.clusterNumbers.getD i 0
  unique : ∀ i j, 2 ≤ i → i < table.numberOfClusterNumbers → 2 ≤ j →
    j < table.numberOfClusterNumbers → 2 ≤ table.clusterNumbers.getD i 0 →
    table.clusterNumbers.getD i 0 < table.numberOfClusterNumbers →
    table.clusterNumbers.getD i 0 = table.clusterNumbers.getD j 0 → i = j

/-- The reversed table has the previous cluster for each next one. -/
def IsInverse (table reversedTable : AllocationTable) : Prop :=
  ∀ i c, 2 ≤ i → i < table.numberOfClusterNumbers → 2 ≤ c → c < table.numberOfClusterNumbers →
    (table.clusterNumbers.getD i 0 = c ↔ reversedTable.clusterNumbers.getD c 0 = i)

/-- The pairs of FAT-12 entries of which the first is a cluster number are below
the size of the table, the bits of both entries taken together. -/
def PairsBelow (data : List UInt8) (bytesPerSector number : Nat) : Prop :=
  ∀ i, 2 ≤ i → i < number → i % 2 = 0 → 2 ≤ fat12SectorEntry data bytesPerSector i →
    fat12SectorEntry data bytesPerSector i < number →
    fat12SectorEntry data bytesPerSector i +
      2 ^ 12 * fat12SectorEntry data bytesPerSector (i + 1) < number

section Inverse

variable {format : FileSystemFormat} {data : List UInt8} {bytes n : Nat}
  {table reversedTable table' reversedTable' : AllocationTable}

/-- What new tables hold after they are filled: an entry has the number of the
sector, and a number of the reversed table is the last index it was written for. -/
theorem fill_tables (htable : ∀ i, table.clusterNumbers.getD i 0 = 0)
    (hreversed : ∀ i, reversedTable.clusterNumbers.getD i 0 = 0)
    (hnumber : reversedTable.numberOfClusterNumbers = table.numberOfClusterNumbers)
    (entry : Nat → Nat × Nat) (hlt : ∀ i, (entry i).2 < 2 ^ 32) (count : Nat)
    (hresult : (ReadState.fill entry count ⟨table, some reversedTable, 0⟩).allocationTable = table')
    (hresult' : (ReadState.fill entry count ⟨table, some reversedTable, 0⟩).reversedAllocationTable =
      some reversedTable') :
    let number := table.numberOfClusterNumbers
    let filled := min number count
    (∀ i < number, table'.clusterNumbers.getD i 0 = if i < filled then (entry i).2 else 0) ∧
      ∀ c < number, reversedTable'.clusterNumbers.getD c 0 =
        Nat.findGreatest (ReadState.IsWrittenFor entry number c) (filled - 1) := by
  dsimp only
  have hindex := ReadState.fill_tableIndex entry
    (s := ⟨table, some reversedTable, 0⟩) (Nat.zero_le _) count
  rw [Nat.zero_add] at hindex
  constructor
  · intro i hi
    rw [← hresult]
    split
    · next hfilled => exact fill_getD entry hlt table _ hi (by omega)
    · next hfilled =>
      have hstart : ReadState.RestZero ⟨table, some reversedTable, 0⟩ := fun i _ => htable i
      exact hstart.fill count i (by rw [hindex]; exact Nat.le_of_not_lt hfilled)
  · intro c hc
    have hreversed' :=
      ((ReadState.reversed_of_zero entry hnumber hreversed).fill count reversedTable' hresult').2 c
    rw [ReadState.fill_numberOfClusterNumbers, hindex] at hreversed'
    exact hreversed' hc

/-- The reversed table is the inverse exactly if every entry that is a cluster
number is also compared as one. -/
theorem isInverse_iff_compared {entry : Nat → Nat × Nat} {filled : Nat}
    (hentries : ∀ i < table'.numberOfClusterNumbers,
      table'.clusterNumbers.getD i 0 = if i < filled then (entry i).2 else 0)
    (hlast : ∀ c < table'.numberOfClusterNumbers, reversedTable'.clusterNumbers.getD c 0 =
      Nat.findGreatest (ReadState.IsWrittenFor entry table'.numberOfClusterNumbers c) (filled - 1))
    (hfilled : filled ≤ table'.numberOfClusterNumbers) (honce : NamesEachOnce table') :
    IsInverse table' reversedTable' ↔
      ∀ i, 2 ≤ i → i < filled → 2 ≤ (entry i).2 → (entry i).2 < table'.numberOfClusterNumbers →
        (entry i).1 < table'.numberOfClusterNumbers := by
  have hstored {i c : Nat} (hi : i < table'.numberOfClusterNumbers) (hc : 2 ≤ c) :
      table'.clusterNumbers.getD i 0 = c ↔ i < filled ∧ (entry i).2 = c := by
    rw [hentries i hi]
    split
    · next hlt => exact (and_iff_right hlt).symm
    · next hge =>
      constructor
      · rintro rfl
        exact absurd hc (by decide)
      · intro h
        exact absurd h.1 hge
  have hwritten {i c : Nat} (hi2 : 2 ≤ i) (hi : i < table'.numberOfClusterNumbers) (hc2 : 2 ≤ c)
      (hc : c < table'.numberOfClusterNumbers) : reversedTable'.clusterNumbers.getD c 0 = i ↔
        i < filled ∧ (entry i).1 < table'.numberOfClusterNumbers ∧ (entry i).2 = c := by
    rw [hlast c hc, findGreatest_eq_iff_of_unique (by omega)]
    · exact and_congr_left' (by omega)
    · intro j hlt hj hpi hpj
      -- Two entries with the same cluster number would be two previous clusters.
      have hfirst := (hstored hi hc2).mpr ⟨by omega, hpi.2⟩
      have hsecond : table'.clusterNumbers.getD j 0 = c :=
        (hstored (by omega) hc2).mpr ⟨by omega, hpj.2⟩
      have heq := honce.unique i j hi2 hi (by omega) (by omega) (by omega) (by omega)
        (hfirst.trans hsecond.symm)
      omega
  constructor
  · intro hinverse i hi2 hi hc2 hc
    have hiff := hinverse i (entry i).2 hi2 (by omega) hc2 hc
    have hlinked := hiff.mp ((hstored (by omega) hc2).mpr ⟨hi, rfl⟩)
    exact ((hwritten hi2 (by omega) hc2 hc).mp hlinked).2.1
  · intro hcompared i c hi2 hi hc2 hc
    rw [hstored hi hc2, hwritten hi2 hi hc2 hc]
    constructor
    · rintro ⟨hlt, rfl⟩
      exact ⟨hlt, hcompared i hi2 hlt hc2 hc, rfl⟩
    · rintro ⟨hlt, _, heq⟩
      exact ⟨hlt, heq⟩

/-- The reversed table is the inverse of the table exactly if no pair of FAT-12
entries is too large to be taken for a cluster number. -/
theorem isInverse_iff {ioHandle : IoHandle} {image : List UInt8} {freshMemory : Nat → UInt8}
    {fileOffset : Int} {size number : Nat}
    (hsize : ioHandle.bytesPerSector ∣ size)
    (htable : create number = .ok table) (hreversed : create number = .ok reversedTable)
    (h : table.readFileIOHandle (some reversedTable) ioHandle image freshMemory fileOffset size =
      .ok (table', some reversedTable'))
    (honce : NamesEachOnce table') :
    IsInverse table' reversedTable' ↔
      (ioHandle.fileSystemFormat = .fat12 →
        PairsBelow ((image.drop fileOffset.toNat).take size) ioHandle.bytesPerSector number) := by
  obtain ⟨hnumber, hzero⟩ := create_eq_ok htable
  obtain ⟨hnumber', hzero'⟩ := create_eq_ok hreversed
  obtain ⟨_, hresultNumber, _⟩ := readFileIOHandle_ok h
  obtain ⟨hlength, hfill, hfill'⟩ := readFileIOHandle_filled hsize h
  generalize (image.drop fileOffset.toNat).take size = data at *
  set entry := tableEntry ioHandle.fileSystemFormat data ioHandle.bytesPerSector with hentry
  set count := entriesPerSector ioHandle.fileSystemFormat ioHandle.bytesPerSector *
    (size / ioHandle.bytesPerSector) with hcount
  obtain ⟨hentries, hlast⟩ := fill_tables hzero hzero' (hnumber'.trans hnumber.symm) entry
    (tableEntry_lt _ _ _) count hfill hfill'
  rw [hnumber] at hentries hlast
  have hnumber'' : table'.numberOfClusterNumbers = number := hresultNumber.trans hnumber
  rw [← hnumber''] at hentries hlast ⊢
  rw [isInverse_iff_compared hentries hlast (Nat.min_le_left _ _) honce]
  constructor
  · intro hcompared hfat12 i hi2 hi heven hc2 hc
    rw [hfat12] at hentry hcount
    have hi' : i < min table'.numberOfClusterNumbers count := by
      apply lt_min hi
      by_contra hge
      -- An entry behind the last sector is zero.
      have hbeyond := fat12SectorEntry_beyond
        (hlength.trans (Nat.div_mul_cancel hsize).symm) (Nat.le_of_not_lt (hcount ▸ hge))
        (Nat.mul_pos (by decide) (Nat.div_pos (by omega) (by decide)))
      omega
    have hlt := hcompared i hi2 hi' (by rw [hentry]; exact hc2) (by rw [hentry]; exact hc)
    rw [hentry, tableEntry_fat12_of_even heven] at hlt
    exact hlt
  · intro hpairs i hi2 hi hc2 hc
    by_cases hfirst : ioHandle.fileSystemFormat = .fat12 ∧ i % 2 = 0
    · obtain ⟨hfat12, heven⟩ := hfirst
      rw [hentry, hfat12] at hc2 hc ⊢
      rw [tableEntry_fat12_of_even heven]
      exact hpairs hfat12 i hi2 (by omega) heven hc2 hc
    · have hodd : ioHandle.fileSystemFormat = .fat12 → i % 2 = 1 := by
        intro hfat12
        have hne : ¬ i % 2 = 0 := fun heven => hfirst ⟨hfat12, heven⟩
        omega
      rw [hentry, tableEntry_compared hodd]
      exact hc

end Inverse

/-- A FAT-12 table of one sector whose cluster 3 is followed by cluster 4. -/
def fat12ChainTable : List UInt8 :=
  [0xf8, 0xff, 0xff, 0xff, 0x4f, 0x00, 0xff, 0x0f, 0x00] ++ List.replicate 503 0

/-- A FAT-12 table of one sector whose cluster 2 is followed by cluster 3. -/
def fat12LostChainTable : List UInt8 :=
  [0xf8, 0xff, 0xff, 0x03, 0xf0, 0xff] ++ List.replicate 506 0

/-- The tables that are read are those with these numbers. -/
theorem exists_tables {result : Except Error (AllocationTable × Option AllocationTable)}
    {numbers reversedNumbers : List Nat}
    (h : result.map (fun tables => (tables.1.clusterNumbers, tables.2.map (·.clusterNumbers))) =
      .ok (numbers, some reversedNumbers)) :
    ∃ table reversedTable, result = .ok (table, some reversedTable) ∧
      table.clusterNumbers = numbers ∧ reversedTable.clusterNumbers = reversedNumbers := by
  obtain ⟨⟨table, reversed⟩, hresult, heq⟩ := map_eq_ok_iff.mp h
  injection heq with hnumbers hreversed
  obtain ⟨reversedTable, hsome, hnumbers'⟩ := Option.map_eq_some_iff.mp hreversed
  obtain rfl : reversed = some reversedTable := hsome
  exact ⟨table, reversedTable, hresult, hnumbers, hnumbers'⟩

theorem namesEachOnce_of_numbers {table : AllocationTable} {numbers : List Nat}
    (h : table.clusterNumbers = numbers)
    (hfirst : ∀ i < 2, i < numbers.length → numbers.length ≤ numbers.getD i 0)
    (hunique : ∀ i < numbers.length, ∀ j < numbers.length, 2 ≤ i ∧ 2 ≤ j ∧
      2 ≤ numbers.getD i 0 ∧ numbers.getD i 0 < numbers.length ∧
      numbers.getD i 0 = numbers.getD j 0 → i = j) : NamesEachOnce table := by
  subst h
  refine ⟨hfirst, ?_⟩
  intro i j hi2 hi hj2 hj hc2 hc heq
  exact hunique i hi j hj ⟨hi2, hj2, hc2, hc, heq⟩

theorem isInverse_iff_chain :
    ∃ table' reversedTable',
      (zeroed 6 (by decide) (by decide)).readFileIOHandle (some (zeroed 6 (by decide) (by decide)))
          ⟨0, .fat12, 512, 512, 6, 0, 0⟩ fat12ChainTable (fun _ => 0) 0 512 =
        .ok (table', some reversedTable') ∧
      NamesEachOnce table' ∧
      (IsInverse table' reversedTable' ↔
        (FileSystemFormat.fat12 = .fat12 →
          PairsBelow ((fat12ChainTable.drop (0 : Int).toNat).take 512) 512 6)) := by
  have hread : ∃ table' reversedTable',
      (zeroed 6 (by decide) (by decide)).readFileIOHandle (some (zeroed 6 (by decide) (by decide)))
          ⟨0, .fat12, 512, 512, 6, 0, 0⟩ fat12ChainTable (fun _ => 0) 0 512 =
        .ok (table', some reversedTable') ∧
      table'.clusterNumbers = [0xff8, 0xfff, 0xfff, 4, 0xfff, 0] ∧
      reversedTable'.clusterNumbers = [5, 0, 0, 0, 3, 0] := exists_tables (by decide +kernel)
  obtain ⟨table', reversedTable', hread, htable, _⟩ := hread
  have honce : NamesEachOnce table' :=
    namesEachOnce_of_numbers htable (by decide) (by decide)
  exact ⟨table', reversedTable', hread, honce, isInverse_iff (by decide) rfl rfl hread honce⟩

/-- Cluster 2 of this table is followed by cluster 3, which has no previous one. -/
theorem lost_chain_is_not_inverse :
    ∃ table' reversedTable',
      create 4 = .ok (zeroed 4 (by decide) (by decide)) ∧
      (zeroed 4 (by decide) (by decide)).readFileIOHandle (some (zeroed 4 (by decide) (by decide)))
          ⟨0, .fat12, 512, 512, 4, 0, 0⟩ fat12LostChainTable (fun _ => 0) 0 512 =
        .ok (table', some reversedTable') ∧
      NamesEachOnce table' ∧
      table'.clusterNumbers.getD 2 0 = 3 ∧ reversedTable'.clusterNumbers.getD 3 0 = 0 ∧
      ¬ IsInverse table' reversedTable' := by
  have hread : ∃ table' reversedTable',
      (zeroed 4 (by decide) (by decide)).readFileIOHandle (some (zeroed 4 (by decide) (by decide)))
          ⟨0, .fat12, 512, 512, 4, 0, 0⟩ fat12LostChainTable (fun _ => 0) 0 512 =
        .ok (table', some reversedTable') ∧
      table'.clusterNumbers = [0xff8, 0xfff, 3, 0xfff] ∧
      reversedTable'.clusterNumbers = [0, 0, 0, 0] := exists_tables (by decide +kernel)
  obtain ⟨table', reversedTable', hread, htable, hreversed⟩ := hread
  have honce : NamesEachOnce table' :=
    namesEachOnce_of_numbers htable (by decide) (by decide)
  refine ⟨table', reversedTable', rfl, hread, honce, by rw [htable]; rfl, by rw [hreversed]; rfl, ?_⟩
  intro hinverse
  have hiff := hinverse 2 3 (by decide) (by rw [numberOfClusterNumbers, htable]; decide) (by decide)
    (by rw [numberOfClusterNumbers, htable]; decide)
  rw [htable, hreversed] at hiff
  exact absurd hiff (by decide)

end AllocationTable

end FsFat
