import FsFat.AllocationTableEntries
import FsFat.DirectoryListing

/-!
The reserved bits of a FAT-32 table: the four high bits of an entry, of which
the format says that they are not used. The library compares the whole entry
with the numbers of clusters, so an entry with a reserved bit always ends a
chain. Two tables that differ in reserved bits only are the same to it exactly
if they have the same chains.
-/

namespace FsFat

open Bytes DirectoryEntry DirectoryReadState

/-- The entry of a cluster in a FAT-32 table. -/
abbrev fat32Entry (table : List UInt8) (c : Nat) : Nat := uint32At table (4 * c)

/-- The cluster that an entry links to, with its reserved bits taken as a part
of the number. -/
def linkedCluster (entry : Nat) : Option Nat :=
  if 2 ≤ entry ∧ entry < 0x0ffffff0 then some entry else none

/-- If the low 28 bits are the number of a cluster, then the reserved bits are
zero in both entries or in none of them. -/
def AlikeInReservedBits (first second : Nat) : Prop :=
  2 ≤ first % 2 ^ 28 → first % 2 ^ 28 < 0x0ffffff0 → (first < 2 ^ 28 ↔ second < 2 ^ 28)

/-- A cluster leads to another one over the links of a table with entries for
`total` clusters. The list has the clusters on the way, both ends included. -/
inductive LeadsTo (table : List UInt8) (total : Nat) : Nat → List Nat → Nat → Prop where
  | here {c : Nat} : 2 ≤ c → c < total → LeadsTo table total c [c] c
  | linked {c next i : Nat} {way : List Nat} : 2 ≤ c → c < total →
      linkedCluster (fat32Entry table c) = some next → LeadsTo table total next way i →
      LeadsTo table total c (c :: way) i

/-- A walk from a cluster comes to another one: the table leads to it, and the
block tree takes the clusters on the way. -/
structure ComesTo (ioHandle : IoHandle) (table : List UInt8) (c : Nat) (way : List Nat)
    (i : Nat) : Prop where
  volume : ioHandle.volumeSize ≤ int64Max
  leads : LeadsTo table ioHandle.totalNumberOfClusters c way i
  may : MayVisit ioHandle [] way

/-- The file system after its FAT-32 table was read. -/
def ReadsTable (ioHandle : IoHandle) (table : List UInt8) (fs : FileSystem) : Prop :=
  ∃ image freshMemory fileOffset, readAt image fileOffset table.length = some table ∧
    readAllocationTable ioHandle image freshMemory fileOffset table.length = .ok fs

/-! ### Entries that link alike -/

theorem linkedCluster_eq_some {entry next : Nat} (h : linkedCluster entry = some next) :
    next = entry ∧ 2 ≤ entry ∧ entry < 0x0ffffff0 := by
  unfold linkedCluster at h
  split at h
  · next hin =>
    injection h with h
    exact ⟨h.symm, hin⟩
  · cases h

theorem linkedCluster_eq_none {entry : Nat} (h : linkedCluster entry = none) :
    entry < 2 ∨ 0x0ffffff0 ≤ entry := by
  unfold linkedCluster at h
  split at h
  · cases h
  · omega

/-- Entries that agree in the low bits link to the same cluster exactly if their
reserved bits are alike. -/
theorem alikeInReservedBits_iff {first second : Nat}
    (hlow : first % 2 ^ 28 = second % 2 ^ 28) :
    AlikeInReservedBits first second ↔ linkedCluster first = linkedCluster second := by
  unfold AlikeInReservedBits linkedCluster
  constructor
  · intro h
    split_ifs with hfirst hsecond hsecond
    · congr 1
      omega
    · omega
    · omega
    · rfl
  · intro h h2 hlast
    split_ifs at h with hfirst hsecond hsecond
    · omega
    · omega

/-- Where the entries of two tables differ in a link, on the way to a cluster,
there is a first place where they do. -/
theorem LeadsTo.exists_first {first second : List UInt8} {total c i : Nat} {way : List Nat}
    (h : LeadsTo first total c way i)
    (hne : linkedCluster (fat32Entry first i) ≠ linkedCluster (fat32Entry second i)) :
    ∃ way' j, way' <+: way ∧ LeadsTo first total c way' j ∧ LeadsTo second total c way' j ∧
      linkedCluster (fat32Entry first j) ≠ linkedCluster (fat32Entry second j) := by
  induction h with
  | here h2 hlt => exact ⟨_, _, List.prefix_rfl, .here h2 hlt, .here h2 hlt, hne⟩
  | @linked c next i way h2 hlt hlink _ ih =>
    by_cases hsame : linkedCluster (fat32Entry first c) = linkedCluster (fat32Entry second c)
    · obtain ⟨way', j, hway, hfirst, hsecond, hj⟩ := ih hne
      exact ⟨c :: way', j, (List.cons_prefix_cons).mpr ⟨rfl, hway⟩, .linked h2 hlt hlink hfirst,
        .linked h2 hlt (hsame ▸ hlink) hsecond, hj⟩
    · exact ⟨[c], c, by simp, .here h2 hlt, .here h2 hlt, hsame⟩

theorem MayVisit.of_prefix {ioHandle : IoHandle} {way way' : List Nat}
    (h : MayVisit ioHandle [] way) (hway : way' <+: way) : MayVisit ioHandle [] way' := by
  refine ⟨fun d hd => h.covers d (hway.subset hd), ?_⟩
  have hnodup := h.nodup
  rw [List.nil_append] at hnodup ⊢
  exact hnodup.sublist (hway.sublist.map _)

/-! ### The entries of a table that was read -/

section Read

variable {ioHandle : IoHandle} {table : List UInt8} {fs : FileSystem}

/-- What is used of a table that was read: it has an entry for each cluster. -/
structure HasEntries (fs : FileSystem) (ioHandle : IoHandle) (table : List UInt8) : Prop where
  ioHandle_eq : fs.ioHandle = ioHandle
  format : ioHandle.fileSystemFormat = .fat32
  number : fs.allocationTable.numberOfClusterNumbers = ioHandle.totalNumberOfClusters
  entry : ∀ c < ioHandle.totalNumberOfClusters,
    fs.allocationTable.clusterNumbers.getD c 0 = fat32Entry table c

theorem ReadsTable.hasEntries (h : ReadsTable ioHandle table fs)
    (hformat : ioHandle.fileSystemFormat = .fat32) (hentries : 4 ∣ ioHandle.bytesPerSector)
    (hsectors : ioHandle.bytesPerSector ∣ table.length) : HasEntries fs ioHandle table := by
  obtain ⟨image, freshMemory, fileOffset, htable, hread⟩ := h
  refine ⟨(readAllocationTable_eq_ok hread).1, hformat, readAllocationTable_number hread, ?_⟩
  intro c hc
  have hstored := readAllocationTable_stored hread (by rw [hformat]; decide)
    (by rw [hformat]; exact hentries) hsectors htable hc
  rw [hformat] at hstored
  exact hstored

/-- The clusters of a table are few enough for every cluster number. -/
theorem HasEntries.total_lt (h : HasEntries fs ioHandle table) :
    ioHandle.totalNumberOfClusters < 0x0ffffff0 := by
  have hle := fs.allocationTable.length_le
  have hmax : maximumNumberOfClustersInFat = 67108864 := rfl
  rw [← h.number]
  simp only [AllocationTable.numberOfClusterNumbers]
  omega

/-- The lookup of a cluster. -/
theorem HasEntries.lookup (h : HasEntries fs ioHandle table) {c : Nat}
    (hlast : c < 0x0ffffff0) :
    fs.allocationTable.getClusterNumberByIndex (toInt32 c) =
      if c < ioHandle.totalNumberOfClusters then .ok (fat32Entry table c)
      else .error .entryIndexOutOfBounds := by
  rw [toInt32_of_lt (by omega)]
  split
  · next hlt =>
    rw [AllocationTable.getClusterNumberByIndex_of_lt (by rw [h.number]; exact hlt), h.entry c hlt]
  · next hge =>
    unfold AllocationTable.getClusterNumberByIndex
    rw [h.number, if_pos (Or.inr (by omega))]

end Read

/-! ### Walks over the two tables -/

section Walks

variable {α : Type} {ioHandle : IoHandle} {first second : List UInt8} {fs fs' : FileSystem}

/-- The states of the two walks. As long as the walks are in the loop the states
are the same, and the tables link alike in every cluster that is still to come.
When the loop is left, they may have different numbers that no cluster has. -/
inductive Alike (ioHandle : IoHandle) (first second : List UInt8) (fs : FileSystem) :
    ChainWalk α → ChainWalk α → Prop where
  | same {w : ChainWalk α} : Accepted fs 0x0ffffff0 w.tree w.accepted →
      (∀ way i, LeadsTo first ioHandle.totalNumberOfClusters w.clusterNumber way i →
        MayVisit ioHandle w.accepted way →
          linkedCluster (fat32Entry first i) = linkedCluster (fat32Entry second i)) →
      Alike ioHandle first second fs w w
  | ended {w : ChainWalk α} {c : Nat} :
      w.clusterNumber < 2 ∨ 0x0ffffff0 ≤ w.clusterNumber → c < 2 ∨ 0x0ffffff0 ≤ c →
      Alike ioHandle first second fs w { w with clusterNumber := c }

/-- The check of a cluster says that the walk may visit it. -/
theorem accepted_of_check {last c : Nat} {tree tree' : BlockTree} {accepted : List Nat}
    (hw : Accepted fs last tree accepted) (h2 : 2 ≤ c) (hlast : c < last)
    (hcheck : checkIfClusterBlockFirstRead tree c (clusterOffset fs.ioHandle c) = .ok tree') :
    CoversCluster fs.ioHandle c ∧ Accepted fs last tree' (accepted ++ [c]) := by
  have hin : CoversCluster fs.ioHandle c ∧
      ∀ d ∈ accepted, clusterBlock fs.ioHandle d ≠ clusterBlock fs.ioHandle c := by
    by_contra hout
    obtain ⟨e, he⟩ := checkIfClusterBlockFirstRead_error hw hout
    rw [hcheck] at he
    cases he
  obtain ⟨tree'', hok, haccepted⟩ := checkIfClusterBlockFirstRead_ok hw h2 hlast hin.1 hin.2
  rw [hcheck] at hok
  injection hok with hok
  exact ⟨hin.1, hok ▸ haccepted⟩

/-- The step of the two walks: they stay alike, or end with the same result. -/
theorem chainStep_alike (h : HasEntries fs ioHandle first) (h' : HasEntries fs' ioHandle second)
    (visitor : ChainVisitor α) {w w' : ChainWalk α} (hw : Alike ioHandle first second fs w w') :
    (∃ s s', chainStep fs 0x0ffffff0 visitor w = .next s ∧
        chainStep fs' 0x0ffffff0 visitor w' = .next s' ∧ Alike ioHandle first second fs s s') ∨
      ∃ b, chainStep fs 0x0ffffff0 visitor w = .done b ∧
        chainStep fs' 0x0ffffff0 visitor w' = .done b := by
  cases hw with
  | ended hc hc' =>
    refine Or.inr ⟨_, chainStep_exit fun hvisits => ?_, chainStep_exit fun hvisits => ?_⟩
    · obtain ⟨h2, hlast, _⟩ := hvisits
      omega
    · obtain ⟨h2, hlast, _⟩ := hvisits
      dsimp only at h2 hlast
      omega
  | same haccepted halike =>
    by_cases hexit : w.clusterNumber < 2 ∨ 0x0ffffff0 ≤ w.clusterNumber ∨
        visitor.finished w.value = true
    · exact Or.inr ⟨_, if_pos hexit, if_pos hexit⟩
    have h2 : 2 ≤ w.clusterNumber := by omega
    have hlast : w.clusterNumber < 0x0ffffff0 := by omega
    simp only [chainStep, if_neg hexit, h.ioHandle_eq, h'.ioHandle_eq]
    cases hcheck : checkIfClusterBlockFirstRead w.tree w.clusterNumber
        (clusterOffset ioHandle w.clusterNumber) with
    | error e => exact Or.inr ⟨_, rfl, rfl⟩
    | ok tree =>
      dsimp only
      cases visitor.visit (clusterOffset ioHandle w.clusterNumber) w.value with
      | error e => exact Or.inr ⟨_, rfl, rfl⟩
      | ok visited =>
        obtain ⟨value, ends⟩ := visited
        cases ends with
        | true => exact Or.inr ⟨_, rfl, rfl⟩
        | false =>
          simp only [afterVisit, h.lookup hlast, h'.lookup hlast]
          by_cases hlt : w.clusterNumber < ioHandle.totalNumberOfClusters
          · rw [if_pos hlt, if_pos hlt]
            refine Or.inl ⟨_, _, rfl, rfl, ?_⟩
            rw [← h.ioHandle_eq] at hcheck
            obtain ⟨hcovers, haccepted'⟩ := accepted_of_check haccepted h2 hlast hcheck
            rw [h.ioHandle_eq] at hcovers
            have hnodup := haccepted'.nodup
            rw [h.ioHandle_eq] at hnodup
            have hlink := halike _ _ (.here h2 hlt)
              ⟨fun d hd => List.mem_singleton.mp hd ▸ hcovers, hnodup⟩
            cases hnext : linkedCluster (fat32Entry first w.clusterNumber) with
            | none =>
              exact .ended (linkedCluster_eq_none hnext)
                (linkedCluster_eq_none (hlink.symm.trans hnext))
            | some next =>
              obtain ⟨rfl, _⟩ := linkedCluster_eq_some hnext
              obtain ⟨heq, _⟩ := linkedCluster_eq_some (hlink.symm.trans hnext)
              rw [← heq]
              exact .same haccepted' fun way i hleads hmay =>
                halike _ _ (.linked h2 hlt hnext hleads) (.cons hcovers hmay)
          · rw [if_neg hlt, if_neg hlt]
            exact Or.inr ⟨_, rfl, rfl⟩

/-- The walks over the two tables have the same result. -/
theorem walkChain_alike (h : HasEntries fs ioHandle first) (h' : HasEntries fs' ioHandle second)
    (visitor : ChainVisitor α) {tree : BlockTree}
    (htree : BlockTree.create ioHandle.volumeSize ioHandle.clusterBlockSize = .ok tree) (c : Nat)
    (value : α)
    (halike : ∀ way i, ComesTo ioHandle first c way i →
      linkedCluster (fat32Entry first i) = linkedCluster (fat32Entry second i)) :
    walkChain fs 0x0ffffff0 visitor tree c value =
      walkChain fs' 0x0ffffff0 visitor tree c value := by
  obtain ⟨⟨_, _, hvolume⟩, hempty⟩ := standsFor_of_create htree
  have hfs : tree.StandsFor fs.ioHandle.volumeSize fs.ioHandle.clusterBlockSize fun _ => none := by
    rw [h.ioHandle_eq]
    exact hempty
  have hfs' : tree.StandsFor fs'.ioHandle.volumeSize fs'.ioHandle.clusterBlockSize
      fun _ => none := by
    rw [h'.ioHandle_eq]
    exact hempty
  have hreturns : Loop.Returns (chainStep fs 0x0ffffff0 visitor) ⟨c, tree, [], value⟩
      (walkChain fs 0x0ffffff0 visitor tree c value) := ⟨_, walkChain_returns hfs⟩
  have hstart : Alike ioHandle first second fs (⟨c, tree, [], value⟩ : ChainWalk α)
      ⟨c, tree, [], value⟩ :=
    .same (accepted_nil hfs) fun way i hleads hmay => halike way i ⟨hvolume, hleads, hmay⟩
  exact (hreturns.of_related (fun _ _ => chainStep_alike h h' visitor) hstart).unique
    ⟨_, walkChain_returns hfs'⟩

/-- A start cluster and a size have the same results with the two tables. -/
theorem results_alike (h : HasEntries fs ioHandle first) (h' : HasEntries fs' ioHandle second)
    {c : Nat}
    (halike : ∀ way i, ComesTo ioHandle first c way i →
      linkedCluster (fat32Entry first i) = linkedCluster (fat32Entry second i))
    (image : List UInt8) (size : Nat) :
    getDataStream fs c size = getDataStream fs' c size ∧
      readDirectory fs image c = readDirectory fs' image c := by
  have hlast : lastClusterNumber ioHandle.fileSystemFormat = .ok 0x0ffffff0 := by
    rw [h.format]
    rfl
  have hdirectory : readDirectoryVisitor fs image = readDirectoryVisitor fs' image := by
    simp only [readDirectoryVisitor, h.ioHandle_eq, h'.ioHandle_eq]
  have hstream : dataStreamVisitor fs = dataStreamVisitor fs' := by
    simp only [dataStreamVisitor, h.ioHandle_eq, h'.ioHandle_eq]
  unfold getDataStream readDirectory
  rw [h.ioHandle_eq, h'.ioHandle_eq, hlast, hdirectory, hstream]
  cases htree : BlockTree.create ioHandle.volumeSize ioHandle.clusterBlockSize with
  | error e => exact ⟨rfl, rfl⟩
  | ok tree =>
    simp only [bind, Except.bind]
    rw [walkChain_alike h h' _ htree c _ halike, walkChain_alike h h' _ htree c _ halike]
    exact ⟨rfl, rfl⟩

end Walks

/-! ### Directories that tell the chains apart -/

section Spaces

variable {ioHandle : IoHandle} {table first second : List UInt8} {fs fs' : FileSystem}

/-- A slot of spaces has the short name of a file. -/
def spaces : List UInt8 := List.replicate directoryEntrySize 0x20

theorem isListed_spaces {slot : Slot} (h : slot.2 = spaces) : IsListed slot := by
  have hspaces : entryTypeOf spaces .fat16 = .shortName ∧
      byteAt spaces 11 &&& fileAttributeFlagVolumeLabel = 0 ∧ ¬ HasDotName spaces := by decide
  rw [← h] at hspaces
  exact hspaces

theorem readAt_spaces {n : Nat} {offset : Int} (h0 : 0 ≤ offset)
    (hle : offset.toNat + directoryEntrySize ≤ n) :
    readAt (List.replicate n 0x20) offset directoryEntrySize = some spaces := by
  rw [readAt_of_le h0 (by rw [List.length_replicate]; exact hle), List.drop_replicate,
    List.take_replicate, Nat.min_eq_left (by omega)]
  rfl

theorem rangeContent_spaces {n : Nat} (count : Nat) {offset : Int} (h0 : 0 ≤ offset)
    (hle : offset.toNat + count * directoryEntrySize ≤ n) :
    ∃ slots, RangeContent (List.replicate n 0x20) .fat32 count offset slots false := by
  induction count generalizing offset with
  | zero => exact ⟨[], .ended⟩
  | succ count ih =>
    rw [Nat.succ_mul] at hle
    have hsize : directoryEntrySize = 32 := rfl
    obtain ⟨slots, hrest⟩ := @ih (offset + directoryEntrySize) (by omega) (by omega)
    exact ⟨_, .slot (readAt_spaces h0 (by omega)) (show _ = Except.ok (some _) from rfl) hrest⟩

/-- All slots of a range of spaces are there. -/
theorem RangeContent.of_spaces {n count : Nat} {offset : Int} {slots : List Slot}
    {terminated : Bool}
    (h : RangeContent (List.replicate n 0x20) .fat32 count offset slots terminated) :
    terminated = false ∧ slots.length = count ∧ ∀ slot ∈ slots, slot.2 = spaces := by
  have hdata {offset : Int} {data : List UInt8}
      (hread : readAt (List.replicate n 0x20) offset directoryEntrySize = some data) :
      data = spaces := by
    obtain ⟨h0, hle, _⟩ := readAt_eq_some_iff.mp hread
    rw [List.length_replicate] at hle
    rw [readAt_spaces h0 hle] at hread
    injection hread with hread
    exact hread.symm
  induction h with
  | ended => exact ⟨rfl, rfl, fun slot hslot => absurd hslot List.not_mem_nil⟩
  | terminated hread hnone =>
    rw [hdata hread] at hnone
    cases hnone
  | slot hread _ _ ih =>
    obtain ⟨hterminated, hlength, hspaces⟩ := ih
    refine ⟨hterminated, by rw [List.length_cons, hlength], ?_⟩
    intro slot hslot
    rcases List.mem_cons.mp hslot with rfl | hslot
    · exact hdata hread
    · exact hspaces slot hslot

/-- A directory of spaces has a file in each slot of each cluster of its chain. -/
theorem DirectoryContent.of_spaces {n last c : Nat} {visited : List Nat} {slots : List Slot}
    (hformat : fs.ioHandle.fileSystemFormat = .fat32)
    (h : DirectoryContent fs (List.replicate n 0x20) last c visited slots) :
    slots.length = visited.length * slotsPerCluster fs.ioHandle ∧
      ∀ slot ∈ slots, slot.2 = spaces := by
  induction h with
  | ended _ => exact ⟨(Nat.zero_mul _).symm, fun slot hslot => absurd hslot List.not_mem_nil⟩
  | terminated _ _ hrange =>
    rw [hformat] at hrange
    exact absurd hrange.of_spaces.1 (by decide)
  | linked _ _ hrange _ _ ih =>
    rw [hformat] at hrange
    obtain ⟨_, hlength, hspaces⟩ := hrange.of_spaces
    obtain ⟨hlength', hspaces'⟩ := ih
    refine ⟨by rw [List.length_append, hlength, hlength', List.length_cons]; ring, ?_⟩
    intro slot hslot
    exact (List.mem_append.mp hslot).elim (hspaces slot) (hspaces' slot)

/-- The chain that ends at a cluster is the content of a directory of spaces. -/
theorem LeadsTo.content (h : HasEntries fs ioHandle table) (hgeometry : BlockGeometry ioHandle)
    (hvolume : ioHandle.volumeSize ≤ int64Max) {n : Nat} (hn : int64Max ≤ n) {c i : Nat}
    {way : List Nat} (hleads : LeadsTo table ioHandle.totalNumberOfClusters c way i)
    (hcovers : ∀ d ∈ way, CoversCluster ioHandle d)
    (hnone : linkedCluster (fat32Entry table i) = none) :
    ∃ slots, DirectoryContent fs (List.replicate n 0x20) 0x0ffffff0 c way slots := by
  have htotal := h.total_lt
  have hrange {d : Nat} (hd : CoversCluster ioHandle d) :
      ∃ slots, RangeContent (List.replicate n 0x20) fs.ioHandle.fileSystemFormat
        (slotsPerCluster fs.ioHandle) (clusterOffset fs.ioHandle d) slots false := by
    obtain ⟨h0, hend⟩ := hgeometry.offset_add_le hvolume hd
    have hsize := hgeometry.size_eq
    rw [h.ioHandle_eq, h.format]
    exact rangeContent_spaces _ h0 (by omega)
  have hnext {d : Nat} (hd : d < ioHandle.totalNumberOfClusters) :
      fs.allocationTable.getClusterNumberByIndex (toInt32 d) = .ok (fat32Entry table d) := by
    rw [h.lookup (lt_trans hd htotal), if_pos hd]
  induction hleads with
  | here h2 hlt =>
    obtain ⟨slots, hslots⟩ := hrange (hcovers _ List.mem_cons_self)
    exact ⟨_, .linked h2 (lt_trans hlt htotal) hslots (hnext hlt)
      (.ended (linkedCluster_eq_none hnone))⟩
  | linked h2 hlt hlink _ ih =>
    obtain ⟨slots, hslots⟩ := hrange (hcovers _ List.mem_cons_self)
    obtain ⟨rest, hrest⟩ := ih (fun d hd => hcovers d (List.mem_cons_of_mem _ hd)) hnone
    rw [(linkedCluster_eq_some hlink).1] at hrest
    exact ⟨_, .linked h2 (lt_trans hlt htotal) hslots (hnext hlt) hrest⟩

/-- In a volume of spaces no directory ends before its chain does. -/
theorem HasEntries.linked_of_spaces (h : HasEntries fs ioHandle table) {n c : Nat}
    {visited : List Nat} {slots : List Slot} (h2 : 2 ≤ c)
    (hlt : c < ioHandle.totalNumberOfClusters)
    (hcontent : DirectoryContent fs (List.replicate n 0x20) 0x0ffffff0 c visited slots) :
    ∃ rest restSlots, visited = c :: rest ∧
      DirectoryContent fs (List.replicate n 0x20) 0x0ffffff0 (fat32Entry table c) rest
        restSlots := by
  have htotal := h.total_lt
  cases hcontent with
  | ended hout => omega
  | terminated _ _ hrange =>
    rw [h.ioHandle_eq, h.format] at hrange
    exact absurd hrange.of_spaces.1 (by decide)
  | linked _ hlast _ hnext hrest =>
    rw [h.lookup hlast, if_pos hlt] at hnext
    injection hnext with hnext
    subst hnext
    exact ⟨_, _, rfl, hrest⟩

/-- A chain that goes on behind a cluster has more clusters than lead to it. -/
theorem LeadsTo.lt_length (h : HasEntries fs ioHandle table) {n c i next : Nat} {way : List Nat}
    (hleads : LeadsTo table ioHandle.totalNumberOfClusters c way i)
    (hsome : linkedCluster (fat32Entry table i) = some next) {visited : List Nat}
    {slots : List Slot}
    (hcontent : DirectoryContent fs (List.replicate n 0x20) 0x0ffffff0 c visited slots) :
    way.length < visited.length := by
  induction hleads generalizing visited slots with
  | here h2 hlt =>
    obtain ⟨rest, restSlots, rfl, hrest⟩ := h.linked_of_spaces h2 hlt hcontent
    obtain ⟨_, hnext2, hnextLast⟩ := linkedCluster_eq_some hsome
    cases hrest with
    | ended hout => omega
    | terminated _ _ _ => simp
    | linked _ _ _ _ _ => simp
  | linked h2 hlt hlink _ ih =>
    obtain ⟨rest, restSlots, rfl, hrest⟩ := h.linked_of_spaces h2 hlt hcontent
    rw [← (linkedCluster_eq_some hlink).1] at hrest
    rw [List.length_cons, List.length_cons]
    exact Nat.succ_lt_succ (ih hsome hrest)

/-- Spaces can be treated as entries. -/
theorem processEntries_spaces {slots : List Slot} (hspaces : ∀ slot ∈ slots, slot.2 = spaces)
    {s : DirectoryReadState} (hs : s.nameEntries = none) :
    ∃ s', processEntries processEntry (entriesOf .fat32 slots) s = .ok s' := by
  induction slots generalizing s with
  | nil => exact ⟨s, rfl⟩
  | cons slot slots ih =>
    obtain ⟨hslot, hrest⟩ := List.forall_mem_cons.mp hspaces
    have hentry : entryOf .fat32 slot = some (slot.1, readShortName spaces) := by
      rw [entryOf, hslot]
      rfl
    have hstep : s.processEntry (readShortName spaces) slot.1 =
        s.addShortName (readShortName spaces) slot.1 := by
      rw [processEntry_shortName (by decide), if_neg (by decide), if_neg (by decide),
        if_neg (by decide)]
    rw [entriesOf, List.filterMap_cons, hentry]
    simp only [processEntries, hstep, addShortName_of_none hs]
    exact ih hrest rfl

/-- A directory of spaces lists a file for each slot. -/
theorem length_fileEntries_of_spaces {slots : List Slot}
    (hspaces : ∀ slot ∈ slots, slot.2 = spaces) {s : DirectoryReadState}
    (hs : processEntries processEntry (entriesOf .fat32 slots) .start = .ok s) :
    s.directory.fileEntries.length = slots.length := by
  have hslots : ∀ slot ∈ slots, slot.2.length = directoryEntrySize ∧ IsEntry .fat32 slot := by
    intro slot hslot
    rw [IsEntry, hspaces slot hslot]
    exact ⟨List.length_replicate, _, rfl⟩
  have hlister : IsLister processEntry .fat32 IsListed := isLister_processEntry (by decide)
  have hrun := hlister.run hslots hs
  have hall : slots.filter IsListed = slots :=
    List.filter_eq_self.mpr fun slot hslot => by simpa using isListed_spaces (hspaces slot hslot)
  have hlength := congrArg List.length hrun
  rw [hall, List.length_map, List.length_append, List.length_map, List.length_map] at hlength
  rw [hlength]
  exact Nat.zero_add _

/-- Where one table goes on and the other ends the chain, the directory of
spaces has more entries or cannot be read. -/
theorem readDirectory_ne (h : HasEntries fs ioHandle first) (h' : HasEntries fs' ioHandle second)
    (hgeometry : BlockGeometry ioHandle) (hvolume : ioHandle.volumeSize ≤ int64Max) {n : Nat}
    (hn : int64Max ≤ n) {c i next : Nat} {way : List Nat}
    (hleads : LeadsTo first ioHandle.totalNumberOfClusters c way i)
    (hleads' : LeadsTo second ioHandle.totalNumberOfClusters c way i)
    (hmay : MayVisit ioHandle [] way) (hsome : linkedCluster (fat32Entry first i) = some next)
    (hnone : linkedCluster (fat32Entry second i) = none) :
    readDirectory fs (List.replicate n 0x20) c ≠ readDirectory fs' (List.replicate n 0x20) c := by
  have hlast : lastClusterNumber ioHandle.fileSystemFormat = .ok 0x0ffffff0 := by
    rw [h.format]
    rfl
  obtain ⟨slots, hcontent⟩ := hleads'.content h' hgeometry hvolume hn hmay.covers hnone
  obtain ⟨hlength, hspaces⟩ := hcontent.of_spaces (by rw [h'.ioHandle_eq]; exact h'.format)
  obtain ⟨s, hs⟩ := processEntries_spaces hspaces (show DirectoryReadState.start.nameEntries = none
    from rfl)
  have hpos : 0 < ioHandle.volumeSize := by
    have hmem : ∃ d, d ∈ way := by
      cases hleads with
      | here _ _ => exact ⟨_, List.mem_cons_self⟩
      | linked _ _ _ _ => exact ⟨_, List.mem_cons_self⟩
    obtain ⟨d, hd⟩ := hmem
    obtain ⟨h0, hlt, _⟩ := hmay.covers d hd
    omega
  have hread : readDirectory fs' (List.replicate n 0x20) c = .ok s.directory := by
    apply (readDirectory_eq_ok_iff_content (by rw [h'.ioHandle_eq]; exact hgeometry)).mpr
    rw [h'.ioHandle_eq]
    exact ⟨_, _, _, hlast, ⟨hpos, hvolume⟩, hcontent, hmay, s, by rw [h.format]; exact hs, rfl⟩
  rw [hread]
  intro hread'
  obtain ⟨last, visited, slots', hlast', _, hcontent', _, s', hs', hsame⟩ :=
    (readDirectory_eq_ok_iff_content (by rw [h.ioHandle_eq]; exact hgeometry)).mp hread'
  rw [h.ioHandle_eq, hlast] at hlast'
  injection hlast' with hlast'
  subst hlast'
  obtain ⟨hlength', hspaces'⟩ := hcontent'.of_spaces (by rw [h.ioHandle_eq]; exact h.format)
  have hmore := hleads.lt_length h hsome hcontent'
  rw [h.ioHandle_eq, h.format] at hs'
  have hfiles := length_fileEntries_of_spaces hspaces hs
  rw [← hsame, length_fileEntries_of_spaces hspaces' hs', hlength', hlength, h.ioHandle_eq,
    h'.ioHandle_eq] at hfiles
  have heq := Nat.eq_of_mul_eq_mul_right hgeometry.slots_pos hfiles
  omega

end Spaces

/-! ### The results of the two tables -/

/-- Two FAT-32 tables of the same length that agree in the low 28 bits of every
entry give the same results for a start cluster exactly if, in the entries of
the clusters that a walk from there comes to, the reserved bits that are added
to the number of a cluster are zero in both tables or in none. -/
theorem results_eq_iff_alikeInReservedBits {ioHandle : IoHandle} {first second : List UInt8}
    {fs fs' : FileSystem} (hformat : ioHandle.fileSystemFormat = .fat32)
    (hgeometry : BlockGeometry ioHandle) (hentries : 4 ∣ ioHandle.bytesPerSector)
    (hsectors : ioHandle.bytesPerSector ∣ first.length) (hlength : first.length = second.length)
    (hlow : ∀ c, 4 * c < first.length →
      fat32Entry first c % 2 ^ 28 = fat32Entry second c % 2 ^ 28)
    (hfirst : ReadsTable ioHandle first fs) (hsecond : ReadsTable ioHandle second fs') (c : Nat) :
    (∀ image size, getDataStream fs c size = getDataStream fs' c size ∧
        readDirectory fs image c = readDirectory fs' image c) ↔
      ∀ way i, ComesTo ioHandle first c way i →
        AlikeInReservedBits (fat32Entry first i) (fat32Entry second i) := by
  have h : HasEntries fs ioHandle first := hfirst.hasEntries hformat hentries hsectors
  have h' : HasEntries fs' ioHandle second :=
    hsecond.hasEntries hformat hentries (hlength ▸ hsectors)
  have hlow' (i : Nat) : fat32Entry first i % 2 ^ 28 = fat32Entry second i % 2 ^ 28 := by
    by_cases hlt : 4 * i < first.length
    · exact hlow i hlt
    · have hzero {table : List UInt8} (hle : table.length ≤ 4 * i) :
          AllocationTable.storedEntry .fat32 table (4 * i) = 0 :=
        AllocationTable.storedEntry_of_le hle
      have hentry (table : List UInt8) :
          fat32Entry table i = AllocationTable.storedEntry .fat32 table (4 * i) := rfl
      rw [hentry, hentry, hzero (by omega), hzero (by omega)]
  constructor
  · intro hsame way i hcomes
    rw [alikeInReservedBits_iff (hlow' i)]
    by_contra hne
    obtain ⟨way', j, hway, hleads, hleads', hj⟩ := hcomes.leads.exists_first hne
    have hmay := hcomes.may.of_prefix hway
    obtain ⟨n, hn⟩ : ∃ n, int64Max ≤ n := ⟨_, le_refl _⟩
    obtain ⟨_, hdirectory⟩ := hsame (List.replicate n 0x20) 0
    cases hlink : linkedCluster (fat32Entry first j) with
    | some next =>
      have hnone : linkedCluster (fat32Entry second j) = none := by
        cases hlink' : linkedCluster (fat32Entry second j) with
        | none => rfl
        | some next' =>
          -- Two numbers of clusters that agree in the low bits are the same.
          obtain ⟨rfl, _, hlt⟩ := linkedCluster_eq_some hlink
          obtain ⟨rfl, _, hlt'⟩ := linkedCluster_eq_some hlink'
          have hmod := hlow' j
          rw [Nat.mod_eq_of_lt (by omega), Nat.mod_eq_of_lt (by omega)] at hmod
          exact absurd (by rw [hlink, hlink', hmod]) hj
      exact readDirectory_ne h h' hgeometry hcomes.volume hn hleads hleads' hmay hlink hnone
        hdirectory
    | none =>
      obtain ⟨next, hsome⟩ : ∃ next, linkedCluster (fat32Entry second j) = some next :=
        Option.ne_none_iff_exists'.mp fun hnone => hj (hlink.trans hnone.symm)
      exact readDirectory_ne h' h hgeometry hcomes.volume hn hleads' hleads hmay hsome hlink
        hdirectory.symm
  · intro halike image size
    exact results_alike h h'
      (fun way i hcomes => (alikeInReservedBits_iff (hlow' i)).mp (halike way i hcomes)) image size

/-- The volume of the examples has two clusters. -/
def fat32IoHandle : IoHandle where
  volumeSize := 2048
  fileSystemFormat := .fat32
  bytesPerSector := 512
  clusterBlockSize := 512
  totalNumberOfClusters := 4
  rootDirectoryOffset := 0
  firstClusterOffset := 1024

/-- Cluster 2 has the four bytes as its entry, and cluster 3 ends its chain. -/
def fat32EntriesWith (entry : List UInt8) : List UInt8 :=
  [0xf8, 0xff, 0xff, 0x0f, 0xff, 0xff, 0xff, 0x0f] ++ entry ++ [0xff, 0xff, 0xff, 0x0f]

/-- The entries in a sector. -/
def fat32TableWith (entry : List UInt8) : List UInt8 :=
  fat32EntriesWith entry ++ List.replicate 496 0

theorem length_fat32TableWith {entry : List UInt8} (hentry : entry.length = 4) :
    (fat32TableWith entry).length = 512 := by
  simp only [fat32TableWith, fat32EntriesWith, List.length_append, hentry, List.length_replicate,
    List.length_cons, List.length_nil]

theorem fat32Entry_fat32TableWith (entry : List UInt8) (c : Nat) :
    fat32Entry (fat32TableWith entry) c = fat32Entry (fat32EntriesWith entry) c :=
  uint32At_congr fun _ _ => byteAt_append_zeros _ _ _

theorem readsTable_fat32TableWith {entry : List UInt8} (hentry : entry.length = 4)
    {fs : FileSystem} (h : readAllocationTable fat32IoHandle (fat32TableWith entry) (fun _ => 0) 0
      512 = .ok fs) : ReadsTable fat32IoHandle (fat32TableWith entry) fs := by
  refine ⟨fat32TableWith entry, fun _ => 0, 0, ?_, by rw [length_fat32TableWith hentry]; exact h⟩
  rw [readAt_of_le (by decide) (by simp), Int.toNat_zero, List.drop_zero, List.take_length]

/-- An end of chain with its reserved bits set. -/
theorem results_eq_iff_end_of_chain :
    ∃ fs fs', ReadsTable fat32IoHandle (fat32TableWith [0xff, 0xff, 0xff, 0x0f]) fs ∧
      ReadsTable fat32IoHandle (fat32TableWith [0xff, 0xff, 0xff, 0xff]) fs' ∧
      ((∀ image size, getDataStream fs 2 size = getDataStream fs' 2 size ∧
          readDirectory fs image 2 = readDirectory fs' image 2) ↔
        ∀ way i, ComesTo fat32IoHandle (fat32TableWith [0xff, 0xff, 0xff, 0x0f]) 2 way i →
          AlikeInReservedBits (fat32Entry (fat32TableWith [0xff, 0xff, 0xff, 0x0f]) i)
            (fat32Entry (fat32TableWith [0xff, 0xff, 0xff, 0xff]) i)) := by
  obtain ⟨fs, hfs⟩ := exists_eq_ok_of_isOk (show
    (readAllocationTable fat32IoHandle (fat32TableWith [0xff, 0xff, 0xff, 0x0f]) (fun _ => 0) 0
      512).isOk = true by decide +kernel)
  obtain ⟨fs', hfs'⟩ := exists_eq_ok_of_isOk (show
    (readAllocationTable fat32IoHandle (fat32TableWith [0xff, 0xff, 0xff, 0xff]) (fun _ => 0) 0
      512).isOk = true by decide +kernel)
  have hfirst : ReadsTable fat32IoHandle (fat32TableWith [0xff, 0xff, 0xff, 0x0f]) fs :=
    readsTable_fat32TableWith rfl hfs
  have hsecond : ReadsTable fat32IoHandle (fat32TableWith [0xff, 0xff, 0xff, 0xff]) fs' :=
    readsTable_fat32TableWith rfl hfs'
  have hlow : ∀ c < 128, fat32Entry (fat32TableWith [0xff, 0xff, 0xff, 0x0f]) c % 2 ^ 28 =
      fat32Entry (fat32TableWith [0xff, 0xff, 0xff, 0xff]) c % 2 ^ 28 := by
    simp only [fat32Entry_fat32TableWith]
    decide +kernel
  have hlength : (fat32TableWith [0xff, 0xff, 0xff, 0x0f]).length = 512 :=
    length_fat32TableWith rfl
  have hlength' : (fat32TableWith [0xff, 0xff, 0xff, 0xff]).length = 512 :=
    length_fat32TableWith rfl
  exact ⟨fs, fs', hfirst, hsecond,
    results_eq_iff_alikeInReservedBits rfl ⟨9, by decide, by decide, rfl⟩ (by decide)
      (by rw [hlength]; exact dvd_refl 512) (hlength.trans hlength'.symm)
      (fun c hc => hlow c (by omega)) hfirst hsecond 2⟩

/-- A reserved bit of the entry of cluster 2 cuts the second cluster off. -/
theorem reserved_bit_cuts_chain :
    (∀ c < 128, fat32Entry (fat32TableWith [3, 0, 0, 0]) c % 2 ^ 28 =
      fat32Entry (fat32TableWith [3, 0, 0, 0x10]) c % 2 ^ 28) ∧
    ∃ fs fs', ReadsTable fat32IoHandle (fat32TableWith [3, 0, 0, 0]) fs ∧
      ReadsTable fat32IoHandle (fat32TableWith [3, 0, 0, 0x10]) fs' ∧
      getDataStream fs 2 1024 = .ok ⟨[⟨1024, 1024⟩], [⟨1024, 1024⟩]⟩ ∧
      getDataStream fs' 2 1024 = .ok ⟨[⟨1024, 512⟩], [⟨1024, 512⟩]⟩ := by
  refine ⟨by simp only [fat32Entry_fat32TableWith]; decide +kernel, ?_⟩
  obtain ⟨fs, hfs, hstream⟩ := bind_eq_ok_iff.mp (show
    (readAllocationTable fat32IoHandle (fat32TableWith [3, 0, 0, 0]) (fun _ => 0) 0 512 >>=
      (getDataStream · 2 1024)) = .ok ⟨[⟨1024, 1024⟩], [⟨1024, 1024⟩]⟩ by decide +kernel)
  obtain ⟨fs', hfs', hstream'⟩ := bind_eq_ok_iff.mp (show
    (readAllocationTable fat32IoHandle (fat32TableWith [3, 0, 0, 0x10]) (fun _ => 0) 0 512 >>=
      (getDataStream · 2 1024)) = .ok ⟨[⟨1024, 512⟩], [⟨1024, 512⟩]⟩ by decide +kernel)
  exact ⟨fs, fs', readsTable_fat32TableWith rfl hfs, readsTable_fat32TableWith rfl hfs', hstream,
    hstream'⟩

end FsFat
