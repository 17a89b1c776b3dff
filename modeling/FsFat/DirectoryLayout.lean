import FsFat.FileSystem

/-!
The slots of a directory: the places of its entries, in the order of its chain
of clusters. What reading a directory gives depends on the slots before the
terminator, and on whether the block tree covers the clusters up to there. An
entry may be followed by one in another cluster; no result below asks where the
cluster lies.
-/

namespace FsFat

open Bytes

/-- The place of an entry: its offset and its bytes. -/
abbrev Slot := Int × List UInt8

/-- The slots of a range, `count` of them. -/
def slotsAt (image : List UInt8) : Int → Nat → List Slot
  | _, 0 => []
  | offset, count + 1 =>
    (offset, (image.drop offset.toNat).take directoryEntrySize) ::
      slotsAt image (offset + directoryEntrySize) count

/-- The number of slots of a cluster block. -/
def slotsPerCluster (ioHandle : IoHandle) : Nat :=
  ioHandle.clusterBlockSize / directoryEntrySize

def clusterSlots (ioHandle : IoHandle) (image : List UInt8) (clusterNumber : Nat) : List Slot :=
  slotsAt image (clusterOffset ioHandle clusterNumber) (slotsPerCluster ioHandle)

/-- The slots of a chain of clusters. -/
def chainSlots (ioHandle : IoHandle) (image : List UInt8) (chain : List Nat) : List Slot :=
  chain.flatMap (clusterSlots ioHandle image)

/-- The slot has an entry, perhaps an unallocated one. -/
def IsEntry (format : FileSystemFormat) (slot : Slot) : Prop :=
  ∃ entry, DirectoryEntry.readData slot.2 format = .ok (some entry)

/-- The slot has the terminator. -/
def IsTerminator (format : FileSystemFormat) (slot : Slot) : Prop :=
  DirectoryEntry.readData slot.2 format = .ok none

/-- The entry of a slot with its offset, when the slot is allocated. -/
def entryOf (format : FileSystemFormat) (slot : Slot) : Option (Int × DirectoryEntry) :=
  match DirectoryEntry.readData slot.2 format with
  | .ok (some entry) => if entry.entryType = .unallocated then none else some (slot.1, entry)
  | _ => none

/-- The entries of slots, without the unallocated ones. -/
def entriesOf (format : FileSystemFormat) (slots : List Slot) : List (Int × DirectoryEntry) :=
  slots.filterMap (entryOf format)

/-- Slots with entries, and behind them nothing or a terminator. -/
structure EndsDirectory (format : FileSystemFormat) (body tail : List Slot) : Prop where
  entries : ∀ slot ∈ body, IsEntry format slot
  ends : ∀ slot ∈ tail.head?, IsTerminator format slot

@[simp] theorem length_slotsAt (image : List UInt8) (offset : Int) (count : Nat) :
    (slotsAt image offset count).length = count := by
  induction count generalizing offset with
  | zero => rfl
  | succ count ih => simp [slotsAt, ih]

@[simp] theorem length_clusterSlots (ioHandle : IoHandle) (image : List UInt8) (c : Nat) :
    (clusterSlots ioHandle image c).length = slotsPerCluster ioHandle :=
  length_slotsAt _ _ _

theorem entriesOf_append (format : FileSystemFormat) (xs ys : List Slot) :
    entriesOf format (xs ++ ys) = entriesOf format xs ++ entriesOf format ys :=
  List.filterMap_append

/-- A slot of the image is read as its bytes say. -/
theorem readFileIOHandle_slot {image : List UInt8} {offset : Int} (h0 : 0 ≤ offset)
    (h : offset.toNat + directoryEntrySize ≤ image.length) (format : FileSystemFormat) :
    DirectoryEntry.readFileIOHandle image offset format =
      DirectoryEntry.readData ((image.drop offset.toNat).take directoryEntrySize) format := by
  simp only [DirectoryEntry.readFileIOHandle, readAt_of_le h0 h]

/-! ### The slots of a range -/

/-- The entries of a range are those of its slots, up to the terminator. -/
theorem scanEntries_eq {image : List UInt8} {format : FileSystemFormat} {count : Nat}
    {offset : Int} (h0 : 0 ≤ offset)
    (hin : offset.toNat + count * directoryEntrySize ≤ image.length) {body tail : List Slot}
    (hslots : slotsAt image offset count = body ++ tail)
    (hends : EndsDirectory format body tail) :
    scanEntries image format count offset = .ok (entriesOf format body, !tail.isEmpty) := by
  induction count generalizing offset body with
  | zero =>
    obtain ⟨rfl, rfl⟩ := List.append_eq_nil_iff.mp hslots.symm
    rfl
  | succ count ih =>
    simp only [directoryEntrySize] at hin
    have hread : DirectoryEntry.readFileIOHandle image offset format =
        DirectoryEntry.readData ((image.drop offset.toNat).take directoryEntrySize) format :=
      readFileIOHandle_slot h0 (by simp only [directoryEntrySize]; omega) format
    rw [slotsAt] at hslots
    cases body with
    | nil =>
      rw [List.nil_append] at hslots
      subst hslots
      have hterminator := hends.ends _ rfl
      unfold IsTerminator at hterminator
      simp only [scanEntries, hread, hterminator]
      rfl
    | cons slot body =>
      rw [List.cons_append] at hslots
      injection hslots with hslot hrest
      obtain ⟨entry, hentry⟩ := hends.entries slot List.mem_cons_self
      have hends' : EndsDirectory format body tail :=
        ⟨fun s hs => hends.entries s (List.mem_cons_of_mem _ hs), hends.ends⟩
      have hscan := ih (by simp only [directoryEntrySize]; omega)
        (by simp only [directoryEntrySize]; omega) hrest hends'
      rw [← hslot] at hentry
      simp only [scanEntries, hread, hentry, hscan]
      rw [← hslot]
      by_cases hun : entry.entryType = .unallocated
      · simp [entriesOf, entryOf, hentry, hun]
      · simp [entriesOf, entryOf, hentry, hun]

/-! ### The slots of a chain -/

section Chain

variable {fs : FileSystem} {image : List UInt8}

/-- The directory cluster blocks hold whole entries. -/
structure WholeSlots (ioHandle : IoHandle) (image : List UInt8) (chain : List Nat) : Prop where
  volume : ClustersInVolume ioHandle chain
  dvd : directoryEntrySize ∣ ioHandle.clusterBlockSize
  image_le : ioHandle.volumeSize ≤ image.length

theorem WholeSlots.of_subset {ioHandle : IoHandle} {chain chain' : List Nat}
    (h : WholeSlots ioHandle image chain) (hsub : chain' ⊆ chain) :
    WholeSlots ioHandle image chain' :=
  ⟨h.volume.of_subset hsub, h.dvd, h.image_le⟩

theorem WholeSlots.size_eq {ioHandle : IoHandle} {chain : List Nat}
    (h : WholeSlots ioHandle image chain) :
    ioHandle.clusterBlockSize = slotsPerCluster ioHandle * directoryEntrySize :=
  (Nat.div_mul_cancel h.dvd).symm

theorem WholeSlots.slots_pos {ioHandle : IoHandle} {chain : List Nat}
    (h : WholeSlots ioHandle image chain) : 0 < slotsPerCluster ioHandle := by
  have hsize := h.size_eq
  have hpos := h.volume.block_pos
  by_contra hzero
  have hslots : slotsPerCluster ioHandle = 0 := by omega
  rw [hslots, Nat.zero_mul] at hsize
  omega

/-- A cluster block of the volume lies in the image. -/
theorem WholeSlots.in_image {ioHandle : IoHandle} {chain : List Nat}
    (h : WholeSlots ioHandle image chain) {c : Nat} (hc : c ∈ chain) :
    0 ≤ clusterOffset ioHandle c ∧
      (clusterOffset ioHandle c).toNat + slotsPerCluster ioHandle * directoryEntrySize ≤
        image.length := by
  obtain ⟨hoffset, hpos, _⟩ := h.volume.offset hc
  have hend := (h.volume.clusters c hc).1.2
  have hsize := h.size_eq
  have himage := h.image_le
  rw [hoffset]
  constructor <;> omega

theorem WholeSlots.volumeSize_pos {ioHandle : IoHandle} {chain : List Nat}
    (h : WholeSlots ioHandle image chain) (hne : chain ≠ []) : 0 < ioHandle.volumeSize := by
  obtain ⟨c, rest, rfl⟩ := List.exists_cons_of_ne_nil hne
  obtain ⟨_, hpos, _⟩ := h.volume.offset List.mem_cons_self
  have hend := (h.volume.clusters c List.mem_cons_self).1.2
  omega

theorem numberOfEntriesBetween_eq {offset : Int} (count : Nat) :
    numberOfEntriesBetween offset (offset + (count * directoryEntrySize : Nat)) = count := by
  simp only [numberOfEntriesBetween, directoryEntrySize]
  omega

/-- What reading a directory makes of a cluster. -/
theorem visit_eq_ok_iff {chain : List Nat} (h : WholeSlots fs.ioHandle image chain) {c : Nat}
    (hc : c ∈ chain) {body tail : List Slot}
    (hslots : clusterSlots fs.ioHandle image c = body ++ tail)
    (hends : EndsDirectory fs.ioHandle.fileSystemFormat body tail)
    (value value' : DirectoryReadState × Bool) (ends : Bool) :
    (readDirectoryVisitor fs image).visit (clusterOffset fs.ioHandle c) value =
        .ok (value', ends) ↔
      processEntries DirectoryReadState.processEntry
          (entriesOf fs.ioHandle.fileSystemFormat body) value.1 = .ok value'.1 ∧
        value'.2 = tail.isEmpty ∧ ends = !tail.isEmpty := by
  obtain ⟨h0, hin⟩ := h.in_image hc
  obtain ⟨hoffset, hpos, hend⟩ := h.volume.offset hc
  have hslotsPos := h.slots_pos
  have hendOffset : toOff64 (clusterOffset fs.ioHandle c + fs.ioHandle.clusterBlockSize) =
      clusterOffset fs.ioHandle c + (slotsPerCluster fs.ioHandle * directoryEntrySize : Nat) := by
    rw [← h.size_eq, hoffset]
    exact toOff64_of_nonneg (by omega) hend
  have hscan : scanEntries image fs.ioHandle.fileSystemFormat (slotsPerCluster fs.ioHandle)
      (clusterOffset fs.ioHandle c) = .ok (entriesOf fs.ioHandle.fileSystemFormat body,
        !tail.isEmpty) := scanEntries_eq h0 hin hslots hends
  simp only [readDirectoryVisitor, hendOffset, numberOfEntriesBetween_eq]
  cases hread : readEntries image fs.ioHandle.fileSystemFormat DirectoryReadState.processEntry
      (slotsPerCluster fs.ioHandle) (clusterOffset fs.ioHandle c) value.1 with
  | error e =>
    have hnot (s : DirectoryReadState) : processEntries DirectoryReadState.processEntry
        (entriesOf fs.ioHandle.fileSystemFormat body) value.1 ≠ .ok s := by
      intro hs
      rw [readEntries_eq_ok_iff.mpr ⟨_, hscan, hs⟩] at hread
      cases hread
    simp [hnot]
  | ok result =>
    obtain ⟨s, terminated⟩ := result
    obtain ⟨entries, hentries, hs⟩ := readEntries_eq_ok_iff.mp hread
    rw [hscan] at hentries
    injection hentries with hentries
    injection hentries with hentries hterminated
    subst hentries hterminated
    obtain ⟨s', result⟩ := value'
    have hne : slotsPerCluster fs.ioHandle ≠ 0 := by omega
    simp only [hne, if_false, Bool.not_not, hs, Except.ok.injEq, Prod.mk.injEq]
    tauto

/-- What reading a directory makes of a chain: the entries before the
terminator, if the block tree covers the clusters up to it. -/
theorem visitChain_readDirectory {chain : List Nat} (h : WholeSlots fs.ioHandle image chain)
    {body tail : List Slot} (hslots : chainSlots fs.ioHandle image chain = body ++ tail)
    (hends : EndsDirectory fs.ioHandle.fileSystemFormat body tail)
    (s s' : DirectoryReadState) (result : Bool) :
    (∃ result', visitChain fs.ioHandle (readDirectoryVisitor fs image) chain (s, result) =
        some (s', result')) ↔
      (∀ j < chain.length, j * slotsPerCluster fs.ioHandle ≤ body.length →
        CoversCluster fs.ioHandle (chain.getD j 0)) ∧
      processEntries DirectoryReadState.processEntry
        (entriesOf fs.ioHandle.fileSystemFormat body) s = .ok s' := by
  induction chain generalizing body s result with
  | nil =>
    obtain ⟨rfl, rfl⟩ := List.append_eq_nil_iff.mp hslots.symm
    simp [visitChain, entriesOf, processEntries]
  | cons c rest ih =>
    have hc : c ∈ c :: rest := List.mem_cons_self
    have hpos := h.slots_pos
    rw [chainSlots, List.flatMap_cons] at hslots
    have hfinished : (readDirectoryVisitor fs image).finished (s, result) = false := rfl
    by_cases hcovers : CoversCluster fs.ioHandle c
    swap
    · constructor
      · rintro ⟨result', hvisit⟩
        simp [visitChain, hfinished, hcovers] at hvisit
      · rintro ⟨hall, _⟩
        exact absurd (hall 0 (by simp) (by simp)) hcovers
    by_cases hlt : body.length < slotsPerCluster fs.ioHandle
    · -- the terminator is in this cluster
      obtain ⟨extra, hextra, htail⟩ : ∃ extra, clusterSlots fs.ioHandle image c = body ++ extra ∧
          tail = extra ++ rest.flatMap (clusterSlots fs.ioHandle image) := by
        rcases List.append_eq_append_iff.mp hslots with ⟨m, hm, _⟩ | ⟨m, hm, hm'⟩
        · have := congrArg List.length hm
          rw [List.length_append, length_clusterSlots] at this
          omega
        · exact ⟨m, hm, hm'⟩
      have hne : extra ≠ [] := by
        intro hnil
        have hlength := congrArg List.length hextra
        rw [hnil, List.append_nil, length_clusterSlots] at hlength
        omega
      obtain ⟨slot, extra, rfl⟩ := List.exists_cons_of_ne_nil hne
      have hends' : EndsDirectory fs.ioHandle.fileSystemFormat body (slot :: extra) := by
        refine ⟨hends.entries, ?_⟩
        intro t ht
        apply hends.ends t
        rw [htail]
        exact ht
      have hvisit := visit_eq_ok_iff h hc hextra hends' (s, result)
      have honly : ∀ j < (c :: rest).length, j * slotsPerCluster fs.ioHandle ≤ body.length →
          CoversCluster fs.ioHandle ((c :: rest).getD j 0) := by
        intro j _ hj
        have hzero : j = 0 := by
          by_contra hne
          have hle := Nat.le_mul_of_pos_left (slotsPerCluster fs.ioHandle) (Nat.pos_of_ne_zero hne)
          omega
        subst hzero
        exact hcovers
      simp only [visitChain, hfinished, hcovers, if_true, Bool.false_eq_true, if_false]
      constructor
      · rintro ⟨result', hvalue⟩
        refine ⟨honly, ?_⟩
        cases hcall : (readDirectoryVisitor fs image).visit (clusterOffset fs.ioHandle c)
            (s, result) with
        | error e => simp [hcall] at hvalue
        | ok visited =>
          obtain ⟨value', ends⟩ := visited
          obtain ⟨hs, _, rfl⟩ := (hvisit value' ends).mp hcall
          simp only [hcall, List.isEmpty_cons, Bool.not_false, Option.some.injEq] at hvalue
          rwa [hvalue] at hs
      · rintro ⟨_, hs⟩
        have hcall := (hvisit (s', false) true).mpr ⟨hs, rfl, rfl⟩
        exact ⟨false, by rw [hcall]⟩
    · -- the cluster has no terminator
      obtain ⟨body', hbody, hrest⟩ : ∃ body', body = clusterSlots fs.ioHandle image c ++ body' ∧
          chainSlots fs.ioHandle image rest = body' ++ tail := by
        rcases List.append_eq_append_iff.mp hslots with ⟨m, hm, hm'⟩ | ⟨m, hm, hm'⟩
        · exact ⟨m, hm, hm'⟩
        · have hlength := congrArg List.length hm
          rw [List.length_append, length_clusterSlots] at hlength
          have hnil : m = [] := List.eq_nil_of_length_eq_zero (by omega)
          subst hnil
          exact ⟨[], by simpa using hm.symm, hm'.symm⟩
      have hends' : EndsDirectory fs.ioHandle.fileSystemFormat (clusterSlots fs.ioHandle image c)
          [] :=
        ⟨fun slot hslot => hends.entries slot (hbody ▸ List.mem_append_left _ hslot), by simp⟩
      have hends'' : EndsDirectory fs.ioHandle.fileSystemFormat body' tail :=
        ⟨fun slot hslot => hends.entries slot (hbody ▸ List.mem_append_right _ hslot), hends.ends⟩
      have hvisit := visit_eq_ok_iff h hc (List.append_nil _).symm hends' (s, result)
      have hlength : body.length = slotsPerCluster fs.ioHandle + body'.length := by
        rw [hbody, List.length_append, length_clusterSlots]
      have hcover : (∀ j < (c :: rest).length, j * slotsPerCluster fs.ioHandle ≤ body.length →
            CoversCluster fs.ioHandle ((c :: rest).getD j 0)) ↔
          ∀ j < rest.length, j * slotsPerCluster fs.ioHandle ≤ body'.length →
            CoversCluster fs.ioHandle (rest.getD j 0) := by
        constructor
        · intro hall j hj hle
          have hmul := Nat.add_one_mul j (slotsPerCluster fs.ioHandle)
          exact hall (j + 1) (by simpa using hj) (by omega)
        · intro hall j hj hle
          cases j with
          | zero => exact hcovers
          | succ j =>
            have hmul := Nat.add_one_mul j (slotsPerCluster fs.ioHandle)
            exact hall j (by simpa using hj) (by omega)
      rw [hcover, hbody, entriesOf_append, processEntries_append]
      simp only [visitChain, hfinished, hcovers, if_true, Bool.false_eq_true, if_false]
      have hsub : WholeSlots fs.ioHandle image rest := h.of_subset (List.subset_cons_self _ _)
      cases hprocess : processEntries DirectoryReadState.processEntry
          (entriesOf fs.ioHandle.fileSystemFormat (clusterSlots fs.ioHandle image c)) s with
      | error e =>
        cases hcall : (readDirectoryVisitor fs image).visit (clusterOffset fs.ioHandle c)
            (s, result) with
        | error e => simp
        | ok visited =>
          obtain ⟨value', ends⟩ := visited
          obtain ⟨hs, _⟩ := (hvisit value' ends).mp hcall
          rw [hprocess] at hs
          cases hs
      | ok s₁ =>
        have hcall := (hvisit (s₁, true) false).mpr ⟨hprocess, rfl, rfl⟩
        simp only [hcall]
        exact ih hsub hrest hends'' s₁ true

/-- `libfsfat_file_system_read_directory` for a directory of which the slots are known. -/
theorem readDirectory_eq_ok_iff {last c : Nat} {chain : List Nat}
    (hlast : lastClusterNumber fs.ioHandle.fileSystemFormat = .ok last)
    (hchain : IsChain fs.allocationTable last c chain) (hnodup : chain.Nodup)
    (h : WholeSlots fs.ioHandle image chain) (hvolume : 0 < fs.ioHandle.volumeSize)
    {body tail : List Slot} (hslots : chainSlots fs.ioHandle image chain = body ++ tail)
    (hends : EndsDirectory fs.ioHandle.fileSystemFormat body tail) (directory : Directory) :
    readDirectory fs image c = .ok directory ↔
      (∀ j < chain.length, j * slotsPerCluster fs.ioHandle ≤ body.length →
        CoversCluster fs.ioHandle (chain.getD j 0)) ∧
      ∃ s, processEntries DirectoryReadState.processEntry
        (entriesOf fs.ioHandle.fileSystemFormat body) .start = .ok s ∧ s.directory = directory := by
  obtain ⟨tree, htree, hempty⟩ :=
    BlockTree.create_standsFor h.volume.block_pos hvolume h.volume.volume_le
  rw [readDirectory_eq_walk hlast htree, map_eq_ok_iff]
  have hwalk (value : DirectoryReadState × Bool) :=
    walkChain_eq_ok_iff (readDirectoryVisitor fs image) hempty hchain h.volume hnodup
      (DirectoryReadState.start, false) value
  have hvisit (s : DirectoryReadState) := visitChain_readDirectory h hslots hends .start s false
  constructor
  · rintro ⟨⟨s, result⟩, hvalue, rfl⟩
    obtain ⟨hcovers, hs⟩ := (hvisit s).mp ⟨result, (hwalk _).mp hvalue⟩
    exact ⟨hcovers, s, hs, rfl⟩
  · rintro ⟨hcovers, s, hs, rfl⟩
    obtain ⟨result, hvalue⟩ := (hvisit s).mpr ⟨hcovers, hs⟩
    exact ⟨(s, result), (hwalk _).mpr hvalue, rfl⟩

end Chain

end FsFat
