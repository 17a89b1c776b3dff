import FsFat.DirectoryLayout

/-!
The content of a directory: the slots that reading it comes to, cut before the
terminator. Nothing is asked of the image, the allocation table or the start
cluster, so the chain may be cut by the terminator before a part of it that has
no end or lies outside the volume. A directory is read exactly when it has a
content, the walk may visit the clusters of it, and the entries can be treated.
-/

namespace FsFat

open Bytes DirectoryEntry DirectoryReadState

/-- The cluster block size is a power of two, as that of every boot record that
is accepted. -/
structure BlockGeometry (ioHandle : IoHandle) : Prop where
  exponent : ∃ k, 9 ≤ k ∧ k ≤ 37 ∧ ioHandle.clusterBlockSize = 2 ^ k

/-- The slots of a range from an offset on, `count` of them, cut before the
terminator, and whether there is one. -/
inductive RangeContent (image : List UInt8) (format : FileSystemFormat) :
    Nat → Int → List Slot → Bool → Prop where
  | ended {offset : Int} : RangeContent image format 0 offset [] false
  | terminated {count : Nat} {offset : Int} {data : List UInt8} :
      readAt image offset directoryEntrySize = some data → readData data format = .ok none →
      RangeContent image format (count + 1) offset [] true
  | slot {count : Nat} {offset : Int} {data : List UInt8} {entry : DirectoryEntry}
      {slots : List Slot} {terminated : Bool} :
      readAt image offset directoryEntrySize = some data →
      readData data format = .ok (some entry) →
      RangeContent image format count (offset + directoryEntrySize) slots terminated →
      RangeContent image format (count + 1) offset ((offset, data) :: slots) terminated

/-- The clusters of the chain from a cluster on, and their slots in the order of
the chain, cut before the terminator. -/
inductive DirectoryContent (fs : FileSystem) (image : List UInt8) (last : Nat) :
    Nat → List Nat → List Slot → Prop where
  | ended {c : Nat} : c < 2 ∨ last ≤ c → DirectoryContent fs image last c [] []
  | terminated {c : Nat} {slots : List Slot} : 2 ≤ c → c < last →
      RangeContent image fs.ioHandle.fileSystemFormat (slotsPerCluster fs.ioHandle)
        (clusterOffset fs.ioHandle c) slots true →
      DirectoryContent fs image last c [c] slots
  | linked {c next : Nat} {visited : List Nat} {slots rest : List Slot} : 2 ≤ c → c < last →
      RangeContent image fs.ioHandle.fileSystemFormat (slotsPerCluster fs.ioHandle)
        (clusterOffset fs.ioHandle c) slots false →
      fs.allocationTable.getClusterNumberByIndex (toInt32 c) = .ok next →
      DirectoryContent fs image last next visited rest →
      DirectoryContent fs image last c (c :: visited) (slots ++ rest)

/-! ### The slots of a range -/

section Range

variable {image : List UInt8} {format : FileSystemFormat} {count : Nat} {offset : Int}
  {slots : List Slot} {terminated : Bool}

/-- The entries of a range are those of its slots. -/
theorem scanEntries_eq_ok_iff {entries : List (Int × DirectoryEntry)} :
    scanEntries image format count offset = .ok (entries, terminated) ↔
      ∃ slots, RangeContent image format count offset slots terminated ∧
        entries = entriesOf format slots := by
  induction count generalizing offset entries with
  | zero =>
    simp only [scanEntries, Except.ok.injEq, Prod.mk.injEq]
    constructor
    · rintro ⟨rfl, rfl⟩
      exact ⟨[], .ended, rfl⟩
    · rintro ⟨slots, hcontent, rfl⟩
      cases hcontent
      exact ⟨rfl, rfl⟩
  | succ count ih =>
    simp only [scanEntries, readFileIOHandle]
    cases hread : readAt image offset directoryEntrySize with
    | none =>
      simp only [reduceCtorEq, false_iff, not_exists, not_and]
      rintro slots hcontent
      cases hcontent with
      | terminated hdata _ => exact absurd (hread.symm.trans hdata) (by simp)
      | slot hdata _ _ => exact absurd (hread.symm.trans hdata) (by simp)
    | some data =>
      dsimp only
      cases hentry : readData data format with
      | error e =>
        simp only [reduceCtorEq, false_iff, not_exists, not_and]
        rintro slots hcontent
        cases hcontent with
        | terminated hdata hnone =>
          rw [hread] at hdata
          injection hdata with hdata
          rw [hdata, hnone] at hentry
          cases hentry
        | slot hdata hsome _ =>
          rw [hread] at hdata
          injection hdata with hdata
          rw [hdata, hsome] at hentry
          cases hentry
      | ok result =>
        cases result with
        | none =>
          simp only [Except.ok.injEq, Prod.mk.injEq]
          constructor
          · rintro ⟨rfl, rfl⟩
            exact ⟨[], .terminated hread hentry, rfl⟩
          · rintro ⟨slots, hcontent, rfl⟩
            cases hcontent with
            | terminated _ _ => exact ⟨rfl, rfl⟩
            | slot hdata hsome _ =>
              rw [hread] at hdata
              injection hdata with hdata
              rw [hdata, hsome] at hentry
              cases hentry
        | some entry =>
          have hslot (slots : List Slot) : entriesOf format ((offset, data) :: slots) =
              if entry.entryType = .unallocated then entriesOf format slots
              else (offset, entry) :: entriesOf format slots := by
            by_cases hun : entry.entryType = .unallocated
            · simp [entriesOf, entryOf, hentry, hun]
            · simp [entriesOf, entryOf, hentry, hun]
          constructor
          · intro h
            cases hrest : scanEntries image format count (offset + directoryEntrySize) with
            | error e =>
              rw [hrest] at h
              cases h
            | ok rest =>
              obtain ⟨entries', terminated'⟩ := rest
              rw [hrest] at h
              injection h with h
              injection h with h1 h2
              subst h2
              obtain ⟨slots, hcontent, rfl⟩ := ih.mp hrest
              exact ⟨(offset, data) :: slots, .slot hread hentry hcontent, by rw [hslot, ← h1]⟩
          · rintro ⟨slots, hcontent, rfl⟩
            cases hcontent with
            | terminated hdata hnone =>
              rw [hread] at hdata
              injection hdata with hdata
              rw [← hdata, hentry] at hnone
              cases hnone
            | slot hdata hsome hcontent =>
              rw [hread] at hdata
              injection hdata with hdata
              subst hdata
              rw [hentry] at hsome
              rw [ih.mpr ⟨_, hcontent, rfl⟩]
              dsimp only
              rw [hslot]

/-- A slot of a range has an entry, and its offset is that of a slot of the range. -/
theorem RangeContent.mem (h : RangeContent image format count offset slots terminated) {slot : Slot}
    (hslot : slot ∈ slots) :
    readAt image slot.1 directoryEntrySize = some slot.2 ∧ IsEntry format slot ∧
      ∃ i < count, slot.1 = offset + (i * directoryEntrySize : Nat) := by
  induction h with
  | ended => cases hslot
  | terminated _ _ => cases hslot
  | slot hdata hentry hrest ih =>
    rcases List.mem_cons.mp hslot with rfl | hslot
    · exact ⟨hdata, ⟨_, hentry⟩, 0, Nat.succ_pos _, by simp⟩
    · obtain ⟨hread, hisEntry, i, hi, hoffset⟩ := ih hslot
      refine ⟨hread, hisEntry, i + 1, by omega, ?_⟩
      rw [hoffset, Nat.add_one_mul]
      push_cast
      ring

/-- The offsets of the slots of a range increase. -/
theorem RangeContent.sorted (h : RangeContent image format count offset slots terminated) :
    (slots.map Prod.fst).Pairwise (· < ·) := by
  induction h with
  | ended => exact .nil
  | terminated _ _ => exact .nil
  | slot _ _ hrest ih =>
    rw [List.map_cons, List.pairwise_cons]
    refine ⟨fun other hother => ?_, ih⟩
    obtain ⟨slot, hslot, rfl⟩ := List.mem_map.mp hother
    obtain ⟨_, _, i, _, hoffset⟩ := hrest.mem hslot
    simp only [directoryEntrySize] at hoffset
    omega

/-- A range has one content. -/
theorem RangeContent.unique (h : RangeContent image format count offset slots terminated)
    {slots' : List Slot} {terminated' : Bool}
    (h' : RangeContent image format count offset slots' terminated') :
    slots = slots' ∧ terminated = terminated' := by
  induction h generalizing slots' with
  | ended =>
    cases h'
    exact ⟨rfl, rfl⟩
  | terminated hdata hnone =>
    cases h' with
    | terminated _ _ => exact ⟨rfl, rfl⟩
    | slot hdata' hsome _ =>
      rw [hdata] at hdata'
      injection hdata' with hdata'
      rw [hdata', hsome] at hnone
      cases hnone
  | slot hdata hsome _ ih =>
    cases h' with
    | terminated hdata' hnone =>
      rw [hdata] at hdata'
      injection hdata' with hdata'
      rw [hdata', hnone] at hsome
      cases hsome
    | slot hdata' _ hrest =>
      rw [hdata] at hdata'
      injection hdata' with hdata'
      obtain ⟨rfl, rfl⟩ := ih hrest
      rw [hdata']
      exact ⟨rfl, rfl⟩

end Range

/-! ### The clusters of a walk -/

section Clusters

variable {ioHandle : IoHandle}

theorem BlockGeometry.pos (h : BlockGeometry ioHandle) : 0 < ioHandle.clusterBlockSize := by
  obtain ⟨k, _, _, hsize⟩ := h.exponent
  rw [hsize]
  exact Nat.two_pow_pos k

theorem BlockGeometry.size_eq (h : BlockGeometry ioHandle) :
    ioHandle.clusterBlockSize = slotsPerCluster ioHandle * directoryEntrySize := by
  obtain ⟨k, hk, _, hsize⟩ := h.exponent
  have hdvd : directoryEntrySize ∣ ioHandle.clusterBlockSize := by
    rw [hsize]
    exact Nat.pow_dvd_pow 2 (show 5 ≤ k by omega)
  exact (Nat.div_mul_cancel hdvd).symm

theorem BlockGeometry.slots_pos (h : BlockGeometry ioHandle) : 0 < slotsPerCluster ioHandle := by
  have hpos := h.pos
  rw [h.size_eq] at hpos
  exact Nat.pos_of_mul_pos_right hpos

/-- A multiple of a power of two below 2^63 is below it by as much. -/
private theorem add_two_pow_le {k m : Nat} (hk : k ≤ 63) (h : 2 ^ k * m < 2 ^ 63) :
    2 ^ k * m + 2 ^ k ≤ 2 ^ 63 := by
  have hsplit : (2 : Nat) ^ 63 = 2 ^ k * 2 ^ (63 - k) := by rw [← pow_add, Nat.add_sub_cancel' hk]
  rw [hsplit] at h ⊢
  have hlt : m < 2 ^ (63 - k) := Nat.lt_of_mul_lt_mul_left h
  calc 2 ^ k * m + 2 ^ k = 2 ^ k * (m + 1) := (Nat.mul_succ _ _).symm
    _ ≤ 2 ^ k * 2 ^ (63 - k) := Nat.mul_le_mul_left _ hlt

/-- A cluster block that the block tree covers ends at a 64-bit offset. -/
theorem BlockGeometry.offset_add_le (h : BlockGeometry ioHandle)
    (hvolume : ioHandle.volumeSize ≤ int64Max) {c : Nat} (hcovers : CoversCluster ioHandle c) :
    0 ≤ clusterOffset ioHandle c ∧
      clusterOffset ioHandle c + ioHandle.clusterBlockSize ≤ int64Max := by
  have hmax : int64Max = 2 ^ 63 - 1 := rfl
  obtain ⟨k, _, hk, hsize⟩ := h.exponent
  obtain ⟨m, hpart, _⟩ :=
    BlockTreeNode.chooseSubNodeSize_spec ioHandle.clusterBlockSize hvolume
  obtain ⟨h0, _, hindex, hend⟩ := hcovers
  have hpos := BlockTreeNode.chooseSubNodeSize_pos hvolume h.pos
  have hlt := Nat.lt_div_mul_add hpos (a := (clusterOffset ioHandle c).toNat)
  refine ⟨h0, ?_⟩
  rcases hend with hleaf | hend
  · -- a tree of one level stands for few blocks
    rw [hleaf, hsize] at hindex
    have hbound : (clusterOffset ioHandle c).toNat < 256 * 2 ^ k :=
      (Nat.div_lt_iff_lt_mul (Nat.two_pow_pos k)).mp hindex
    have hpow : 2 ^ k ≤ 2 ^ 37 := Nat.pow_le_pow_right (by norm_num) hk
    rw [hsize]
    omega
  · -- the part that the offset is in is a multiple of the cluster block size
    have hmul : ((clusterOffset ioHandle c).toNat /
        BlockTreeNode.chooseSubNodeSize ioHandle.volumeSize ioHandle.clusterBlockSize + 1) *
        BlockTreeNode.chooseSubNodeSize ioHandle.volumeSize ioHandle.clusterBlockSize =
        2 ^ k * (((clusterOffset ioHandle c).toNat /
          BlockTreeNode.chooseSubNodeSize ioHandle.volumeSize ioHandle.clusterBlockSize + 1) *
          256 ^ m) := by
      rw [hpart, hsize]
      ring
    have hle := add_two_pow_le (show k ≤ 63 by omega) (by rw [← hmul]; omega)
    rw [← hmul, Nat.add_one_mul] at hle
    rw [hsize]
    omega

/-- The offset of a cluster block differs from that of the first one by a
multiple of the size, also where the offset does not fit 64 bits. -/
theorem BlockGeometry.offset_emod (h : BlockGeometry ioHandle) (c : Nat) :
    clusterOffset ioHandle c % ioHandle.clusterBlockSize =
      ioHandle.firstClusterOffset % ioHandle.clusterBlockSize := by
  obtain ⟨k, _, hk, hsize⟩ := h.exponent
  have hdvd : (ioHandle.clusterBlockSize : Int) ∣ ((2 ^ 64 : Nat) : Int) := by
    rw [hsize]
    exact Int.natCast_dvd_natCast.mpr (Nat.pow_dvd_pow 2 (by omega))
  unfold clusterOffset toOff64
  rw [← Int.emod_emod_of_dvd _ hdvd, Int.bmod_emod, Int.emod_emod_of_dvd _ hdvd,
    Int.add_mul_emod_self_right]

/-- Cluster blocks in distinct blocks of the volume have no byte in common. -/
theorem BlockGeometry.disjoint (h : BlockGeometry ioHandle) {c d : Nat}
    (hc : 0 ≤ clusterOffset ioHandle c) (hd : 0 ≤ clusterOffset ioHandle d)
    (hne : clusterBlock ioHandle c ≠ clusterBlock ioHandle d) :
    clusterOffset ioHandle c + ioHandle.clusterBlockSize ≤ clusterOffset ioHandle d ∨
      clusterOffset ioHandle d + ioHandle.clusterBlockSize ≤ clusterOffset ioHandle c := by
  have hmod := (h.offset_emod c).trans (h.offset_emod d).symm
  rw [← Int.toNat_of_nonneg hc, ← Int.toNat_of_nonneg hd] at hmod ⊢
  unfold clusterBlock at hne
  generalize (clusterOffset ioHandle c).toNat = x at hne hmod ⊢
  generalize (clusterOffset ioHandle d).toNat = y at hne hmod ⊢
  generalize ioHandle.clusterBlockSize = size at hne hmod ⊢
  norm_cast at hmod ⊢
  have hx := Nat.div_add_mod x size
  have hy := Nat.div_add_mod y size
  rcases Nat.lt_or_gt_of_ne hne with hlt | hlt
  · left
    have hmul := Nat.mul_le_mul_left size hlt
    rw [Nat.mul_succ] at hmul
    omega
  · right
    have hmul := Nat.mul_le_mul_left size hlt
    rw [Nat.mul_succ] at hmul
    omega

end Clusters

/-! ### The slots of a chain -/

section Chain

variable {fs : FileSystem} {image : List UInt8} {last c : Nat} {visited : List Nat}
  {slots : List Slot}

/-- A slot of a directory has an entry, and lies in a cluster that is visited. -/
theorem DirectoryContent.mem (h : DirectoryContent fs image last c visited slots) {slot : Slot}
    (hslot : slot ∈ slots) :
    readAt image slot.1 directoryEntrySize = some slot.2 ∧
      IsEntry fs.ioHandle.fileSystemFormat slot ∧
      ∃ d ∈ visited, ∃ i < slotsPerCluster fs.ioHandle,
        slot.1 = clusterOffset fs.ioHandle d + (i * directoryEntrySize : Nat) := by
  induction h with
  | ended _ => cases hslot
  | terminated _ _ hrange =>
    obtain ⟨hread, hentry, hoffset⟩ := hrange.mem hslot
    exact ⟨hread, hentry, _, List.mem_singleton_self _, hoffset⟩
  | linked _ _ hrange _ _ ih =>
    rcases List.mem_append.mp hslot with hslot | hslot
    · obtain ⟨hread, hentry, hoffset⟩ := hrange.mem hslot
      exact ⟨hread, hentry, _, List.mem_cons_self, hoffset⟩
    · obtain ⟨hread, hentry, d, hd, hoffset⟩ := ih hslot
      exact ⟨hread, hentry, d, List.mem_cons_of_mem _ hd, hoffset⟩

/-- The slots of a directory whose clusters are in distinct blocks are distinct. -/
theorem DirectoryContent.offsets_nodup (h : DirectoryContent fs image last c visited slots)
    (hgeometry : BlockGeometry fs.ioHandle)
    (hcovers : ∀ d ∈ visited, CoversCluster fs.ioHandle d)
    (hnodup : (visited.map (clusterBlock fs.ioHandle)).Nodup) : (slots.map Prod.fst).Nodup := by
  induction h with
  | ended _ => exact List.nodup_nil
  | terminated _ _ hrange => exact hrange.sorted.imp fun hlt => ne_of_lt hlt
  | @linked c next visited slots rest _ _ hrange _ hrest ih =>
    rw [List.map_cons, List.nodup_cons] at hnodup
    have hnodup' := ih (fun d hd => hcovers d (List.mem_cons_of_mem _ hd)) hnodup.2
    rw [List.map_append, List.nodup_append]
    refine ⟨hrange.sorted.imp fun hlt => ne_of_lt hlt, hnodup', ?_⟩
    intro x hx y hy heq
    obtain ⟨slot, hslot, rfl⟩ := List.mem_map.mp hx
    obtain ⟨other, hother, rfl⟩ := List.mem_map.mp hy
    obtain ⟨_, _, i, hi, hslotOffset⟩ := hrange.mem hslot
    obtain ⟨_, _, d, hd, j, hj, hotherOffset⟩ := hrest.mem hother
    have hne : clusterBlock fs.ioHandle c ≠ clusterBlock fs.ioHandle d := fun hblock =>
      hnodup.1 (hblock ▸ List.mem_map_of_mem hd)
    have hsize := hgeometry.size_eq
    rcases hgeometry.disjoint (hcovers c List.mem_cons_self).1
      (hcovers d (List.mem_cons_of_mem _ hd)).1 hne with hle | hle
    · simp only [directoryEntrySize] at hslotOffset hotherOffset hsize
      omega
    · simp only [directoryEntrySize] at hslotOffset hotherOffset hsize
      omega

/-- A directory has one content. -/
theorem DirectoryContent.unique (h : DirectoryContent fs image last c visited slots)
    {visited' : List Nat} {slots' : List Slot}
    (h' : DirectoryContent fs image last c visited' slots') :
    visited = visited' ∧ slots = slots' := by
  induction h generalizing visited' slots' with
  | ended hout =>
    cases h' with
    | ended _ => exact ⟨rfl, rfl⟩
    | terminated h2 hlast _ => omega
    | linked h2 hlast _ _ _ => omega
  | terminated h2 hlast hrange =>
    cases h' with
    | ended hout => omega
    | terminated _ _ hrange' =>
      obtain ⟨rfl, _⟩ := hrange.unique hrange'
      exact ⟨rfl, rfl⟩
    | linked _ _ hrange' _ _ => exact absurd (hrange.unique hrange').2 (by decide)
  | linked h2 hlast hrange hnext hrest ih =>
    cases h' with
    | ended hout => omega
    | terminated _ _ hrange' => exact absurd (hrange.unique hrange').2 (by decide)
    | linked _ _ hrange' hnext' hrest' =>
      rw [hnext] at hnext'
      injection hnext' with hnext'
      subst hnext'
      obtain ⟨rfl, _⟩ := hrange.unique hrange'
      obtain ⟨rfl, rfl⟩ := ih hrest'
      exact ⟨rfl, rfl⟩

/-- What reading a directory makes of a cluster that the block tree covers. -/
theorem visit_eq_ok_iff_content (hgeometry : BlockGeometry fs.ioHandle)
    (hvolume : fs.ioHandle.volumeSize ≤ int64Max) (hcovers : CoversCluster fs.ioHandle c)
    (value value' : DirectoryReadState × Bool) (ends : Bool) :
    (readDirectoryVisitor fs image).visit (clusterOffset fs.ioHandle c) value =
        .ok (value', ends) ↔
      ∃ slots, RangeContent image fs.ioHandle.fileSystemFormat (slotsPerCluster fs.ioHandle)
          (clusterOffset fs.ioHandle c) slots ends ∧
        processEntries processEntry (entriesOf fs.ioHandle.fileSystemFormat slots) value.1 =
          .ok value'.1 ∧ value'.2 = !ends := by
  obtain ⟨h0, hend⟩ := hgeometry.offset_add_le hvolume hcovers
  have hendOffset : toOff64 (clusterOffset fs.ioHandle c + fs.ioHandle.clusterBlockSize) =
      clusterOffset fs.ioHandle c + (slotsPerCluster fs.ioHandle * directoryEntrySize : Nat) := by
    rw [← hgeometry.size_eq]
    exact toOff64_of_nonneg (by omega) hend
  have hne : slotsPerCluster fs.ioHandle ≠ 0 := hgeometry.slots_pos.ne'
  obtain ⟨s', result'⟩ := value'
  simp only [readDirectoryVisitor, hendOffset, numberOfEntriesBetween_eq, hne, if_false]
  cases hread : readEntries image fs.ioHandle.fileSystemFormat processEntry
      (slotsPerCluster fs.ioHandle) (clusterOffset fs.ioHandle c) value.1 with
  | error e =>
    simp only [reduceCtorEq, false_iff, not_exists, not_and]
    intro slots hrange hs
    rw [readEntries_eq_ok_iff.mpr ⟨_, scanEntries_eq_ok_iff.mpr ⟨slots, hrange, rfl⟩, hs⟩] at hread
    cases hread
  | ok result =>
    obtain ⟨s, terminated⟩ := result
    obtain ⟨entries, hscan, hs⟩ := readEntries_eq_ok_iff.mp hread
    obtain ⟨slots, hrange, rfl⟩ := scanEntries_eq_ok_iff.mp hscan
    simp only [Except.ok.injEq, Prod.mk.injEq, Bool.not_not]
    constructor
    · rintro ⟨⟨rfl, rfl⟩, rfl⟩
      exact ⟨slots, hrange, hs, rfl⟩
    · rintro ⟨slots', hrange', hs', rfl⟩
      obtain ⟨rfl, rfl⟩ := hrange.unique hrange'
      rw [hs] at hs'
      injection hs' with hs'
      exact ⟨⟨hs', rfl⟩, rfl⟩

/-- The clusters that a walk may visit after those that it has accepted: the
block tree covers them, and each is in a block of its own. -/
structure MayVisit (ioHandle : IoHandle) (accepted visited : List Nat) : Prop where
  covers : ∀ d ∈ visited, CoversCluster ioHandle d
  nodup : ((accepted ++ visited).map (clusterBlock ioHandle)).Nodup

theorem MayVisit.new {ioHandle : IoHandle} {accepted : List Nat}
    (h : MayVisit ioHandle accepted (c :: visited)) :
    ∀ d ∈ accepted, clusterBlock ioHandle d ≠ clusterBlock ioHandle c := by
  intro d hd heq
  have hnodup := h.nodup
  rw [List.map_append, List.nodup_append] at hnodup
  exact hnodup.2.2 _ (List.mem_map_of_mem hd) _ (List.mem_map_of_mem List.mem_cons_self) heq

theorem MayVisit.next {ioHandle : IoHandle} {accepted : List Nat}
    (h : MayVisit ioHandle accepted (c :: visited)) :
    MayVisit ioHandle (accepted ++ [c]) visited :=
  ⟨fun d hd => h.covers d (List.mem_cons_of_mem _ hd), by simpa using h.nodup⟩

theorem MayVisit.cons {ioHandle : IoHandle} {accepted : List Nat}
    (hcovers : CoversCluster ioHandle c) (h : MayVisit ioHandle (accepted ++ [c]) visited) :
    MayVisit ioHandle accepted (c :: visited) :=
  ⟨fun d hd => (List.mem_cons.mp hd).elim (fun heq => heq ▸ hcovers) (h.covers d), by
    simpa using h.nodup⟩

/-- The walk has a content to come to from `w`, after which its state is `s'`. -/
def HasContent (fs : FileSystem) (image : List UInt8) (last : Nat)
    (w : ChainWalk (DirectoryReadState × Bool)) (s' : DirectoryReadState) : Prop :=
  ∃ visited slots, DirectoryContent fs image last w.clusterNumber visited slots ∧
    MayVisit fs.ioHandle w.accepted visited ∧
    processEntries processEntry (entriesOf fs.ioHandle.fileSystemFormat slots) w.value.1 = .ok s'

/-- An iteration that visits a cluster fails, or treats the entries of its slots. -/
theorem chainStep_visits_cases (hgeometry : BlockGeometry fs.ioHandle)
    (hvolume : fs.ioHandle.volumeSize ≤ int64Max) {w : ChainWalk (DirectoryReadState × Bool)}
    (hvisits : Visits last (readDirectoryVisitor fs image) w)
    (hw : Accepted fs last w.tree w.accepted) :
    (∃ accepted e, chainStep fs last (readDirectoryVisitor fs image) w =
      .done (accepted, .error e)) ∨
    ∃ tree, Accepted fs last tree (w.accepted ++ [w.clusterNumber]) ∧
      CoversCluster fs.ioHandle w.clusterNumber ∧
      ∃ value ends slots, RangeContent image fs.ioHandle.fileSystemFormat
          (slotsPerCluster fs.ioHandle) (clusterOffset fs.ioHandle w.clusterNumber) slots ends ∧
        processEntries processEntry (entriesOf fs.ioHandle.fileSystemFormat slots) w.value.1 =
          .ok value.1 ∧
        chainStep fs last (readDirectoryVisitor fs image) w =
          afterVisit fs w tree (.ok (value, ends)) := by
  by_cases hin : CoversCluster fs.ioHandle w.clusterNumber ∧
      ∀ d ∈ w.accepted, clusterBlock fs.ioHandle d ≠ clusterBlock fs.ioHandle w.clusterNumber
  · obtain ⟨tree, haccepted, heq⟩ := chainStep_accepted _ hvisits hw hin.1 hin.2
    cases hvisit : (readDirectoryVisitor fs image).visit
        (clusterOffset fs.ioHandle w.clusterNumber) w.value with
    | error e =>
      rw [hvisit] at heq
      exact Or.inl ⟨_, e, heq⟩
    | ok visited =>
      obtain ⟨value, ends⟩ := visited
      rw [hvisit] at heq
      obtain ⟨slots, hrange, hs, _⟩ :=
        (visit_eq_ok_iff_content hgeometry hvolume hin.1 _ _ _).mp hvisit
      exact Or.inr ⟨tree, haccepted, hin.1, value, ends, slots, hrange, hs, heq⟩
  · obtain ⟨e, he⟩ := chainStep_refused _ hvisits hw hin
    exact Or.inl ⟨_, e, he⟩

/-- When the walk returns, it has come to the end of the content. -/
theorem content_of_returns (hgeometry : BlockGeometry fs.ioHandle)
    (hvolume : fs.ioHandle.volumeSize ≤ int64Max) {w : ChainWalk (DirectoryReadState × Bool)}
    {accepted : List Nat} {value' : DirectoryReadState × Bool}
    (h : Loop.Returns (chainStep fs last (readDirectoryVisitor fs image)) w (accepted, .ok value')) :
    Accepted fs last w.tree w.accepted → HasContent fs image last w value'.1 := by
  refine h.induction (P := fun w =>
    Accepted fs last w.tree w.accepted → HasContent fs image last w value'.1) ?_ ?_
  · intro w hstep hw
    by_cases hvisits : Visits last (readDirectoryVisitor fs image) w
    · rcases chainStep_visits_cases hgeometry hvolume hvisits hw with
        ⟨_, e, he⟩ | ⟨tree, haccepted, hcovers, value, ends, slots, hrange, hs, heq⟩
      · rw [he] at hstep
        injection hstep with hstep
        injection hstep with _ hstep
        cases hstep
      · rw [heq] at hstep
        cases ends with
        | true =>
          simp only [afterVisit] at hstep
          injection hstep with hstep
          injection hstep with _ hvalue
          injection hvalue with hvalue
          subst hvalue
          refine ⟨[w.clusterNumber], slots, .terminated hvisits.1 hvisits.2.1 hrange, ?_, hs⟩
          exact ⟨fun d hd => List.mem_singleton.mp hd ▸ hcovers, haccepted.nodup⟩
        | false =>
          simp only [afterVisit] at hstep
          split at hstep
          · injection hstep with hstep
            injection hstep with _ hvalue
            cases hvalue
          · cases hstep
    · rw [chainStep_exit hvisits] at hstep
      injection hstep with hstep
      injection hstep with _ hvalue
      injection hvalue with hvalue
      subst hvalue
      have hout : w.clusterNumber < 2 ∨ last ≤ w.clusterNumber := by
        by_contra hnot
        exact hvisits ⟨by omega, by omega, rfl⟩
      refine ⟨[], [], .ended hout, ⟨fun d hd => absurd hd List.not_mem_nil, ?_⟩, rfl⟩
      rw [List.append_nil]
      exact hw.nodup
  · intro w w' hstep ih hw
    obtain ⟨haccepted', hw'⟩ := chainStep_next hw hstep
    obtain ⟨visited, slots', hcontent, hmay, hs'⟩ := ih hw'
    have hvisits : Visits last (readDirectoryVisitor fs image) w := by
      by_contra hnot
      rw [chainStep_exit hnot] at hstep
      cases hstep
    rcases chainStep_visits_cases hgeometry hvolume hvisits hw with
      ⟨_, e, he⟩ | ⟨tree, _, hcovers, value, ends, slots, hrange, hs, heq⟩
    · rw [he] at hstep
      cases hstep
    · rw [heq] at hstep
      cases ends with
      | true =>
        simp only [afterVisit] at hstep
        cases hstep
      | false =>
        simp only [afterVisit] at hstep
        split at hstep
        · cases hstep
        · next next hnext =>
          injection hstep with hstep
          subst hstep
          refine ⟨w.clusterNumber :: visited, slots ++ slots',
            .linked hvisits.1 hvisits.2.1 hrange hnext hcontent, .cons hcovers hmay, ?_⟩
          rw [entriesOf_append, processEntries_append, hs]
          exact hs'

/-- The walk comes to the end of the content when it may visit its clusters and
the entries can be treated. -/
theorem returns_of_content (hgeometry : BlockGeometry fs.ioHandle)
    (hvolume : fs.ioHandle.volumeSize ≤ int64Max)
    (h : DirectoryContent fs image last c visited slots) {tree : BlockTree} {accepted : List Nat}
    {value : DirectoryReadState × Bool} {s' : DirectoryReadState}
    (hw : Accepted fs last tree accepted) (hmay : MayVisit fs.ioHandle accepted visited)
    (hs : processEntries processEntry (entriesOf fs.ioHandle.fileSystemFormat slots) value.1 =
      .ok s') :
    ∃ accepted' result, Loop.Returns (chainStep fs last (readDirectoryVisitor fs image))
      ⟨c, tree, accepted, value⟩ (accepted', .ok (s', result)) := by
  induction h generalizing tree accepted value with
  | @ended c hout =>
    have hexit : chainStep fs last (readDirectoryVisitor fs image) ⟨c, tree, accepted, value⟩ =
        .done (accepted, .ok value) :=
      chainStep_exit fun hvisits => by
        obtain ⟨h2, hlast, _⟩ := hvisits
        dsimp only at h2 hlast
        omega
    injection hs with hs
    exact ⟨accepted, value.2, .of_done (by rw [hexit, ← hs])⟩
  | @terminated c slots h2 hlast hrange =>
    have hcovers := hmay.covers c List.mem_cons_self
    obtain ⟨tree', _, hstep⟩ := chainStep_accepted (w := ⟨c, tree, accepted, value⟩)
      (readDirectoryVisitor fs image) ⟨h2, hlast, rfl⟩ hw hcovers hmay.new
    rw [(visit_eq_ok_iff_content hgeometry hvolume hcovers value (s', false) true).mpr
      ⟨slots, hrange, hs, rfl⟩] at hstep
    exact ⟨_, _, .of_done hstep⟩
  | @linked c next visited slots rest h2 hlast hrange hnext hrest ih =>
    have hcovers := hmay.covers c List.mem_cons_self
    obtain ⟨tree', haccepted, hstep⟩ := chainStep_accepted (w := ⟨c, tree, accepted, value⟩)
      (readDirectoryVisitor fs image) ⟨h2, hlast, rfl⟩ hw hcovers hmay.new
    rw [entriesOf_append, processEntries_append] at hs
    split at hs
    · cases hs
    · next s₁ hs₁ =>
      rw [(visit_eq_ok_iff_content hgeometry hvolume hcovers value (s₁, true) false).mpr
        ⟨slots, hrange, hs₁, rfl⟩] at hstep
      simp only [afterVisit, hnext] at hstep
      obtain ⟨accepted', result, hreturns⟩ :
          ∃ accepted' result, Loop.Returns (chainStep fs last (readDirectoryVisitor fs image))
            ⟨next, tree', accepted ++ [c], (s₁, true)⟩ (accepted', .ok (s', result)) :=
        ih haccepted hmay.next hs
      exact ⟨accepted', result, .of_next hstep hreturns⟩

end Chain

/-! ### Reading directories -/

section Read

variable {fs : FileSystem} {image : List UInt8}

/-- `libfsfat_file_system_read_directory` succeeds exactly for a directory with
a content whose clusters may be visited and whose entries can be treated. -/
theorem readDirectory_eq_ok_iff_content (hgeometry : BlockGeometry fs.ioHandle) {c : Nat}
    {directory : Directory} :
    readDirectory fs image c = .ok directory ↔
      ∃ last visited slots,
        lastClusterNumber fs.ioHandle.fileSystemFormat = .ok last ∧
        (0 < fs.ioHandle.volumeSize ∧ fs.ioHandle.volumeSize ≤ int64Max) ∧
        DirectoryContent fs image last c visited slots ∧ MayVisit fs.ioHandle [] visited ∧
        ∃ s, processEntries processEntry (entriesOf fs.ioHandle.fileSystemFormat slots) .start =
          .ok s ∧ s.directory = directory := by
  cases hlast : lastClusterNumber fs.ioHandle.fileSystemFormat with
  | error e => simp [readDirectory, hlast, bind, Except.bind]
  | ok last =>
    by_cases hvolume : 0 < fs.ioHandle.volumeSize ∧ fs.ioHandle.volumeSize ≤ int64Max
    · obtain ⟨tree, htree, hempty⟩ :=
        BlockTree.create_standsFor hgeometry.pos hvolume.1 hvolume.2
      have haccepted : Accepted fs last tree [] := accepted_nil hempty
      have hreturns : Loop.Returns (chainStep fs last (readDirectoryVisitor fs image))
          ⟨c, tree, [], (.start, false)⟩
          (walkChain fs last (readDirectoryVisitor fs image) tree c (.start, false)) :=
        ⟨_, walkChain_returns hempty⟩
      rw [readDirectory_eq_walk hlast htree, map_eq_ok_iff]
      constructor
      · rintro ⟨value, hvalue, rfl⟩
        rw [← Prod.mk.eta (p := walkChain _ _ _ _ _ _), hvalue] at hreturns
        obtain ⟨visited, slots, hcontent, hmay, hs⟩ :=
          content_of_returns hgeometry hvolume.2 hreturns haccepted
        exact ⟨last, visited, slots, rfl, hvolume, hcontent, hmay, value.1, hs, rfl⟩
      · rintro ⟨last', visited, slots, hlast', _, hcontent, hmay, s, hs, rfl⟩
        injection hlast' with hlast'
        subst hlast'
        obtain ⟨accepted, result, hreturns'⟩ :
            ∃ accepted result, Loop.Returns (chainStep fs last (readDirectoryVisitor fs image))
              ⟨c, tree, [], (.start, false)⟩ (accepted, .ok (s, result)) :=
          returns_of_content hgeometry hvolume.2 hcontent haccepted hmay hs
        exact ⟨(s, result), congrArg Prod.snd (hreturns.unique hreturns'), rfl⟩
    · obtain ⟨e, he⟩ : ∃ e, BlockTree.create fs.ioHandle.volumeSize
          fs.ioHandle.clusterBlockSize = .error e := BlockTree.create_error fun h => hvolume h.2
      constructor
      · intro h
        simp only [readDirectory, hlast, he, bind, Except.bind] at h
        cases h
      · rintro ⟨_, _, _, _, hvolume', _⟩
        exact absurd hvolume' hvolume

/-- The same for a content that is known. -/
theorem readDirectory_eq_ok_iff_of_content (hgeometry : BlockGeometry fs.ioHandle) {last c : Nat}
    {visited : List Nat} {slots : List Slot}
    (hlast : lastClusterNumber fs.ioHandle.fileSystemFormat = .ok last)
    (hcontent : DirectoryContent fs image last c visited slots) {directory : Directory} :
    readDirectory fs image c = .ok directory ↔
      (0 < fs.ioHandle.volumeSize ∧ fs.ioHandle.volumeSize ≤ int64Max) ∧
      MayVisit fs.ioHandle [] visited ∧
      ∃ s, processEntries processEntry (entriesOf fs.ioHandle.fileSystemFormat slots) .start =
        .ok s ∧ s.directory = directory := by
  rw [readDirectory_eq_ok_iff_content hgeometry]
  constructor
  · rintro ⟨last', visited', slots', hlast', hvolume, hcontent', hmay, hs⟩
    rw [hlast] at hlast'
    injection hlast' with hlast'
    subst hlast'
    obtain ⟨rfl, rfl⟩ := hcontent.unique hcontent'
    exact ⟨hvolume, hmay, hs⟩
  · rintro ⟨hvolume, hmay, hs⟩
    exact ⟨last, visited, slots, hlast, hvolume, hcontent, hmay, hs⟩

/-- `libfsfat_file_system_read_directory_by_range` succeeds exactly for a range
with a content whose entries can be treated. -/
theorem readDirectoryByRange_eq_ok_iff_content {fileOffset : Int} {size : Nat}
    {directory : Directory} :
    readDirectoryByRange fs image fileOffset size = .ok directory ↔
      ∃ slots terminated,
        RangeContent image fs.ioHandle.fileSystemFormat
          (numberOfEntriesBetween fileOffset (toOff64 (fileOffset + size))) fileOffset slots
          terminated ∧
        ∃ s, processEntries processEntryByRange (entriesOf fs.ioHandle.fileSystemFormat slots)
          .start = .ok s ∧ s.directory = directory := by
  simp only [readDirectoryByRange, bind_eq_ok_iff, pure, Except.pure, Except.ok.injEq]
  constructor
  · rintro ⟨⟨s, terminated⟩, hread, rfl⟩
    obtain ⟨entries, hscan, hs⟩ := readEntries_eq_ok_iff.mp hread
    obtain ⟨slots, hrange, rfl⟩ := scanEntries_eq_ok_iff.mp hscan
    exact ⟨slots, terminated, hrange, s, hs, rfl⟩
  · rintro ⟨slots, terminated, hrange, s, hs, rfl⟩
    exact ⟨(s, terminated),
      readEntries_eq_ok_iff.mpr ⟨_, scanEntries_eq_ok_iff.mpr ⟨slots, hrange, rfl⟩, hs⟩, rfl⟩

/-- The same for a content that is known. -/
theorem readDirectoryByRange_eq_ok_iff_of_content {fileOffset : Int} {size : Nat}
    {slots : List Slot} {terminated : Bool}
    (hcontent : RangeContent image fs.ioHandle.fileSystemFormat
      (numberOfEntriesBetween fileOffset (toOff64 (fileOffset + size))) fileOffset slots terminated)
    {directory : Directory} :
    readDirectoryByRange fs image fileOffset size = .ok directory ↔
      ∃ s, processEntries processEntryByRange (entriesOf fs.ioHandle.fileSystemFormat slots)
        .start = .ok s ∧ s.directory = directory := by
  rw [readDirectoryByRange_eq_ok_iff_content]
  constructor
  · rintro ⟨slots', terminated', hcontent', hs⟩
    obtain ⟨rfl, _⟩ := hcontent.unique hcontent'
    exact hs
  · intro hs
    exact ⟨slots, terminated, hcontent, hs⟩

end Read

end FsFat
