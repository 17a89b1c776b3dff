import FsFat.DirectoryContent
import FsFat.VfatDirectory

/-!
The listing of a directory of FAT-12, FAT-16 and FAT-32: one file entry for each
slot of its content that has the short name of a file, in order, and one entry
in the entries array for each slot that is allocated. This holds of every
directory that is read, whatever its slots and its chain of clusters are.
-/

namespace FsFat

open Bytes DirectoryEntry DirectoryReadState

/-- The slot has a short name that is neither that of the directory itself or of
its parent nor a volume label. -/
def IsListed (slot : Slot) : Prop :=
  entryTypeOf slot.2 .fat16 = .shortName ∧
    byteAt slot.2 11 &&& fileAttributeFlagVolumeLabel = 0 ∧ ¬ HasDotName slot.2

instance (slot : Slot) : Decidable (IsListed slot) := inferInstanceAs (Decidable (_ ∧ _ ∧ _))

/-- The slot has an entry that was not deleted. -/
def IsAllocated (slot : Slot) : Prop := entryTypeOf slot.2 .fat16 ≠ .unallocated

instance (slot : Slot) : Decidable (IsAllocated slot) := inferInstanceAs (Decidable (_ ≠ _))

/-! ### The entries of slots -/

section Entries

variable {format : FileSystemFormat}

/-- The types of the entries that are read outside exFAT. -/
theorem readData_eq_some {data : List UInt8} {entry : DirectoryEntry} (hformat : format ≠ .exfat)
    (h : readData data format = .ok (some entry)) :
    (entryTypeOf data .fat16 = .shortName ∧ entry = readShortName data) ∨
      (entryTypeOf data .fat16 = .vfatLongName ∧ entry = readVfatLongName data) ∨
      (entryTypeOf data .fat16 = .unallocated ∧
        entry = { create with entryType := .unallocated }) := by
  rw [readData, entryTypeOf_fat hformat] at h
  have htypes : entryTypeOf data .fat16 = .terminator ∨ entryTypeOf data .fat16 = .shortName ∨
      entryTypeOf data .fat16 = .vfatLongName ∨ entryTypeOf data .fat16 = .unallocated := by
    simp only [entryTypeOf, reduceCtorEq, if_false]
    split_ifs <;> simp
  rcases htypes with htype | htype | htype | htype
  · rw [htype] at h
    cases h
  · rw [htype] at h
    injection h with h
    injection h with h
    exact Or.inl ⟨htype, h.symm⟩
  · rw [htype] at h
    injection h with h
    injection h with h
    exact Or.inr (Or.inl ⟨htype, h.symm⟩)
  · rw [htype] at h
    injection h with h
    injection h with h
    exact Or.inr (Or.inr ⟨htype, h.symm⟩)

/-- What is done with a short name. -/
theorem processEntry_shortName {data : List UInt8} (hlength : data.length = directoryEntrySize)
    (s : DirectoryReadState) (offset : Int) :
    s.processEntry (readShortName data) offset =
      if data.take 11 = selfName then s.setSelfEntry (readShortName data)
      else if data.take 11 = parentName then s.setParentEntry (readShortName data)
      else if byteAt data 11 &&& fileAttributeFlagVolumeLabel ≠ 0 then
        s.setVolumeLabelEntry (readShortName data)
      else s.addShortName (readShortName data) offset := by
  rw [processEntry, take_nameData_readShortName hlength]
  rfl

/-- A short name that is added has the offset of its slot as its identifier. -/
theorem addShortName_eq_ok {entry : DirectoryEntry} {offset : Int} {s s' : DirectoryReadState}
    (h : s.addShortName entry offset = .ok s') :
    ∃ named : DirectoryEntry, named.identifier = toUint64 offset ∧
      s' = { s.appendFileEntry named with nameEntries := none } := by
  cases hnames : s.nameEntries with
  | none =>
    rw [addShortName_of_none hnames] at h
    injection h with h
    exact ⟨_, rfl, h.symm⟩
  | some names =>
    rw [addShortName_of_some hnames, map_eq_ok_iff] at h
    obtain ⟨named, hnamed, rfl⟩ := h
    obtain ⟨_, _, rfl⟩ := setNameFromSegments_eq_ok_iff.mp hnamed
    exact ⟨_, rfl, rfl⟩

/-- The entry of one special kind goes to its own place in the directory. -/
theorem setSpecialEntry_eq {entry : DirectoryEntry} {s s' : DirectoryReadState}
    (h : s.setSelfEntry entry = .ok s' ∨ s.setParentEntry entry = .ok s' ∨
      s.setVolumeLabelEntry entry = .ok s') :
    ∃ directory, s' = { s with directory := directory } ∧
      directory.fileEntries = s.directory.fileEntries ∧
      directory.entries = s.directory.entries := by
  rcases h with h | h | h
  · unfold setSelfEntry at h
    split at h
    · cases h
    · injection h with h
      exact ⟨_, h.symm, rfl, rfl⟩
  · unfold setParentEntry at h
    split at h
    · cases h
    · injection h with h
      exact ⟨_, h.symm, rfl, rfl⟩
  · unfold setVolumeLabelEntry at h
    split at h
    · cases h
    · injection h with h
      exact ⟨_, h.symm, rfl, rfl⟩

theorem setSpecialEntry_listing {entry : DirectoryEntry} {s s' : DirectoryReadState}
    (h : s.setSelfEntry entry = .ok s' ∨ s.setParentEntry entry = .ok s' ∨
      s.setVolumeLabelEntry entry = .ok s') :
    s'.directory.fileEntries = s.directory.fileEntries ∧
      s'.directory.entries = s.directory.entries := by
  obtain ⟨directory, rfl, hfileEntries, hentries⟩ := setSpecialEntry_eq h
  exact ⟨hfileEntries, hentries⟩

theorem addVfatLongName_directory {entry : DirectoryEntry} {s s' : DirectoryReadState}
    (h : s.addVfatLongName entry = .ok s') : s'.directory = s.directory := by
  simp only [addVfatLongName] at h
  split at h
  · injection h with h
    subst h
    rfl
  · split at h
    · cases h
    · split at h
      · cases h
      · injection h with h
        subst h
        rfl

/-- The identifiers that the entry of a slot adds. -/
def listedOffsets (slots : List Slot) : List Nat :=
  (slots.filter IsListed).map fun slot => toUint64 slot.1

/-- The step of the listing: an allocated slot adds a file entry exactly when it is listed. -/
theorem processEntry_listing {slot : Slot} {entry : DirectoryEntry} (hformat : format ≠ .exfat)
    (hlength : slot.2.length = directoryEntrySize)
    (hentry : readData slot.2 format = .ok (some entry))
    (hallocated : entry.entryType ≠ .unallocated) {s s' : DirectoryReadState}
    (h : s.processEntry entry slot.1 = .ok s') :
    s'.directory.fileEntries.map (·.identifier) =
        s.directory.fileEntries.map (·.identifier) ++ listedOffsets [slot] ∧
      s'.directory.entries = s.directory.entries := by
  have hskipped (hnot : ¬ IsListed slot)
      (hsame : s'.directory.fileEntries = s.directory.fileEntries ∧
        s'.directory.entries = s.directory.entries) :
      s'.directory.fileEntries.map (·.identifier) =
          s.directory.fileEntries.map (·.identifier) ++ listedOffsets [slot] ∧
        s'.directory.entries = s.directory.entries := by
    rw [listedOffsets, List.filter_cons_of_neg (by simpa using hnot), hsame.1]
    exact ⟨by simp, hsame.2⟩
  rcases readData_eq_some hformat hentry with ⟨htype, rfl⟩ | ⟨htype, rfl⟩ | ⟨_, rfl⟩
  · rw [processEntry_shortName hlength] at h
    split at h
    · next hself =>
      exact hskipped (fun hlisted => hlisted.2.2 (Or.inl hself)) (setSpecialEntry_listing (Or.inl h))
    split at h
    · next hparent =>
      exact hskipped (fun hlisted => hlisted.2.2 (Or.inr hparent))
        (setSpecialEntry_listing (Or.inr (Or.inl h)))
    split at h
    · next hlabel =>
      exact hskipped (fun hlisted => hlabel hlisted.2.1)
        (setSpecialEntry_listing (Or.inr (Or.inr h)))
    · next hself hparent hlabel =>
      have hlisted : IsListed slot := by
        refine ⟨htype, ?_, fun hdot => hdot.elim hself hparent⟩
        simpa using hlabel
      obtain ⟨named, hidentifier, rfl⟩ := addShortName_eq_ok h
      rw [listedOffsets, List.filter_cons_of_pos (by simpa using hlisted)]
      simp [appendFileEntry, hidentifier]
  · have hnot : ¬ IsListed slot := fun hlisted => by
      rw [hlisted.1] at htype
      cases htype
    unfold processEntry at h
    split at h
    · exact hskipped hnot (setSpecialEntry_listing (Or.inl h))
    split at h
    · exact hskipped hnot (setSpecialEntry_listing (Or.inr (Or.inl h)))
    · have hdirectory : s'.directory = s.directory := addVfatLongName_directory h
      exact hskipped hnot (by rw [hdirectory]; exact ⟨rfl, rfl⟩)
  · exact absurd rfl hallocated

theorem isAllocated_iff {slot : Slot} {entry : DirectoryEntry} (hformat : format ≠ .exfat)
    (hentry : readData slot.2 format = .ok (some entry)) :
    IsAllocated slot ↔ entry.entryType ≠ .unallocated := by
  unfold IsAllocated
  rcases readData_eq_some hformat hentry with ⟨htype, rfl⟩ | ⟨htype, rfl⟩ | ⟨htype, rfl⟩
  · rw [htype, readShortName]
  · rw [htype, readVfatLongName]
  · rw [htype]

/-- The run of the listing, over the slots of a content. -/
theorem processEntries_listing (hformat : format ≠ .exfat) {slots : List Slot}
    (hslots : ∀ slot ∈ slots, slot.2.length = directoryEntrySize ∧ IsEntry format slot)
    {s s' : DirectoryReadState}
    (h : processEntries processEntry (entriesOf format slots) s = .ok s') :
    s'.directory.fileEntries.map (·.identifier) =
        s.directory.fileEntries.map (·.identifier) ++ listedOffsets slots ∧
      s'.directory.entries =
        s.directory.entries ++ (slots.filter IsAllocated).map Prod.fst := by
  induction slots generalizing s with
  | nil =>
    injection h with h
    subst h
    exact ⟨(List.append_nil _).symm, (List.append_nil _).symm⟩
  | cons slot slots ih =>
    obtain ⟨hlength, entry, hentry⟩ := hslots slot List.mem_cons_self
    have hrest : ∀ t ∈ slots, t.2.length = directoryEntrySize ∧ IsEntry format t :=
      fun t ht => hslots t (List.mem_cons_of_mem _ ht)
    have hallocated := isAllocated_iff hformat hentry
    have hcons : listedOffsets (slot :: slots) = listedOffsets [slot] ++ listedOffsets slots := by
      unfold listedOffsets
      rw [← List.map_append, ← List.filter_append, List.singleton_append]
    rw [entriesOf, List.filterMap_cons, entryOf, hentry] at h
    by_cases hun : entry.entryType = .unallocated
    · -- a deleted entry goes to no array
      simp only [hun, if_true] at h
      obtain ⟨hidentifiers, hentries⟩ := ih hrest h
      have hnot : ¬ IsListed slot := by
        rintro ⟨htype, _⟩
        rcases readData_eq_some hformat hentry with ⟨_, rfl⟩ | ⟨_, rfl⟩ | ⟨htype', rfl⟩
        · cases hun
        · cases hun
        · rw [htype] at htype'
          cases htype'
      have hskip : listedOffsets [slot] = [] := by
        rw [listedOffsets, List.filter_cons_of_neg (by simpa using hnot)]
        rfl
      rw [List.filter_cons_of_neg (by simpa using fun h => hallocated.mp h hun), hcons, hskip]
      exact ⟨hidentifiers, hentries⟩
    · simp only [hun, if_false, processEntries] at h
      split at h
      · cases h
      · next s₁ hstep =>
        obtain ⟨hidentifiers, hentries⟩ := ih hrest h
        obtain ⟨hidentifiers₁, hentries₁⟩ := processEntry_listing hformat hlength hentry hun hstep
        have happend : (s₁.appendEntry slot.1).directory.entries =
            s₁.directory.entries ++ [slot.1] := rfl
        rw [fileEntries_appendEntry, hidentifiers₁] at hidentifiers
        rw [happend, hentries₁] at hentries
        rw [List.filter_cons_of_pos (by simpa using hallocated.mpr hun), hcons]
        exact ⟨by rw [hidentifiers, List.append_assoc],
          by rw [hentries, List.append_assoc]; rfl⟩

end Entries

/-! ### The identifiers of a listing -/

/-- A treatment of entries that adds a file entry for each slot of a kind, with
the offset of the slot as its identifier. -/
structure IsLister
    (process : DirectoryReadState → DirectoryEntry → Int → Except Error DirectoryReadState)
    (format : FileSystemFormat) (Lists : Slot → Prop) : Prop where
  added : ∀ {slot entry s s'}, slot.2.length = directoryEntrySize →
    readData slot.2 format = .ok (some entry) → process s entry slot.1 = .ok s' → Lists slot →
    s'.directory.fileEntries.map (·.identifier) =
      s.directory.fileEntries.map (·.identifier) ++ [toUint64 slot.1]
  kept : ∀ {slot entry s s'}, slot.2.length = directoryEntrySize →
    readData slot.2 format = .ok (some entry) → entry.entryType ≠ .unallocated →
    process s entry slot.1 = .ok s' → ¬ Lists slot →
    s'.directory.fileEntries.map (·.identifier) = s.directory.fileEntries.map (·.identifier)
  allocated : ∀ {slot entry}, readData slot.2 format = .ok (some entry) → Lists slot →
    entry.entryType ≠ .unallocated

section Lister

variable {process : DirectoryReadState → DirectoryEntry → Int → Except Error DirectoryReadState}
  {format : FileSystemFormat} {Lists : Slot → Prop}

/-- The slots of the kind are the file entries, in order. -/
theorem IsLister.run [DecidablePred Lists] (h : IsLister process format Lists) {slots : List Slot}
    (hslots : ∀ slot ∈ slots, slot.2.length = directoryEntrySize ∧ IsEntry format slot)
    {s s' : DirectoryReadState} (hs : processEntries process (entriesOf format slots) s = .ok s') :
    s'.directory.fileEntries.map (·.identifier) =
      s.directory.fileEntries.map (·.identifier) ++
        (slots.filter Lists).map fun slot => toUint64 slot.1 := by
  induction slots generalizing s with
  | nil =>
    injection hs with hs
    subst hs
    exact (List.append_nil _).symm
  | cons slot slots ih =>
    obtain ⟨⟨hlength, entry, hentry⟩, hrest⟩ := List.forall_mem_cons.mp hslots
    rw [entriesOf, List.filterMap_cons, entryOf, hentry] at hs
    by_cases hun : entry.entryType = .unallocated
    · simp only [hun, if_true] at hs
      have hnot : ¬ Lists slot := fun hlists => h.allocated hentry hlists hun
      rw [List.filter_cons_of_neg (by simpa using hnot)]
      exact ih hrest hs
    · simp only [hun, if_false, processEntries] at hs
      split at hs
      · cases hs
      next s₁ hstep =>
      have htail := ih hrest hs
      rw [fileEntries_appendEntry] at htail
      by_cases hlists : Lists slot
      · rw [htail, h.added hlength hentry hstep hlists,
          List.filter_cons_of_pos (by simpa using hlists), List.map_cons, List.append_assoc,
          List.singleton_append]
      · rw [htail, h.kept hlength hentry hun hstep hlists,
          List.filter_cons_of_neg (by simpa using hlists)]

/-- Reading a directory of FAT-12, FAT-16 or FAT-32 lists its files. -/
theorem isLister_processEntry (hformat : format ≠ .exfat) :
    IsLister processEntry format IsListed := by
  have hallocated {slot : Slot} {entry : DirectoryEntry}
      (hentry : readData slot.2 format = .ok (some entry)) (hlisted : IsListed slot) :
      entry.entryType ≠ .unallocated :=
    (isAllocated_iff hformat hentry).mp (by rw [IsAllocated, hlisted.1]; decide)
  constructor
  · intro slot entry s s' hlength hentry h hlisted
    obtain ⟨hidentifiers, _⟩ :=
      processEntry_listing hformat hlength hentry (hallocated hentry hlisted) h
    rw [hidentifiers, listedOffsets, List.filter_cons_of_pos (by simpa using hlisted)]
    rfl
  · intro slot entry s s' hlength hentry hun h hnot
    obtain ⟨hidentifiers, _⟩ := processEntry_listing hformat hlength hentry hun h
    rw [hidentifiers, listedOffsets, List.filter_cons_of_neg (by simpa using hnot)]
    exact List.append_nil _
  · exact hallocated

end Lister

/-! ### The listing -/

section Listing

variable {fs : FileSystem} {image : List UInt8} {c : Nat} {directory : Directory}

/-- The identifier of an entry in a cluster of the volume is its offset. -/
theorem toUint64_offset {offset : Int} (h0 : 0 ≤ offset) (h : offset ≤ int64Max) :
    (toUint64 offset : Int) = offset := by
  have hmax : (int64Max : Int) = 9223372036854775807 := rfl
  unfold toUint64
  rw [Int.emod_eq_of_lt h0 (by omega), Int.toNat_of_nonneg h0]

/-- The offsets of the slots of a directory are 64-bit values. -/
theorem DirectoryContent.offset_bounds {last : Nat} {visited : List Nat} {slots : List Slot}
    (h : DirectoryContent fs image last c visited slots) (hgeometry : BlockGeometry fs.ioHandle)
    (hvolume : fs.ioHandle.volumeSize ≤ int64Max) (hmay : MayVisit fs.ioHandle [] visited)
    {slot : Slot} (hslot : slot ∈ slots) : 0 ≤ slot.1 ∧ slot.1 ≤ int64Max := by
  obtain ⟨_, _, d, hd, i, hi, hoffset⟩ := h.mem hslot
  obtain ⟨h0, hend⟩ := hgeometry.offset_add_le hvolume (hmay.covers d hd)
  have hsize := hgeometry.size_eq
  simp only [directoryEntrySize] at hoffset hsize
  omega

/-- A directory that is read lists the files of its content: the identifiers of
the file entries are the offsets of the listed slots, in order and each exactly
once, and the entries array has one element for each allocated slot. -/
theorem readDirectory_listing (hformat : fs.ioHandle.fileSystemFormat ≠ .exfat)
    (hgeometry : BlockGeometry fs.ioHandle) (hread : readDirectory fs image c = .ok directory) :
    ∃ last visited slots, lastClusterNumber fs.ioHandle.fileSystemFormat = .ok last ∧
      DirectoryContent fs image last c visited slots ∧
      directory.fileEntries.map (fun entry => (entry.identifier : Int)) =
        (slots.filter IsListed).map Prod.fst ∧
      (directory.fileEntries.map fun entry => entry.identifier).Nodup ∧
      directory.entries = (slots.filter IsAllocated).map Prod.fst := by
  obtain ⟨last, visited, slots, hlast, hvolume, hcontent, hmay, s, hs, rfl⟩ :=
    (readDirectory_eq_ok_iff_content hgeometry).mp hread
  have hslots : ∀ slot ∈ slots, slot.2.length = directoryEntrySize ∧
      IsEntry fs.ioHandle.fileSystemFormat slot := fun slot hslot =>
    ⟨length_of_readAt (hcontent.mem hslot).1, (hcontent.mem hslot).2.1⟩
  obtain ⟨hidentifiers, hentries⟩ := processEntries_listing hformat hslots hs
  have hidentifiers' : s.directory.fileEntries.map (·.identifier) = listedOffsets slots :=
    hidentifiers
  have hoffsets : s.directory.fileEntries.map (fun entry => (entry.identifier : Int)) =
      (slots.filter IsListed).map Prod.fst := by
    have hcast := congrArg (List.map (fun identifier : Nat => (identifier : Int))) hidentifiers'
    rw [List.map_map, listedOffsets, List.map_map] at hcast
    refine hcast.trans (List.map_congr_left fun slot hslot => ?_)
    obtain ⟨h0, hmax⟩ :=
      hcontent.offset_bounds hgeometry hvolume.2 hmay (List.mem_of_mem_filter hslot)
    exact toUint64_offset h0 hmax
  refine ⟨last, visited, slots, hlast, hcontent, hoffsets, ?_, hentries⟩
  have hnodup : ((slots.filter IsListed).map Prod.fst).Nodup :=
    (hcontent.offsets_nodup hgeometry hmay.covers (by simpa using hmay.nodup)).sublist
      (List.filter_sublist.map _)
  have hmap : (s.directory.fileEntries.map fun entry => entry.identifier).map
      (fun identifier : Nat => (identifier : Int)) =
        s.directory.fileEntries.map fun entry => (entry.identifier : Int) := List.map_map
  rw [← hoffsets, ← hmap] at hnodup
  exact hnodup.of_map

/-- The directory of the one file. -/
theorem readDirectory_listing_dotLongName :
    ∃ directory, readDirectory vfatFileSystem dotLongNameImage 2 = .ok directory ∧
      ∃ last visited slots, lastClusterNumber .fat16 = .ok last ∧
        DirectoryContent vfatFileSystem dotLongNameImage last 2 visited slots ∧
        directory.fileEntries.map (fun entry => (entry.identifier : Int)) =
          (slots.filter IsListed).map Prod.fst ∧
        (directory.fileEntries.map fun entry => entry.identifier).Nodup ∧
        directory.entries = (slots.filter IsAllocated).map Prod.fst := by
  obtain ⟨directory, hread⟩ : ∃ directory,
      readDirectory vfatFileSystem dotLongNameImage 2 = .ok directory :=
    exists_eq_ok_of_isOk (by decide +kernel)
  exact ⟨directory, hread, readDirectory_listing (by decide) ⟨9, by decide, by decide, rfl⟩ hread⟩

end Listing

end FsFat
