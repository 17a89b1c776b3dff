import FsFat.DirectoryReaders
import FsFat.ExfatDirectory
import FsFat.FileEntry

/-!
The identifiers of the entries of a directory. They are the offsets of distinct
slots, so no two entries of a directory share one. The root directory has no
slot: its identifier is where its range starts or, without a range, where the
clusters start. A file entry in the slot at this offset has the same identifier.
-/

namespace FsFat

open Bytes DirectoryEntry DirectoryReadState

/-- How a directory of a volume is read: along the chain of a cluster, or from
the range of the root directory. -/
inductive DirectorySource where
  | chain (clusterNumber : Nat)
  | rootRange (size : Nat)

namespace DirectorySource

/-- The function that reads the directory. -/
def read (fs : FileSystem) (image : List UInt8) : DirectorySource → Except Error Directory
  | .chain clusterNumber => readDirectory fs image clusterNumber
  | .rootRange size => readDirectoryByRange fs image fs.ioHandle.rootDirectoryOffset size

/-- What this function does with an entry. -/
def process :
    DirectorySource → DirectoryReadState → DirectoryEntry → Int → Except Error DirectoryReadState
  | .chain _ => processEntry
  | .rootRange _ => processEntryByRange

/-- The slots of the directory. -/
def Content (fs : FileSystem) (image : List UInt8) : DirectorySource → List Slot → Prop
  | .chain clusterNumber, slots =>
    ∃ last visited, lastClusterNumber fs.ioHandle.fileSystemFormat = .ok last ∧
      DirectoryContent fs image last clusterNumber visited slots
  | .rootRange size, slots =>
    ∃ terminated, RangeContent image fs.ioHandle.fileSystemFormat
      (numberOfEntriesBetween fs.ioHandle.rootDirectoryOffset
        (toOff64 (fs.ioHandle.rootDirectoryOffset + size)))
      fs.ioHandle.rootDirectoryOffset slots terminated

/-- The slot has the entry of a file, for the function that reads the directory. -/
def Lists (format : FileSystemFormat) : DirectorySource → Slot → Prop
  | .chain _, slot =>
    if format = .exfat then entryTypeOf slot.2 .exfat = .exfatFileEntry else IsListed slot
  | .rootRange _, slot => format ≠ .exfat ∧ IsListedByRange slot

instance (format : FileSystemFormat) (source : DirectorySource) :
    DecidablePred (source.Lists format) := fun slot =>
  match source with
  | .chain _ => inferInstanceAs (Decidable (if format = .exfat then
      entryTypeOf slot.2 .exfat = .exfatFileEntry else IsListed slot))
  | .rootRange _ => inferInstanceAs (Decidable (format ≠ .exfat ∧ IsListedByRange slot))

/-- A directory of the volume with this boot record. -/
def IsOf (bootRecord : BootRecord) : DirectorySource → Prop
  | .chain _ => True
  | .rootRange size => size = bootRecord.rootDirectorySize

/-- The directory has a file in the slot at the offset of the root directory. -/
def ListsRootOffset (fs : FileSystem) (image : List UInt8) (source : DirectorySource) : Prop :=
  ∃ slots, source.Content fs image slots ∧
    ∃ slot ∈ slots, source.Lists fs.ioHandle.fileSystemFormat slot ∧
      slot.1 = fs.ioHandle.rootDirectoryOffset

end DirectorySource

/-- The number that the body file has for an identifier, from its difference to
the identifier of the root directory: `info_handle_file_entry_value_with_name_fprint`. -/
def inodeNumber (difference : Nat) : Nat :=
  if difference = 0 then 2 else difference / 32 + 3

/-- The identifiers of the file entries of a directory name one entry each, also
beside the root directory. -/
structure NamesOneEntryEach (fs : FileSystem) (root : Directory) (image : List UInt8)
    (directory : Directory) : Prop where
  distinct : (directory.fileEntries.map (·.identifier)).Nodup
  notRoot : ∀ entry ∈ directory.fileEntries, entry.identifier ≠ rootIdentifier fs.ioHandle
  lookup : ∀ entry ∈ directory.fileEntries, ∀ fileEntry,
    GetsFileEntryByIdentifier fs root image entry.identifier (.ok fileEntry) → ¬ fileEntry.IsRoot
  inode : ∀ entry ∈ directory.fileEntries,
    inodeNumber (toUint64 ((entry.identifier : Int) - rootIdentifier fs.ioHandle)) ≠ 2

/-! ### The files of an exFAT directory -/

section Exfat

variable {data : List UInt8} {entry : DirectoryEntry} {s s' : DirectoryReadState} {offset : Int}

theorem entryType_of_readData {format : FileSystemFormat}
    (h : readData data format = .ok (some entry)) : entry.entryType = entryTypeOf data format := by
  unfold readData at h
  cases htype : entryTypeOf data format with
  | terminator =>
    rw [htype] at h
    cases h
  | exfatVolumeLabel =>
    rw [htype] at h
    obtain ⟨label, hlabel, hentry⟩ := map_eq_ok_iff.mp h
    injection hentry with hentry
    unfold readExfatVolumeLabel at hlabel
    split at hlabel
    · cases hlabel
    · injection hlabel with hlabel
      rw [← hentry, ← hlabel]
  | _ =>
    rw [htype] at h
    injection h with h
    injection h with h
    subst h
    rfl

/-- A change of a file entry that keeps its identifier keeps all of them. -/
theorem identifiers_modifyFileEntry (s : DirectoryReadState) (index : Nat)
    {change : DirectoryEntry → DirectoryEntry}
    (hchange : ∀ entry, (change entry).identifier = entry.identifier) :
    (s.modifyFileEntry index change).directory.fileEntries.map (·.identifier) =
      s.directory.fileEntries.map (·.identifier) := by
  have hmap (files : List DirectoryEntry) (index : Nat) :
      (files.modify index change).map (·.identifier) = files.map (·.identifier) := by
    induction files generalizing index with
    | nil => rw [List.modify_nil]
    | cons file files ih =>
      cases index with
      | zero => rw [List.modify_zero_cons, List.map_cons, List.map_cons, hchange]
      | succ index => rw [List.modify_succ_cons, List.map_cons, List.map_cons, ih]
  exact hmap _ index

/-- An entry that is neither a short name nor a file entry adds no file. -/
theorem identifiers_processEntry (hshort : entry.entryType ≠ .shortName)
    (hfile : entry.entryType ≠ .exfatFileEntry) (h : s.processEntry entry offset = .ok s') :
    s'.directory.fileEntries.map (·.identifier) =
      s.directory.fileEntries.map (·.identifier) := by
  unfold processEntry at h
  split at h
  · rw [(setSpecialEntry_listing (Or.inl h)).1]
  split at h
  · rw [(setSpecialEntry_listing (Or.inr (Or.inl h))).1]
  cases htype : entry.entryType with
  | shortName => exact absurd htype hshort
  | exfatFileEntry => exact absurd htype hfile
  | vfatLongName =>
    rw [htype] at h
    have hdirectory : s'.directory = s.directory := addVfatLongName_directory h
    rw [hdirectory]
  | exfatDataStream =>
    rw [htype] at h
    dsimp only [addExfatDataStream] at h
    split at h
    · cases h
    · split at h
      · cases h
      · injection h with h
        rw [← h]
        exact identifiers_modifyFileEntry s _ fun _ => rfl
  | exfatFileEntryName =>
    rw [htype] at h
    dsimp only [addExfatFileEntryName] at h
    split at h
    · cases h
    · injection h with h
      rw [← h]
      exact identifiers_modifyFileEntry s _ fun _ => rfl
  | exfatVolumeLabel =>
    rw [htype] at h
    rw [(setSpecialEntry_listing (Or.inr (Or.inr h))).1]
  | _ =>
    rw [htype] at h
    injection h with h
    rw [h]

theorem identifiers_processEntryByRange (hshort : entry.entryType ≠ .shortName)
    (h : s.processEntryByRange entry offset = .ok s') :
    s'.directory.fileEntries.map (·.identifier) =
      s.directory.fileEntries.map (·.identifier) := by
  unfold processEntryByRange at h
  dsimp only at h
  split at h
  · next htype => exact absurd htype hshort
  · have hdirectory : s'.directory = s.directory := addVfatLongName_directory h
    rw [hdirectory]
  · injection h with h
    rw [h]

theorem entryTypeOf_exfat (data : List UInt8) :
    entryTypeOf data .exfat ≠ .shortName ∧ entryTypeOf data .exfat ≠ .unallocated := by
  simp only [entryTypeOf, if_true]
  split <;> exact ⟨DirectoryEntryType.noConfusion, DirectoryEntryType.noConfusion⟩

/-- Reading an exFAT directory lists its file entries. -/
theorem isLister_processEntry_exfat :
    IsLister processEntry .exfat fun slot => entryTypeOf slot.2 .exfat = .exfatFileEntry := by
  constructor
  · intro slot entry s s' _ hentry h htype
    have hread : entry = readExfatFileEntry slot.2 := by
      rw [readData, htype] at hentry
      injection hentry with hentry
      injection hentry with hentry
      exact hentry.symm
    obtain ⟨s₁, hs₁, _, _, hfiles⟩ := processEntry_fileEntry slot.2 s slot.1
    rw [hread, hs₁] at h
    injection h with h
    rw [← h, hfiles, List.map_append]
    rfl
  · intro slot entry s s' _ hentry _ h hnot
    have htype := entryType_of_readData hentry
    exact identifiers_processEntry (by rw [htype]; exact (entryTypeOf_exfat _).1)
      (by rw [htype]; exact hnot) h
  · intro slot entry hentry _
    rw [entryType_of_readData hentry]
    exact (entryTypeOf_exfat _).2

end Exfat

/-! ### The identifiers of a directory -/

namespace DirectorySource

section Identifiers

variable {fs : FileSystem} {image : List UInt8} {source : DirectorySource} {slots : List Slot}
  {directory : Directory} {bootRecord : BootRecord}

/-- A directory has one content. -/
theorem Content.unique {slots' : List Slot} (h : source.Content fs image slots)
    (h' : source.Content fs image slots') : slots = slots' := by
  cases source with
  | chain c =>
    obtain ⟨last, visited, hlast, hcontent⟩ := h
    obtain ⟨last', visited', hlast', hcontent'⟩ := h'
    rw [hlast] at hlast'
    injection hlast' with hlast'
    subst hlast'
    exact (hcontent.unique hcontent').2
  | rootRange size =>
    obtain ⟨_, hcontent⟩ := h
    obtain ⟨_, hcontent'⟩ := h'
    exact (hcontent.unique hcontent').1

theorem lists_chain {format : FileSystemFormat} (hformat : format ≠ .exfat) {c : Nat} :
    (chain c).Lists format = IsListed := by
  funext slot
  exact if_neg hformat

theorem lists_rootRange {format : FileSystemFormat} (hformat : format ≠ .exfat) {size : Nat} :
    (rootRange size).Lists format = IsListedByRange := by
  funext slot
  exact propext (and_iff_right hformat)

/-- The function lists the files of the slots. -/
theorem isLister (source : DirectorySource) (format : FileSystemFormat) :
    IsLister source.process format (source.Lists format) := by
  cases source with
  | chain c =>
    by_cases hformat : format = .exfat
    · subst hformat
      exact isLister_processEntry_exfat
    · rw [lists_chain hformat]
      exact isLister_processEntry hformat
  | rootRange size =>
    by_cases hformat : format = .exfat
    · subst hformat
      constructor
      · rintro _ _ _ _ _ _ _ ⟨hne, _⟩
        exact absurd rfl hne
      · intro slot entry s s' _ hentry _ h _
        rw [identifiers_processEntryByRange ?_ h]
        rw [entryType_of_readData hentry]
        exact (entryTypeOf_exfat _).1
      · rintro _ _ _ ⟨hne, _⟩
        exact absurd rfl hne
    · rw [lists_rootRange hformat]
      exact isLister_processEntryByRange hformat

/-- Where the slots of a directory are: at distinct 64-bit offsets. -/
structure SlotsInVolume (slots : List Slot) : Prop where
  bounds : ∀ slot ∈ slots, 0 ≤ slot.1 ∧ slot.1 ≤ int64Max
  nodup : (slots.map Prod.fst).Nodup

/-- The slots of a range end at the end of the range. -/
theorem slotsInVolume_of_range {format : FileSystemFormat} {offset : Int} {size : Nat}
    {terminated : Bool} (h0 : 0 ≤ offset) (hend : offset + size + directoryEntrySize ≤ int64Max)
    (h : RangeContent image format (numberOfEntriesBetween offset (toOff64 (offset + size))) offset
      slots terminated) : SlotsInVolume slots := by
  simp only [directoryEntrySize] at hend
  rw [toOff64_of_nonneg (by omega) (by omega)] at h
  refine ⟨fun slot hslot => ?_, h.sorted.imp fun hlt => ne_of_lt hlt⟩
  obtain ⟨_, _, i, hi, hoffset⟩ := h.mem hslot
  simp only [numberOfEntriesBetween, directoryEntrySize] at hi hoffset
  omega

/-- What a directory that is read was read from: slots of the image, each with
an entry, at distinct 64-bit offsets, whose entries were treated in order. -/
structure IsReadFrom (fs : FileSystem) (image : List UInt8) (source : DirectorySource)
    (slots : List Slot) (directory : Directory) : Prop where
  content : source.Content fs image slots
  inVolume : SlotsInVolume slots
  entries : ∀ slot ∈ slots, readAt image slot.1 directoryEntrySize = some slot.2 ∧
    IsEntry fs.ioHandle.fileSystemFormat slot
  processed : ∃ s, processEntries source.process (entriesOf fs.ioHandle.fileSystemFormat slots)
    .start = .ok s ∧ s.directory = directory

theorem isReadFrom_of_read (hgeometry : BlockGeometry fs.ioHandle)
    (hrange : ∀ size, source = .rootRange size → 0 ≤ fs.ioHandle.rootDirectoryOffset ∧
      fs.ioHandle.rootDirectoryOffset + size + directoryEntrySize ≤ int64Max)
    (hread : source.read fs image = .ok directory) :
    ∃ slots, source.IsReadFrom fs image slots directory := by
  cases source with
  | chain c =>
    obtain ⟨last, visited, slots, hlast, hvolume, hcontent, hmay, hs⟩ :=
      (readDirectory_eq_ok_iff_content hgeometry).mp hread
    refine ⟨slots, ⟨last, visited, hlast, hcontent⟩, ⟨fun slot hslot => ?_, ?_⟩, ?_, hs⟩
    · exact hcontent.offset_bounds hgeometry hvolume.2 hmay hslot
    · exact hcontent.offsets_nodup hgeometry hmay.covers (by simpa using hmay.nodup)
    · intro slot hslot
      obtain ⟨hdata, hisEntry, _⟩ := hcontent.mem hslot
      exact ⟨hdata, hisEntry⟩
  | rootRange size =>
    obtain ⟨slots, terminated, hcontent, hs⟩ := readDirectoryByRange_eq_ok_iff_content.mp hread
    obtain ⟨h0, hend⟩ := hrange size rfl
    refine ⟨slots, ⟨terminated, hcontent⟩, slotsInVolume_of_range h0 hend hcontent, ?_, hs⟩
    intro slot hslot
    obtain ⟨hdata, hisEntry, _⟩ := hcontent.mem hslot
    exact ⟨hdata, hisEntry⟩

theorem IsReadFrom.length_and_isEntry (h : source.IsReadFrom fs image slots directory) :
    ∀ slot ∈ slots, slot.2.length = directoryEntrySize ∧
      IsEntry fs.ioHandle.fileSystemFormat slot := fun slot hslot =>
  ⟨length_of_readAt (h.entries slot hslot).1, (h.entries slot hslot).2⟩

/-- A directory that is read lists the files of its slots. -/
theorem content_of_read (hgeometry : BlockGeometry fs.ioHandle)
    (hrange : ∀ size, source = .rootRange size → 0 ≤ fs.ioHandle.rootDirectoryOffset ∧
      fs.ioHandle.rootDirectoryOffset + size + directoryEntrySize ≤ int64Max)
    (hread : source.read fs image = .ok directory) :
    ∃ slots, source.Content fs image slots ∧ SlotsInVolume slots ∧
      directory.fileEntries.map (·.identifier) =
        (slots.filter (source.Lists fs.ioHandle.fileSystemFormat)).map
          fun slot => toUint64 slot.1 := by
  obtain ⟨slots, h⟩ := isReadFrom_of_read hgeometry hrange hread
  obtain ⟨s, hs, rfl⟩ := h.processed
  exact ⟨slots, h.content, h.inVolume,
    (source.isLister fs.ioHandle.fileSystemFormat).run h.length_and_isEntry hs⟩

/-- A file has the identifier of the root directory exactly if its slot is at the
offset of the root directory. -/
theorem rootIdentifier_mem_iff (hgeometry : BlockGeometry fs.ioHandle)
    (hroot : 0 ≤ fs.ioHandle.rootDirectoryOffset ∧ fs.ioHandle.rootDirectoryOffset ≤ int64Max)
    (hrange : ∀ size, source = .rootRange size → 0 ≤ fs.ioHandle.rootDirectoryOffset ∧
      fs.ioHandle.rootDirectoryOffset + size + directoryEntrySize ≤ int64Max)
    (hread : source.read fs image = .ok directory) :
    rootIdentifier fs.ioHandle ∈ directory.fileEntries.map (·.identifier) ↔
      source.ListsRootOffset fs image := by
  obtain ⟨slots, hcontent, hslots, hidentifiers⟩ := content_of_read hgeometry hrange hread
  rw [hidentifiers, List.mem_map]
  constructor
  · rintro ⟨slot, hslot, heq⟩
    obtain ⟨hmem, hlists⟩ := List.mem_filter.mp hslot
    obtain ⟨h0, hmax⟩ := hslots.bounds slot hmem
    refine ⟨slots, hcontent, slot, hmem, by simpa using hlists, ?_⟩
    rw [← toUint64_offset h0 hmax, heq, rootIdentifier, toUint64_offset hroot.1 hroot.2]
  · rintro ⟨slots', hcontent', slot, hmem, hlists, heq⟩
    rw [← hcontent.unique hcontent'] at hmem
    exact ⟨slot, List.mem_filter.mpr ⟨hmem, by simpa using hlists⟩, by rw [heq]; rfl⟩

/-- The identifiers are distinct 64-bit offsets. -/
theorem identifiers_of_read (hgeometry : BlockGeometry fs.ioHandle)
    (hrange : ∀ size, source = .rootRange size → 0 ≤ fs.ioHandle.rootDirectoryOffset ∧
      fs.ioHandle.rootDirectoryOffset + size + directoryEntrySize ≤ int64Max)
    (hread : source.read fs image = .ok directory) :
    (directory.fileEntries.map (·.identifier)).Nodup ∧
      ∀ entry ∈ directory.fileEntries, entry.identifier ≤ int64Max := by
  obtain ⟨slots, _, hslots, hidentifiers⟩ := content_of_read hgeometry hrange hread
  rw [hidentifiers]
  constructor
  · have hnodup : ((slots.filter (source.Lists fs.ioHandle.fileSystemFormat)).map
        Prod.fst).Nodup := hslots.nodup.sublist (List.filter_sublist.map _)
    have hcast : ((slots.filter (source.Lists fs.ioHandle.fileSystemFormat)).map
        fun slot => toUint64 slot.1).map (fun identifier : Nat => (identifier : Int)) =
        (slots.filter (source.Lists fs.ioHandle.fileSystemFormat)).map Prod.fst := by
      rw [List.map_map]
      apply List.map_congr_left
      intro slot hslot
      obtain ⟨h0, hmax⟩ := hslots.bounds slot (List.mem_of_mem_filter hslot)
      exact toUint64_offset h0 hmax
    rw [← hcast] at hnodup
    exact hnodup.of_map
  · intro entry hentry
    have hmem := List.mem_map_of_mem (f := fun entry : DirectoryEntry => entry.identifier) hentry
    rw [hidentifiers] at hmem
    obtain ⟨slot, hslot, heq⟩ := List.mem_map.mp hmem
    obtain ⟨h0, hmax⟩ := hslots.bounds slot (List.mem_of_mem_filter hslot)
    have hcast := toUint64_offset h0 hmax
    rw [heq] at hcast
    omega

end Identifiers

end DirectorySource

/-! ### Directories of an opened volume -/

theorem inodeNumber_eq_two_iff (difference : Nat) : inodeNumber difference = 2 ↔ difference = 0 := by
  unfold inodeNumber
  split <;> omega

/-- The difference of two small identifiers is zero only if they are the same. -/
theorem toUint64_sub_eq_zero_iff {x y : Nat} (hx : x ≤ int64Max) (hy : y ≤ int64Max) :
    toUint64 ((x : Int) - y) = 0 ↔ x = y := by
  have hmax : int64Max = 9223372036854775807 := rfl
  unfold toUint64
  omega

section Opened

variable {env : OpenEnvironment} {bootRecord : BootRecord} {fs : FileSystem}
  {root directory : Directory} {source : DirectorySource}

/-- The geometry of an opened volume, and where its root directory is. -/
theorem Volume.Opens.bounds (h : Volume.Opens env bootRecord fs root) :
    BlockGeometry fs.ioHandle ∧
      (0 ≤ fs.ioHandle.rootDirectoryOffset ∧ fs.ioHandle.rootDirectoryOffset ≤ int64Max) ∧
      fs.ioHandle.rootDirectoryOffset + bootRecord.rootDirectorySize + directoryEntrySize ≤
        int64Max := by
  have hmax : (int64Max : Int) = 9223372036854775807 := rfl
  obtain ⟨data, hdata⟩ := h.isAccepted
  obtain ⟨size, hio⟩ := h.ioHandle
  obtain ⟨⟨hroot0, hroot⟩, ⟨hfirst0, hfirst⟩, hsize⟩ := BootRecord.readData_offsets hdata
  have hoffset : 0 ≤ fs.ioHandle.rootDirectoryOffset ∧
      fs.ioHandle.rootDirectoryOffset ≤ 2 ^ 60 := by
    rw [hio]
    unfold BootRecord.ioHandle
    dsimp only
    split
    · exact ⟨hroot0, hroot⟩
    · exact ⟨hfirst0, hfirst⟩
  refine ⟨?_, ⟨hoffset.1, by omega⟩, by simp only [directoryEntrySize]; omega⟩
  rw [hio]
  exact (BootRecord.readData_isAccepted hdata).blockGeometry size

/-- The identifiers of the entries of a directory name one entry each exactly if
the directory has no file in the slot at the offset of the root directory. -/
theorem namesOneEntryEach_iff {accessFlags : BitVec 32} {volume opened : Volume}
    (hopen : Volume.openFileIOHandle env accessFlags volume = (.ok (), opened))
    (hfs : opened.fileSystem = some ⟨some fs, some root⟩)
    (hrecord : BootRecord.readFileIOHandle env.file.data 0 = .ok bootRecord)
    (hsource : source.IsOf bootRecord) (hread : source.read fs env.file.data = .ok directory) :
    NamesOneEntryEach fs root env.file.data directory ↔
      ¬ source.ListsRootOffset fs env.file.data := by
  obtain ⟨bootRecord', fs', root', hopens, _, hfs'⟩ := Volume.openFileIOHandle_ok hopen
  obtain ⟨rfl⟩ : fs = fs' := by
    rw [hfs] at hfs'
    injection hfs' with hfs'
    injection hfs' with hfs' _
    injection hfs'
  obtain ⟨rfl⟩ : bootRecord = bootRecord' := Except.ok.inj (hrecord.symm.trans hopens.record)
  obtain ⟨hgeometry, hroot, hend⟩ := hopens.bounds
  have hrange (size : Nat) (heq : source = .rootRange size) :
      0 ≤ fs.ioHandle.rootDirectoryOffset ∧
        fs.ioHandle.rootDirectoryOffset + size + directoryEntrySize ≤ int64Max := by
    subst heq
    have hsize : size = bootRecord.rootDirectorySize := hsource
    exact ⟨hroot.1, hsize ▸ hend⟩
  have hmem := DirectorySource.rootIdentifier_mem_iff hgeometry hroot hrange hread
  obtain ⟨hnodup, hbounds⟩ := DirectorySource.identifiers_of_read hgeometry hrange hread
  have hrootId : (rootIdentifier fs.ioHandle : Int) = fs.ioHandle.rootDirectoryOffset :=
    toUint64_offset hroot.1 hroot.2
  rw [← hmem]
  constructor
  · intro hnames hroot
    obtain ⟨entry, hentry, heq⟩ := List.mem_map.mp hroot
    exact hnames.notRoot entry hentry heq
  · intro hnot
    have hne (entry : DirectoryEntry) (hentry : entry ∈ directory.fileEntries) :
        entry.identifier ≠ rootIdentifier fs.ioHandle := by
      intro heq
      exact hnot (List.mem_map.mpr ⟨entry, hentry, heq⟩)
    refine ⟨hnodup, hne, ?_, ?_⟩
    · intro entry hentry fileEntry hget hisRoot
      have heq := hget.isRoot_iff.mp hisRoot
      rw [toOff64_of_nonneg (Int.natCast_nonneg _)
        (by exact_mod_cast hbounds entry hentry), ← hrootId] at heq
      exact hne entry hentry (by exact_mod_cast heq)
    · intro entry hentry hinode
      have hzero := (inodeNumber_eq_two_iff _).mp hinode
      exact hne entry hentry
        ((toUint64_sub_eq_zero_iff (hbounds entry hentry) (by omega)).mp hzero)

/-- The boot record of a FAT-12 volume with a root directory of 16 entries in its
third sector, and one file in the first of them. -/
def rootFileImage : List UInt8 :=
  List.replicate 11 0 ++ [0, 2, 1, 1, 0, 1, 16, 0, 8, 0, 0xf8, 1, 0] ++ List.replicate 486 0 ++
    [0x55, 0xaa] ++ List.replicate 512 0 ++
    (0x41 :: List.replicate 10 0x20) ++ (0x20 :: List.replicate 500 0)

def rootFileEnvironment : OpenEnvironment where
  file :=
    { data := rootFileImage
      isOpen := .ok true
      openResult := .error .openFailed
      getSize := .ok 1536 }
  createFileSystem := .ok ()
  freshMemory _ := 0

def rootFileBootRecord : BootRecord where
  fileSystemFormat := .fat12
  bytesPerSector := 512
  clusterBlockSize := 512
  totalNumberOfClusters := 6
  volumeSerialNumber := 0
  allocationTableOffset := 512
  allocationTableSize := 512
  rootDirectoryCluster := 0
  rootDirectoryOffset := 1024
  rootDirectorySize := 512
  firstClusterOffset := 1536

theorem readFileIOHandle_rootFile :
    BootRecord.readFileIOHandle rootFileEnvironment.file.data 0 = .ok rootFileBootRecord := by
  decide +kernel

theorem open_rootFile :
    ∃ opened fs root,
      Volume.openFileIOHandle rootFileEnvironment accessFlagRead .create = (.ok (), opened) ∧
      opened.fileSystem = some ⟨some fs, some root⟩ ∧
      (DirectorySource.rootRange 512).read fs rootFileEnvironment.file.data = .ok root ∧
      fs.ioHandle.rootDirectoryOffset = 1024 ∧
      root.fileEntries.map (·.identifier) = [1024] := by
  have hresult : (Volume.openFileIOHandle rootFileEnvironment accessFlagRead .create).1 =
      .ok () := by decide +kernel
  have hopen : Volume.openFileIOHandle rootFileEnvironment accessFlagRead .create = (.ok (),
      (Volume.openFileIOHandle rootFileEnvironment accessFlagRead .create).2) := by
    rw [← hresult]
  have hlisted : (Volume.openFileIOHandle rootFileEnvironment accessFlagRead
      .create).2.fileSystem.map (fun fileSystem => fileSystem.rootDirectory.map
        fun root => root.fileEntries.map (·.identifier)) = some (some [1024]) := by
    decide +kernel
  obtain ⟨bootRecord, fs, root, hopens, _, hfs⟩ := Volume.openFileIOHandle_ok hopen
  obtain ⟨rfl⟩ : rootFileBootRecord = bootRecord :=
    Except.ok.inj (readFileIOHandle_rootFile.symm.trans hopens.record)
  obtain ⟨size, hio⟩ := hopens.ioHandle
  have hoffset : fs.ioHandle.rootDirectoryOffset = 1024 := by
    rw [hio]
    simp [BootRecord.ioHandle, rootFileBootRecord]
  refine ⟨_, fs, root, hopen, hfs, ?_, hoffset, ?_⟩
  · have hroot := hopens.rootDirectory
    rw [DirectorySource.read, hoffset]
    exact hroot
  · rw [hfs] at hlisted
    simpa only [Option.map_some, Option.some.injEq] using hlisted

/-- The root directory of this volume. -/
theorem namesOneEntryEach_iff_rootFile :
    ∃ opened fs root,
      Volume.openFileIOHandle rootFileEnvironment accessFlagRead .create = (.ok (), opened) ∧
      opened.fileSystem = some ⟨some fs, some root⟩ ∧
      (NamesOneEntryEach fs root rootFileEnvironment.file.data root ↔
        ¬ (DirectorySource.rootRange 512).ListsRootOffset fs rootFileEnvironment.file.data) := by
  obtain ⟨opened, fs, root, hopen, hfs, hread, _⟩ := open_rootFile
  exact ⟨opened, fs, root, hopen, hfs,
    namesOneEntryEach_iff hopen hfs readFileIOHandle_rootFile rfl hread⟩

/-- The file of this volume has the identifier of the root directory: looking it
up gives the root directory, and it has the same number in the body file. -/
theorem rootFile_has_rootIdentifier :
    ∃ opened fs root,
      Volume.openFileIOHandle rootFileEnvironment accessFlagRead .create = (.ok (), opened) ∧
      opened.fileSystem = some ⟨some fs, some root⟩ ∧
      (DirectorySource.rootRange 512).read fs rootFileEnvironment.file.data = .ok root ∧
      ∃ entry ∈ root.fileEntries, entry.identifier = rootIdentifier fs.ioHandle ∧
        (∃ fileEntry, GetsFileEntryByIdentifier fs root rootFileEnvironment.file.data
          entry.identifier (.ok fileEntry) ∧ fileEntry.IsRoot) ∧
        inodeNumber (toUint64 ((entry.identifier : Int) - rootIdentifier fs.ioHandle)) = 2 := by
  obtain ⟨opened, fs, root, hopen, hfs, hread, hoffset, hlisted⟩ := open_rootFile
  obtain ⟨entry, hentry, hidentifier⟩ : ∃ entry ∈ root.fileEntries, entry.identifier = 1024 := by
    have hmem : 1024 ∈ root.fileEntries.map (·.identifier) := by
      rw [hlisted]
      exact List.mem_cons_self
    exact List.mem_map.mp hmem
  have hroot : rootIdentifier fs.ioHandle = 1024 := by
    rw [rootIdentifier, hoffset]
    rfl
  refine ⟨opened, fs, root, hopen, hfs, hread, entry, hentry, hidentifier.trans hroot.symm, ?_, ?_⟩
  · refine ⟨_, .root ?_, rfl⟩
    rw [hidentifier, hoffset]
    rfl
  · rw [hidentifier, hroot]
    rfl

end Opened

end FsFat
