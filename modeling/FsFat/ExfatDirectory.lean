import FsFat.DirectoryLayout
import FsFat.LongName

/-!
Directories of exFAT: files as sets of entries, and what the entries array has
for each set. A set is one file entry, one data stream and the segments of the
name. Each set gives one entry, whatever the segments are; the name of the entry
is that of the file exactly when it has at most nine segments and none of them
starts as the name of the directory itself or of its parent.
-/

namespace FsFat

open Bytes DirectoryEntry DirectoryReadState

/-! ### Files and the slots that store them -/

/-- A file of an exFAT directory. -/
structure ExfatFile where
  fileAttributeFlags : UInt16
  creationTime : UInt16
  creationDate : UInt16
  modificationTime : UInt16
  modificationDate : UInt16
  accessTime : UInt16
  accessDate : UInt16
  creationTimeFraction : UInt8
  modificationTimeFraction : UInt8
  creationTimeUtcOffset : UInt8
  modificationTimeUtcOffset : UInt8
  accessTimeUtcOffset : UInt8
  dataStartCluster : UInt32
  dataSize : UInt64
  validDataSize : UInt64
  name : List UInt16
  name_pos : 0 < name.length
  name_le : name.length ≤ 255
  name_ne_zero : ∀ unit ∈ name, unit ≠ 0

/-- The number of units in a segment of a name. -/
abbrev exfatSegmentSize : Nat := 15

def ExfatFile.segments (file : ExfatFile) : List (List UInt16) :=
  segmentsOf exfatSegmentSize file.name

/-- The bytes of a segment, padded with zeros. -/
def exfatSegmentBytes (segment : List UInt16) : List UInt8 :=
  nameBytes segment ++ List.replicate (2 * (exfatSegmentSize - segment.length)) 0

/-- The bytes of the file entry. -/
structure EncodesFileEntry (file : ExfatFile) (data : List UInt8) : Prop where
  length : data.length = directoryEntrySize
  entryType : byteAt data 0 = 0x85
  fileAttributeFlags : uint16At data 4 = file.fileAttributeFlags.toNat
  creationTime : uint16At data 8 = file.creationTime.toNat
  creationDate : uint16At data 10 = file.creationDate.toNat
  modificationTime : uint16At data 12 = file.modificationTime.toNat
  modificationDate : uint16At data 14 = file.modificationDate.toNat
  accessTime : uint16At data 16 = file.accessTime.toNat
  accessDate : uint16At data 18 = file.accessDate.toNat
  creationTimeFraction : byteAt data 20 = file.creationTimeFraction.toNat
  modificationTimeFraction : byteAt data 21 = file.modificationTimeFraction.toNat
  creationTimeUtcOffset : byteAt data 22 = file.creationTimeUtcOffset.toNat
  modificationTimeUtcOffset : byteAt data 23 = file.modificationTimeUtcOffset.toNat
  accessTimeUtcOffset : byteAt data 24 = file.accessTimeUtcOffset.toNat

/-- The bytes of the data stream. -/
structure EncodesDataStream (file : ExfatFile) (data : List UInt8) : Prop where
  length : data.length = directoryEntrySize
  entryType : byteAt data 0 = 0xc0
  nameLength : byteAt data 3 = file.name.length
  validDataSize : uint64At data 8 = file.validDataSize.toNat
  dataStartCluster : uint32At data 20 = file.dataStartCluster.toNat
  dataSize : uint64At data 24 = file.dataSize.toNat

/-- The bytes of a segment of the name. -/
structure EncodesSegment (segment : List UInt16) (data : List UInt8) : Prop where
  length : data.length = directoryEntrySize
  entryType : byteAt data 0 = 0xc1
  name : data.drop 2 = exfatSegmentBytes segment

/-- The set of entries of a file: consecutive slots with the file entry, the
data stream and the segments of the name. -/
structure ExfatFileSet where
  file : ExfatFile
  fileEntry : Slot
  dataStream : Slot
  names : List Slot
  encodesFileEntry : EncodesFileEntry file fileEntry.2
  encodesDataStream : EncodesDataStream file dataStream.2
  encodesName : List.Forall₂ EncodesSegment file.segments (names.map Prod.snd)

namespace ExfatFileSet

def slots (set : ExfatFileSet) : List Slot := set.fileEntry :: set.dataStream :: set.names

/-- The entry of the file has the attributes, the times, the start cluster and
the sizes of the file, the offset of the file entry as its identifier, and the
name with an end of string. -/
structure Listed (set : ExfatFileSet) (entry : DirectoryEntry) : Prop where
  entryType : entry.entryType = .exfatFileEntry
  identifier : entry.identifier = toUint64 set.fileEntry.1
  fileAttributeFlags : entry.fileAttributeFlags = set.file.fileAttributeFlags.toNat
  creationTime : entry.creationTime = set.file.creationTime.toNat
  creationDate : entry.creationDate = set.file.creationDate.toNat
  modificationTime : entry.modificationTime = set.file.modificationTime.toNat
  modificationDate : entry.modificationDate = set.file.modificationDate.toNat
  accessTime : entry.accessTime = set.file.accessTime.toNat
  accessDate : entry.accessDate = set.file.accessDate.toNat
  creationTimeFraction : entry.creationTimeFraction = set.file.creationTimeFraction.toNat
  modificationTimeFraction :
    entry.modificationTimeFraction = set.file.modificationTimeFraction.toNat
  creationTimeUtcOffset : entry.creationTimeUtcOffset = set.file.creationTimeUtcOffset.toNat
  modificationTimeUtcOffset :
    entry.modificationTimeUtcOffset = set.file.modificationTimeUtcOffset.toNat
  accessTimeUtcOffset : entry.accessTimeUtcOffset = set.file.accessTimeUtcOffset.toNat
  dataStartCluster : entry.dataStartCluster = set.file.dataStartCluster.toNat
  dataSize : entry.dataSize = set.file.dataSize.toNat
  validDataSize : entry.validDataSize = set.file.validDataSize.toNat
  name : ∃ named, entry.getName = .ok named ∧
    named.name = some (nameBytes set.file.name ++ [0, 0]) ∧ named.isUnicode = true

/-- The name entries of the listed entry: the segments that do not start as the
name of the directory itself or of its parent. -/
def listedNames (set : ExfatFileSet) : List (List UInt8) :=
  (set.names.map fun slot => (readExfatFileEntryName slot.2).nameData).filter (¬ HasDotName ·)

/-- The entry that the entries array has for a set. -/
def listedEntry (set : ExfatFileSet) : DirectoryEntry :=
  { readExfatFileEntry set.fileEntry.2 with
    identifier := toUint64 set.fileEntry.1
    dataStartCluster := uint32At set.dataStream.2 20
    dataSize := uint64At set.dataStream.2 24
    validDataSize := uint64At set.dataStream.2 8
    nameEntries := some set.listedNames }

/-- The file can be listed with its name. -/
def HasListableName (file : ExfatFile) : Prop :=
  file.name.length ≤ 135 ∧ ∀ segment ∈ file.segments, ¬ HasDotName (exfatSegmentBytes segment)

end ExfatFileSet

/-- Consecutive slots with one file entry, one data stream and name entries,
whatever else is in them. -/
structure ExfatEntrySet where
  fileEntry : Slot
  dataStream : Slot
  names : List Slot
  isFileEntry : byteAt fileEntry.2 0 = 0x85
  isDataStream : byteAt dataStream.2 0 = 0xc0
  areNames : ∀ slot ∈ names, byteAt slot.2 0 = 0xc1

namespace ExfatEntrySet

def slots (set : ExfatEntrySet) : List Slot := set.fileEntry :: set.dataStream :: set.names

/-- The name entries of the listed entry, without those that start as one of the
two special names. -/
def listedNames (set : ExfatEntrySet) : List (List UInt8) :=
  (set.names.map fun slot => (readExfatFileEntryName slot.2).nameData).filter (¬ HasDotName ·)

/-- The entry that the entries array has for a set. -/
def listedEntry (set : ExfatEntrySet) : DirectoryEntry :=
  { readExfatFileEntry set.fileEntry.2 with
    identifier := toUint64 set.fileEntry.1
    dataStartCluster := uint32At set.dataStream.2 20
    dataSize := uint64At set.dataStream.2 24
    validDataSize := uint64At set.dataStream.2 8
    nameEntries := some set.listedNames }

end ExfatEntrySet

/-! ### The entries of a set -/

section Read

variable {data : List UInt8}

theorem readData_exfat_fileEntry (h : byteAt data 0 = 0x85) :
    readData data .exfat = .ok (some (readExfatFileEntry data)) := by
  have htype : entryTypeOf data .exfat = .exfatFileEntry := by simp [entryTypeOf, h]
  simp only [readData, htype]

theorem readData_exfat_dataStream (h : byteAt data 0 = 0xc0) :
    readData data .exfat = .ok (some (readExfatDataStream data)) := by
  have htype : entryTypeOf data .exfat = .exfatDataStream := by simp [entryTypeOf, h]
  simp only [readData, htype]

theorem readData_exfat_fileEntryName (h : byteAt data 0 = 0xc1) :
    readData data .exfat = .ok (some (readExfatFileEntryName data)) := by
  have htype : entryTypeOf data .exfat = .exfatFileEntryName := by simp [entryTypeOf, h]
  simp only [readData, htype]

theorem readData_exfat_terminator (h : byteAt data 0 = 0) : readData data .exfat = .ok none := by
  have htype : entryTypeOf data .exfat = .terminator := by simp [entryTypeOf, h]
  simp only [readData, htype]

end Read

theorem EncodesSegment.nameData {segment : List UInt16} {data : List UInt8}
    (h : EncodesSegment segment data) :
    (readExfatFileEntryName data).nameData = exfatSegmentBytes segment ++ [0, 0] := by
  have hlength : (exfatSegmentBytes segment).length = 30 := by
    rw [← h.name, List.length_drop, h.length]
    rfl
  have htake : (exfatSegmentBytes segment).take 30 = exfatSegmentBytes segment :=
    List.take_of_length_le (by omega)
  simp only [readExfatFileEntryName, nameDataOf, field, h.name, htake, hlength]
  rfl

/-- Name entries are read as such. -/
theorem entriesOf_names {names : List Slot} (h : ∀ slot ∈ names, byteAt slot.2 0 = 0xc1) :
    entriesOf .exfat names = names.map fun slot => (slot.1, readExfatFileEntryName slot.2) := by
  induction names with
  | nil => rfl
  | cons slot names ih =>
    obtain ⟨hslot, hrest⟩ := List.forall_mem_cons.mp h
    have hentries := ih hrest
    have hread := readData_exfat_fileEntryName hslot
    unfold entriesOf at hentries ⊢
    rw [List.filterMap_cons, entryOf, hread, hentries]
    rfl

/-- The name entries of a set are those of its segments. -/
theorem nameData_of_encodes {segments : List (List UInt16)} {names : List Slot}
    (h : List.Forall₂ EncodesSegment segments (names.map Prod.snd)) :
    (∀ slot ∈ names, byteAt slot.2 0 = 0xc1) ∧
      names.map (fun slot => (readExfatFileEntryName slot.2).nameData) =
        segments.map fun segment => exfatSegmentBytes segment ++ [0, 0] := by
  induction names generalizing segments with
  | nil =>
    rw [List.map_nil, List.forall₂_nil_right_iff] at h
    rw [h]
    exact ⟨fun slot hslot => absurd hslot List.not_mem_nil, rfl⟩
  | cons slot names ih =>
    rw [List.map_cons, List.forall₂_cons_right_iff] at h
    obtain ⟨segment, rest, hsegment, hrest, rfl⟩ := h
    obtain ⟨htypes, hdata⟩ := ih hrest
    rw [List.map_cons, List.map_cons, hdata, hsegment.nameData]
    exact ⟨List.forall_mem_cons.mpr ⟨hsegment.entryType, htypes⟩, rfl⟩

private theorem modify_last {α : Type} (xs : List α) (x : α) (f : α → α) :
    (xs ++ [x]).modify xs.length f = xs ++ [f x] := by
  induction xs with
  | nil => rfl
  | cons y xs ih => simp [ih]

/-- A change of the last file entry. -/
theorem modifyFileEntry_last {s : DirectoryReadState} {files : List DirectoryEntry}
    {file : DirectoryEntry} (h : s.directory.fileEntries = files ++ [file])
    (change : DirectoryEntry → DirectoryEntry) :
    (s.modifyFileEntry files.length change).directory.fileEntries = files ++ [change file] := by
  simp only [modifyFileEntry, h, modify_last]

/-- A file entry becomes the current one. -/
theorem processEntry_fileEntry (data : List UInt8) (s : DirectoryReadState) (offset : Int) :
    ∃ s', s.processEntry (readExfatFileEntry data) offset = .ok s' ∧
      s'.currentFileEntry = some s.directory.fileEntries.length ∧ s'.dataStreamEntry = none ∧
      s'.directory.fileEntries = s.directory.fileEntries ++ [{ readExfatFileEntry data with
        identifier := toUint64 offset, nameEntries := some [] }] := by
  have hnot : ¬ HasDotName (readExfatFileEntry data).nameData := not_hasDotName_create
  rw [processEntry_of_not_dotName hnot]
  exact ⟨_, rfl, rfl, rfl, rfl⟩

/-- A data stream gives the current file entry its start cluster and its sizes. -/
theorem processEntry_dataStream (data : List UInt8) {s : DirectoryReadState} (offset : Int)
    {files : List DirectoryEntry} {file : DirectoryEntry}
    (hcurrent : s.currentFileEntry = some files.length)
    (hfiles : s.directory.fileEntries = files ++ [file]) (hnone : s.dataStreamEntry = none) :
    ∃ s', s.processEntry (readExfatDataStream data) offset = .ok s' ∧
      s'.currentFileEntry = some files.length ∧
      s'.directory.fileEntries = files ++ [{ file with
        dataStartCluster := uint32At data 20
        dataSize := uint64At data 24
        validDataSize := uint64At data 8 }] := by
  have hnot : ¬ HasDotName (readExfatDataStream data).nameData := not_hasDotName_create
  have hstep := processEntry_of_not_dotName hnot s offset
  have htype : (readExfatDataStream data).entryType = .exfatDataStream := rfl
  simp only [htype, addExfatDataStream, hnone, hcurrent, Option.isSome_none, Bool.false_eq_true,
    if_false] at hstep
  exact ⟨_, hstep, hcurrent, modifyFileEntry_last hfiles _⟩

/-- The segments of a name go to the current file entry, but for those that
start as the name of the directory itself or of its parent. -/
theorem processEntries_names (names : List Slot) {s s' : DirectoryReadState}
    {files : List DirectoryEntry} {file : DirectoryEntry} {segments : List (List UInt8)}
    (hcurrent : s.currentFileEntry = some files.length)
    (hfiles : s.directory.fileEntries = files ++ [file])
    (hsegments : file.nameEntries = some segments)
    (hs : processEntries processEntry
      (names.map fun slot => (slot.1, readExfatFileEntryName slot.2)) s = .ok s') :
    s'.directory.fileEntries = files ++ [{ file with
      nameEntries := some (segments ++
        (names.map fun slot => (readExfatFileEntryName slot.2).nameData).filter
          (¬ HasDotName ·)) }] := by
  induction names generalizing s file segments with
  | nil =>
    injection hs with hs
    rw [← hs, hfiles, List.map_nil, List.filter_nil, List.append_nil, ← hsegments]
  | cons slot names ih =>
    rw [List.map_cons, processEntries] at hs
    split at hs
    · cases hs
    · next s₁ hstep =>
      rw [List.map_cons]
      by_cases hdot : HasDotName (readExfatFileEntryName slot.2).nameData
      · obtain ⟨hfiles', _, hcurrent', _⟩ := processEntry_of_dotName hdot hstep
        rw [List.filter_cons_of_neg (by simpa using hdot)]
        exact ih (s := s₁.appendEntry slot.1) (hcurrent'.trans hcurrent) (hfiles'.trans hfiles)
          hsegments hs
      · rw [processEntry_of_not_dotName hdot] at hstep
        have htype : (readExfatFileEntryName slot.2).entryType = .exfatFileEntryName := rfl
        simp only [htype, addExfatFileEntryName, hcurrent] at hstep
        injection hstep with hstep
        have hfiles' : s₁.directory.fileEntries = files ++ [{ file with
            nameEntries := some (segments ++ [(readExfatFileEntryName slot.2).nameData]) }] := by
          rw [← hstep, modifyFileEntry_last hfiles, hsegments]
          rfl
        have hcurrent' : s₁.currentFileEntry = some files.length := by
          rw [← hstep]
          exact hcurrent
        rw [List.filter_cons_of_pos (by simpa using hdot)]
        rw [ih (s := s₁.appendEntry slot.1) hcurrent' hfiles' rfl hs, List.append_assoc]
        rfl

/-- They do so without an error when no segment starts so. -/
theorem processEntries_names_ok (names : List Slot) {s : DirectoryReadState} {index : Nat}
    (hcurrent : s.currentFileEntry = some index)
    (h : ∀ slot ∈ names, ¬ HasDotName (readExfatFileEntryName slot.2).nameData) :
    ∃ s', processEntries processEntry
      (names.map fun slot => (slot.1, readExfatFileEntryName slot.2)) s = .ok s' := by
  induction names generalizing s with
  | nil => exact ⟨s, rfl⟩
  | cons slot names ih =>
    have hstep := processEntry_of_not_dotName (h slot List.mem_cons_self) s slot.1
    have htype : (readExfatFileEntryName slot.2).entryType = .exfatFileEntryName := rfl
    simp only [htype, addExfatFileEntryName, hcurrent] at hstep
    rw [List.map_cons, processEntries, hstep]
    exact ih hcurrent fun t ht => h t (List.mem_cons_of_mem _ ht)

namespace ExfatEntrySet

variable (set : ExfatEntrySet)

/-- The entries of a set are its slots, read by their types. -/
theorem entriesOf_slots :
    entriesOf .exfat set.slots =
      (set.fileEntry.1, readExfatFileEntry set.fileEntry.2) ::
        (set.dataStream.1, readExfatDataStream set.dataStream.2) ::
          set.names.map fun slot => (slot.1, readExfatFileEntryName slot.2) := by
  have hfile := readData_exfat_fileEntry set.isFileEntry
  have hstream := readData_exfat_dataStream set.isDataStream
  rw [← entriesOf_names set.areNames]
  unfold entriesOf
  rw [slots, List.filterMap_cons, entryOf, hfile, List.filterMap_cons, entryOf, hstream]
  rfl

/-- The state after the file entry and the data stream of a set. -/
theorem processEntries_start (s : DirectoryReadState) :
    ∃ s' file, (∀ names, processEntries processEntry
        ((set.fileEntry.1, readExfatFileEntry set.fileEntry.2) ::
          (set.dataStream.1, readExfatDataStream set.dataStream.2) :: names) s =
            processEntries processEntry names s') ∧
      s'.currentFileEntry = some s.directory.fileEntries.length ∧
      s'.directory.fileEntries = s.directory.fileEntries ++ [file] ∧
      file.nameEntries = some [] ∧
      set.listedEntry = { file with nameEntries := some set.listedNames } := by
  obtain ⟨s₁, hfile, hcurrent, hnone, hfiles⟩ :=
    processEntry_fileEntry set.fileEntry.2 s set.fileEntry.1
  obtain ⟨s₂, hstream, hcurrent', hfiles'⟩ :=
    processEntry_dataStream (s := s₁.appendEntry set.fileEntry.1) set.dataStream.2
      set.dataStream.1 hcurrent hfiles hnone
  refine ⟨s₂.appendEntry set.dataStream.1, _, fun names => ?_, hcurrent', hfiles', rfl, rfl⟩
  simp only [processEntries, hfile, hstream]

/-- A set adds one entry to the file entries. -/
theorem processEntries_slots {s s' : DirectoryReadState}
    (hs : processEntries processEntry (entriesOf .exfat set.slots) s = .ok s') :
    s'.directory.fileEntries = s.directory.fileEntries ++ [set.listedEntry] := by
  obtain ⟨s₁, file, hstart, hcurrent, hfiles, hnone, hlisted⟩ := set.processEntries_start s
  rw [entriesOf_slots, hstart] at hs
  rw [processEntries_names set.names hcurrent hfiles hnone hs, hlisted, List.nil_append]
  rfl

/-- Sets one after the other give their listed entries, in this order. -/
theorem processEntries_sets {sets : List ExfatEntrySet} {s s' : DirectoryReadState}
    (hs : processEntries processEntry (entriesOf .exfat (sets.flatMap slots)) s = .ok s') :
    s'.directory.fileEntries = s.directory.fileEntries ++ sets.map listedEntry := by
  induction sets generalizing s with
  | nil =>
    injection hs with hs
    simp [hs]
  | cons set sets ih =>
    rw [List.flatMap_cons, entriesOf_append, processEntries_append] at hs
    split at hs
    · cases hs
    · next s₁ hset =>
      rw [ih hs, set.processEntries_slots hset, List.append_assoc]
      rfl

end ExfatEntrySet

namespace ExfatFileSet

variable (set : ExfatFileSet)

/-- The set without what its slots encode. -/
def toEntrySet : ExfatEntrySet where
  fileEntry := set.fileEntry
  dataStream := set.dataStream
  names := set.names
  isFileEntry := set.encodesFileEntry.entryType
  isDataStream := set.encodesDataStream.entryType
  areNames := (nameData_of_encodes set.encodesName).1

theorem toEntrySet_slots : set.toEntrySet.slots = set.slots := rfl

/-- No segment of a set starts as one of the two names. -/
theorem forall_not_hasDotName_iff :
    (∀ slot ∈ set.names, ¬ HasDotName (readExfatFileEntryName slot.2).nameData) ↔
      ∀ segment ∈ set.file.segments, ¬ HasDotName (exfatSegmentBytes segment) := by
  have hdata := (nameData_of_encodes set.encodesName).2
  have hlength : ∀ segment ∈ set.file.segments, 11 ≤ (exfatSegmentBytes segment).length := by
    intro segment hsegment
    have hle := length_le_of_mem_firstSegments hsegment
    simp only [exfatSegmentBytes, exfatSegmentSize, List.length_append, length_nameBytes,
      List.length_replicate] at hle ⊢
    omega
  have hall : (∀ data ∈ set.names.map fun slot => (readExfatFileEntryName slot.2).nameData,
      ¬ HasDotName data) ↔
      ∀ segment ∈ set.file.segments, ¬ HasDotName (exfatSegmentBytes segment) := by
    rw [hdata, List.forall_mem_map]
    exact forall₂_congr fun segment hsegment => not_congr (hasDotName_append (hlength _ hsegment) _)
  rw [List.forall_mem_map] at hall
  exact hall

theorem processEntries_slots_ok (s : DirectoryReadState)
    (h : ∀ segment ∈ set.file.segments, ¬ HasDotName (exfatSegmentBytes segment)) :
    ∃ s', processEntries processEntry (entriesOf .exfat set.slots) s = .ok s' := by
  obtain ⟨s₁, file, hstart, hcurrent, _⟩ := set.toEntrySet.processEntries_start s
  rw [← toEntrySet_slots, set.toEntrySet.entriesOf_slots, hstart]
  exact processEntries_names_ok set.names hcurrent (set.forall_not_hasDotName_iff.mpr h)

/-! ### The name of the listed entry -/

theorem pads_exfat : Pads exfatSegmentSize fun segment =>
    List.replicate (2 * (exfatSegmentSize - segment.length)) (0 : UInt8) where
  full := fun segment h => by rw [h, Nat.sub_self]; rfl
  zero := fun segment h => by
    obtain ⟨count, hcount⟩ : ∃ count, 2 * (exfatSegmentSize - segment.length) = count + 2 :=
      ⟨2 * (exfatSegmentSize - segment.length) - 2, by omega⟩
    exact ⟨List.replicate count 0, by rw [hcount]; rfl⟩

theorem length_exfatSegmentBytes {segment : List UInt16} (h : segment.length ≤ exfatSegmentSize) :
    (exfatSegmentBytes segment).length = 30 := by
  simp only [exfatSegmentBytes, exfatSegmentSize, List.length_append, length_nameBytes,
    List.length_replicate] at h ⊢
  omega

theorem length_names : set.names.length = numberOfSegments exfatSegmentSize set.file.name := by
  have hlength := set.encodesName.length_eq
  rw [List.length_map] at hlength
  rw [← hlength]
  exact length_segmentsOf _ _

/-- The segments that are put together, when none is left out. -/
theorem listedNames_of_not_dotName
    (h : ∀ segment ∈ set.file.segments, ¬ HasDotName (exfatSegmentBytes segment)) :
    set.listedNames.map (·.take 30) = set.file.segments.map exfatSegmentBytes := by
  have hkept : ∀ data ∈ set.names.map fun slot => (readExfatFileEntryName slot.2).nameData,
      ¬ HasDotName data := by
    rw [List.forall_mem_map]
    exact set.forall_not_hasDotName_iff.mpr h
  unfold listedNames
  rw [List.filter_eq_self.mpr fun data hdata => by simpa using hkept data hdata,
    (nameData_of_encodes set.encodesName).2, List.map_map]
  apply List.map_congr_left
  intro segment hsegment
  have hlength := length_exfatSegmentBytes (length_le_of_mem_firstSegments hsegment)
  exact List.take_left' hlength

/-- The name of the listed entry is the name of the file exactly when it has at
most nine segments and none of them is left out. -/
theorem listedEntry_getName_iff :
    (∃ named, set.listedEntry.getName = .ok named ∧
      named.name = some (nameBytes set.file.name ++ [0, 0]) ∧ named.isUnicode = true) ↔
      HasListableName set.file := by
  have hspec := numberOfSegments_spec (show 0 < exfatSegmentSize by decide) set.file.name_pos
  obtain ⟨hpos, hlower, hupper⟩ := hspec
  have hnames := set.length_names
  have hcall : set.listedEntry.getName =
      set.listedEntry.setNameFromSegments 9 (set.listedNames.map (·.take 30)) := rfl
  rw [hcall]
  simp only [exfatSegmentSize] at hlower hupper hpos hnames
  constructor
  · rintro ⟨named, hnamed, hname, _⟩
    obtain ⟨_, ⟨_, hmaximum⟩, rfl⟩ := setNameFromSegments_eq_ok_iff.mp hnamed
    rw [List.length_map] at hmaximum
    have hsizes : ∀ segment ∈ set.listedNames.map (·.take 30), segment.length ≤ 30 := by
      rw [List.forall_mem_map]
      intro data _
      exact List.length_take_le 30 data
    have hle := length_upToZeroUnit_flatten_le hsizes
    simp only [Option.some.injEq] at hname
    rw [hname, List.length_append, length_nameBytes, List.length_map] at hle
    simp only [List.length_cons, List.length_nil] at hle
    by_cases hdot : ∀ segment ∈ set.file.segments, ¬ HasDotName (exfatSegmentBytes segment)
    · refine ⟨?_, hdot⟩
      have hall := congrArg List.length (set.listedNames_of_not_dotName hdot)
      rw [List.length_map, List.length_map, ExfatFile.segments, length_segmentsOf] at hall
      simp only [exfatSegmentSize] at hall
      omega
    · -- a segment is missing, and the name is too short
      rw [← set.forall_not_hasDotName_iff] at hdot
      have hless : set.listedNames.length < set.names.length := by
        have hcount : (set.names.map fun slot =>
            (readExfatFileEntryName slot.2).nameData).length = set.names.length :=
          List.length_map _
        unfold listedNames
        rw [← hcount, List.length_filter_lt_length_iff_exists]
        push Not at hdot
        obtain ⟨slot, hslot, hdot⟩ := hdot
        exact ⟨_, List.mem_map_of_mem hslot, by simpa using hdot⟩
      omega
  · rintro ⟨hle, hdot⟩
    have hlisted := set.listedNames_of_not_dotName hdot
    have hlength : (set.listedNames.map (·.take 30)).length =
        numberOfSegments exfatSegmentSize set.file.name := by
      rw [hlisted, List.length_map]
      exact length_segmentsOf _ _
    have hname := upToZeroUnit_segments pads_exfat (Or.inl hlower) hupper set.file.name_ne_zero
    have hflatten : upToZeroUnit ((set.listedNames.map (·.take 30)).flatten ++ [0, 0]) =
        nameBytes set.file.name ++ [0, 0] := by
      rw [hlisted, ← List.flatMap_def]
      exact hname
    refine ⟨_, setNameFromSegments_eq_ok_iff.mpr ⟨rfl, ?_, rfl⟩, ?_, rfl⟩
    · rw [hlength]
      simp only [exfatSegmentSize]
      omega
    · rw [hflatten]

/-- The listed entry has everything of the file, but for the name in general. -/
theorem listed_listedEntry_iff : set.Listed set.listedEntry ↔ HasListableName set.file := by
  rw [← listedEntry_getName_iff]
  constructor
  · intro h
    exact h.name
  · intro h
    have hfile := set.encodesFileEntry
    have hstream := set.encodesDataStream
    exact {
      entryType := rfl
      identifier := rfl
      fileAttributeFlags := hfile.fileAttributeFlags
      creationTime := hfile.creationTime
      creationDate := hfile.creationDate
      modificationTime := hfile.modificationTime
      modificationDate := hfile.modificationDate
      accessTime := hfile.accessTime
      accessDate := hfile.accessDate
      creationTimeFraction := hfile.creationTimeFraction
      modificationTimeFraction := hfile.modificationTimeFraction
      creationTimeUtcOffset := hfile.creationTimeUtcOffset
      modificationTimeUtcOffset := hfile.modificationTimeUtcOffset
      accessTimeUtcOffset := hfile.accessTimeUtcOffset
      dataStartCluster := hstream.dataStartCluster
      dataSize := hstream.dataSize
      validDataSize := hstream.validDataSize
      name := h }

end ExfatFileSet

/-! ### Directories -/

section Directories

variable {sets : List ExfatFileSet}

/-- Sets one after the other give their listed entries, in this order. -/
theorem processEntries_sets {s s' : DirectoryReadState}
    (hs : processEntries processEntry (entriesOf .exfat (sets.flatMap ExfatFileSet.slots)) s =
      .ok s') :
    s'.directory.fileEntries = s.directory.fileEntries ++ sets.map ExfatFileSet.listedEntry := by
  have hslots : sets.flatMap ExfatFileSet.slots =
      (sets.map ExfatFileSet.toEntrySet).flatMap ExfatEntrySet.slots := by
    rw [List.flatMap_map]
    rfl
  rw [hslots] at hs
  rw [ExfatEntrySet.processEntries_sets hs, List.map_map]
  rfl

theorem processEntries_sets_ok (s : DirectoryReadState)
    (h : ∀ set ∈ sets, ∀ segment ∈ set.file.segments, ¬ HasDotName (exfatSegmentBytes segment)) :
    ∃ s', processEntries processEntry (entriesOf .exfat (sets.flatMap ExfatFileSet.slots)) s =
      .ok s' := by
  induction sets generalizing s with
  | nil => exact ⟨s, rfl⟩
  | cons set sets ih =>
    obtain ⟨s₁, hset⟩ := set.processEntries_slots_ok s (h set List.mem_cons_self)
    rw [List.flatMap_cons, entriesOf_append, processEntries_append, hset]
    exact ih s₁ fun t ht => h t (List.mem_cons_of_mem _ ht)

/-- Every slot of a set has an entry. -/
theorem ExfatFileSet.isEntry (set : ExfatFileSet) : ∀ slot ∈ set.slots, IsEntry .exfat slot := by
  intro slot hslot
  rcases List.mem_cons.mp hslot with rfl | hslot
  · exact ⟨_, readData_exfat_fileEntry set.encodesFileEntry.entryType⟩
  rcases List.mem_cons.mp hslot with rfl | hslot
  · exact ⟨_, readData_exfat_dataStream set.encodesDataStream.entryType⟩
  have hname := set.encodesName.flip
  obtain ⟨segment, hsegment⟩ : ∃ segment, EncodesSegment segment slot.2 := by
    obtain ⟨i, hi, heq⟩ := List.getElem_of_mem (List.mem_map_of_mem (f := Prod.snd) hslot)
    have hget := hname.get hi (by rw [← hname.length_eq]; exact hi)
    exact ⟨_, by simpa [Function.flip_def, heq] using hget⟩
  exact ⟨_, readData_exfat_fileEntryName hsegment.entryType⟩

/-- The slots of sets with a zero entry behind them. -/
theorem endsDirectory_sets {terminator : Slot} (hterminator : terminator.2 = DirectoryEntry.empty)
    (rest : List Slot) :
    EndsDirectory .exfat (sets.flatMap ExfatFileSet.slots) (terminator :: rest) where
  entries slot hslot := by
    obtain ⟨set, _, hset⟩ := List.mem_flatMap.mp hslot
    exact set.isEntry slot hset
  ends slot hslot := by
    injection hslot with hslot
    rw [← hslot]
    apply readData_exfat_terminator
    rw [hterminator]
    rfl

/-- A directory that stores files as sets of entries is read, and has one entry
for each file with everything of the file, exactly when the block tree covers
the clusters up to the zero entry and every name can be listed. -/
theorem listsExfatFiles_iff {fs : FileSystem} {image : List UInt8} {c : Nat} {chain : List Nat}
    {terminator : Slot} {rest : List Slot} (hformat : fs.ioHandle.fileSystemFormat = .exfat)
    (hchain : IsChain fs.allocationTable 0xfffffff0 c chain) (hnodup : chain.Nodup)
    (hwhole : WholeSlots fs.ioHandle image chain)
    (hslots : chainSlots fs.ioHandle image chain =
      sets.flatMap ExfatFileSet.slots ++ terminator :: rest)
    (hterminator : terminator.2 = DirectoryEntry.empty) :
    (∃ directory, readDirectory fs image c = .ok directory ∧
        List.Forall₂ ExfatFileSet.Listed sets directory.fileEntries) ↔
      (∀ j < chain.length,
          j * slotsPerCluster fs.ioHandle ≤ (sets.flatMap ExfatFileSet.slots).length →
          CoversCluster fs.ioHandle (chain.getD j 0)) ∧
        ∀ set ∈ sets, ExfatFileSet.HasListableName set.file := by
  have hlast : lastClusterNumber fs.ioHandle.fileSystemFormat = .ok 0xfffffff0 := by
    rw [hformat]
    rfl
  have hne : chain ≠ [] := by
    rintro rfl
    simp [chainSlots] at hslots
  have hends : EndsDirectory .exfat (sets.flatMap ExfatFileSet.slots) (terminator :: rest) :=
    endsDirectory_sets hterminator rest
  rw [← hformat] at hends
  have hread := readDirectory_eq_ok_iff hlast hchain hnodup hwhole (hwhole.volumeSize_pos hne) hslots
    hends
  rw [hformat] at hread
  have hlisted : List.Forall₂ ExfatFileSet.Listed sets (sets.map ExfatFileSet.listedEntry) ↔
      ∀ set ∈ sets, ExfatFileSet.HasListableName set.file := by
    rw [List.forall₂_map_right_iff, List.forall₂_same]
    exact forall₂_congr fun set _ => set.listed_listedEntry_iff
  constructor
  · rintro ⟨directory, hdirectory, hall⟩
    obtain ⟨hcovers, s, hs, rfl⟩ := (hread directory).mp hdirectory
    rw [processEntries_sets hs] at hall
    exact ⟨hcovers, hlisted.mp hall⟩
  · rintro ⟨hcovers, hnames⟩
    obtain ⟨s, hs⟩ := processEntries_sets_ok .start fun set hset => (hnames set hset).2
    refine ⟨s.directory, (hread _).mpr ⟨hcovers, s, hs, rfl⟩, ?_⟩
    rw [processEntries_sets hs]
    exact hlisted.mpr hnames

end Directories

/-- An exFAT file system with a directory in cluster 2. -/
def exfatFileSystem : FileSystem where
  ioHandle :=
    { volumeSize := 1024
      fileSystemFormat := .exfat
      bytesPerSector := 512
      clusterBlockSize := 512
      totalNumberOfClusters := 1
      rootDirectoryOffset := 512
      firstClusterOffset := 512 }
  allocationTable := ⟨[0xfffffff8, 0xffffffff, 0xffffffff], by decide, by decide, by decide⟩
  reversedAllocationTable := none

/-- A file of which the name starts as the short name of the directory itself:
the units are 0x202e and five times 0x2020. -/
def dotNamedSet : ExfatFileSet where
  file :=
    { fileAttributeFlags := 0x20
      creationTime := 0
      creationDate := 0x5821
      modificationTime := 0
      modificationDate := 0x5821
      accessTime := 0
      accessDate := 0x5821
      creationTimeFraction := 0
      modificationTimeFraction := 0
      creationTimeUtcOffset := 0x80
      modificationTimeUtcOffset := 0x80
      accessTimeUtcOffset := 0x80
      dataStartCluster := 0
      dataSize := 0
      validDataSize := 0
      name := [0x202e, 0x2020, 0x2020, 0x2020, 0x2020, 0x2020]
      name_pos := dotUnits_pos
      name_le := dotUnits_le
      name_ne_zero := dotUnits_ne_zero }
  fileEntry := (512, [0x85, 2, 0, 0, 0x20, 0, 0, 0, 0, 0, 0x21, 0x58, 0, 0, 0x21, 0x58, 0, 0, 0x21,
    0x58, 0, 0, 0x80, 0x80, 0x80, 0, 0, 0, 0, 0, 0, 0])
  dataStream := (544, 0xc0 :: 1 :: 0 :: 6 :: List.replicate 28 0)
  names := [(576, 0xc1 :: 0 :: 0x2e :: 0x20 :: (List.replicate 10 0x20 ++ List.replicate 18 0))]
  encodesFileEntry := by apply EncodesFileEntry.mk <;> decide
  encodesDataStream := by apply EncodesDataStream.mk <;> decide
  encodesName := by
    apply List.Forall₂.cons (a := [0x202e, 0x2020, 0x2020, 0x2020, 0x2020, 0x2020]) _ .nil
    constructor <;> decide

/-- The volume with the directory of this one file. -/
def dotNamedImage : List UInt8 :=
  List.replicate 512 0 ++ dotNamedSet.slots.flatMap Prod.snd ++ List.replicate 416 0

theorem isChain_exfatFileSystem :
    IsChain exfatFileSystem.allocationTable 0xfffffff0 2 [2] :=
  .linked (by decide) (by decide) (show _ = Except.ok 0xffffffff from rfl) (.ended (by decide))

theorem wholeSlots_dotNamedImage : WholeSlots exfatFileSystem.ioHandle dotNamedImage [2] where
  volume := ⟨by decide, by decide, by decide, by decide⟩
  dvd := by decide
  image_le := by decide +kernel

theorem chainSlots_dotNamedImage :
    chainSlots exfatFileSystem.ioHandle dotNamedImage [2] =
      [dotNamedSet].flatMap ExfatFileSet.slots ++
        (608, DirectoryEntry.empty) :: slotsAt dotNamedImage 640 12 := by
  decide +kernel

/-- The directory of the one file. -/
theorem listsExfatFiles_iff_dotNamed :
    (∃ directory, readDirectory exfatFileSystem dotNamedImage 2 = .ok directory ∧
        List.Forall₂ ExfatFileSet.Listed [dotNamedSet] directory.fileEntries) ↔
      (∀ j < [2].length, j * slotsPerCluster exfatFileSystem.ioHandle ≤
          ([dotNamedSet].flatMap ExfatFileSet.slots).length →
          CoversCluster exfatFileSystem.ioHandle ([2].getD j 0)) ∧
        ∀ set ∈ [dotNamedSet], ExfatFileSet.HasListableName set.file :=
  listsExfatFiles_iff rfl isChain_exfatFileSystem (by decide) wholeSlots_dotNamedImage
    chainSlots_dotNamedImage rfl

/-- The segment of the name is taken for the entry of the directory itself. The
directory is read, and the entry of the file is left without a name. -/
theorem readDirectory_dotNamed :
    IsChain exfatFileSystem.allocationTable 0xfffffff0 2 [2] ∧
      WholeSlots exfatFileSystem.ioHandle dotNamedImage [2] ∧
      chainSlots exfatFileSystem.ioHandle dotNamedImage [2] =
        [dotNamedSet].flatMap ExfatFileSet.slots ++
          (608, DirectoryEntry.empty) :: slotsAt dotNamedImage 640 12 ∧
      ¬ ∃ directory, readDirectory exfatFileSystem dotNamedImage 2 = .ok directory ∧
        List.Forall₂ ExfatFileSet.Listed [dotNamedSet] directory.fileEntries := by
  refine ⟨isChain_exfatFileSystem, wholeSlots_dotNamedImage, chainSlots_dotNamedImage, ?_⟩
  rintro ⟨directory, hread, hlisted⟩
  have hnames : (readDirectory exfatFileSystem dotNamedImage 2).map
      (fun directory => directory.fileEntries.map getName) =
        .ok [.error .numberOfNameEntriesOutOfBounds] := by decide +kernel
  rw [hread] at hnames
  injection hnames with hnames
  obtain ⟨entry, rest, hentry, _, hentries⟩ := List.forall₂_cons_left_iff.mp hlisted
  obtain ⟨named, hnamed, _⟩ := hentry.name
  simp only [hentries, List.map_cons, hnamed] at hnames
  cases hnames

end FsFat
