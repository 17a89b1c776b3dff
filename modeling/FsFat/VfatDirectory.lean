import FsFat.DirectoryLayout
import FsFat.LongName

/-!
Directories of FAT-12, FAT-16 and FAT-32: files with long names, and what the
entries array has for each of them. The segments of a long name are stored in
slots before that of the short name, the last segment first. The name of the
entry is the long name exactly when no segment starts as the name of the
directory itself or of its parent.
-/

namespace FsFat

open Bytes DirectoryEntry DirectoryReadState

/-! ### Long names and the slots that store them -/

/-- A long name. -/
structure VfatName where
  units : List UInt16
  units_pos : 0 < units.length
  units_le : units.length ≤ 255
  units_ne_zero : ∀ unit ∈ units, unit ≠ 0

/-- The number of units in a segment of a long name. -/
abbrev vfatSegmentSize : Nat := 13

/-- The segments of a long name, in the order of the name. -/
def VfatName.segments (name : VfatName) : List (List UInt16) :=
  segmentsOf vfatSegmentSize name.units

/-- A segment that is not full is ended by a zero unit and padded with 0xffff. -/
def vfatPadding (segment : List UInt16) : List UInt8 :=
  if segment.length < vfatSegmentSize then
    0 :: 0 :: List.replicate (2 * (vfatSegmentSize - 1 - segment.length)) 0xff
  else []

def vfatSegmentBytes (segment : List UInt16) : List UInt8 :=
  nameBytes segment ++ vfatPadding segment

/-- Segments in the order in which they are stored, with their sequence numbers. -/
def numberedDown : List (List UInt16) → List (Nat × List UInt16)
  | [] => []
  | segment :: rest => (rest.length + 1, segment) :: numberedDown rest

/-- The first segment that is stored, which is the last one of the name, has a
flag in its sequence number. -/
def flagFirst : List (Nat × List UInt16) → List (Nat × List UInt16)
  | [] => []
  | (number, segment) :: rest => (0x40 ||| number, segment) :: rest

/-- The segments of a long name as they are stored, with their sequence numbers. -/
def VfatName.stored (name : VfatName) : List (Nat × List UInt16) :=
  flagFirst (numberedDown name.segments.reverse)

/-- The bytes of a segment of a long name. -/
structure EncodesLongName (stored : Nat × List UInt16) (data : List UInt8) : Prop where
  length : data.length = directoryEntrySize
  sequenceNumber : byteAt data 0 = stored.1
  attributes : byteAt data 11 = 0x0f
  entryType : byteAt data 12 = 0
  firstCluster : byteAt data 26 = 0 ∧ byteAt data 27 = 0
  name : field data 1 10 ++ field data 14 12 ++ field data 28 4 = vfatSegmentBytes stored.2

/-- The bytes of an allocated entry that is not a segment of a long name. -/
structure IsShortEntry (data : List UInt8) : Prop where
  length : data.length = directoryEntrySize
  entryType : entryTypeOf data .fat16 = .shortName

/-- A file: the slots of its long name, if it has one, followed directly by that
of its short name. -/
structure VfatFile where
  longName : Option VfatName
  longSlots : List Slot
  shortSlot : Slot
  encodes : List.Forall₂ EncodesLongName (longName.elim [] VfatName.stored)
    (longSlots.map Prod.snd)
  isShort : IsShortEntry shortSlot.2
  not_label : byteAt shortSlot.2 11 &&& fileAttributeFlagVolumeLabel = 0
  not_dot : ¬ HasDotName shortSlot.2

/-- What the slots of a directory store: deleted entries, the entry of the
directory itself and that of its parent, the volume label, and files. -/
inductive VfatItem where
  | deleted (slot : Slot) (first : byteAt slot.2 0 = 0xe5)
  | self (slot : Slot) (isShort : IsShortEntry slot.2) (name : slot.2.take 11 = selfName)
  | parent (slot : Slot) (isShort : IsShortEntry slot.2) (name : slot.2.take 11 = parentName)
  | label (slot : Slot) (isShort : IsShortEntry slot.2)
      (isLabel : byteAt slot.2 11 &&& fileAttributeFlagVolumeLabel ≠ 0)
      (not_dot : ¬ HasDotName slot.2)
  | file (file : VfatFile)

def VfatFile.slots (file : VfatFile) : List Slot := file.longSlots ++ [file.shortSlot]

namespace VfatItem

def slots : VfatItem → List Slot
  | deleted slot _ => [slot]
  | self slot _ _ => [slot]
  | parent slot _ _ => [slot]
  | label slot _ _ _ => [slot]
  | file content => content.slots

def file? : VfatItem → Option VfatFile
  | file content => some content
  | _ => none

def isSelf : VfatItem → Bool
  | self _ _ _ => true
  | _ => false

def isParent : VfatItem → Bool
  | parent _ _ _ => true
  | _ => false

def isLabel : VfatItem → Bool
  | label _ _ _ _ => true
  | _ => false

theorem eq_file {item : VfatItem} {content : VfatFile} (h : item.file? = some content) :
    item = .file content := by
  cases item with
  | file content' =>
    injection h with h
    rw [h]
  | _ => cases h

end VfatItem

/-- A directory has at most one entry of each special kind. -/
structure WellFormedItems (items : List VfatItem) : Prop where
  self : items.countP VfatItem.isSelf ≤ 1
  parent : items.countP VfatItem.isParent ≤ 1
  label : items.countP VfatItem.isLabel ≤ 1

namespace VfatFile

/-- The entry has the offset of the short name as its identifier, and the long
name with an end of string as its name, if there is a long name. -/
structure Listed (file : VfatFile) (entry : DirectoryEntry) : Prop where
  identifier : entry.identifier = toUint64 file.shortSlot.1
  name : ∀ longName ∈ file.longName, entry.isUnicode = true ∧
    entry.name = some (nameBytes longName.units ++ [0, 0])

/-- No segment of the long name starts as one of the two names. -/
def HasListableName (file : VfatFile) : Prop :=
  ∀ longName ∈ file.longName, ∀ segment ∈ longName.segments,
    ¬ HasDotName (vfatSegmentBytes segment)

end VfatFile

/-! ### The entries of the slots -/

section Read

variable {format : FileSystemFormat} {data : List UInt8}

theorem entryTypeOf_fat (hformat : format ≠ .exfat) (data : List UInt8) :
    entryTypeOf data format = entryTypeOf data .fat16 := by
  simp [entryTypeOf, hformat]

theorem readData_shortName (hformat : format ≠ .exfat) (h : IsShortEntry data) :
    readData data format = .ok (some (readShortName data)) := by
  simp only [readData, entryTypeOf_fat hformat, h.entryType]

theorem readData_deleted (hformat : format ≠ .exfat) (h : byteAt data 0 = 0xe5) :
    readData data format = .ok (some { create with entryType := .unallocated }) := by
  have hne : data ≠ DirectoryEntry.empty := by
    rintro rfl
    exact absurd h (by decide)
  have htype : entryTypeOf data format = .unallocated := by
    simp [entryTypeOf, hformat, hne, h]
  simp only [readData, htype]

/-- The sequence numbers of the segments of a long name. -/
def IsSequenceNumber (number : Nat) : Prop :=
  (0x01 ≤ number ∧ number ≤ 0x13) ∨ (0x41 ≤ number ∧ number ≤ 0x54)

theorem readData_vfatLongName (hformat : format ≠ .exfat) {stored : Nat × List UInt16}
    (hnumber : IsSequenceNumber stored.1) (h : EncodesLongName stored data) :
    readData data format = .ok (some (readVfatLongName data)) := by
  have hfirst : (0x01 ≤ byteAt data 0 ∧ byteAt data 0 ≤ 0x13) ∨
      (0x41 ≤ byteAt data 0 ∧ byteAt data 0 ≤ 0x54) := by
    rw [h.sequenceNumber]
    exact hnumber
  have hne : data ≠ DirectoryEntry.empty := by
    rintro rfl
    exact absurd hfirst (by decide)
  have htype : entryTypeOf data format = .vfatLongName := by
    simp only [entryTypeOf, hformat, hne, hfirst, h.attributes, h.entryType, h.firstCluster,
      if_false, if_true, and_self]
  simp only [readData, htype]

theorem readData_terminator (hformat : format ≠ .exfat) :
    readData DirectoryEntry.empty format = .ok none := by
  have htype : entryTypeOf DirectoryEntry.empty format = .terminator := by
    simp [entryTypeOf, hformat]
  simp only [readData, htype]

end Read

/-- The first bytes of the name data of a short name are those of the entry. -/
theorem take_nameData_readShortName {data : List UInt8} (h : data.length = directoryEntrySize) :
    (readShortName data).nameData.take 11 = data.take 11 := by
  have hlength : (field data 0 8 ++ field data 8 3).length = 11 := by
    simp only [field, directoryEntrySize] at h ⊢
    simp [h]
  have hfields : field data 0 8 ++ field data 8 3 = data.take 11 := by
    simp only [field, List.drop_zero]
    exact (List.take_add ..).symm
  simp only [readShortName, nameDataOf]
  rw [List.take_left' hlength, hfields]

theorem hasDotName_readShortName {data : List UInt8} (h : data.length = directoryEntrySize) :
    HasDotName (readShortName data).nameData ↔ HasDotName data := by
  unfold HasDotName
  rw [take_nameData_readShortName h]

theorem pads_vfat : Pads vfatSegmentSize vfatPadding where
  full := fun segment h => by
    rw [vfatPadding, if_neg (by omega)]
  zero := fun segment h => ⟨_, if_pos h⟩

theorem length_vfatSegmentBytes {segment : List UInt16} (h : segment.length ≤ vfatSegmentSize) :
    (vfatSegmentBytes segment).length = 26 := by
  simp only [vfatSegmentBytes, vfatPadding, vfatSegmentSize, List.length_append,
    length_nameBytes] at h ⊢
  split
  · simp only [List.length_cons, List.length_replicate]
    omega
  · rw [List.length_nil]
    omega

theorem EncodesLongName.nameData {stored : Nat × List UInt16} {data : List UInt8}
    (h : EncodesLongName stored data) :
    (readVfatLongName data).nameData =
      vfatSegmentBytes stored.2 ++ List.replicate (32 - (vfatSegmentBytes stored.2).length) 0 := by
  simp only [readVfatLongName, nameDataOf, h.name]

theorem hasDotName_readVfatLongName {stored : Nat × List UInt16} {data : List UInt8}
    (h : EncodesLongName stored data) (hlength : stored.2.length ≤ vfatSegmentSize) :
    HasDotName (readVfatLongName data).nameData ↔ HasDotName (vfatSegmentBytes stored.2) := by
  rw [h.nameData]
  apply hasDotName_append
  rw [length_vfatSegmentBytes hlength]
  decide

/-! ### Sequence numbers -/

theorem mem_numberedDown {segments : List (List UInt16)} {stored : Nat × List UInt16}
    (h : stored ∈ numberedDown segments) :
    0 < stored.1 ∧ stored.1 ≤ segments.length ∧ stored.2 ∈ segments := by
  induction segments with
  | nil => cases h
  | cons segment rest ih =>
    rcases List.mem_cons.mp h with rfl | h
    · exact ⟨Nat.succ_pos _, le_rfl, List.mem_cons_self⟩
    · obtain ⟨hpos, hle, hmem⟩ := ih h
      exact ⟨hpos, Nat.le_succ_of_le hle, List.mem_cons_of_mem _ hmem⟩

theorem map_snd_numberedDown (segments : List (List UInt16)) :
    (numberedDown segments).map Prod.snd = segments := by
  induction segments with
  | nil => rfl
  | cons segment rest ih => rw [numberedDown, List.map_cons, ih]

theorem map_snd_flagFirst (stored : List (Nat × List UInt16)) :
    (flagFirst stored).map Prod.snd = stored.map Prod.snd := by
  cases stored with
  | nil => rfl
  | cons first rest => rfl

theorem map_snd_stored (name : VfatName) :
    name.stored.map Prod.snd = name.segments.reverse := by
  rw [VfatName.stored, map_snd_flagFirst, map_snd_numberedDown]

/-- The number of the segment and the flag in a sequence number. -/
theorem sequenceNumber_of_flag {number : Nat} (h : number < 32) :
    (0x40 ||| number) &&& 0x40 ≠ 0 ∧ (0x40 ||| number) &&& 0x1f = number ∧
      0x40 ||| number = 0x40 + number := by
  have hall : ∀ k < 32, (0x40 ||| k) &&& 0x40 ≠ 0 ∧ (0x40 ||| k) &&& 0x1f = k ∧
      0x40 ||| k = 0x40 + k := by decide
  exact hall number h

theorem sequenceNumber_of_lt {number : Nat} (h : number < 32) :
    number &&& 0x40 = 0 ∧ number &&& 0x1f = number := by
  have hall : ∀ k < 32, k &&& 0x40 = 0 ∧ k &&& 0x1f = k := by decide
  exact hall number h

theorem VfatName.numberOfSegments_le (name : VfatName) :
    0 < name.segments.length ∧ name.segments.length ≤ 20 ∧
      (name.segments.length - 1) * vfatSegmentSize < name.units.length ∧
      name.units.length ≤ name.segments.length * vfatSegmentSize := by
  obtain ⟨hpos, hlower, hupper⟩ :=
    numberOfSegments_spec (show 0 < vfatSegmentSize by decide) name.units_pos
  have hle := name.units_le
  rw [VfatName.segments, length_segmentsOf]
  refine ⟨hpos, ?_, hlower, hupper⟩
  simp only [vfatSegmentSize] at hlower ⊢
  omega

theorem VfatName.length_segment_le (name : VfatName) {segment : List UInt16}
    (h : segment ∈ name.segments) : segment.length ≤ vfatSegmentSize :=
  length_le_of_mem_firstSegments h

theorem isSequenceNumber_of_mem_stored {name : VfatName} {stored : Nat × List UInt16}
    (h : stored ∈ name.stored) : IsSequenceNumber stored.1 := by
  obtain ⟨hpos, hle, _⟩ := name.numberOfSegments_le
  rw [← List.length_reverse] at hpos hle
  unfold VfatName.stored at h
  cases hsegments : name.segments.reverse with
  | nil =>
    rw [hsegments] at hpos
    exact absurd hpos (Nat.lt_irrefl 0)
  | cons segment rest =>
    rw [hsegments] at h hle
    rw [List.length_cons] at hle
    rcases List.mem_cons.mp h with rfl | h
    · right
      have hflag := (sequenceNumber_of_flag (show rest.length + 1 < 32 by omega)).2.2
      dsimp only
      omega
    · left
      obtain ⟨hpos', hle', _⟩ := mem_numberedDown h
      omega

/-! ### The segments of a long name -/

section LongNames

variable {format : FileSystemFormat}

/-- The slots of segments are read as such. -/
theorem entriesOf_longSlots (hformat : format ≠ .exfat) {stored : List (Nat × List UInt16)}
    {slots : List Slot} (h : List.Forall₂ EncodesLongName stored (slots.map Prod.snd))
    (hnumber : ∀ segment ∈ stored, IsSequenceNumber segment.1) :
    entriesOf format slots = slots.map (fun slot => (slot.1, readVfatLongName slot.2)) ∧
      ∀ slot ∈ slots, IsEntry format slot := by
  induction slots generalizing stored with
  | nil => exact ⟨rfl, fun slot hslot => absurd hslot List.not_mem_nil⟩
  | cons slot slots ih =>
    rw [List.map_cons, List.forall₂_cons_right_iff] at h
    obtain ⟨segment, rest, hsegment, hrest, rfl⟩ := h
    obtain ⟨hentries, hall⟩ := ih hrest fun t ht => hnumber t (List.mem_cons_of_mem _ ht)
    have hread := readData_vfatLongName hformat (hnumber segment List.mem_cons_self) hsegment
    constructor
    · unfold entriesOf at hentries ⊢
      rw [List.filterMap_cons, entryOf, hread, hentries]
      rfl
    · intro t ht
      rcases List.mem_cons.mp ht with rfl | ht
      · exact ⟨_, hread⟩
      · exact hall t ht

/-- What the segments are that the name is put together from. -/
theorem map_take_nameData {stored : List (Nat × List UInt16)} {slots : List Slot}
    (h : List.Forall₂ EncodesLongName stored (slots.map Prod.snd))
    (hsize : ∀ segment ∈ stored, segment.2.length ≤ vfatSegmentSize) :
    (slots.map fun slot => (readVfatLongName slot.2).nameData).map (·.take 26) =
      (stored.map Prod.snd).map vfatSegmentBytes := by
  induction slots generalizing stored with
  | nil =>
    rw [List.map_nil, List.forall₂_nil_right_iff] at h
    rw [h]
    rfl
  | cons slot slots ih =>
    rw [List.map_cons, List.forall₂_cons_right_iff] at h
    obtain ⟨segment, rest, hsegment, hrest, rfl⟩ := h
    have hlength := length_vfatSegmentBytes (hsize segment List.mem_cons_self)
    rw [List.map_cons, List.map_cons, List.map_cons, List.map_cons,
      ih hrest fun t ht => hsize t (List.mem_cons_of_mem _ ht), hsegment.nameData,
      List.take_left' hlength]

/-- The slots whose name data starts as one of the two names are those of the
segments that do. -/
theorem forall_slot_not_dotName_iff {stored : List (Nat × List UInt16)} {slots : List Slot}
    (h : List.Forall₂ EncodesLongName stored (slots.map Prod.snd))
    (hsize : ∀ segment ∈ stored, segment.2.length ≤ vfatSegmentSize) :
    (∀ slot ∈ slots, ¬ HasDotName (readVfatLongName slot.2).nameData) ↔
      ∀ segment ∈ stored, ¬ HasDotName (vfatSegmentBytes segment.2) := by
  induction slots generalizing stored with
  | nil =>
    rw [List.map_nil, List.forall₂_nil_right_iff] at h
    simp [h]
  | cons slot slots ih =>
    rw [List.map_cons, List.forall₂_cons_right_iff] at h
    obtain ⟨segment, rest, hsegment, hrest, rfl⟩ := h
    rw [List.forall_mem_cons, List.forall_mem_cons,
      ih hrest fun t ht => hsize t (List.mem_cons_of_mem _ ht),
      hasDotName_readVfatLongName hsegment (hsize segment List.mem_cons_self)]

/-- A segment is added to the name entries, or is the first of them. -/
theorem addVfatLongName_length {entry : DirectoryEntry} {s s' : DirectoryReadState}
    (hs : s.addVfatLongName entry = .ok s') :
    s'.directory.fileEntries = s.directory.fileEntries ∧
      (s'.nameEntries.getD []).length ≤ (s.nameEntries.getD []).length + 1 := by
  simp only [addVfatLongName] at hs
  split at hs
  · injection hs with hs
    subst hs
    exact ⟨rfl, Nat.le_add_left _ _⟩
  · split at hs
    · cases hs
    · split at hs
      · cases hs
      · next names hnames =>
        injection hs with hs
        subst hs
        exact ⟨rfl, by simp [hnames]⟩

/-- Each segment is added to the name entries at most once, and one that starts
as one of the two names not at all. -/
theorem processEntries_longSlots_length (slots : List Slot) {s s' : DirectoryReadState}
    (hs : processEntries processEntry
      (slots.map fun slot => (slot.1, readVfatLongName slot.2)) s = .ok s') :
    s'.directory.fileEntries = s.directory.fileEntries ∧
      (s'.nameEntries.getD []).length ≤ (s.nameEntries.getD []).length +
        (slots.filter fun slot => ¬ HasDotName (readVfatLongName slot.2).nameData).length := by
  induction slots generalizing s with
  | nil =>
    injection hs with hs
    subst hs
    exact ⟨rfl, Nat.le_add_right _ _⟩
  | cons slot slots ih =>
    rw [List.map_cons, processEntries] at hs
    split at hs
    · cases hs
    · next s₁ hstep =>
      obtain ⟨hfiles, hlength⟩ := ih hs
      rw [fileEntries_appendEntry] at hfiles
      rw [nameEntries_appendEntry] at hlength
      by_cases hdot : HasDotName (readVfatLongName slot.2).nameData
      · obtain ⟨hfiles', hnames, _⟩ := processEntry_of_dotName hdot hstep
        rw [List.filter_cons_of_neg (by simpa using hdot), hfiles, hfiles', ← hnames]
        exact ⟨rfl, hlength⟩
      · rw [processEntry_of_not_dotName hdot] at hstep
        have htype : (readVfatLongName slot.2).entryType = .vfatLongName := rfl
        simp only [htype] at hstep
        obtain ⟨hfiles', hnames⟩ := addVfatLongName_length hstep
        rw [List.filter_cons_of_pos (by simpa using hdot), List.length_cons, hfiles, hfiles']
        exact ⟨rfl, by omega⟩

/-- The segments after the first one that is stored go behind it. -/
theorem processEntries_numberedDown {segments : List (List UInt16)} {slots : List Slot}
    (h : List.Forall₂ EncodesLongName (numberedDown segments) (slots.map Prod.snd))
    (hlength : segments.length < 32)
    (hdot : ∀ slot ∈ slots, ¬ HasDotName (readVfatLongName slot.2).nameData)
    {s : DirectoryReadState} {names : List (List UInt8)} (hnames : s.nameEntries = some names)
    (hlast : s.lastVfatSequenceNumber = segments.length + 1) :
    ∃ s', processEntries processEntry
        (slots.map fun slot => (slot.1, readVfatLongName slot.2)) s = .ok s' ∧
      s'.nameEntries = some (names ++ slots.map fun slot => (readVfatLongName slot.2).nameData) ∧
      s'.directory.withoutEntries = s.directory.withoutEntries := by
  induction slots generalizing segments s names with
  | nil => exact ⟨s, rfl, by simpa using hnames, rfl⟩
  | cons slot slots ih =>
    cases segments with
    | nil => cases h
    | cons segment rest =>
      rw [numberedDown, List.map_cons, List.forall₂_cons] at h
      obtain ⟨hsegment, hrest⟩ := h
      rw [List.length_cons] at hlength hlast
      obtain ⟨hflag, hnumber⟩ := sequenceNumber_of_lt (show rest.length + 1 < 32 by omega)
      have hstep := processEntry_of_not_dotName (hdot slot List.mem_cons_self) s slot.1
      have htype : (readVfatLongName slot.2).entryType = .vfatLongName := rfl
      have hsequence : (readVfatLongName slot.2).vfatSequenceNumber = rest.length + 1 :=
        hsegment.sequenceNumber
      simp only [htype, addVfatLongName, hsequence, hflag, hnumber, hlast, hnames, ne_eq,
        not_true_eq_false, if_false] at hstep
      obtain ⟨s₁, hs₁, hnames₁, hlast₁, hdirectory₁⟩ : ∃ s₁,
          s.processEntry (readVfatLongName slot.2) slot.1 = .ok s₁ ∧
          s₁.nameEntries = some (names ++ [(readVfatLongName slot.2).nameData]) ∧
          s₁.lastVfatSequenceNumber = rest.length + 1 ∧ s₁.directory = s.directory :=
        ⟨_, hstep, rfl, rfl, rfl⟩
      obtain ⟨s', hs', hnames', hdirectory⟩ := ih (s := s₁.appendEntry slot.1) hrest (by omega)
        (fun t ht => hdot t (List.mem_cons_of_mem _ ht)) hnames₁ hlast₁
      rw [withoutEntries_appendEntry, hdirectory₁] at hdirectory
      rw [List.map_cons, processEntries, hs₁]
      exact ⟨s', hs', by rw [hnames', List.append_assoc]; rfl, hdirectory⟩

/-- All segments of a long name go to the name entries, in the order in which
they are stored. -/
theorem processEntries_stored {name : VfatName} {slots : List Slot}
    (h : List.Forall₂ EncodesLongName name.stored (slots.map Prod.snd))
    (hdot : ∀ slot ∈ slots, ¬ HasDotName (readVfatLongName slot.2).nameData)
    (s : DirectoryReadState) :
    ∃ s', processEntries processEntry
        (slots.map fun slot => (slot.1, readVfatLongName slot.2)) s = .ok s' ∧
      s'.nameEntries = some (slots.map fun slot => (readVfatLongName slot.2).nameData) ∧
      s'.directory.withoutEntries = s.directory.withoutEntries := by
  obtain ⟨hpos, hle, _⟩ := name.numberOfSegments_le
  rw [← List.length_reverse] at hpos hle
  unfold VfatName.stored at h
  cases hsegments : name.segments.reverse with
  | nil =>
    rw [hsegments] at hpos
    exact absurd hpos (Nat.lt_irrefl 0)
  | cons segment rest =>
    rw [hsegments, numberedDown, flagFirst, List.forall₂_cons_left_iff] at h
    obtain ⟨data, others, hsegment, hrest, hdatas⟩ := h
    rw [hsegments, List.length_cons] at hle
    cases slots with
    | nil => cases hdatas
    | cons slot slots =>
      rw [List.map_cons] at hdatas
      injection hdatas with hdata hothers
      subst hdata hothers
      obtain ⟨hflag, hnumber, _⟩ := sequenceNumber_of_flag (show rest.length + 1 < 32 by omega)
      have hstep := processEntry_of_not_dotName (hdot slot List.mem_cons_self) s slot.1
      have htype : (readVfatLongName slot.2).entryType = .vfatLongName := rfl
      have hsequence : (readVfatLongName slot.2).vfatSequenceNumber = 0x40 ||| (rest.length + 1) :=
        hsegment.sequenceNumber
      simp only [htype, addVfatLongName, hsequence, hflag, hnumber, ne_eq, not_false_eq_true,
        if_true] at hstep
      obtain ⟨s₁, hs₁, hnames₁, hlast₁, hdirectory₁⟩ : ∃ s₁,
          s.processEntry (readVfatLongName slot.2) slot.1 = .ok s₁ ∧
          s₁.nameEntries = some [(readVfatLongName slot.2).nameData] ∧
          s₁.lastVfatSequenceNumber = rest.length + 1 ∧ s₁.directory = s.directory :=
        ⟨_, hstep, rfl, rfl, rfl⟩
      obtain ⟨s', hs', hnames', hdirectory⟩ :=
        processEntries_numberedDown (s := s₁.appendEntry slot.1) hrest (by omega)
          (fun t ht => hdot t (List.mem_cons_of_mem _ ht)) hnames₁ hlast₁
      rw [withoutEntries_appendEntry, hdirectory₁] at hdirectory
      rw [List.map_cons, processEntries, hs₁]
      exact ⟨s', hs', hnames', hdirectory⟩

end LongNames

/-! ### Files -/

theorem fileEntries_of_withoutEntries {d d' : Directory}
    (h : d.withoutEntries = d'.withoutEntries) : d.fileEntries = d'.fileEntries := by
  have hfiles : d.withoutEntries.fileEntries = d'.withoutEntries.fileEntries := by rw [h]
  exact hfiles

/-- An entry with the offset of its slot. -/
def withIdentifier (entry : DirectoryEntry) (offset : Int) : DirectoryEntry :=
  { entry with identifier := toUint64 offset }

/-- A short name without a long name before it. -/
theorem addShortName_of_none {s : DirectoryReadState} (h : s.nameEntries = none)
    (entry : DirectoryEntry) (offset : Int) :
    s.addShortName entry offset =
      .ok { s.appendFileEntry (withIdentifier entry offset) with nameEntries := none } := by
  simp only [addShortName, h, bind, Except.bind, pure, Except.pure]
  rfl

/-- A short name ends the long name before it. -/
theorem addShortName_of_some {s : DirectoryReadState} {names : List (List UInt8)}
    (h : s.nameEntries = some names) (entry : DirectoryEntry) (offset : Int) :
    s.addShortName entry offset =
      ((withIdentifier entry offset).getNameFromVfatLongFileNameEntries names).map fun named =>
        { s.appendFileEntry named with nameEntries := none } := by
  simp only [addShortName, h, bind, Except.bind, pure, Except.pure]
  rfl

namespace VfatFile

variable {format : FileSystemFormat} (file : VfatFile)

theorem isSequenceNumber :
    ∀ segment ∈ file.longName.elim [] VfatName.stored, IsSequenceNumber segment.1 := by
  intro segment hsegment
  cases hname : file.longName with
  | none =>
    rw [hname] at hsegment
    cases hsegment
  | some name =>
    rw [hname] at hsegment
    exact isSequenceNumber_of_mem_stored hsegment

theorem length_segment_le :
    ∀ segment ∈ file.longName.elim [] VfatName.stored, segment.2.length ≤ vfatSegmentSize := by
  intro segment hsegment
  cases hname : file.longName with
  | none =>
    rw [hname] at hsegment
    cases hsegment
  | some name =>
    rw [hname] at hsegment
    have hmem : segment.2 ∈ name.stored.map Prod.snd := List.mem_map_of_mem hsegment
    rw [map_snd_stored, List.mem_reverse] at hmem
    exact name.length_segment_le hmem

theorem forall_longSlots_iff :
    (∀ slot ∈ file.longSlots, ¬ HasDotName (readVfatLongName slot.2).nameData) ↔
      file.HasListableName := by
  rw [forall_slot_not_dotName_iff file.encodes file.length_segment_le, HasListableName]
  cases hname : file.longName with
  | none => simp
  | some name =>
    have hsegments := List.forall_mem_map (f := Prod.snd) (l := name.stored)
      (P := fun segment => ¬ HasDotName (vfatSegmentBytes segment))
    rw [map_snd_stored] at hsegments
    simp only [Option.elim_some, Option.mem_def, Option.some.injEq, forall_eq']
    rw [← hsegments]
    simp only [List.mem_reverse]

theorem entriesOf_slots (hformat : format ≠ .exfat) :
    entriesOf format file.slots =
      file.longSlots.map (fun slot => (slot.1, readVfatLongName slot.2)) ++
        [(file.shortSlot.1, readShortName file.shortSlot.2)] := by
  have hshort : entriesOf format [file.shortSlot] =
      [(file.shortSlot.1, readShortName file.shortSlot.2)] := by
    unfold entriesOf
    rw [List.filterMap_cons, entryOf, readData_shortName hformat file.isShort]
    rfl
  rw [slots, entriesOf_append, hshort,
    (entriesOf_longSlots hformat file.encodes file.isSequenceNumber).1]

theorem processEntry_shortSlot (s : DirectoryReadState) :
    s.processEntry (readShortName file.shortSlot.2) file.shortSlot.1 =
      s.addShortName (readShortName file.shortSlot.2) file.shortSlot.1 := by
  have hdot := (not_congr (hasDotName_readShortName file.isShort.length)).mpr file.not_dot
  have htype : (readShortName file.shortSlot.2).entryType = .shortName := rfl
  have hflags : (readShortName file.shortSlot.2).fileAttributeFlags &&&
      fileAttributeFlagVolumeLabel = 0 := file.not_label
  rw [processEntry_of_not_dotName hdot]
  simp only [htype, hflags, ne_eq, not_true_eq_false, if_false]

/-- A file adds one entry, which has the long name only if no segment was left out. -/
theorem processEntries_slots (hformat : format ≠ .exfat) {s s' : DirectoryReadState}
    (hnone : s.nameEntries = none)
    (hs : processEntries processEntry (entriesOf format file.slots) s = .ok s') :
    ∃ entry, s'.nameEntries = none ∧
      s'.directory.fileEntries = s.directory.fileEntries ++ [entry] ∧
      (file.Listed entry → file.HasListableName) := by
  rw [entriesOf_slots file hformat, processEntries_append] at hs
  split at hs
  · cases hs
  next s₁ hlong =>
  obtain ⟨hfiles, hlength⟩ := processEntries_longSlots_length file.longSlots hlong
  simp only [processEntries, processEntry_shortSlot] at hs
  split at hs
  · cases hs
  next s₂ hshort =>
  injection hs with hs
  subst hs
  obtain ⟨named, hnamed, rfl⟩ : ∃ named,
      (named = withIdentifier (readShortName file.shortSlot.2) file.shortSlot.1 ∨
        ∃ names, s₁.nameEntries = some names ∧
          (withIdentifier (readShortName file.shortSlot.2)
            file.shortSlot.1).getNameFromVfatLongFileNameEntries names = .ok named) ∧
      s₂ = { s₁.appendFileEntry named with nameEntries := none } := by
    cases hnames : s₁.nameEntries with
    | none =>
      rw [addShortName_of_none hnames] at hshort
      injection hshort with hshort
      exact ⟨_, Or.inl rfl, hshort.symm⟩
    | some names =>
      rw [addShortName_of_some hnames, map_eq_ok_iff] at hshort
      obtain ⟨named, hcall, rfl⟩ := hshort
      exact ⟨named, Or.inr ⟨names, rfl, hcall⟩, rfl⟩
  refine ⟨named, rfl, by rw [fileEntries_appendEntry, appendFileEntry, hfiles], fun hlisted => ?_⟩
  by_contra hdot
  rw [← forall_longSlots_iff] at hdot
  push Not at hdot
  obtain ⟨slot, hslot, hdot⟩ := hdot
  have hless : (file.longSlots.filter fun slot =>
      ¬ HasDotName (readVfatLongName slot.2).nameData).length < file.longSlots.length :=
    List.length_filter_lt_length_iff_exists.mpr ⟨slot, hslot, by simpa using hdot⟩
  have hencodes := file.encodes
  have hname := hlisted.name
  cases hlongName : file.longName with
  | none =>
    rw [hlongName, Option.elim_none, List.forall₂_nil_left_iff, List.map_eq_nil_iff] at hencodes
    rw [hencodes] at hslot
    cases hslot
  | some name =>
    rw [hlongName] at hencodes hname
    obtain ⟨_, hname⟩ := hname name rfl
    have hcount : name.segments.length = file.longSlots.length := by
      have heq := hencodes.length_eq
      rw [Option.elim_some, List.length_map] at heq
      rw [← heq, ← List.length_reverse, ← map_snd_stored, List.length_map]
    obtain ⟨_, _, hlower, _⟩ := name.numberOfSegments_le
    simp only [vfatSegmentSize] at hlower
    rcases hnamed with rfl | ⟨names, hnames, hcall⟩
    · cases hname
    · -- the name is too short
      obtain ⟨_, _, rfl⟩ := setNameFromSegments_eq_ok_iff.mp hcall
      have hsizes : ∀ segment ∈ names.reverse.map (·.take 26), segment.length ≤ 26 := by
        rw [List.forall_mem_map]
        intro data _
        exact List.length_take_le 26 data
      have hle := length_upToZeroUnit_flatten_le hsizes
      simp only [Option.some.injEq] at hname
      rw [hname, List.length_append, length_nameBytes, List.length_map, List.length_reverse] at hle
      rw [hnames, hnone] at hlength
      simp only [Option.getD_some, Option.getD_none, List.length_nil, List.length_cons]
        at hlength hle
      omega

/-- The name of a file is put together when no segment is left out. -/
theorem processEntries_slots_ok (hformat : format ≠ .exfat) {s : DirectoryReadState}
    (hnone : s.nameEntries = none) (h : file.HasListableName) :
    ∃ s' entry, processEntries processEntry (entriesOf format file.slots) s = .ok s' ∧
      s'.nameEntries = none ∧
      s'.directory.withoutEntries = { s.directory.withoutEntries with
        fileEntries := s.directory.fileEntries ++ [entry] } ∧
      file.Listed entry := by
  have hencodes := file.encodes
  rw [entriesOf_slots file hformat, processEntries_append]
  cases hlongName : file.longName with
  | none =>
    rw [hlongName, Option.elim_none, List.forall₂_nil_left_iff, List.map_eq_nil_iff] at hencodes
    rw [hencodes]
    simp only [List.map_nil, processEntries, processEntry_shortSlot, addShortName_of_none hnone]
    refine ⟨_, _, rfl, rfl, rfl, rfl, ?_⟩
    rw [hlongName]
    intro name hname
    cases hname
  | some name =>
    rw [hlongName, Option.elim_some] at hencodes
    obtain ⟨s₁, hlong, hnames, hdirectory⟩ :=
      processEntries_stored hencodes (file.forall_longSlots_iff.mpr h) s
    have hfiles : s₁.directory.fileEntries = s.directory.fileEntries :=
      fileEntries_of_withoutEntries hdirectory
    have hsize := file.length_segment_le
    rw [hlongName, Option.elim_some] at hsize
    have hsegments : (file.longSlots.map fun slot =>
        (readVfatLongName slot.2).nameData).reverse.map (·.take 26) =
          name.segments.map vfatSegmentBytes := by
      rw [List.map_reverse, map_take_nameData hencodes hsize, map_snd_stored, List.map_reverse,
        List.reverse_reverse]
    obtain ⟨hpos, hle, hlower, hupper⟩ := name.numberOfSegments_le
    have hname : upToZeroUnit ((name.segments.map vfatSegmentBytes).flatten ++ [0, 0]) =
        nameBytes name.units ++ [0, 0] := by
      rw [← List.flatMap_def]
      rw [VfatName.segments, length_segmentsOf] at hlower hupper
      exact upToZeroUnit_segments pads_vfat (Or.inl hlower) hupper name.units_ne_zero
    obtain ⟨named, hcall, hidentifier, hnamed, hunicode⟩ : ∃ named,
        (withIdentifier (readShortName file.shortSlot.2)
          file.shortSlot.1).getNameFromVfatLongFileNameEntries
            (file.longSlots.map fun slot => (readVfatLongName slot.2).nameData) = .ok named ∧
        named.identifier = toUint64 file.shortSlot.1 ∧
        named.name = some (nameBytes name.units ++ [0, 0]) ∧ named.isUnicode = true := by
      unfold getNameFromVfatLongFileNameEntries
      rw [hsegments]
      have hbounds : 0 < (name.segments.map vfatSegmentBytes).length ∧
          (name.segments.map vfatSegmentBytes).length ≤ 20 := by
        rw [List.length_map]
        exact ⟨hpos, hle⟩
      exact ⟨_, setNameFromSegments_eq_ok_iff.mpr ⟨rfl, hbounds, rfl⟩, rfl, by rw [hname], rfl⟩
    simp only [hlong, processEntries, processEntry_shortSlot, addShortName_of_some hnames, hcall,
      Except.map]
    refine ⟨_, named, rfl, rfl, ?_, hidentifier, ?_⟩
    · rw [withoutEntries_appendEntry, ← hdirectory, ← hfiles]
      rfl
    rw [hlongName]
    intro name' hname'
    injection hname' with hname'
    subst hname'
    exact ⟨hunicode, hnamed⟩

end VfatFile

/-! ### Directories -/

/-- The files of a directory, in order. -/
def filesOf (items : List VfatItem) : List VfatFile := items.filterMap VfatItem.file?

section Directories

variable {format : FileSystemFormat}

theorem entriesOf_deleted (hformat : format ≠ .exfat) {slot : Slot}
    (h : byteAt slot.2 0 = 0xe5) : entriesOf format [slot] = [] := by
  unfold entriesOf
  rw [List.filterMap_cons, entryOf, readData_deleted hformat h]
  rfl

theorem entriesOf_short (hformat : format ≠ .exfat) {slot : Slot} (h : IsShortEntry slot.2) :
    entriesOf format [slot] = [(slot.1, readShortName slot.2)] := by
  unfold entriesOf
  rw [List.filterMap_cons, entryOf, readData_shortName hformat h]
  rfl

theorem processEntries_singleton (s : DirectoryReadState) (entry : DirectoryEntry) (offset : Int) :
    processEntries processEntry [(offset, entry)] s =
      (s.processEntry entry offset).map (·.appendEntry offset) := by
  simp only [processEntries]
  split
  · next e h => rw [h]; rfl
  · next s₁ h => rw [h]; rfl

theorem processEntry_self {slot : Slot} (h : IsShortEntry slot.2) (hname : slot.2.take 11 = selfName)
    (s : DirectoryReadState) :
    s.processEntry (readShortName slot.2) slot.1 = s.setSelfEntry (readShortName slot.2) := by
  have htake := (take_nameData_readShortName h.length).trans hname
  rw [processEntry, if_pos htake]

theorem processEntry_parent {slot : Slot} (h : IsShortEntry slot.2)
    (hname : slot.2.take 11 = parentName) (s : DirectoryReadState) :
    s.processEntry (readShortName slot.2) slot.1 = s.setParentEntry (readShortName slot.2) := by
  have htake := (take_nameData_readShortName h.length).trans hname
  have hne : parentName ≠ selfName := by decide
  rw [processEntry, htake, if_neg hne, if_pos rfl]

theorem processEntry_label {slot : Slot} (h : IsShortEntry slot.2)
    (hlabel : byteAt slot.2 11 &&& fileAttributeFlagVolumeLabel ≠ 0) (hdot : ¬ HasDotName slot.2)
    (s : DirectoryReadState) :
    s.processEntry (readShortName slot.2) slot.1 =
      s.setVolumeLabelEntry (readShortName slot.2) := by
  have hdot' := (not_congr (hasDotName_readShortName h.length)).mpr hdot
  have htype : (readShortName slot.2).entryType = .shortName := rfl
  have hflags : (readShortName slot.2).fileAttributeFlags &&&
      fileAttributeFlagVolumeLabel ≠ 0 := hlabel
  rw [processEntry_of_not_dotName hdot']
  simp only [htype]
  exact if_pos hflags

/-- What is neither deleted nor a file leaves the file entries as they are. -/
theorem processEntries_item {item : VfatItem} (hformat : format ≠ .exfat)
    (hfile : item.file? = none) {s s' : DirectoryReadState}
    (hs : processEntries processEntry (entriesOf format item.slots) s = .ok s') :
    s'.nameEntries = s.nameEntries ∧ s'.directory.fileEntries = s.directory.fileEntries := by
  cases item with
  | deleted slot first =>
    rw [VfatItem.slots, entriesOf_deleted hformat first] at hs
    injection hs with hs
    subst hs
    exact ⟨rfl, rfl⟩
  | self slot isShort name =>
    rw [VfatItem.slots, entriesOf_short hformat isShort, processEntries_singleton,
      processEntry_self isShort name, setSelfEntry] at hs
    split at hs
    · cases hs
    · injection hs with hs
      subst hs
      exact ⟨rfl, rfl⟩
  | parent slot isShort name =>
    rw [VfatItem.slots, entriesOf_short hformat isShort, processEntries_singleton,
      processEntry_parent isShort name, setParentEntry] at hs
    split at hs
    · cases hs
    · injection hs with hs
      subst hs
      exact ⟨rfl, rfl⟩
  | label slot isShort isLabel not_dot =>
    rw [VfatItem.slots, entriesOf_short hformat isShort, processEntries_singleton,
      processEntry_label isShort isLabel not_dot, setVolumeLabelEntry] at hs
    split at hs
    · cases hs
    · injection hs with hs
      subst hs
      exact ⟨rfl, rfl⟩
  | file content => cases hfile

/-- Every file adds one entry, and has its long name only if no segment was left out. -/
theorem processEntries_items (hformat : format ≠ .exfat) {items : List VfatItem}
    {s s' : DirectoryReadState} (hnone : s.nameEntries = none)
    (hs : processEntries processEntry (entriesOf format (items.flatMap VfatItem.slots)) s =
      .ok s') :
    ∃ entries, s'.directory.fileEntries = s.directory.fileEntries ++ entries ∧
      (List.Forall₂ VfatFile.Listed (filesOf items) entries →
        ∀ file ∈ filesOf items, file.HasListableName) := by
  induction items generalizing s with
  | nil =>
    injection hs with hs
    subst hs
    exact ⟨[], (List.append_nil _).symm, fun _ file hfile => absurd hfile List.not_mem_nil⟩
  | cons item items ih =>
    rw [List.flatMap_cons, entriesOf_append, processEntries_append] at hs
    split at hs
    · cases hs
    next s₁ hitem =>
    cases hfile : item.file? with
    | none =>
      obtain ⟨hnames, hfiles⟩ := processEntries_item hformat hfile hitem
      obtain ⟨entries, hentries, hlisted⟩ := ih (hnames.trans hnone) hs
      rw [filesOf, List.filterMap_cons, hfile]
      exact ⟨entries, by rw [hentries, hfiles], hlisted⟩
    | some content =>
      obtain rfl := VfatItem.eq_file hfile
      obtain ⟨entry, hnames, hfiles, hentry⟩ := content.processEntries_slots hformat hnone hitem
      obtain ⟨entries, hentries, hlisted⟩ := ih hnames hs
      rw [filesOf, List.filterMap_cons, hfile]
      refine ⟨entry :: entries, by rw [hentries, hfiles, List.append_assoc]; rfl, ?_⟩
      intro hall
      rw [List.forall₂_cons] at hall
      exact List.forall_mem_cons.mpr ⟨hentry hall.1, hlisted hall.2⟩

/-- The entry of one special kind is not set yet, or there is none of its kind
among the items. -/
structure RoomFor (directory : Directory) (items : List VfatItem) : Prop where
  self : items.countP VfatItem.isSelf + (if directory.selfEntry.isSome then 1 else 0) ≤ 1
  parent : items.countP VfatItem.isParent + (if directory.parentEntry.isSome then 1 else 0) ≤ 1
  label : items.countP VfatItem.isLabel +
    (if directory.volumeLabelEntry.isSome then 1 else 0) ≤ 1

theorem RoomFor.of_withoutEntries {directory : Directory} {items : List VfatItem}
    (h : RoomFor directory.withoutEntries items) : RoomFor directory items :=
  ⟨h.self, h.parent, h.label⟩

/-- An item that is not a file is taken, and leaves room for the rest. -/
theorem processEntries_item_ok {item : VfatItem} {items : List VfatItem}
    (hformat : format ≠ .exfat) (hfile : item.file? = none) {s : DirectoryReadState}
    (hroom : RoomFor s.directory (item :: items)) :
    ∃ s', processEntries processEntry (entriesOf format item.slots) s = .ok s' ∧
      RoomFor s'.directory items := by
  obtain ⟨hself, hparent, hlabel⟩ := hroom
  rw [List.countP_cons] at hself hparent hlabel
  cases item with
  | deleted slot first =>
    rw [VfatItem.slots, entriesOf_deleted hformat first]
    exact ⟨s, rfl, by simpa [VfatItem.isSelf] using hself, by
      simpa [VfatItem.isParent] using hparent, by simpa [VfatItem.isLabel] using hlabel⟩
  | self slot isShort name =>
    simp only [VfatItem.isSelf, VfatItem.isParent, VfatItem.isLabel, if_true, Bool.false_eq_true,
      if_false, Nat.add_zero] at hself hparent hlabel
    have hfree : s.directory.selfEntry.isSome = false := by
      by_contra hset
      rw [Bool.not_eq_false] at hset
      rw [if_pos hset] at hself
      omega
    refine ⟨appendEntry { s with
      directory := { s.directory with selfEntry := some (readShortName slot.2) } } slot.1, ?_, ?_⟩
    · rw [VfatItem.slots, entriesOf_short hformat isShort, processEntries_singleton,
        processEntry_self isShort name, setSelfEntry, hfree, if_neg Bool.false_ne_true, Except.map]
    · exact ⟨by simp only [appendEntry, Option.isSome_some, if_true]; omega, hparent, hlabel⟩
  | parent slot isShort name =>
    simp only [VfatItem.isSelf, VfatItem.isParent, VfatItem.isLabel, if_true, Bool.false_eq_true,
      if_false, Nat.add_zero] at hself hparent hlabel
    have hfree : s.directory.parentEntry.isSome = false := by
      by_contra hset
      rw [Bool.not_eq_false] at hset
      rw [if_pos hset] at hparent
      omega
    refine ⟨appendEntry { s with
      directory := { s.directory with parentEntry := some (readShortName slot.2) } } slot.1, ?_, ?_⟩
    · rw [VfatItem.slots, entriesOf_short hformat isShort, processEntries_singleton,
        processEntry_parent isShort name, setParentEntry, hfree, if_neg Bool.false_ne_true,
        Except.map]
    · exact ⟨hself, by simp only [appendEntry, Option.isSome_some, if_true]; omega, hlabel⟩
  | label slot isShort isLabel not_dot =>
    simp only [VfatItem.isSelf, VfatItem.isParent, VfatItem.isLabel, if_true, Bool.false_eq_true,
      if_false, Nat.add_zero] at hself hparent hlabel
    have hfree : s.directory.volumeLabelEntry.isSome = false := by
      by_contra hset
      rw [Bool.not_eq_false] at hset
      rw [if_pos hset] at hlabel
      omega
    refine ⟨appendEntry { s with
      directory := { s.directory with volumeLabelEntry := some (readShortName slot.2) } } slot.1,
      ?_, ?_⟩
    · rw [VfatItem.slots, entriesOf_short hformat isShort, processEntries_singleton,
        processEntry_label isShort isLabel not_dot, setVolumeLabelEntry, hfree,
        if_neg Bool.false_ne_true, Except.map]
    · exact ⟨hself, hparent, by simp only [appendEntry, Option.isSome_some, if_true]; omega⟩
  | file content => cases hfile

/-- The files of a well-formed directory are listed when no segment is left out. -/
theorem processEntries_items_ok (hformat : format ≠ .exfat) {items : List VfatItem}
    {s : DirectoryReadState} (hnone : s.nameEntries = none) (hroom : RoomFor s.directory items)
    (h : ∀ file ∈ filesOf items, file.HasListableName) :
    ∃ s' entries, processEntries processEntry
        (entriesOf format (items.flatMap VfatItem.slots)) s = .ok s' ∧
      s'.directory.fileEntries = s.directory.fileEntries ++ entries ∧
      List.Forall₂ VfatFile.Listed (filesOf items) entries := by
  induction items generalizing s with
  | nil => exact ⟨s, [], rfl, (List.append_nil _).symm, .nil⟩
  | cons item items ih =>
    rw [List.flatMap_cons, entriesOf_append, processEntries_append]
    cases hfile : item.file? with
    | none =>
      rw [filesOf, List.filterMap_cons, hfile] at h
      obtain ⟨s₁, hitem, hroom'⟩ := processEntries_item_ok hformat hfile hroom
      obtain ⟨hnames, hfiles⟩ := processEntries_item hformat hfile hitem
      obtain ⟨s', entries, hs, hentries, hlisted⟩ := ih (hnames.trans hnone) hroom' h
      rw [filesOf, List.filterMap_cons, hfile, hitem]
      exact ⟨s', entries, hs, by rw [hentries, hfiles], hlisted⟩
    | some content =>
      rw [filesOf, List.filterMap_cons, hfile] at h
      obtain rfl := VfatItem.eq_file hfile
      obtain ⟨hcontent, hrest⟩ := List.forall_mem_cons.mp h
      obtain ⟨s₁, entry, hitem, hnames, hdirectory, hentry⟩ :=
        content.processEntries_slots_ok hformat hnone hcontent
      have hroom' : RoomFor s₁.directory items := by
        apply RoomFor.of_withoutEntries
        rw [hdirectory]
        exact ⟨hroom.self, hroom.parent, hroom.label⟩
      have hfiles : s₁.directory.fileEntries = s.directory.fileEntries ++ [entry] :=
        congrArg (fun directory : Directory => directory.fileEntries) hdirectory
      obtain ⟨s', entries, hs, hentries, hlisted⟩ := ih hnames hroom' hrest
      rw [filesOf, List.filterMap_cons, hfile, VfatItem.slots, hitem]
      refine ⟨s', entry :: entries, hs, ?_, .cons hentry hlisted⟩
      rw [hentries, hfiles, List.append_assoc]
      rfl

/-- Every slot of an item has an entry. -/
theorem VfatItem.isEntry (hformat : format ≠ .exfat) (item : VfatItem) :
    ∀ slot ∈ item.slots, IsEntry format slot := by
  intro slot hslot
  cases item with
  | deleted slot' first =>
    rw [List.mem_singleton.mp hslot]
    exact ⟨_, readData_deleted hformat first⟩
  | self slot' isShort name =>
    rw [List.mem_singleton.mp hslot]
    exact ⟨_, readData_shortName hformat isShort⟩
  | parent slot' isShort name =>
    rw [List.mem_singleton.mp hslot]
    exact ⟨_, readData_shortName hformat isShort⟩
  | label slot' isShort isLabel not_dot =>
    rw [List.mem_singleton.mp hslot]
    exact ⟨_, readData_shortName hformat isShort⟩
  | file content =>
    rcases List.mem_append.mp hslot with hlong | hshort
    · exact (entriesOf_longSlots hformat content.encodes content.isSequenceNumber).2 slot hlong
    · rw [List.mem_singleton.mp hshort]
      exact ⟨_, readData_shortName hformat content.isShort⟩

theorem endsDirectory_items (hformat : format ≠ .exfat) (items : List VfatItem) {tail : List Slot}
    (htail : ∀ slot ∈ tail.head?, slot.2 = DirectoryEntry.empty) :
    EndsDirectory format (items.flatMap VfatItem.slots) tail where
  entries slot hslot := by
    obtain ⟨item, _, hitem⟩ := List.mem_flatMap.mp hslot
    exact item.isEntry hformat slot hitem
  ends slot hslot := by
    unfold IsTerminator
    rw [htail slot hslot]
    exact readData_terminator hformat

/-- A well-formed directory is read, and each file has its long name, exactly
when the block tree covers the clusters up to the end of the directory and no
segment of a long name starts as the name of the directory itself or of its
parent. -/
theorem listsVfatFiles_iff {fs : FileSystem} {image : List UInt8} {last c : Nat} {chain : List Nat}
    {items : List VfatItem} {tail : List Slot} (hformat : fs.ioHandle.fileSystemFormat ≠ .exfat)
    (hlast : lastClusterNumber fs.ioHandle.fileSystemFormat = .ok last)
    (hchain : IsChain fs.allocationTable last c chain) (hnodup : chain.Nodup)
    (hwhole : WholeSlots fs.ioHandle image chain) (hne : chain ≠ [])
    (hitems : WellFormedItems items)
    (hslots : chainSlots fs.ioHandle image chain = items.flatMap VfatItem.slots ++ tail)
    (htail : ∀ slot ∈ tail.head?, slot.2 = DirectoryEntry.empty) :
    (∃ directory, readDirectory fs image c = .ok directory ∧
        List.Forall₂ VfatFile.Listed (filesOf items) directory.fileEntries) ↔
      (∀ j < chain.length,
          j * slotsPerCluster fs.ioHandle ≤ (items.flatMap VfatItem.slots).length →
          CoversCluster fs.ioHandle (chain.getD j 0)) ∧
        ∀ file ∈ filesOf items, file.HasListableName := by
  have hends := endsDirectory_items hformat items htail
  have hread := readDirectory_eq_ok_iff hlast hchain hnodup hwhole (hwhole.volumeSize_pos hne) hslots
    hends
  constructor
  · rintro ⟨directory, hdirectory, hall⟩
    obtain ⟨hcovers, s, hs, rfl⟩ := (hread directory).mp hdirectory
    obtain ⟨entries, hentries, hlisted⟩ := processEntries_items hformat rfl hs
    have hstart : DirectoryReadState.start.directory.fileEntries = [] := rfl
    rw [hentries, hstart, List.nil_append] at hall
    exact ⟨hcovers, hlisted hall⟩
  · rintro ⟨hcovers, hnames⟩
    have hroom : RoomFor DirectoryReadState.start.directory items :=
      ⟨hitems.self, hitems.parent, hitems.label⟩
    obtain ⟨s, entries, hs, hentries, hlisted⟩ :=
      processEntries_items_ok hformat rfl hroom hnames
    refine ⟨s.directory, (hread _).mpr ⟨hcovers, s, hs, rfl⟩, ?_⟩
    rw [hentries]
    exact hlisted

end Directories

/-- A FAT-16 file system with a directory in cluster 2. -/
def vfatFileSystem : FileSystem where
  ioHandle :=
    { volumeSize := 1024
      fileSystemFormat := .fat16
      bytesPerSector := 512
      clusterBlockSize := 512
      totalNumberOfClusters := 3
      rootDirectoryOffset := 512
      firstClusterOffset := 512 }
  allocationTable := ⟨[0xfff8, 0xffff, 0xffff], by decide, by decide, by decide⟩
  reversedAllocationTable := none

/-- The long name of the units 0x202e and five times 0x2020. -/
def dotLongName : VfatName where
  units := [0x202e, 0x2020, 0x2020, 0x2020, 0x2020, 0x2020]
  units_pos := dotUnits_pos
  units_le := dotUnits_le
  units_ne_zero := dotUnits_ne_zero

theorem stored_dotLongName : dotLongName.stored = [(0x41, dotLongName.units)] := by decide

/-- A file of which the long name starts as the short name of the directory itself. -/
def dotLongNameFile : VfatFile where
  longName := some dotLongName
  longSlots := [(512, [0x41, 0x2e, 0x20, 0x20, 0x20, 0x20, 0x20, 0x20, 0x20, 0x20, 0x20, 0x0f, 0, 0,
    0x20, 0x20, 0, 0, 0xff, 0xff, 0xff, 0xff, 0xff, 0xff, 0xff, 0xff, 0, 0, 0xff, 0xff, 0xff, 0xff])]
  shortSlot := (544, [0x46, 0x49, 0x4c, 0x45, 0x20, 0x20, 0x20, 0x20, 0x54, 0x58, 0x54, 0x20] ++
    List.replicate 20 0)
  encodes := by
    rw [Option.elim_some, stored_dotLongName]
    apply List.Forall₂.cons _ .nil
    constructor <;> decide
  isShort := ⟨by decide, by decide⟩
  not_label := by decide
  not_dot := by decide

/-- The volume with the directory of this one file. -/
def dotLongNameImage : List UInt8 :=
  List.replicate 512 0 ++ dotLongNameFile.slots.flatMap Prod.snd ++ List.replicate 448 0

theorem isChain_vfatFileSystem : IsChain vfatFileSystem.allocationTable 0xfff0 2 [2] :=
  .linked (by decide) (by decide) (show _ = Except.ok 0xffff from rfl) (.ended (by decide))

theorem wholeSlots_dotLongNameImage : WholeSlots vfatFileSystem.ioHandle dotLongNameImage [2] where
  volume := ⟨by decide, by decide, by decide, by decide⟩
  dvd := by decide
  image_le := by decide +kernel

theorem chainSlots_dotLongNameImage :
    chainSlots vfatFileSystem.ioHandle dotLongNameImage [2] =
      [VfatItem.file dotLongNameFile].flatMap VfatItem.slots ++
        slotsAt dotLongNameImage 576 14 := by
  decide +kernel

/-- The directory of the one file. -/
theorem listsVfatFiles_iff_dotLongName :
    (∃ directory, readDirectory vfatFileSystem dotLongNameImage 2 = .ok directory ∧
        List.Forall₂ VfatFile.Listed (filesOf [.file dotLongNameFile]) directory.fileEntries) ↔
      (∀ j < [2].length, j * slotsPerCluster vfatFileSystem.ioHandle ≤
          ([VfatItem.file dotLongNameFile].flatMap VfatItem.slots).length →
          CoversCluster vfatFileSystem.ioHandle ([2].getD j 0)) ∧
        ∀ file ∈ filesOf [.file dotLongNameFile], file.HasListableName :=
  listsVfatFiles_iff (by decide) (show _ = Except.ok 0xfff0 from rfl) isChain_vfatFileSystem
    (by decide) wholeSlots_dotLongNameImage (by decide) ⟨by decide, by decide, by decide⟩
    chainSlots_dotLongNameImage (by decide +kernel)

/-- The segment of the long name is taken for the entry of the directory itself.
The directory is read, and the entry of the file has no long name. -/
theorem readDirectory_dotLongName :
    IsChain vfatFileSystem.allocationTable 0xfff0 2 [2] ∧
      WholeSlots vfatFileSystem.ioHandle dotLongNameImage [2] ∧
      WellFormedItems [.file dotLongNameFile] ∧
      chainSlots vfatFileSystem.ioHandle dotLongNameImage [2] =
        [VfatItem.file dotLongNameFile].flatMap VfatItem.slots ++ slotsAt dotLongNameImage 576 14 ∧
      ¬ ∃ directory, readDirectory vfatFileSystem dotLongNameImage 2 = .ok directory ∧
        List.Forall₂ VfatFile.Listed (filesOf [.file dotLongNameFile]) directory.fileEntries := by
  refine ⟨isChain_vfatFileSystem, wholeSlots_dotLongNameImage, ⟨by decide, by decide, by decide⟩,
    chainSlots_dotLongNameImage, ?_⟩
  rintro ⟨directory, hread, hlisted⟩
  have hunicode : (readDirectory vfatFileSystem dotLongNameImage 2).map
      (fun directory => directory.fileEntries.map DirectoryEntry.isUnicode) = .ok [false] := by
    decide +kernel
  rw [hread] at hunicode
  injection hunicode with hunicode
  obtain ⟨entry, rest, hentry, _, hentries⟩ := List.forall₂_cons_left_iff.mp hlisted
  have hname := hentry.name dotLongName rfl
  simp only [hentries, List.map_cons, hname.1] at hunicode
  cases hunicode

end FsFat
