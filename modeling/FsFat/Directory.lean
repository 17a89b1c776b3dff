import FsFat.DirectoryEntry

/-!
Directories, and how the two functions that read one treat each entry. The
source reads the entries and treats them in one loop. Here `scanEntries` reads
them, and `processEntries` treats the entries that were read; the loop of the
source, `readEntries`, succeeds exactly when both do.
-/

namespace FsFat

open Bytes

/-- `libfsfat_directory_t`. The entries array owns the entries that the other
fields point to; an element of it is said by the offset at which it was read. -/
structure Directory where
  entries : List Int
  fileEntries : List DirectoryEntry
  selfEntry : Option DirectoryEntry
  parentEntry : Option DirectoryEntry
  volumeLabelEntry : Option DirectoryEntry
  deriving DecidableEq, Repr

/-- `libfsfat_directory_initialize`. -/
def Directory.create : Directory where
  entries := []
  fileEntries := []
  selfEntry := none
  parentEntry := none
  volumeLabelEntry := none

/-- The directory without its entries array. -/
def Directory.withoutEntries (directory : Directory) : Directory :=
  { directory with entries := [] }

/-- `libfsfat_directory_get_number_of_file_entries`. -/
def Directory.getNumberOfFileEntries (directory : Directory) : Nat :=
  directory.fileEntries.length

/-- `libfsfat_directory_get_file_entry_by_index`. -/
def Directory.getFileEntryByIndex (directory : Directory) (fileEntryIndex : Nat) :
    Except Error DirectoryEntry :=
  match directory.fileEntries[fileEntryIndex]? with
  | some entry => .ok entry
  | none => .error .arrayIndexOutOfBounds

/-- The variables of the functions that read a directory which one entry hands
on to the next. The current file entry is the index of an entry of the file
entries array, and the name entries array is a list of name data. -/
structure DirectoryReadState where
  directory : Directory
  nameEntries : Option (List (List UInt8))
  currentFileEntry : Option Nat
  dataStreamEntry : Option DirectoryEntry
  lastVfatSequenceNumber : Nat
  deriving DecidableEq, Repr

namespace DirectoryReadState

def start : DirectoryReadState where
  directory := .create
  nameEntries := none
  currentFileEntry := none
  dataStreamEntry := none
  lastVfatSequenceNumber := 0

/-- The name data of the entry for the directory itself. -/
def selfName : List UInt8 := 0x2e :: List.replicate 10 0x20

/-- The name data of the entry for the parent directory. -/
def parentName : List UInt8 := 0x2e :: 0x2e :: List.replicate 9 0x20

def setSelfEntry (s : DirectoryReadState) (entry : DirectoryEntry) :
    Except Error DirectoryReadState :=
  if s.directory.selfEntry.isSome then .error .selfEntryAlreadySet
  else .ok { s with directory := { s.directory with selfEntry := some entry } }

def setParentEntry (s : DirectoryReadState) (entry : DirectoryEntry) :
    Except Error DirectoryReadState :=
  if s.directory.parentEntry.isSome then .error .parentEntryAlreadySet
  else .ok { s with directory := { s.directory with parentEntry := some entry } }

def setVolumeLabelEntry (s : DirectoryReadState) (entry : DirectoryEntry) :
    Except Error DirectoryReadState :=
  if s.directory.volumeLabelEntry.isSome then .error .volumeLabelEntryAlreadySet
  else .ok { s with directory := { s.directory with volumeLabelEntry := some entry } }

/-- The end of the loop body: the entry goes to the entries array. -/
def appendEntry (s : DirectoryReadState) (offset : Int) : DirectoryReadState :=
  { s with directory := { s.directory with entries := s.directory.entries ++ [offset] } }

@[simp] theorem withoutEntries_appendEntry (s : DirectoryReadState) (offset : Int) :
    (s.appendEntry offset).directory.withoutEntries = s.directory.withoutEntries := rfl

@[simp] theorem fileEntries_appendEntry (s : DirectoryReadState) (offset : Int) :
    (s.appendEntry offset).directory.fileEntries = s.directory.fileEntries := rfl

@[simp] theorem nameEntries_appendEntry (s : DirectoryReadState) (offset : Int) :
    (s.appendEntry offset).nameEntries = s.nameEntries := rfl

def appendFileEntry (s : DirectoryReadState) (entry : DirectoryEntry) : DirectoryReadState :=
  { s with directory := { s.directory with fileEntries := s.directory.fileEntries ++ [entry] } }

/-- A short name that is not a volume label: it ends the long name before it. -/
def addShortName (s : DirectoryReadState) (entry : DirectoryEntry) (offset : Int) :
    Except Error DirectoryReadState := do
  let entry := { entry with identifier := toUint64 offset }
  let entry ←
    match s.nameEntries with
    | none => pure entry
    | some nameEntries => entry.getNameFromVfatLongFileNameEntries nameEntries
  pure { s.appendFileEntry entry with nameEntries := none }

/-- A VFAT long name entry: it starts a long name or continues the one before
it. There need not be one, after a short name, and then appending fails. -/
def addVfatLongName (s : DirectoryReadState) (entry : DirectoryEntry) :
    Except Error DirectoryReadState :=
  let vfatSequenceNumber := entry.vfatSequenceNumber &&& 0x1f
  if entry.vfatSequenceNumber &&& 0x40 ≠ 0 then
    .ok { s with
      nameEntries := some [entry.nameData], lastVfatSequenceNumber := vfatSequenceNumber }
  else if vfatSequenceNumber + 1 ≠ s.lastVfatSequenceNumber then
    .error .vfatSequenceNumberOutOfBounds
  else
    match s.nameEntries with
    | none => .error .arrayMissing
    | some nameEntries =>
      .ok { s with
        nameEntries := some (nameEntries ++ [entry.nameData])
        lastVfatSequenceNumber := vfatSequenceNumber }

/-- A change of the current file entry, where it is in the file entries array. -/
def modifyFileEntry (s : DirectoryReadState) (index : Nat)
    (change : DirectoryEntry → DirectoryEntry) : DirectoryReadState :=
  { s with
    directory := { s.directory with fileEntries := s.directory.fileEntries.modify index change } }

def addExfatDataStream (s : DirectoryReadState) (entry : DirectoryEntry) :
    Except Error DirectoryReadState :=
  if s.dataStreamEntry.isSome then .error .dataStreamEntryAlreadySet
  else
    match s.currentFileEntry with
    | none => .error .missingCurrentFileEntry
    | some index =>
      .ok { s.modifyFileEntry index (fun fileEntry =>
          { fileEntry with
            dataStartCluster := entry.dataStartCluster
            dataSize := entry.dataSize
            validDataSize := entry.validDataSize }) with dataStreamEntry := some entry }

def addExfatFileEntry (s : DirectoryReadState) (entry : DirectoryEntry) (offset : Int) :
    Except Error DirectoryReadState :=
  let entry := { entry with identifier := toUint64 offset, nameEntries := some [] }
  .ok { s.appendFileEntry entry with
    currentFileEntry := some s.directory.fileEntries.length, dataStreamEntry := none }

def addExfatFileEntryName (s : DirectoryReadState) (entry : DirectoryEntry) :
    Except Error DirectoryReadState :=
  match s.currentFileEntry with
  | none => .error .missingCurrentFileEntry
  | some index =>
    .ok (s.modifyFileEntry index fun fileEntry =>
      { fileEntry with nameEntries := fileEntry.nameEntries.map (· ++ [entry.nameData]) })

/-- What `libfsfat_file_system_read_directory` does with an entry. The name data
is compared with the names of the directory itself and of its parent whatever
the type of the entry is. -/
def processEntry (s : DirectoryReadState) (entry : DirectoryEntry) (offset : Int) :
    Except Error DirectoryReadState :=
  if entry.nameData.take 11 = selfName then s.setSelfEntry entry
  else if entry.nameData.take 11 = parentName then s.setParentEntry entry
  else
    match entry.entryType with
    | .shortName =>
      if entry.fileAttributeFlags &&& fileAttributeFlagVolumeLabel ≠ 0 then
        s.setVolumeLabelEntry entry
      else s.addShortName entry offset
    | .vfatLongName => s.addVfatLongName entry
    | .exfatDataStream => s.addExfatDataStream entry
    | .exfatFileEntry => s.addExfatFileEntry entry offset
    | .exfatFileEntryName => s.addExfatFileEntryName entry
    | .exfatVolumeLabel => s.setVolumeLabelEntry entry
    | _ => .ok s

/-- What `libfsfat_file_system_read_directory_by_range` does with an entry. A
short name is the volume label only if it has no other attribute, and there are
no special names. -/
def processEntryByRange (s : DirectoryReadState) (entry : DirectoryEntry) (offset : Int) :
    Except Error DirectoryReadState :=
  let entry := { entry with identifier := toUint64 offset }
  match entry.entryType with
  | .shortName =>
    if entry.fileAttributeFlags = fileAttributeFlagVolumeLabel then s.setVolumeLabelEntry entry
    else s.addShortName entry offset
  | .vfatLongName => s.addVfatLongName entry
  | _ => .ok s

end DirectoryReadState

/-! ### The loop over the entries of a range -/

/-- The number of entries that start in a range of offsets. -/
def numberOfEntriesBetween (offset endOffset : Int) : Nat :=
  ((endOffset - offset + (directoryEntrySize - 1)) / directoryEntrySize).toNat

/-- The loop over the entries of a range, with `count` of them left: the state
after it, and whether it ended at a terminator. -/
def readEntries (image : List UInt8) (format : FileSystemFormat)
    (process : DirectoryReadState → DirectoryEntry → Int → Except Error DirectoryReadState) :
    Nat → Int → DirectoryReadState → Except Error (DirectoryReadState × Bool)
  | 0, _, s => .ok (s, false)
  | count + 1, offset, s =>
    match DirectoryEntry.readFileIOHandle image offset format with
    | .error e => .error e
    | .ok none => .ok (s, true)
    | .ok (some entry) =>
      if entry.entryType = .unallocated then
        readEntries image format process count (offset + directoryEntrySize) s
      else
        match process s entry offset with
        | .error e => .error e
        | .ok s =>
          readEntries image format process count (offset + directoryEntrySize) (s.appendEntry offset)

/-- The entries of a range with their offsets, without the unallocated ones, and
whether they end at a terminator. -/
def scanEntries (image : List UInt8) (format : FileSystemFormat) :
    Nat → Int → Except Error (List (Int × DirectoryEntry) × Bool)
  | 0, _ => .ok ([], false)
  | count + 1, offset =>
    match DirectoryEntry.readFileIOHandle image offset format with
    | .error e => .error e
    | .ok none => .ok ([], true)
    | .ok (some entry) =>
      match scanEntries image format count (offset + directoryEntrySize) with
      | .error e => .error e
      | .ok (entries, terminated) =>
        .ok (if entry.entryType = .unallocated then entries else (offset, entry) :: entries,
          terminated)

/-- The treatment of entries one after the other. -/
def processEntries
    (process : DirectoryReadState → DirectoryEntry → Int → Except Error DirectoryReadState) :
    List (Int × DirectoryEntry) → DirectoryReadState → Except Error DirectoryReadState
  | [], s => .ok s
  | (offset, entry) :: entries, s =>
    match process s entry offset with
    | .error e => .error e
    | .ok s => processEntries process entries (s.appendEntry offset)

section Loop

variable {process : DirectoryReadState → DirectoryEntry → Int → Except Error DirectoryReadState}

theorem processEntries_append (xs ys : List (Int × DirectoryEntry)) (s : DirectoryReadState) :
    processEntries process (xs ++ ys) s =
      match processEntries process xs s with
      | .error e => .error e
      | .ok s => processEntries process ys s := by
  induction xs generalizing s with
  | nil => rfl
  | cons x xs ih =>
    obtain ⟨offset, entry⟩ := x
    simp only [List.cons_append, processEntries]
    cases process s entry offset with
    | error e => rfl
    | ok s' => exact ih (s'.appendEntry offset)

/-- The loop of the source succeeds exactly when the entries can be read and
then be treated. -/
theorem readEntries_eq_ok_iff {image : List UInt8} {format : FileSystemFormat} {count : Nat}
    {offset : Int} {s s' : DirectoryReadState} {terminated : Bool} :
    readEntries image format process count offset s = .ok (s', terminated) ↔
      ∃ entries, scanEntries image format count offset = .ok (entries, terminated) ∧
        processEntries process entries s = .ok s' := by
  induction count generalizing offset s with
  | zero =>
    simp only [readEntries, scanEntries, Except.ok.injEq, Prod.mk.injEq]
    constructor
    · rintro ⟨rfl, rfl⟩
      exact ⟨[], ⟨rfl, rfl⟩, rfl⟩
    · rintro ⟨entries, ⟨rfl, rfl⟩, hs⟩
      injection hs with hs
      exact ⟨hs, rfl⟩
  | succ count ih =>
    simp only [readEntries, scanEntries]
    cases hread : DirectoryEntry.readFileIOHandle image offset format with
    | error e => simp
    | ok result =>
      cases result with
      | none =>
        simp only [Except.ok.injEq, Prod.mk.injEq]
        constructor
        · rintro ⟨rfl, rfl⟩
          exact ⟨[], ⟨rfl, rfl⟩, rfl⟩
        · rintro ⟨entries, ⟨rfl, rfl⟩, hs⟩
          injection hs with hs
          exact ⟨hs, rfl⟩
      | some entry =>
        by_cases hun : entry.entryType = .unallocated
        · simp only [hun, if_true, ih]
          constructor
          · rintro ⟨entries, hscan, hs⟩
            exact ⟨entries, by rw [hscan], hs⟩
          · rintro ⟨entries, hscan, hs⟩
            cases hrest : scanEntries image format count (offset + directoryEntrySize) with
            | error e =>
              rw [hrest] at hscan
              cases hscan
            | ok rest =>
              rw [hrest] at hscan
              injection hscan with hscan
              injection hscan with h1 h2
              exact ⟨rest.1, by rw [← h2], by rw [h1]; exact hs⟩
        · simp only [hun, if_false]
          constructor
          · intro h
            cases hprocess : process s entry offset with
            | error e =>
              rw [hprocess] at h
              cases h
            | ok s₁ =>
              rw [hprocess] at h
              obtain ⟨entries, hscan, hs⟩ := ih.mp h
              exact ⟨(offset, entry) :: entries, by rw [hscan], by
                simp only [processEntries, hprocess]
                exact hs⟩
          · rintro ⟨entries, hscan, hs⟩
            cases hrest : scanEntries image format count (offset + directoryEntrySize) with
            | error e =>
              rw [hrest] at hscan
              cases hscan
            | ok rest =>
              rw [hrest] at hscan
              injection hscan with hscan
              injection hscan with h1 h2
              subst h1 h2
              simp only [processEntries] at hs
              cases hprocess : process s entry offset with
              | error e =>
                rw [hprocess] at hs
                cases hs
              | ok s₁ =>
                rw [hprocess] at hs
                exact ih.mpr ⟨rest.1, hrest, hs⟩

end Loop

end FsFat
