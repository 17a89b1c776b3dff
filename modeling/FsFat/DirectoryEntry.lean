import FsFat.Definitions
import FsFat.Lib.Bytes

/-!
Directory entries: `libfsfat_directory_entry.c`. An entry is read from 32 bytes
whose kind depends on the file system format and on a few of the bytes. The
name of an entry is in the entry itself, or is put together from the name
entries of a long name.
-/

namespace FsFat

open Bytes

/-- `libfsfat_directory_entry_t`. Of the entries in the name entries array only
the name data is read, so the array is a list of name data. -/
structure DirectoryEntry where
  entryType : DirectoryEntryType
  identifier : Nat
  nameData : List UInt8
  name : Option (List UInt8)
  nameSize : Nat
  isUnicode : Bool
  vfatSequenceNumber : Nat
  fileAttributeFlags : Nat
  creationDate : Nat
  creationTime : Nat
  creationTimeFraction : Nat
  creationTimeUtcOffset : Nat
  accessDate : Nat
  accessTime : Nat
  accessTimeUtcOffset : Nat
  modificationDate : Nat
  modificationTime : Nat
  modificationTimeFraction : Nat
  modificationTimeUtcOffset : Nat
  nameEntries : Option (List (List UInt8))
  dataStartCluster : Nat
  dataSize : Nat
  validDataSize : Nat
  deriving DecidableEq, Repr

namespace DirectoryEntry

/-- `libfsfat_directory_entry_initialize`. -/
def create : DirectoryEntry where
  entryType := .terminator
  identifier := 0
  nameData := List.replicate 32 0
  name := none
  nameSize := 0
  isUnicode := false
  vfatSequenceNumber := 0
  fileAttributeFlags := 0
  creationDate := 0
  creationTime := 0
  creationTimeFraction := 0
  creationTimeUtcOffset := 0
  accessDate := 0
  accessTime := 0
  accessTimeUtcOffset := 0
  modificationDate := 0
  modificationTime := 0
  modificationTimeFraction := 0
  modificationTimeUtcOffset := 0
  nameEntries := none
  dataStartCluster := 0
  dataSize := 0
  validDataSize := 0

/-- The empty directory entry, `libfsfat_directory_entry_empty`. -/
def empty : List UInt8 := List.replicate directoryEntrySize 0

/-- The entry type that `libfsfat_directory_entry_read_data` determines. -/
def entryTypeOf (data : List UInt8) (format : FileSystemFormat) : DirectoryEntryType :=
  if format = .exfat then
    match byteAt data 0 with
    | 0x00 => .terminator
    | 0x81 => .exfatAllocationBitmap
    | 0x82 => .exfatUpcaseTable
    | 0x83 => .exfatVolumeLabel
    | 0x85 => .exfatFileEntry
    | 0xc0 => .exfatDataStream
    | 0xc1 => .exfatFileEntryName
    | _ => .exfatUnknown
  else if data = empty then .terminator
  else if (0x01 ≤ byteAt data 0 ∧ byteAt data 0 ≤ 0x13) ∨
      (0x41 ≤ byteAt data 0 ∧ byteAt data 0 ≤ 0x54) then
    if byteAt data 11 = 0x0f ∧ byteAt data 12 = 0 ∧ byteAt data 26 = 0 ∧ byteAt data 27 = 0 then
      .vfatLongName
    else .shortName
  else if byteAt data 0 = 0xe5 then .unallocated
  else .shortName

/-- The bytes from `offset` on, `count` of them. -/
def field (data : List UInt8) (offset count : Nat) : List UInt8 :=
  (data.drop offset).take count

/-- `name_data` with some of its bytes copied from the entry. -/
def nameDataOf (name : List UInt8) : List UInt8 :=
  name ++ List.replicate (32 - name.length) 0

/-- The branch of `libfsfat_directory_entry_read_data` for a short name. -/
def readShortName (data : List UInt8) : DirectoryEntry :=
  { create with
    entryType := .shortName
    nameData := nameDataOf (field data 0 8 ++ field data 8 3)
    fileAttributeFlags := byteAt data 11
    creationTimeFraction := byteAt data 13
    creationDate := uint16At data 16
    creationTime := uint16At data 14
    accessDate := uint16At data 18
    modificationDate := uint16At data 24
    modificationTime := uint16At data 22
    dataStartCluster := uint16At data 26
    dataSize := uint32At data 28 }

/-- The branch of `libfsfat_directory_entry_read_data` for a VFAT long name. -/
def readVfatLongName (data : List UInt8) : DirectoryEntry :=
  { create with
    entryType := .vfatLongName
    vfatSequenceNumber := byteAt data 0
    nameData := nameDataOf (field data 1 10 ++ field data 14 12 ++ field data 28 4) }

/-- The branch of `libfsfat_directory_entry_read_data` for an exFAT data
stream. The name size is read at the place where a volume label has it. -/
def readExfatDataStream (data : List UInt8) : DirectoryEntry :=
  { create with
    entryType := .exfatDataStream
    nameSize := byteAt data 1 * 2
    validDataSize := uint64At data 8
    dataStartCluster := uint32At data 20
    dataSize := uint64At data 24 }

/-- The branch of `libfsfat_directory_entry_read_data` for an exFAT file entry. -/
def readExfatFileEntry (data : List UInt8) : DirectoryEntry :=
  { create with
    entryType := .exfatFileEntry
    fileAttributeFlags := uint16At data 4
    creationDate := uint16At data 10
    creationTime := uint16At data 8
    modificationDate := uint16At data 14
    modificationTime := uint16At data 12
    accessDate := uint16At data 18
    accessTime := uint16At data 16
    creationTimeFraction := byteAt data 20
    modificationTimeFraction := byteAt data 21
    creationTimeUtcOffset := byteAt data 22
    accessTimeUtcOffset := byteAt data 24
    modificationTimeUtcOffset := byteAt data 23 }

/-- The branch of `libfsfat_directory_entry_read_data` for an exFAT file entry name. -/
def readExfatFileEntryName (data : List UInt8) : DirectoryEntry :=
  { create with
    entryType := .exfatFileEntryName
    nameData := nameDataOf (field data 2 30) }

/-- The branch of `libfsfat_directory_entry_read_data` for an exFAT volume label. -/
def readExfatVolumeLabel (data : List UInt8) : Except Error DirectoryEntry :=
  if byteAt data 1 > 11 then .error .volumeLabelNameSizeOutOfBounds
  else
    .ok { create with
      entryType := .exfatVolumeLabel
      nameData := nameDataOf (field data 2 22)
      nameSize := byteAt data 1 * 2 }

/-- `libfsfat_directory_entry_read_data`, with no entry for the result 0. -/
def readData (data : List UInt8) (format : FileSystemFormat) :
    Except Error (Option DirectoryEntry) :=
  match entryTypeOf data format with
  | .terminator => .ok none
  | .shortName => .ok (some (readShortName data))
  | .vfatLongName => .ok (some (readVfatLongName data))
  | .exfatDataStream => .ok (some (readExfatDataStream data))
  | .exfatFileEntry => .ok (some (readExfatFileEntry data))
  | .exfatFileEntryName => .ok (some (readExfatFileEntryName data))
  | .exfatVolumeLabel => (readExfatVolumeLabel data).map some
  | entryType => .ok (some { create with entryType })

/-- `libfsfat_directory_entry_read_file_io_handle`. -/
def readFileIOHandle (image : List UInt8) (fileOffset : Int) (format : FileSystemFormat) :
    Except Error (Option DirectoryEntry) :=
  match readAt image fileOffset directoryEntrySize with
  | none => .error .readFailed
  | some data => readData data format

/-- The bytes up to and with the first two-byte unit that is zero. -/
def upToZeroUnit : List UInt8 → List UInt8
  | a :: b :: rest => if a = 0 ∧ b = 0 then [a, b] else a :: b :: upToZeroUnit rest
  | _ => []

/-- A name that is put together from name entries: the end of string is the
first zero unit, at the latest the one that is put behind the last segment. -/
def setNameFromSegments (maximum : Nat) (segments : List (List UInt8)) (entry : DirectoryEntry) :
    Except Error DirectoryEntry :=
  if entry.name.isSome then .error .nameAlreadySet
  else if segments.length = 0 ∨ segments.length > maximum then
    .error .numberOfNameEntriesOutOfBounds
  else
    let name := upToZeroUnit (segments.flatten ++ [0, 0])
    .ok { entry with name := some name, nameSize := name.length, isUnicode := true }

/-- `libfsfat_directory_entry_get_name_from_exfat_file_name_entries`. -/
def getNameFromExfatFileNameEntries (entry : DirectoryEntry) (nameEntries : List (List UInt8)) :
    Except Error DirectoryEntry :=
  entry.setNameFromSegments 9 (nameEntries.map (·.take 30))

/-- `libfsfat_directory_entry_get_name_from_vfat_long_file_name_entries`. -/
def getNameFromVfatLongFileNameEntries (entry : DirectoryEntry)
    (nameEntries : List (List UInt8)) : Except Error DirectoryEntry :=
  entry.setNameFromSegments 20 (nameEntries.reverse.map (·.take 26))

/-- The characters of a short name or extension, up to the first space. -/
def upToSpace (characters : List UInt8) : List UInt8 :=
  characters.takeWhile (· ≠ 0x20)

/-- The short name: eight characters, and after a dot three more. A volume
label has no dot. -/
def shortNameOf (nameData : List UInt8) (isVolumeLabel : Bool) : List UInt8 :=
  let extension := upToSpace (field nameData 8 3)
  let dot : List UInt8 := if extension.isEmpty || isVolumeLabel then [] else [0x2e]
  upToSpace (field nameData 0 8) ++ dot ++ extension ++ [0]

/-- `libfsfat_directory_entry_get_name`. -/
def getName (entry : DirectoryEntry) : Except Error DirectoryEntry :=
  if entry.name.isSome then .error .nameAlreadySet
  else
    match entry.nameEntries with
    | some nameEntries => entry.getNameFromExfatFileNameEntries nameEntries
    | none =>
      match entry.entryType with
      | .shortName =>
        let isVolumeLabel := entry.fileAttributeFlags &&& fileAttributeFlagVolumeLabel ≠ 0
        let name := shortNameOf entry.nameData isVolumeLabel
        .ok { entry with name := some name, nameSize := name.length, isUnicode := false }
      | .exfatVolumeLabel =>
        let name := entry.nameData.take entry.nameSize ++ [0, 0]
        .ok { entry with name := some name, nameSize := name.length, isUnicode := true }
      | _ => .ok entry

/-- The name is determined when it is first asked for. -/
def determineName (entry : DirectoryEntry) : Except Error DirectoryEntry :=
  if entry.name.isNone then entry.getName else .ok entry

/-- `libfsfat_directory_entry_clone`. The copy has no name entries. -/
def clone (entry : DirectoryEntry) : Except Error DirectoryEntry := do
  let entry ← entry.determineName
  pure { entry with nameEntries := none }

end DirectoryEntry

end FsFat
