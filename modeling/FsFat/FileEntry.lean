import FsFat.DirectoryEntryLookup
import FsFat.Volume

/-!
File entries: `libfsfat_file_entry.c`, and the function of
`libfsfat_file_system.c` that gets one by its identifier. The identifier of a
file entry is the offset of its directory entry. The root directory has none,
and has the offset that the I/O handle keeps for it as its identifier.
-/

namespace FsFat

/-- `libfsfat_internal_file_entry_t`, without what is read later. -/
structure FileEntry where
  identifier : Nat
  directoryEntry : Option DirectoryEntry
  fileAttributeFlags : Nat
  clusterNumber : Nat
  dataSize : Nat
  directory : Option Directory
  deriving DecidableEq

namespace FileEntry

/-- `libfsfat_file_entry_initialize`. -/
def create (identifier : Nat) (directoryEntry : Option DirectoryEntry)
    (directory : Option Directory) : FileEntry where
  identifier := identifier
  directoryEntry := directoryEntry
  fileAttributeFlags := directoryEntry.elim 0 (·.fileAttributeFlags)
  clusterNumber := directoryEntry.elim 0 (·.dataStartCluster)
  dataSize := directoryEntry.elim 0 fun entry =>
    if entry.validDataSize > 0 then entry.validDataSize else entry.dataSize
  directory := directory

@[simp] theorem create_identifier (identifier : Nat) (entry : Option DirectoryEntry)
    (directory : Option Directory) : (create identifier entry directory).identifier = identifier :=
  rfl

@[simp] theorem create_directoryEntry (identifier : Nat) (entry : Option DirectoryEntry)
    (directory : Option Directory) : (create identifier entry directory).directoryEntry = entry :=
  rfl

/-- The file entry is that of the root directory: only it has no directory
entry. -/
def IsRoot (fileEntry : FileEntry) : Prop := fileEntry.directoryEntry = none

/-- `libfsfat_internal_file_entry_get_directory`, unless it is set already. -/
def getDirectory (fs : FileSystem) (image : List UInt8) (fileEntry : FileEntry) :
    Except Error (Option Directory) :=
  match fileEntry.directory with
  | some directory => .ok (some directory)
  | none =>
    if fileEntry.fileAttributeFlags &&& fileAttributeFlagDirectory ≠ 0 then
      (readDirectory fs image (fileEntry.directoryEntry.elim 0 (·.dataStartCluster))).map some
    else .ok none

/-- `libfsfat_file_entry_get_number_of_sub_file_entries`. -/
def getNumberOfSubFileEntries (fs : FileSystem) (image : List UInt8) (fileEntry : FileEntry) :
    Except Error Nat :=
  (fileEntry.getDirectory fs image).map fun directory =>
    directory.elim 0 (·.getNumberOfFileEntries)

/-- `libfsfat_internal_file_entry_get_sub_file_entry_by_index`. -/
def getSubFileEntryByIndex (fs : FileSystem) (image : List UInt8) (fileEntry : FileEntry)
    (subFileEntryIndex : Nat) : Except Error FileEntry := do
  match ← fileEntry.getDirectory fs image with
  | none => .error .missingDirectory
  | some directory =>
    let subDirectoryEntry ← directory.getFileEntryByIndex subFileEntryIndex
    let safeDirectoryEntry ← subDirectoryEntry.clone
    pure (create subDirectoryEntry.identifier (some safeDirectoryEntry) none)

end FileEntry

/-- The identifier of the root directory, a `uint64_t`. -/
def rootIdentifier (ioHandle : IoHandle) : Nat := toUint64 ioHandle.rootDirectoryOffset

/-- `libfsfat_file_system_get_root_directory`. -/
def getRootDirectory (fs : FileSystem) (root : Directory) : FileEntry :=
  .create (rootIdentifier fs.ioHandle) none (some root)

/-- From the lookup of a directory entry to its file entry. Anything but the
result 1 is an error. -/
def ofLookup (identifier : Nat) : Except Error (Option DirectoryEntry) → Except Error FileEntry
  | .error e => .error e
  | .ok none => .error .readFailed
  | .ok (some entry) => .ok (.create identifier (some entry) none)

theorem ofLookup_eq_ok {identifier : Nat} {result : Except Error (Option DirectoryEntry)}
    {fileEntry : FileEntry} (h : ofLookup identifier result = .ok fileEntry) :
    ∃ entry, fileEntry = .create identifier (some entry) none := by
  match result with
  | .error _ => cases h
  | .ok none => cases h
  | .ok (some entry) => exact ⟨entry, (Except.ok.inj h).symm⟩

/-- The results of `libfsfat_file_system_get_file_entry_by_identifier`. -/
inductive GetsFileEntryByIdentifier (fs : FileSystem) (root : Directory) (image : List UInt8)
    (identifier : Nat) : Except Error FileEntry → Prop where
  | root : toOff64 identifier = fs.ioHandle.rootDirectoryOffset →
      GetsFileEntryByIdentifier fs root image identifier
        (.ok (.create identifier none (some root)))
  | lookup {result : Except Error (Option DirectoryEntry)} :
      toOff64 identifier ≠ fs.ioHandle.rootDirectoryOffset →
      LookupReturns fs image identifier result →
      GetsFileEntryByIdentifier fs root image identifier (ofLookup identifier result)

/-- Only one identifier leads to the root directory. -/
theorem GetsFileEntryByIdentifier.isRoot_iff {fs : FileSystem} {root : Directory}
    {image : List UInt8} {identifier : Nat} {fileEntry : FileEntry}
    (h : GetsFileEntryByIdentifier fs root image identifier (.ok fileEntry)) :
    fileEntry.IsRoot ↔ toOff64 identifier = fs.ioHandle.rootDirectoryOffset := by
  generalize hresult : (Except.ok fileEntry : Except Error FileEntry) = result at h
  cases h with
  | root hroot =>
    refine iff_of_true ?_ hroot
    rw [FileEntry.IsRoot, Except.ok.inj hresult, FileEntry.create_directoryEntry]
  | @lookup result hne _ =>
    refine iff_of_false ?_ hne
    obtain ⟨entry, hentry⟩ := ofLookup_eq_ok hresult.symm
    rw [FileEntry.IsRoot, hentry, FileEntry.create_directoryEntry]
    exact Option.some_ne_none entry

end FsFat
