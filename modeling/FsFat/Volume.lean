import FsFat.AllocationTableEntries

/-!
The volume: `libfsfat_volume.c`, the functions that open it. Opening writes the
I/O handle of the volume before it reads the allocation table and the root
directory, and a failure after that frees the file system but leaves the I/O
handle as it was written.
-/

namespace FsFat

/-- What the library asks `libbfio` about a file: its data, and the results of
the functions that open it and that get its size. -/
structure FileIOHandle where
  data : List UInt8
  isOpen : Except Error Bool
  openResult : Except Error Unit
  getSize : Except Error Nat

/-- The file system of a volume: the tables, once they are read, and the root
directory. -/
structure VolumeFileSystem where
  tables : Option FileSystem
  rootDirectory : Option Directory

/-- `libfsfat_internal_volume_t`. -/
structure Volume where
  ioHandle : IoHandle
  fileIOHandle : Option FileIOHandle
  fileIOHandleOpenedInLibrary : Bool
  fileSystem : Option VolumeFileSystem

/-- What opening a volume gets from elsewhere: the file, whether the cache and
the lock of a file system can be made, and the content of new memory. -/
structure OpenEnvironment where
  file : FileIOHandle
  createFileSystem : Except Error Unit
  freshMemory : Nat → UInt8

namespace Volume

/-- `libfsfat_volume_initialize`: all values are zero. -/
def create : Volume where
  ioHandle := ⟨0, .unknown, 0, 0, 0, 0, 0⟩
  fileIOHandle := none
  fileIOHandleOpenedInLibrary := false
  fileSystem := none

/-- `libfsfat_volume_get_file_system_format`. -/
def getFileSystemFormat (volume : Volume) : FileSystemFormat := volume.ioHandle.fileSystemFormat

/-- `libfsfat_file_system_read_allocation_table` and
`libfsfat_file_system_read_root_directory`, on the file system of the volume. -/
def readFileSystem (env : OpenEnvironment) (bootRecord : BootRecord) (volume : Volume) :
    Except Error Unit × Volume :=
  match readAllocationTable volume.ioHandle env.file.data env.freshMemory
      bootRecord.allocationTableOffset bootRecord.allocationTableSize with
  | .error e => (.error e, volume)
  | .ok fs =>
    let volume := { volume with fileSystem := some ⟨some fs, none⟩ }
    match readRootDirectory fs env.file.data bootRecord.rootDirectoryOffset
        bootRecord.rootDirectorySize bootRecord.rootDirectoryCluster with
    | .error e => (.error e, volume)
    | .ok directory => (.ok (), { volume with fileSystem := some ⟨some fs, some directory⟩ })

/-- The body of `libfsfat_internal_volume_open_read`, up to the label
`on_error`. -/
def openReadSteps (env : OpenEnvironment) (volume : Volume) : Except Error Unit × Volume :=
  match env.file.getSize with
  | .error e => (.error e, volume)
  | .ok size =>
    let volume := { volume with ioHandle := { volume.ioHandle with volumeSize := size } }
    match BootRecord.readFileIOHandle env.file.data 0 with
    | .error e => (.error e, volume)
    | .ok bootRecord =>
      let volume := { volume with ioHandle := bootRecord.ioHandle volume.ioHandle.volumeSize }
      match env.createFileSystem with
      | .error e => (.error e, volume)
      | .ok () =>
        readFileSystem env bootRecord { volume with fileSystem := some ⟨none, none⟩ }

/-- `libfsfat_internal_volume_open_read`. An error frees the file system. -/
def openRead (env : OpenEnvironment) (volume : Volume) : Except Error Unit × Volume :=
  if volume.fileSystem.isSome then (.error .fileSystemAlreadySet, volume)
  else
    match openReadSteps env volume with
    | (.error e, volume) => (.error e, { volume with fileSystem := none })
    | (.ok (), volume) => (.ok (), volume)

/-- The part of `libfsfat_volume_open_file_io_handle` that opens the file if it
is not open. The value says whether it did. -/
def openFile (file : FileIOHandle) : Except Error Bool :=
  match file.isOpen with
  | .error e => .error e
  | .ok true => .ok false
  | .ok false => file.openResult.map fun _ => true

/-- `libfsfat_volume_open_file_io_handle`. -/
def openFileIOHandle (env : OpenEnvironment) (accessFlags : BitVec 32) (volume : Volume) :
    Except Error Unit × Volume :=
  if volume.fileIOHandle.isSome then (.error .fileIOHandleAlreadySet, volume)
  else if accessFlags &&& accessFlagRead = 0 ∧ accessFlags &&& accessFlagWrite = 0 then
    (.error .unsupportedAccessFlags, volume)
  else if accessFlags &&& accessFlagWrite ≠ 0 then (.error .unsupportedAccessFlags, volume)
  else
    match openFile env.file with
    | .error e => (.error e, volume)
    | .ok openedInLibrary =>
      match openRead env volume with
      | (.error e, volume) => (.error e, volume)
      | (.ok (), volume) =>
        (.ok (), { volume with
          fileIOHandle := some env.file
          fileIOHandleOpenedInLibrary := openedInLibrary })

/-- A volume that is not open. -/
structure IsClosed (volume : Volume) : Prop where
  fileIOHandle : volume.fileIOHandle = none
  openedInLibrary : volume.fileIOHandleOpenedInLibrary = false
  fileSystem : volume.fileSystem = none

/-! ### An opened volume -/

/-- What a successful call has read. -/
structure Opens (env : OpenEnvironment) (bootRecord : BootRecord) (fs : FileSystem)
    (root : Directory) : Prop where
  record : BootRecord.readFileIOHandle env.file.data 0 = .ok bootRecord
  tables : ∃ size, env.file.getSize = .ok size ∧
    readAllocationTable (bootRecord.ioHandle size) env.file.data env.freshMemory
      bootRecord.allocationTableOffset bootRecord.allocationTableSize = .ok fs
  rootDirectory : readRootDirectory fs env.file.data bootRecord.rootDirectoryOffset
    bootRecord.rootDirectorySize bootRecord.rootDirectoryCluster = .ok root

section Opened

variable {env : OpenEnvironment} {volume opened : Volume}

theorem openReadSteps_ok (h : openReadSteps env volume = (.ok (), opened)) :
    ∃ bootRecord fs root, Opens env bootRecord fs root ∧ opened.ioHandle = fs.ioHandle ∧
      opened.fileSystem = some ⟨some fs, some root⟩ := by
  unfold openReadSteps at h
  cases hsize : env.file.getSize with
  | error e =>
    rw [hsize] at h
    injection h with h _
    cases h
  | ok size =>
  rw [hsize] at h
  cases hrecord : BootRecord.readFileIOHandle env.file.data 0 with
  | error e =>
    rw [hrecord] at h
    injection h with h _
    cases h
  | ok bootRecord =>
  rw [hrecord] at h
  cases hcreate : env.createFileSystem with
  | error e =>
    rw [hcreate] at h
    injection h with h _
    cases h
  | ok _ =>
  rw [hcreate] at h
  dsimp only [readFileSystem] at h
  cases htables : readAllocationTable (bootRecord.ioHandle size) env.file.data env.freshMemory
      bootRecord.allocationTableOffset bootRecord.allocationTableSize with
  | error e =>
    rw [htables] at h
    injection h with h _
    cases h
  | ok fs =>
  rw [htables] at h
  dsimp only at h
  cases hroot : readRootDirectory fs env.file.data bootRecord.rootDirectoryOffset
      bootRecord.rootDirectorySize bootRecord.rootDirectoryCluster with
  | error e =>
    rw [hroot] at h
    injection h with h _
    cases h
  | ok root =>
    rw [hroot] at h
    injection h with _ hopened
    refine ⟨bootRecord, fs, root, ⟨hrecord, ⟨size, hsize, htables⟩, hroot⟩, ?_, ?_⟩
    · rw [← hopened]
      exact (readAllocationTable_eq_ok htables).1.symm
    · rw [← hopened]

/-- Opening a volume reads its boot record, its tables and its root directory. -/
theorem openFileIOHandle_ok {accessFlags : BitVec 32}
    (h : openFileIOHandle env accessFlags volume = (.ok (), opened)) :
    ∃ bootRecord fs root, Opens env bootRecord fs root ∧ opened.ioHandle = fs.ioHandle ∧
      opened.fileSystem = some ⟨some fs, some root⟩ := by
  unfold openFileIOHandle at h
  split at h
  · injection h with h _
    cases h
  split at h
  · injection h with h _
    cases h
  split at h
  · injection h with h _
    cases h
  split at h
  · injection h with h _
    cases h
  next openedInLibrary _ =>
  cases hopen : openRead env volume with
  | mk result left =>
    rw [hopen] at h
    cases result with
    | error e =>
      injection h with h _
      cases h
    | ok _ =>
      injection h with _ hopened
      unfold openRead at hopen
      split at hopen
      · injection hopen with hopen _
        cases hopen
      · split at hopen
        · injection hopen with hopen _
          cases hopen
        · next hsteps =>
          injection hopen with _ hleft
          obtain ⟨bootRecord, fs, root, hopens, hio, hfs⟩ := openReadSteps_ok hsteps
          rw [hleft] at hio hfs
          rw [← hopened]
          exact ⟨bootRecord, fs, root, hopens, hio, hfs⟩

theorem Opens.isAccepted {bootRecord : BootRecord} {fs : FileSystem} {root : Directory}
    (h : Opens env bootRecord fs root) : ∃ data, BootRecord.readData data = .ok bootRecord := by
  have hread := h.record
  unfold BootRecord.readFileIOHandle at hread
  split at hread
  · cases hread
  · next data _ => exact ⟨data, hread⟩

theorem Opens.ioHandle {bootRecord : BootRecord} {fs : FileSystem} {root : Directory}
    (h : Opens env bootRecord fs root) : ∃ size, fs.ioHandle = bootRecord.ioHandle size := by
  obtain ⟨size, _, htables⟩ := h.tables
  exact ⟨size, (readAllocationTable_eq_ok htables).1⟩

end Opened

/-! ### What a failing call leaves behind -/

/-- The I/O handle after the last assignment to it that is reached. -/
def writtenIoHandle (file : FileIOHandle) (ioHandle : IoHandle) : IoHandle :=
  match file.getSize, BootRecord.readFileIOHandle file.data 0 with
  | .error _, _ => ioHandle
  | .ok size, .error _ => { ioHandle with volumeSize := size }
  | .ok size, .ok bootRecord => bootRecord.ioHandle size

/-- The call is refused before it asks for the size of the file. -/
def IsRefused (file : FileIOHandle) (accessFlags : BitVec 32) : Prop :=
  accessFlags &&& accessFlagRead = 0 ∨ accessFlags &&& accessFlagWrite ≠ 0 ∨
    ∃ e, openFile file = .error e

/-- The I/O handle has the values that are written to it already: the size of
the file, and with an accepted boot record the values of the boot record. -/
def HasWrittenValues (file : FileIOHandle) (ioHandle : IoHandle) : Prop :=
  ∀ size, file.getSize = .ok size → ioHandle.volumeSize = size ∧
    ∀ bootRecord, BootRecord.readFileIOHandle file.data 0 = .ok bootRecord →
      ioHandle = bootRecord.ioHandle size

section Open

variable {env : OpenEnvironment} {accessFlags : BitVec 32} {volume after : Volume} {e : Error}

theorem writtenIoHandle_eq_iff (file : FileIOHandle) (ioHandle : IoHandle) :
    writtenIoHandle file ioHandle = ioHandle ↔ HasWrittenValues file ioHandle := by
  unfold writtenIoHandle HasWrittenValues
  cases hsize : file.getSize with
  | error e => simp
  | ok size =>
    cases hrecord : BootRecord.readFileIOHandle file.data 0 with
    | error e =>
      constructor
      · intro h
        rintro _ ⟨⟩
        have hvolumeSize := congrArg IoHandle.volumeSize h
        exact ⟨hvolumeSize.symm, fun _ hok => by cases hok⟩
      · intro h
        rw [← (h size rfl).1]
    | ok bootRecord =>
      constructor
      · intro h
        rintro _ ⟨⟩
        have hvolumeSize := congrArg IoHandle.volumeSize h
        refine ⟨hvolumeSize.symm, ?_⟩
        rintro _ ⟨⟩
        exact h.symm
      · intro h
        exact ((h size rfl).2 bootRecord rfl).symm

theorem readFileSystem_state (env : OpenEnvironment) (bootRecord : BootRecord) (volume : Volume) :
    ∃ fileSystem, (readFileSystem env bootRecord volume).2 = { volume with fileSystem } := by
  unfold readFileSystem
  split
  · exact ⟨_, rfl⟩
  · dsimp only
    split
    · exact ⟨_, rfl⟩
    · exact ⟨_, rfl⟩

/-- The body writes the I/O handle and the file system, and nothing else. -/
theorem openReadSteps_state (env : OpenEnvironment) (volume : Volume) :
    ∃ fileSystem, (openReadSteps env volume).2 =
      { volume with ioHandle := writtenIoHandle env.file volume.ioHandle, fileSystem } := by
  unfold openReadSteps writtenIoHandle
  cases env.file.getSize with
  | error e => exact ⟨volume.fileSystem, rfl⟩
  | ok size =>
    cases BootRecord.readFileIOHandle env.file.data 0 with
    | error e => exact ⟨volume.fileSystem, rfl⟩
    | ok bootRecord =>
      cases env.createFileSystem with
      | error e => exact ⟨volume.fileSystem, rfl⟩
      | ok _ => exact readFileSystem_state env bootRecord _

/-- An error leaves the I/O handle as it was written. -/
theorem openRead_error (hclosed : volume.fileSystem = none)
    (h : openRead env volume = (.error e, after)) :
    after = { volume with ioHandle := writtenIoHandle env.file volume.ioHandle } := by
  obtain ⟨fileSystem, hstate⟩ := openReadSteps_state env volume
  unfold openRead at h
  rw [hclosed, if_neg (by decide)] at h
  cases hsteps : openReadSteps env volume with
  | mk result left =>
    rw [hsteps] at h hstate
    cases result with
    | error e' =>
      injection h with _ hafter
      have hleft : left = _ := hstate
      rw [← hafter, hleft, ← hclosed]
    | ok _ =>
      injection h with hresult _
      cases hresult

/-- A failing call on a volume that is not open: refused, or the I/O handle is
written. -/
theorem openFileIOHandle_error (hclosed : volume.IsClosed)
    (h : openFileIOHandle env accessFlags volume = (.error e, after)) :
    (IsRefused env.file accessFlags ∧ after = volume) ∨
      (¬ IsRefused env.file accessFlags ∧
        after = { volume with ioHandle := writtenIoHandle env.file volume.ioHandle }) := by
  unfold openFileIOHandle at h
  rw [hclosed.fileIOHandle, if_neg (by decide)] at h
  split at h
  · next hflags =>
    injection h with _ hafter
    exact Or.inl ⟨Or.inl hflags.1, hafter.symm⟩
  next hread =>
  split at h
  · next hwrite =>
    injection h with _ hafter
    exact Or.inl ⟨Or.inr (Or.inl hwrite), hafter.symm⟩
  next hwrite =>
  cases hfile : openFile env.file with
  | error e' =>
    rw [hfile] at h
    injection h with _ hafter
    exact Or.inl ⟨Or.inr (Or.inr ⟨e', hfile⟩), hafter.symm⟩
  | ok openedInLibrary =>
    rw [hfile] at h
    right
    constructor
    · rintro (hnone | hsome | ⟨e', herror⟩)
      · exact hread ⟨hnone, not_not.mp hwrite⟩
      · exact hwrite hsome
      · rw [hfile] at herror
        cases herror
    · cases hopen : openRead env volume with
      | mk result left =>
        rw [hopen] at h
        cases result with
        | error e' =>
          injection h with _ hafter
          rw [← hafter]
          exact openRead_error hclosed.fileSystem hopen
        | ok _ =>
          injection h with hresult _
          cases hresult

/-- A failing call leaves a closed volume closed. It leaves it as it was exactly
if it is refused, or if it writes to the I/O handle what is there already. -/
theorem openFileIOHandle_unchanged_iff (hclosed : volume.IsClosed)
    (h : openFileIOHandle env accessFlags volume = (.error e, after)) :
    after.IsClosed ∧
      (after = volume ↔
        IsRefused env.file accessFlags ∨ HasWrittenValues env.file volume.ioHandle) := by
  rcases openFileIOHandle_error hclosed h with ⟨hrefused, rfl⟩ | ⟨hrefused, rfl⟩
  · exact ⟨hclosed, iff_of_true rfl (Or.inl hrefused)⟩
  · refine ⟨⟨hclosed.fileIOHandle, hclosed.openedInLibrary, hclosed.fileSystem⟩, ?_⟩
    rw [or_iff_right hrefused, ← writtenIoHandle_eq_iff]
    constructor
    · intro hsame
      have hioHandle := congrArg ioHandle hsame
      exact hioHandle
    · intro hsame
      rw [hsame]

/-- The file has the boot record of a volume and nothing behind it. -/
def truncatedFile : FileIOHandle where
  data := BootRecord.exfatBootSector
  isOpen := .ok true
  openResult := .error .openFailed
  getSize := .ok 512

def truncatedEnvironment : OpenEnvironment where
  file := truncatedFile
  createFileSystem := .ok ()
  freshMemory _ := 0

theorem create_isClosed : create.IsClosed := ⟨rfl, rfl, rfl⟩

theorem open_truncatedFile :
    openFileIOHandle truncatedEnvironment accessFlagRead create = (.error .readFailed,
      (openFileIOHandle truncatedEnvironment accessFlagRead create).2) := by
  have hresult : (openFileIOHandle truncatedEnvironment accessFlagRead create).1 =
      .error .readFailed := by decide +kernel
  rw [← hresult]

/-- The boot record of the file says other values than a new volume has. -/
theorem openFileIOHandle_unchanged_iff_truncated :
    create.IsClosed ∧
    openFileIOHandle truncatedEnvironment accessFlagRead create = (.error .readFailed,
      (openFileIOHandle truncatedEnvironment accessFlagRead create).2) ∧
    (openFileIOHandle truncatedEnvironment accessFlagRead create).2.IsClosed ∧
    ((openFileIOHandle truncatedEnvironment accessFlagRead create).2 = create ↔
      IsRefused truncatedFile accessFlagRead ∨
        HasWrittenValues truncatedFile create.ioHandle) :=
  ⟨create_isClosed, open_truncatedFile,
    openFileIOHandle_unchanged_iff create_isClosed open_truncatedFile⟩

/-- Opening the file fails at the allocation table. The volume then says that it
is an exFAT volume, which it did not before. -/
theorem openFileIOHandle_leaves_format :
    create.IsClosed ∧
    (openFileIOHandle truncatedEnvironment accessFlagRead create).1 = .error .readFailed ∧
    create.getFileSystemFormat = .unknown ∧
    (openFileIOHandle truncatedEnvironment accessFlagRead create).2.getFileSystemFormat =
      .exfat ∧
    (openFileIOHandle truncatedEnvironment accessFlagRead create).2 ≠ create := by
  have hformat : (openFileIOHandle truncatedEnvironment accessFlagRead
      create).2.getFileSystemFormat = .exfat := by decide +kernel
  refine ⟨create_isClosed, by decide +kernel, rfl, hformat, ?_⟩
  intro hsame
  rw [hsame] at hformat
  cases hformat

end Open

end Volume

end FsFat
