import FsFat.EntryIdentifiers
import FsFat.Lib.Session

/-!
The life of a volume: `libfsfat_volume.c`, the functions that open, close and
free it, and the check of a signature in `libfsfat_support.c`. They open, close
and free handles of libbfio. Whatever sequence of calls was made and whatever
failed in it, a volume that is not open has no handle of its own left, and a
handle of the caller is as the caller left it, unless libbfio failed to close it.
-/

namespace FsFat

open Bytes

/-- A handle of libbfio, that a caller made or that the library made. -/
inductive HandleName where
  | caller (number : Nat)
  | library (number : Nat)
  deriving DecidableEq

/-- What a call gets from elsewhere. Where libbfio is asked to close a handle twice in a call,
the second answer is the one for the second time. -/
structure BfioAnswers where
  data : List UInt8
  isOpenError : Option Error
  openError : Option Error
  getSize : Except Error Nat
  closeError : Option Error
  closeAgainError : Option Error
  createFileSystem : Except Error Unit
  freshMemory : Nat → UInt8

namespace BfioAnswers

/-- The result of a function of libbfio, or its error. -/
def orError {α : Type} (error : Option Error) (value : α) : Except Error α :=
  match error with
  | some e => .error e
  | none => .ok value

/-- The file of a handle that is open or not. -/
def file (answers : BfioAnswers) (isOpen : Bool) : FileIOHandle where
  data := answers.data
  isOpen := orError answers.isOpenError isOpen
  openResult := orError answers.openError ()
  getSize := answers.getSize

def environment (answers : BfioAnswers) (isOpen : Bool) : OpenEnvironment where
  file := answers.file isOpen
  createFileSystem := answers.createFileSystem
  freshMemory := answers.freshMemory

end BfioAnswers

/-- A volume, with the handles of libbfio. What the caller left open of its own, and which handles
libbfio failed to close, is kept for the statements only. -/
structure VolumeSession where
  volume : Volume
  fileIOHandle : Option HandleName
  fileIOHandleCreatedInLibrary : Bool
  abort : Bool
  isOpen : HandleName → Bool
  libraryHandles : List Nat
  nextHandle : Nat
  leftOpen : Nat → Bool
  closeFailed : HandleName → Bool

namespace VolumeSession

/-- A new volume, and no handle that is open. -/
def create : VolumeSession where
  volume := .create
  fileIOHandle := none
  fileIOHandleCreatedInLibrary := false
  abort := false
  isOpen _ := false
  libraryHandles := []
  nextHandle := 0
  leftOpen _ := false
  closeFailed _ := false

/-! ### The functions of libbfio -/

def setOpen (handle : HandleName) (value : Bool) (s : VolumeSession) : VolumeSession :=
  { s with isOpen := Function.update s.isOpen handle value }

/-- `libbfio_handle_close`, and whether it succeeds. -/
def closeHandle (handle : HandleName) (error : Option Error) (s : VolumeSession) :
    Bool × VolumeSession :=
  match error with
  | none => (true, s.setOpen handle false)
  | some _ => (false, { s with closeFailed := Function.update s.closeFailed handle true })

/-- `libbfio_handle_free`. It closes an open handle. -/
def freeHandle (handle : HandleName) (s : VolumeSession) : VolumeSession :=
  { s.setOpen handle false with
    libraryHandles := s.libraryHandles.filter (HandleName.library · ≠ handle) }

/-- `libbfio_file_initialize`. -/
def initializeHandle (s : VolumeSession) : VolumeSession :=
  { s.setOpen (.library s.nextHandle) false with
    libraryHandles := s.nextHandle :: s.libraryHandles
    nextHandle := s.nextHandle + 1 }

/-- A handle that is not open is opened. The value says whether it was. -/
def openHandle (handle : HandleName) (answers : BfioAnswers) (s : VolumeSession) :
    Except Error Bool × VolumeSession :=
  match answers.isOpenError with
  | some e => (.error e, s)
  | none =>
    if s.isOpen handle then (.ok false, s)
    else
      match answers.openError with
      | some e => (.error e, s)
      | none => (.ok true, s.setOpen handle true)

/-! ### Opening and closing -/

/-- `libfsfat_volume_open_file_io_handle`. -/
def openFileIOHandle (handle : HandleName) (answers : BfioAnswers) (accessFlags : BitVec 32)
    (s : VolumeSession) : Except Error Unit × VolumeSession :=
  if s.fileIOHandle.isSome then (.error .fileIOHandleAlreadySet, s)
  else if accessFlags &&& accessFlagRead = 0 ∧ accessFlags &&& accessFlagWrite = 0 then
    (.error .unsupportedAccessFlags, s)
  else if accessFlags &&& accessFlagWrite ≠ 0 then (.error .unsupportedAccessFlags, s)
  else
    let environment := answers.environment (s.isOpen handle)
    match s.openHandle handle answers with
    | (.error e, s) => (.error e, s)
    | (.ok openedInLibrary, s) =>
      match s.volume.openRead environment with
      | (.error e, volume) =>
        let s := { s with volume }
        (.error e, if openedInLibrary then (s.closeHandle handle answers.closeError).2 else s)
      | (.ok (), volume) =>
        (.ok (),
          { s with
            volume :=
              { volume with
                fileIOHandle := some environment.file
                fileIOHandleOpenedInLibrary := openedInLibrary }
            fileIOHandle := some handle })

/-- `libfsfat_volume_open` and `libfsfat_volume_open_wide`. The name of the file may be refused. -/
def openFile (setNameError : Option Error) (answers : BfioAnswers) (accessFlags : BitVec 32)
    (s : VolumeSession) : Except Error Unit × VolumeSession :=
  if accessFlags &&& accessFlagRead = 0 ∧ accessFlags &&& accessFlagWrite = 0 then
    (.error .unsupportedAccessFlags, s)
  else if accessFlags &&& accessFlagWrite ≠ 0 then (.error .unsupportedAccessFlags, s)
  else
    let number := s.nextHandle
    let s := s.initializeHandle
    match setNameError with
    | some e => (.error e, s.freeHandle (.library number))
    | none =>
      match s.openFileIOHandle (.library number) answers accessFlags with
      | (.error e, s) => (.error e, s.freeHandle (.library number))
      | (.ok (), s) => (.ok (), { s with fileIOHandleCreatedInLibrary := true })

/-- The part of `libfsfat_volume_close` that closes a handle that the library opened. -/
def closeOpenedHandle (handle : HandleName) (answers : BfioAnswers) (s : VolumeSession) :
    Bool × VolumeSession :=
  if s.volume.fileIOHandleOpenedInLibrary then s.closeHandle handle answers.closeError
  else (true, s)

/-- `libfsfat_volume_close`, and whether it succeeds. The I/O handle is cleared and the file system
freed also where a handle is not closed. -/
def close (answers : BfioAnswers) (s : VolumeSession) : Bool × VolumeSession :=
  match s.fileIOHandle with
  | none => (false, s)
  | some handle =>
    let (isClosed, s) := s.closeOpenedHandle handle answers
    let s := if s.fileIOHandleCreatedInLibrary then s.freeHandle handle else s
    (isClosed,
      { s with
        volume := .create
        fileIOHandle := none
        fileIOHandleCreatedInLibrary := false
        abort := false })

/-- `libfsfat_volume_free`, and `libfsfat_volume_initialize` of another volume. -/
def free (answers : BfioAnswers) (s : VolumeSession) : Bool × VolumeSession :=
  let (isClosed, s) := if s.fileIOHandle.isSome then s.close answers else (true, s)
  (isClosed, { s with volume := .create, abort := false })

/-- `libfsfat_volume_signal_abort`. -/
def signalAbort (s : VolumeSession) : VolumeSession := { s with abort := true }

/-! ### The signature -/

/-- `libfsfat_check_volume_signature_file_io_handle`. -/
def checkVolumeSignatureFileIOHandle (handle : HandleName) (answers : BfioAnswers)
    (s : VolumeSession) : Except Error Bool × VolumeSession :=
  match answers.isOpenError with
  | some e => (.error e, s)
  | none =>
    let isOpen := s.isOpen handle
    match s.openHandle handle answers with
    | (.error e, s) =>
      -- the handle is closed here although it was not opened
      (.error e, (s.closeHandle handle answers.closeError).2)
    | (.ok _, s) =>
      match readAt answers.data 510 2 with
      | none =>
        (.error .readFailed,
          if isOpen then s else (s.closeHandle handle answers.closeError).2)
      | some signature =>
        let (isClosed, s) :=
          if isOpen then (true, s) else s.closeHandle handle answers.closeError
        if isClosed then (.ok (signature = [0x55, 0xaa]), s)
        else (.error .readFailed, (s.closeHandle handle answers.closeAgainError).2)

/-- `libfsfat_check_volume_signature` and `libfsfat_check_volume_signature_wide`. -/
def checkVolumeSignature (setNameError : Option Error) (answers : BfioAnswers)
    (s : VolumeSession) : Except Error Bool × VolumeSession :=
  let number := s.nextHandle
  let s := s.initializeHandle
  match setNameError with
  | some e => (.error e, s.freeHandle (.library number))
  | none =>
    let (result, s) := s.checkVolumeSignatureFileIOHandle (.library number) answers
    (result, s.freeHandle (.library number))

end VolumeSession

/-! ### The calls -/

/-- The caller opens or closes a handle of its own that the volume does not have with
`leaveHandle`. -/
inductive VolumeRequest where
  | openFile (setNameError : Option Error) (answers : BfioAnswers) (accessFlags : BitVec 32)
  | openFileIOHandle (number : Nat) (answers : BfioAnswers) (accessFlags : BitVec 32)
  | close (answers : BfioAnswers)
  | free (answers : BfioAnswers)
  | signalAbort
  | checkVolumeSignature (setNameError : Option Error) (answers : BfioAnswers)
  | checkVolumeSignatureFileIOHandle (number : Nat) (answers : BfioAnswers)
  | leaveHandle (number : Nat) (isOpen : Bool)

inductive VolumeResponse where
  | opened (result : Except Error Unit)
  | closed (isClosed : Bool)
  | checked (result : Except Error Bool)
  | done

namespace VolumeSession

def leaveHandle (number : Nat) (isOpen : Bool) (s : VolumeSession) : VolumeSession :=
  if s.fileIOHandle = some (.caller number) then s
  else
    { s.setOpen (.caller number) isOpen with
      leftOpen := Function.update s.leftOpen number isOpen
      closeFailed := Function.update s.closeFailed (.caller number) false }

def respond (s : VolumeSession) : VolumeRequest → VolumeSession × VolumeResponse
  | .openFile setNameError answers accessFlags =>
    let (result, s) := s.openFile setNameError answers accessFlags
    (s, .opened result)
  | .openFileIOHandle number answers accessFlags =>
    let (result, s) := s.openFileIOHandle (.caller number) answers accessFlags
    (s, .opened result)
  | .close answers =>
    let (isClosed, s) := s.close answers
    (s, .closed isClosed)
  | .free answers =>
    let (isClosed, s) := s.free answers
    (s, .closed isClosed)
  | .signalAbort => (s.signalAbort, .done)
  | .checkVolumeSignature setNameError answers =>
    let (result, s) := s.checkVolumeSignature setNameError answers
    (s, .checked result)
  | .checkVolumeSignatureFileIOHandle number answers =>
    let (result, s) := s.checkVolumeSignatureFileIOHandle (.caller number) answers
    (s, .checked result)
  | .leaveHandle number isOpen => (s.leaveHandle number isOpen, .done)

end VolumeSession

/-- An accepted boot record ends with the signature. -/
theorem BootRecord.readAt_signature {image : List UInt8} {bootRecord : BootRecord}
    (h : BootRecord.readFileIOHandle image 0 = .ok bootRecord) :
    readAt image 510 2 = some [0x55, 0xaa] := by
  unfold BootRecord.readFileIOHandle at h
  split at h
  · cases h
  next data hread =>
  unfold BootRecord.readData at h
  split at h
  · cases h
  next hlength =>
  split at h
  · cases h
  next hsignature =>
  have hlength : data.length = 512 := not_not.mp hlength
  obtain ⟨hfirst, hsecond⟩ := not_or.mp hsignature
  have hvalue : ∀ (index : Nat) (h : index < data.length) (value : UInt8),
      byteAt data index = value.toNat → data[index] = value := by
    intro index h value hbyte
    rw [byteAt, List.getD_eq_getElem _ _ h] at hbyte
    exact UInt8.toNat_inj.mp hbyte
  have hdrop : data.drop 510 = 0x55 :: 0xaa :: data.drop 512 := by
    rw [List.drop_eq_getElem_cons (by omega), List.drop_eq_getElem_cons (by omega),
      hvalue 510 (by omega) 0x55 (not_not.mp hfirst),
      hvalue 511 (by omega) 0xaa (not_not.mp hsecond)]
  have hsub := readAt_sub hread 510 2 (by decide)
  rwa [hdrop] at hsub

/-! ### Opening anew -/

namespace Volume

variable {env : OpenEnvironment} {volume opened : Volume}

theorem openRead_ok (h : openRead env volume = (.ok (), opened)) :
    (∃ bootRecord, BootRecord.readFileIOHandle env.file.data 0 = .ok bootRecord) ∧
      ∃ fs root, opened.fileSystem = some ⟨some fs, some root⟩ := by
  unfold openRead at h
  split at h
  · injection h with h _
    cases h
  split at h
  · injection h with h _
    cases h
  · next hsteps =>
    injection h with _ hopened
    obtain ⟨bootRecord, fs, root, hopens, _, hfs⟩ := openReadSteps_ok hsteps
    rw [hopened] at hfs
    exact ⟨⟨bootRecord, hopens.record⟩, fs, root, hfs⟩

/-- Opening a volume writes all that an earlier call left in it. -/
theorem openRead_eq_create (env : OpenEnvironment) (hclosed : volume.IsClosed) :
    (openRead env volume).1 = (openRead env create).1 ∧
      ((openRead env volume).1 = .ok () → (openRead env volume).2 = (openRead env create).2) := by
  obtain ⟨ioHandle, fileIOHandle, openedInLibrary, fileSystem⟩ := volume
  obtain ⟨hfileIOHandle, hopenedInLibrary, hfileSystem⟩ := hclosed
  subst hfileIOHandle hopenedInLibrary hfileSystem
  unfold openRead openReadSteps
  cases env.file.getSize with
  | error e => exact ⟨rfl, fun h => by cases h⟩
  | ok size =>
    cases hrecord : BootRecord.readFileIOHandle env.file.data 0 with
    | error e => exact ⟨rfl, fun h => by simp at h⟩
    | ok bootRecord => exact ⟨rfl, fun _ => rfl⟩

theorem openFileIOHandle_eq_create (env : OpenEnvironment) (accessFlags : BitVec 32)
    (hclosed : volume.IsClosed) :
    (openFileIOHandle env accessFlags volume).1 = (openFileIOHandle env accessFlags create).1 ∧
      ((openFileIOHandle env accessFlags volume).1 = .ok () →
        (openFileIOHandle env accessFlags volume).2 =
          (openFileIOHandle env accessFlags create).2) := by
  have hread := openRead_eq_create env hclosed
  have hnone : ¬ volume.fileIOHandle.isSome = true := by simp [hclosed.fileIOHandle]
  have hcreate : ¬ create.fileIOHandle.isSome = true := by simp [create]
  unfold openFileIOHandle
  rw [if_neg hnone, if_neg hcreate]
  split
  · exact ⟨rfl, fun h => by cases h⟩
  split
  · exact ⟨rfl, fun h => by cases h⟩
  cases openFile env.file with
  | error e => exact ⟨rfl, fun h => by cases h⟩
  | ok openedInLibrary =>
    dsimp only
    revert hread
    cases openRead env volume with
    | mk result left =>
      cases openRead env create with
      | mk resultNew new =>
        rintro ⟨hresult, hleft⟩
        dsimp only at hresult
        subst hresult
        cases result with
        | error e => exact ⟨rfl, fun h => by cases h⟩
        | ok _ =>
          have hsame : left = new := hleft rfl
          rw [hsame]
          exact ⟨rfl, fun _ => rfl⟩

end Volume

namespace VolumeSession

/-! ### What a call does to a handle -/

/-- The session with other values for a handle. -/
def withHandle (handle : HandleName) (isOpen closeFailed : Bool) (s : VolumeSession) :
    VolumeSession :=
  { s with
    isOpen := Function.update s.isOpen handle isOpen
    closeFailed := Function.update s.closeFailed handle closeFailed }

/-- The handle is as it was, unless libbfio failed to close it, and nothing else is changed. -/
structure Returned (handle : HandleName) (s after : VolumeSession) : Prop where
  rest : ∃ isOpen closeFailed, after = s.withHandle handle isOpen closeFailed
  returned : after.closeFailed handle = false →
    after.isOpen handle = s.isOpen handle ∧ s.closeFailed handle = false
  stillOpen : s.isOpen handle = true → after.isOpen handle = true

section Calls

variable {s : VolumeSession} {handle : HandleName} {answers : BfioAnswers}
variable {accessFlags : BitVec 32}

theorem withHandle_self (s : VolumeSession) (handle : HandleName) :
    s.withHandle handle (s.isOpen handle) (s.closeFailed handle) = s := by
  simp [withHandle]

theorem Returned.refl (s : VolumeSession) (handle : HandleName) : Returned handle s s :=
  ⟨⟨_, _, (withHandle_self s handle).symm⟩, fun h => ⟨rfl, h⟩, id⟩

/-- A handle that is not open. A call may open it, close it, or fail to close it. -/
theorem Returned.of_closed {isOpen closeFailed : Bool} (hclosed : s.isOpen handle = false)
    (hreturned : closeFailed = false → isOpen = false ∧ s.closeFailed handle = false) :
    Returned handle s (s.withHandle handle isOpen closeFailed) := by
  refine ⟨⟨isOpen, closeFailed, rfl⟩, ?_, ?_⟩
  · intro hnot
    simp only [withHandle, Function.update_self] at hnot ⊢
    obtain ⟨hisOpen, hbefore⟩ := hreturned hnot
    exact ⟨hisOpen.trans hclosed.symm, hbefore⟩
  · intro hopen
    rw [hclosed] at hopen
    cases hopen

/-- A handle that is not open, and that is closed after it may have been opened. -/
theorem Returned.closeHandle {isOpen : Bool} (hclosed : s.isOpen handle = false)
    (error : Option Error) :
    Returned handle s ((s.setOpen handle isOpen).closeHandle handle error).2 := by
  cases error with
  | none =>
    have hafter : ((s.setOpen handle isOpen).closeHandle handle none).2 =
        s.withHandle handle false (s.closeFailed handle) := by
      simp [VolumeSession.closeHandle, setOpen, withHandle]
    rw [hafter]
    exact .of_closed hclosed fun hbefore => ⟨rfl, hbefore⟩
  | some e => exact .of_closed hclosed fun hfailed => by cases hfailed

/-- A handle that libbfio failed to close, and that it is asked to close again. -/
theorem Returned.closeHandle_again {isOpen : Bool} (hclosed : s.isOpen handle = false)
    (e : Error) (error : Option Error) :
    Returned handle s
      (((s.setOpen handle isOpen).closeHandle handle (some e)).2.closeHandle handle error).2 := by
  have hafter : ∃ isOpen', (((s.setOpen handle isOpen).closeHandle handle
      (some e)).2.closeHandle handle error).2 = s.withHandle handle isOpen' true := by
    cases error with
    | none => exact ⟨false, by simp [VolumeSession.closeHandle, setOpen, withHandle]⟩
    | some e' => exact ⟨isOpen, by simp [VolumeSession.closeHandle, setOpen, withHandle]⟩
  obtain ⟨isOpen', hafter⟩ := hafter
  rw [hafter]
  exact .of_closed hclosed fun hfailed => by cases hfailed

/-- Opening a handle fails, finds it open, or opens it. -/
theorem openHandle_cases (s : VolumeSession) (handle : HandleName) (answers : BfioAnswers) :
    (∃ e, s.openHandle handle answers = (.error e, s) ∧
      Volume.openFile (answers.file (s.isOpen handle)) = .error e) ∨
    (s.isOpen handle = true ∧ s.openHandle handle answers = (.ok false, s) ∧
      Volume.openFile (answers.file (s.isOpen handle)) = .ok false) ∨
    (s.isOpen handle = false ∧ s.openHandle handle answers = (.ok true, s.setOpen handle true) ∧
      Volume.openFile (answers.file (s.isOpen handle)) = .ok true) := by
  unfold openHandle Volume.openFile BfioAnswers.file
  cases answers.isOpenError with
  | some e => exact Or.inl ⟨e, rfl, rfl⟩
  | none =>
    cases hopen : s.isOpen handle with
    | true => exact Or.inr (Or.inl ⟨rfl, rfl, rfl⟩)
    | false =>
      cases answers.openError with
      | some e => exact Or.inl ⟨e, rfl, rfl⟩
      | none => exact Or.inr (Or.inr ⟨rfl, rfl, rfl⟩)

@[simp] theorem closeHandle_volume (handle : HandleName) (error : Option Error)
    (s : VolumeSession) : (s.closeHandle handle error).2.volume = s.volume := by
  cases error <;> rfl

theorem openFileIOHandle_of_isSome (h : s.fileIOHandle.isSome) :
    s.openFileIOHandle handle answers accessFlags = (.error .fileIOHandleAlreadySet, s) := by
  rw [openFileIOHandle, if_pos h]

/-- The session opens its volume as `libfsfat_volume_open_file_io_handle` says. -/
theorem openFileIOHandle_volume (handle : HandleName) (answers : BfioAnswers)
    (accessFlags : BitVec 32)
    (hsame : s.volume.fileIOHandle.isSome = s.fileIOHandle.isSome) :
    (s.openFileIOHandle handle answers accessFlags).1 =
        (s.volume.openFileIOHandle (answers.environment (s.isOpen handle)) accessFlags).1 ∧
      (s.openFileIOHandle handle answers accessFlags).2.volume =
        (s.volume.openFileIOHandle (answers.environment (s.isOpen handle)) accessFlags).2 := by
  unfold openFileIOHandle Volume.openFileIOHandle
  rw [hsame]
  split
  · exact ⟨rfl, rfl⟩
  split
  · exact ⟨rfl, rfl⟩
  split
  · exact ⟨rfl, rfl⟩
  have hfile : (answers.environment (s.isOpen handle)).file = answers.file (s.isOpen handle) := rfl
  rcases openHandle_cases s handle answers with ⟨e, hopen, hvolume⟩ | ⟨_, hopen, hvolume⟩ |
    ⟨_, hopen, hvolume⟩
  · rw [hopen, hfile, hvolume]
    exact ⟨rfl, rfl⟩
  · rw [hopen, hfile, hvolume]
    dsimp only
    cases s.volume.openRead (answers.environment (s.isOpen handle)) with
    | mk result volume => cases result <;> exact ⟨rfl, rfl⟩
  · rw [hopen, hfile, hvolume]
    have hkept : (s.setOpen handle true).volume = s.volume := rfl
    dsimp only
    rw [hkept]
    cases s.volume.openRead (answers.environment (s.isOpen handle)) with
    | mk result volume =>
      cases result with
      | error e => exact ⟨rfl, closeHandle_volume _ _ _⟩
      | ok _ => exact ⟨rfl, rfl⟩

theorem isOpenError_of_openFile {isOpen openedInLibrary : Bool}
    (h : Volume.openFile (answers.file isOpen) = .ok openedInLibrary) :
    answers.isOpenError = none := by
  cases hanswer : answers.isOpenError with
  | none => rfl
  | some e => simp [Volume.openFile, BfioAnswers.file, BfioAnswers.orError, hanswer] at h

/-- What opening does. It is refused before the volume is read, or reading the volume fails, and a
handle that was opened is closed, or the volume keeps the handle. -/
theorem openFileIOHandle_inversion (s : VolumeSession) (handle : HandleName)
    (answers : BfioAnswers) (accessFlags : BitVec 32) :
    (∃ e, s.openFileIOHandle handle answers accessFlags = (.error e, s)) ∨
    (∃ e volume after, s.openFileIOHandle handle answers accessFlags = (.error e, after) ∧
      s.volume.openRead (answers.environment (s.isOpen handle)) = (.error e, volume) ∧
      Returned handle { s with volume } after) ∨
    (∃ volume, s.openFileIOHandle handle answers accessFlags =
        (.ok (),
          { s with
            volume :=
              { volume with
                fileIOHandle := some (answers.file (s.isOpen handle))
                fileIOHandleOpenedInLibrary := !s.isOpen handle }
            isOpen := Function.update s.isOpen handle true
            fileIOHandle := some handle }) ∧
      s.volume.openRead (answers.environment (s.isOpen handle)) = (.ok (), volume) ∧
      answers.isOpenError = none) := by
  unfold openFileIOHandle
  split
  · exact Or.inl ⟨_, rfl⟩
  split
  · exact Or.inl ⟨_, rfl⟩
  split
  · exact Or.inl ⟨_, rfl⟩
  rcases openHandle_cases s handle answers with ⟨e, hopen, _⟩ | ⟨hisOpen, hopen, hfile⟩ |
    ⟨hisOpen, hopen, hfile⟩
  · rw [hopen]
    exact Or.inl ⟨e, rfl⟩
  · rw [hopen]
    dsimp only
    cases hread : s.volume.openRead (answers.environment (s.isOpen handle)) with
    | mk result volume =>
      cases result with
      | error e => exact Or.inr (Or.inl ⟨e, volume, _, rfl, rfl, Returned.refl _ handle⟩)
      | ok _ =>
        have hstill : Function.update s.isOpen handle true = s.isOpen := by
          rw [← hisOpen, Function.update_eq_self]
        refine Or.inr (Or.inr ⟨volume, ?_, rfl, isOpenError_of_openFile hfile⟩)
        rw [hstill, hisOpen]
        rfl
  · rw [hopen]
    dsimp only
    have hvolume : (s.setOpen handle true).volume = s.volume := rfl
    rw [hvolume]
    cases hread : s.volume.openRead (answers.environment (s.isOpen handle)) with
    | mk result volume =>
      cases result with
      | error e =>
        have hreturned : Returned handle { s with volume }
            ((VolumeSession.setOpen handle true { s with volume }).closeHandle handle
              answers.closeError).2 := Returned.closeHandle (s := { s with volume }) hisOpen _
        exact Or.inr (Or.inl ⟨e, volume, _, rfl, rfl, hreturned⟩)
      | ok _ =>
        refine Or.inr (Or.inr ⟨volume, ?_, rfl, isOpenError_of_openFile hfile⟩)
        rw [hisOpen]
        rfl

/-- A failing call leaves the volume closed and the handle as it was. A call that succeeds keeps
the handle, and opens it if it is not open. -/
theorem openFileIOHandle_cases (hclosed : s.volume.IsClosed) :
    (∃ e volume after, s.openFileIOHandle handle answers accessFlags = (.error e, after) ∧
      volume.IsClosed ∧ Returned handle { s with volume } after) ∨
    (∃ volume, s.openFileIOHandle handle answers accessFlags =
        (.ok (),
          { s with
            volume
            isOpen := Function.update s.isOpen handle true
            fileIOHandle := some handle }) ∧
      volume.fileIOHandle.isSome = true ∧
      volume.fileIOHandleOpenedInLibrary = !s.isOpen handle ∧
      ∃ fs root, volume.fileSystem = some ⟨some fs, some root⟩) := by
  rcases openFileIOHandle_inversion s handle answers accessFlags with
    ⟨e, hopen⟩ | ⟨e, volume, after, hopen, hread, hreturned⟩ | ⟨volume, hopen, hread, _⟩
  · exact Or.inl ⟨e, s.volume, s, hopen, hclosed, Returned.refl s handle⟩
  · refine Or.inl ⟨e, volume, after, hopen, ?_, hreturned⟩
    rw [Volume.openRead_error hclosed.fileSystem hread]
    exact ⟨hclosed.fileIOHandle, hclosed.openedInLibrary, hclosed.fileSystem⟩
  · exact Or.inr ⟨_, hopen, rfl, rfl, (Volume.openRead_ok hread).2⟩

/-- Checking a signature leaves the handle as it was. -/
theorem checkVolumeSignatureFileIOHandle_returned (s : VolumeSession) (handle : HandleName)
    (answers : BfioAnswers) :
    Returned handle s (s.checkVolumeSignatureFileIOHandle handle answers).2 := by
  unfold checkVolumeSignatureFileIOHandle
  cases hanswer : answers.isOpenError with
  | some e => exact Returned.refl s handle
  | none =>
  cases hisOpen : s.isOpen handle with
  | true =>
    have hopen : s.openHandle handle answers = (.ok false, s) := by
      simp [openHandle, hanswer, hisOpen]
    rw [hopen]
    dsimp only
    cases readAt answers.data 510 2 with
    | none => exact Returned.refl s handle
    | some signature => exact Returned.refl s handle
  | false =>
    rcases openHandle_cases s handle answers with ⟨e, hopen, _⟩ | ⟨htrue, _, _⟩ | ⟨_, hopen, _⟩
    · rw [hopen]
      have hreturned : Returned handle s
          ((s.setOpen handle false).closeHandle handle answers.closeError).2 :=
        Returned.closeHandle hisOpen answers.closeError
      rwa [setOpen, ← hisOpen, Function.update_eq_self] at hreturned
    · rw [hisOpen] at htrue
      cases htrue
    · rw [hopen]
      dsimp only
      cases readAt answers.data 510 2 with
      | none => exact Returned.closeHandle hisOpen answers.closeError
      | some signature =>
        cases hclose : answers.closeError with
        | none => exact Returned.closeHandle hisOpen none
        | some e => exact Returned.closeHandle_again hisOpen e answers.closeAgainError

end Calls

end VolumeSession

end FsFat
