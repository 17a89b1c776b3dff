import FsFat.FileEntryData
import FsFat.MountHandle

/-!
What FUSE is told of a mounted volume: `mount_fuse.c`, the functions that get the
values of a path and that list a directory. The root directory has no times, so
that neither of them works for it. For another directory the names are listed in
the order of its entries, each with the values that its path has.
-/

namespace FsFat

open Bytes MountHandle MountPathString

/-- The values of `errno` that are returned: `EINVAL`, `EACCES`, `ENOENT` and `EIO`. -/
inductive FuseError where
  | invalidArgument
  | accessDenied
  | noEntry
  | inputOutput
  deriving DecidableEq

/-- `struct stat`, without the user and the group. -/
structure StatInfo where
  size : Nat
  mode : Nat
  numberOfLinks : Nat
  accessTime : Int64
  inodeChangeTime : Int64
  modificationTime : Int64
  accessTimeNanoseconds : Int64
  inodeChangeTimeNanoseconds : Int64
  modificationTimeNanoseconds : Int64
  deriving DecidableEq

namespace MountFuse

/-- `mount_fuse_set_stat_info`, with 64-bit offsets. -/
def setStatInfo (size fileMode : Nat) (accessTime inodeChangeTime modificationTime : Int64) :
    Except Error StatInfo :=
  if size > int64Max then .error .valueOutOfBounds
  else
    .ok
      { size := size
        mode := fileMode
        numberOfLinks := if fileMode &&& 0x4000 ≠ 0 then 2 else 1
        accessTime := accessTime / 1000000000
        inodeChangeTime := inodeChangeTime / 1000000000
        modificationTime := modificationTime / 1000000000
        accessTimeNanoseconds := accessTime % 1000000000
        inodeChangeTimeNanoseconds := inodeChangeTime % 1000000000
        modificationTimeNanoseconds := modificationTime % 1000000000 }

/-- What `mount_fuse_filldir` and `mount_fuse_getattr` do for a file entry. -/
def fileEntryStatInfo (mountHandle : MountHandle) (fileEntry : MountFileEntry) :
    Except Error StatInfo := do
  let accessTime ← MountFileEntry.getAccessTime fileEntry.fileEntry
  let modificationTime ← MountFileEntry.getModificationTime fileEntry.fileEntry
  let inodeChangeTime := MountFileEntry.getInodeChangeTime mountHandle
  setStatInfo fileEntry.fileEntry.getSize MountFileEntry.fileMode accessTime.toInt64
    inodeChangeTime.toInt64 modificationTime.toInt64

/-- `mount_fuse_getattr`. -/
def getattr (mountHandle : MountHandle) (path : List UInt8) : Except FuseError StatInfo :=
  match mountHandle.getFileEntryByPath path with
  | .error _ | .ok none => .error .noEntry
  | .ok (some fileEntry) =>
    match fileEntryStatInfo mountHandle fileEntry with
    | .error _ => .error .inputOutput
    | .ok statInfo => .ok statInfo

/-! ### The values of a path -/

/-- The values of a file that is not the root directory. The mode is that of a file that can be
read, also for a directory. -/
def statInfoOf (mountHandle : MountHandle) (entry : DirectoryEntry) (size : Nat) : StatInfo where
  size := size
  mode := 0x8124
  numberOfLinks := 1
  accessTime := MountFileEntry.posixTime entry.getAccessTime / 1000000000
  inodeChangeTime := mountHandle.mountedTimestamp.toInt64 / 1000000000
  modificationTime := MountFileEntry.posixTime entry.getModificationTime / 1000000000
  accessTimeNanoseconds := MountFileEntry.posixTime entry.getAccessTime % 1000000000
  inodeChangeTimeNanoseconds := mountHandle.mountedTimestamp.toInt64 % 1000000000
  modificationTimeNanoseconds := MountFileEntry.posixTime entry.getModificationTime % 1000000000

/-- The root directory has no values, and neither has a file of a size that is not an offset. -/
theorem fileEntryStatInfo_cases (mountHandle : MountHandle) (fileEntry : MountFileEntry) :
    ((fileEntry.fileEntry.directoryEntry = none ∨ int64Max < fileEntry.fileEntry.getSize) ∧
      ∃ e, fileEntryStatInfo mountHandle fileEntry = .error e) ∨
    ∃ entry, fileEntry.fileEntry.directoryEntry = some entry ∧
      fileEntry.fileEntry.getSize ≤ int64Max ∧ fileEntryStatInfo mountHandle fileEntry =
        .ok (statInfoOf mountHandle entry fileEntry.fileEntry.getSize) := by
  unfold fileEntryStatInfo MountFileEntry.getAccessTime MountFileEntry.getModificationTime
    FileEntry.getAccessTime FileEntry.getModificationTime FileEntry.getTime
  cases hentry : fileEntry.fileEntry.directoryEntry with
  | none => exact Or.inl ⟨Or.inl rfl, .getFailed, rfl⟩
  | some entry =>
    rcases Nat.lt_or_ge int64Max fileEntry.fileEntry.getSize with hlarge | hsize
    · refine Or.inl ⟨Or.inr hlarge, .valueOutOfBounds, ?_⟩
      exact if_pos hlarge
    · refine Or.inr ⟨entry, rfl, hsize, ?_⟩
      have hnot : ¬ fileEntry.fileEntry.getSize > int64Max := not_lt.mpr hsize
      exact if_neg hnot

/-- What is returned for the file entry that the path leads to. -/
theorem getattr_inversion (mountHandle : MountHandle) (path : List UInt8) :
    ((∀ fileEntry, mountHandle.getFileEntryByPath path ≠ .ok (some fileEntry)) ∧
      getattr mountHandle path = .error .noEntry) ∨
    ∃ fileEntry, mountHandle.getFileEntryByPath path = .ok (some fileEntry) ∧
      (((fileEntry.fileEntry.directoryEntry = none ∨ int64Max < fileEntry.fileEntry.getSize) ∧
          getattr mountHandle path = .error .inputOutput) ∨
        ∃ entry, fileEntry.fileEntry.directoryEntry = some entry ∧
          fileEntry.fileEntry.getSize ≤ int64Max ∧ getattr mountHandle path =
            .ok (statInfoOf mountHandle entry fileEntry.fileEntry.getSize)) := by
  unfold getattr
  rcases mountHandle.getFileEntryByPath path with e | _ | fileEntry
  · refine Or.inl ⟨?_, rfl⟩
    intro fileEntry h
    cases h
  · refine Or.inl ⟨?_, rfl⟩
    intro fileEntry h
    cases h
  · refine Or.inr ⟨fileEntry, rfl, ?_⟩
    dsimp only
    rcases fileEntryStatInfo_cases mountHandle fileEntry with ⟨hnone, e, herror⟩ |
      ⟨entry, hentry, hsize, hok⟩
    · rw [herror]
      exact Or.inl ⟨hnone, rfl⟩
    · rw [hok]
      exact Or.inr ⟨entry, hentry, hsize, rfl⟩

/-- Which paths have values. A path that does not lead to a file entry of the tool is told apart
from one whose values cannot be given, as those of the root directory. -/
theorem getattr_cases (mountHandle : MountHandle) (path : List UInt8) :
    let found := fun name fileEntry =>
      EndsWithName path name ∧ MountFileSystem.getFileEntryByPath mountHandle.una mountHandle.fs
        mountHandle.image mountHandle.rootDirectory path = .ok (true, fileEntry)
    (getattr mountHandle path = .error .noEntry ↔ ∀ name fileEntry, ¬ found name fileEntry) ∧
      (getattr mountHandle path = .error .inputOutput ↔ ∃ name fileEntry, found name fileEntry ∧
        (fileEntry.directoryEntry = none ∨ int64Max < fileEntry.getSize)) ∧
      ∀ statInfo, getattr mountHandle path = .ok statInfo ↔
        ∃ name fileEntry entry, found name fileEntry ∧ fileEntry.directoryEntry = some entry ∧
          fileEntry.getSize ≤ int64Max ∧
          statInfo = statInfoOf mountHandle entry fileEntry.getSize := by
  intro found
  have hiff : ∀ name fileEntry, found name fileEntry ↔
      mountHandle.getFileEntryByPath path = .ok (some ⟨name, fileEntry⟩) := by
    intro name fileEntry
    rw [getFileEntryByPath_eq_ok_some_iff]
  rcases getattr_inversion mountHandle path with ⟨hnot, hvalue⟩ | ⟨⟨name, fileEntry⟩, hget, hvalue⟩
  · -- the path leads to nothing
    have hnone : ∀ name fileEntry, ¬ found name fileEntry :=
      fun name fileEntry h => hnot _ ((hiff name fileEntry).mp h)
    rw [hvalue]
    simp [hnone]
  · have hfound : ∀ name' fileEntry', found name' fileEntry' ↔
        name' = name ∧ fileEntry' = fileEntry := by
      intro name' fileEntry'
      rw [hiff, hget]
      simp [eq_comm]
    rcases hvalue with ⟨hnone, hvalue⟩ | ⟨entry, hentry, hsize, hvalue⟩
    · rw [hvalue]
      refine ⟨by simp [hfound], by simpa [hfound] using hnone, ?_⟩
      intro statInfo
      simp only [reduceCtorEq, false_iff]
      rintro ⟨name', fileEntry', entry, h, hentry, hsize, _⟩
      obtain ⟨_, rfl⟩ := (hfound _ _).mp h
      rcases hnone with hnone | hlarge
      · rw [hentry] at hnone
        cases hnone
      · exact absurd hsize (not_le.mpr hlarge)
    · have hentry : fileEntry.directoryEntry = some entry := hentry
      have hnot : ¬ (fileEntry.directoryEntry = none ∨ int64Max < fileEntry.getSize) := by
        rw [not_or, hentry]
        exact ⟨Option.some_ne_none entry, not_lt.mpr hsize⟩
      rw [hvalue]
      refine ⟨by simp [hfound], by simpa [hfound] using hnot, ?_⟩
      intro statInfo
      simp [hfound, hentry, hsize, eq_comm]

/-! ### Listing a directory -/

/-- A name and the values that are given to the filler for it. -/
abbrev FillerCall := List UInt8 × StatInfo

def selfName : List UInt8 := [0x2e]

def parentName : List UInt8 := [0x2e, 0x2e]

/-- The values that are given to the filler. Without a file entry they are zero. -/
def filldirStatInfo (mountHandle : MountHandle) : Option MountFileEntry → Except Error StatInfo
  | none => setStatInfo 0 0 0 0 0
  | some fileEntry => fileEntryStatInfo mountHandle fileEntry

/-- `mount_fuse_filldir`. The filler may refuse the call. -/
def filldir (mountHandle : MountHandle) (isFilled : Bool) (name : List UInt8)
    (fileEntry : Option MountFileEntry) : Except Error FillerCall := do
  let statInfo ← filldirStatInfo mountHandle fileEntry
  if isFilled then pure (name, statInfo) else .error .appendFailed

/-- The loop over the sub file entries, with the calls of the filler so far. -/
def readSubFileEntries (mountHandle : MountHandle) (isFilled : Nat → Bool)
    (directory : MountFileEntry) :
    Nat → Nat → List FillerCall → List FillerCall × Except FuseError Unit
  | 0, _, filled => (filled, .ok ())
  | count + 1, index, filled =>
    match directory.getSubFileEntryByIndex mountHandle index with
    | .error _ => (filled, .error .inputOutput)
    | .ok subFileEntry =>
      match filldir mountHandle (isFilled filled.length) subFileEntry.name (some subFileEntry) with
      | .error _ => (filled, .error .inputOutput)
      | .ok call =>
        readSubFileEntries mountHandle isFilled directory count (index + 1) (filled ++ [call])

/-- `mount_fuse_readdir`, of a directory that was opened. -/
def readdir (mountHandle : MountHandle) (isFilled : Nat → Bool) (directory : MountFileEntry) :
    List FillerCall × Except FuseError Unit :=
  match filldir mountHandle (isFilled 0) selfName (some directory) with
  | .error _ => ([], .error .inputOutput)
  | .ok self =>
    match filldir mountHandle (isFilled 1) parentName none with
    | .error _ => ([self], .error .inputOutput)
    | .ok parent =>
      match directory.getNumberOfSubFileEntries mountHandle with
      | .error _ => ([self, parent], .error .inputOutput)
      | .ok numberOfSubFileEntries =>
        readSubFileEntries mountHandle isFilled directory numberOfSubFileEntries 0 [self, parent]

/-- What the filler is given for the entry with an index of the list. -/
def fillerCall (mountHandle : MountHandle) (directory : MountFileEntry) :
    Nat → Except Error FillerCall
  | 0 => filldir mountHandle true selfName (some directory)
  | 1 => filldir mountHandle true parentName none
  | index + 2 => do
    let subFileEntry ← directory.getSubFileEntryByIndex mountHandle index
    filldir mountHandle true subFileEntry.name (some subFileEntry)

section Listing

variable {mountHandle : MountHandle} {isFilled : Nat → Bool} {directory : MountFileEntry}

theorem filldir_eq_ok_iff {taken : Bool} {name : List UInt8} {fileEntry : Option MountFileEntry}
    {call : FillerCall} :
    filldir mountHandle taken name fileEntry = .ok call ↔
      taken = true ∧ filldir mountHandle true name fileEntry = .ok call := by
  cases taken with
  | true => simp
  | false =>
    simp only [Bool.false_eq_true, false_and, iff_false]
    intro h
    obtain ⟨statInfo, _, hcall⟩ := bind_eq_ok_iff.mp h
    cases hcall

/-- The calls of the filler are those of the list, without a gap, as far as they go. -/
structure Lists (mountHandle : MountHandle) (isFilled : Nat → Bool) (directory : MountFileEntry)
    (filled : List FillerCall) : Prop where
  calls : ∀ index call, filled[index]? = some call →
    isFilled index = true ∧ fillerCall mountHandle directory index = .ok call

/-- The list does not go on behind the calls: the filler refuses the next one, or there is none to
give. -/
def Stops (mountHandle : MountHandle) (isFilled : Nat → Bool) (directory : MountFileEntry)
    (filled : List FillerCall) : Prop :=
  isFilled filled.length = false ∨
    ∃ e, fillerCall mountHandle directory filled.length = .error e

theorem Lists.append {filled : List FillerCall} {call : FillerCall}
    (h : Lists mountHandle isFilled directory filled) (htaken : isFilled filled.length = true)
    (hcall : fillerCall mountHandle directory filled.length = .ok call) :
    Lists mountHandle isFilled directory (filled ++ [call]) := by
  refine ⟨fun index found hfound => ?_⟩
  rw [List.getElem?_append] at hfound
  split at hfound
  · exact h.calls index found hfound
  · next hge =>
    obtain ⟨hlt, _⟩ := List.getElem?_eq_some_iff.mp hfound
    have hindex : index = filled.length := by
      rw [List.length_singleton] at hlt
      omega
    subst hindex
    rw [Nat.sub_self] at hfound
    injection hfound with hfound
    rw [← hfound]
    exact ⟨htaken, hcall⟩

/-- A refused call, or one that there is not, ends the list. -/
theorem stops_of_filldir {filled : List FillerCall} {name : List UInt8}
    {fileEntry : Option MountFileEntry} {e : Error}
    (hcall : fillerCall mountHandle directory filled.length =
      filldir mountHandle true name fileEntry)
    (h : filldir mountHandle (isFilled filled.length) name fileEntry = .error e) :
    Stops mountHandle isFilled directory filled := by
  cases htaken : isFilled filled.length with
  | false => exact Or.inl htaken
  | true =>
    rw [htaken] at h
    exact Or.inr ⟨e, hcall.trans h⟩

/-- There is no sub file entry behind the number of them. -/
theorem getSubFileEntryByIndex_of_le {number : Nat}
    (hnumber : directory.getNumberOfSubFileEntries mountHandle = .ok number) {index : Nat}
    (hle : number ≤ index) :
    ∃ e, directory.getSubFileEntryByIndex mountHandle index = .error e := by
  cases hsub : directory.getSubFileEntryByIndex mountHandle index with
  | error e => exact ⟨e, rfl⟩
  | ok subFileEntry =>
    obtain ⟨found, hfound, _⟩ := bind_eq_ok_iff.mp hsub
    obtain ⟨read, _, _, hread, hentry, _, _⟩ :=
      FileEntry.getSubFileEntryByIndex_eq_ok_iff.mp hfound
    obtain ⟨read', hread', hcount⟩ := map_eq_ok_iff.mp hnumber
    obtain rfl : some read = read' := Except.ok.inj (hread.symm.trans hread')
    have hlength : read.fileEntries.length = number := hcount
    have hlt := (List.getElem?_eq_some_iff.mp hentry).1
    omega

/-- How the loop ends, from a list that it goes on with. -/
theorem readSubFileEntries_lists {number : Nat}
    (hnumber : directory.getNumberOfSubFileEntries mountHandle = .ok number) (count index : Nat)
    (filled : List FillerCall) (hlength : filled.length = index + 2)
    (hcount : index + count = number) (h : Lists mountHandle isFilled directory filled) :
    let listed := readSubFileEntries mountHandle isFilled directory count index filled
    Lists mountHandle isFilled directory listed.1 ∧
      Stops mountHandle isFilled directory listed.1 ∧
      (listed.2 = .ok () ∧ listed.1.length = number + 2 ∨
        listed.2 = .error .inputOutput ∧ listed.1.length < number + 2) := by
  induction count generalizing index filled with
  | zero =>
    have hle : number ≤ index := by omega
    obtain ⟨e, herror⟩ := getSubFileEntryByIndex_of_le hnumber hle
    have hend : filled.length = number + 2 := by omega
    refine ⟨h, Or.inr ⟨e, ?_⟩, Or.inl ⟨rfl, hend⟩⟩
    rw [readSubFileEntries, hlength, fillerCall, herror]
    rfl
  | succ count ih =>
    unfold readSubFileEntries
    cases hsub : directory.getSubFileEntryByIndex mountHandle index with
    | error e =>
      refine ⟨h, Or.inr ⟨e, ?_⟩, Or.inr ⟨rfl, by dsimp only; omega⟩⟩
      dsimp only
      rw [hlength, fillerCall, hsub]
      rfl
    | ok subFileEntry =>
      have hcall : fillerCall mountHandle directory filled.length =
          filldir mountHandle true subFileEntry.name (some subFileEntry) := by
        rw [hlength, fillerCall, hsub]
        rfl
      dsimp only
      cases hfill : filldir mountHandle (isFilled filled.length) subFileEntry.name
          (some subFileEntry) with
      | error e => exact ⟨h, stops_of_filldir hcall hfill, Or.inr ⟨rfl, by dsimp only; omega⟩⟩
      | ok call =>
        obtain ⟨htaken, hfill⟩ := filldir_eq_ok_iff.mp hfill
        apply ih
        · rw [List.length_append, hlength]
          rfl
        · omega
        · exact h.append htaken (hcall.trans hfill)

/-- Listing a directory gives the filler a first part of the list, up to the first entry that the
filler refuses or that cannot be given, and works exactly if that is all of the list. -/
theorem readdir_spec (mountHandle : MountHandle) (isFilled : Nat → Bool)
    (directory : MountFileEntry) :
    let listed := readdir mountHandle isFilled directory
    Lists mountHandle isFilled directory listed.1 ∧
      Stops mountHandle isFilled directory listed.1 ∧
      (listed.2 = .ok () ∧ (∃ number,
          directory.getNumberOfSubFileEntries mountHandle = .ok number ∧
            listed.1.length = number + 2) ∨
        listed.2 = .error .inputOutput ∧ ∀ number,
          directory.getNumberOfSubFileEntries mountHandle = .ok number →
            listed.1.length < number + 2) := by
  have hnil : Lists mountHandle isFilled directory [] := ⟨fun _ _ h => by cases h⟩
  unfold readdir
  cases hself : filldir mountHandle (isFilled 0) selfName (some directory) with
  | error e =>
    exact ⟨hnil, stops_of_filldir rfl hself, Or.inr ⟨rfl, fun number _ => Nat.succ_pos _⟩⟩
  | ok self =>
  obtain ⟨htaken, hself⟩ := filldir_eq_ok_iff.mp hself
  have hone : Lists mountHandle isFilled directory [self] := hnil.append htaken hself
  dsimp only
  cases hparent : filldir mountHandle (isFilled 1) parentName none with
  | error e =>
    exact ⟨hone, stops_of_filldir rfl hparent,
      Or.inr ⟨rfl, fun number _ => Nat.succ_lt_succ (Nat.succ_pos _)⟩⟩
  | ok parent =>
  obtain ⟨htaken, hparent⟩ := filldir_eq_ok_iff.mp hparent
  have htwo : Lists mountHandle isFilled directory [self, parent] :=
    hone.append htaken hparent
  dsimp only
  cases hnumber : directory.getNumberOfSubFileEntries mountHandle with
  | error e =>
    refine ⟨htwo, Or.inr ⟨e, ?_⟩, Or.inr ⟨rfl, fun number h => by cases h⟩⟩
    have hsub : directory.getSubFileEntryByIndex mountHandle 0 = .error e := by
      unfold MountFileEntry.getNumberOfSubFileEntries FileEntry.getNumberOfSubFileEntries at hnumber
      unfold MountFileEntry.getSubFileEntryByIndex FileEntry.getSubFileEntryByIndex
      cases hread : directory.fileEntry.getDirectory mountHandle.fs mountHandle.image with
      | error e' =>
        rw [hread] at hnumber
        cases hnumber
        rfl
      | ok read =>
        rw [hread] at hnumber
        cases hnumber
    have hlength : [self, parent].length = 0 + 2 := rfl
    rw [hlength, fillerCall, hsub]
    rfl
  | ok number =>
    obtain ⟨hlists, hstops, hend⟩ := readSubFileEntries_lists hnumber number 0 [self, parent] rfl
      (Nat.zero_add _) htwo
    refine ⟨hlists, hstops, ?_⟩
    rcases hend with ⟨hok, hlength⟩ | ⟨herror, hlength⟩
    · exact Or.inl ⟨hok, number, rfl, hlength⟩
    · refine Or.inr ⟨herror, ?_⟩
      rintro _ ⟨⟩
      exact hlength

/-- A sub file entry is not the root directory. -/
theorem directoryEntry_of_getSubFileEntryByIndex {index : Nat} {subFileEntry : MountFileEntry}
    (h : directory.getSubFileEntryByIndex mountHandle index = .ok subFileEntry) :
    subFileEntry.fileEntry.directoryEntry ≠ none := by
  obtain ⟨found, hfound, hname⟩ := bind_eq_ok_iff.mp h
  obtain ⟨filename, _, hsub⟩ := bind_eq_ok_iff.mp hname
  injection hsub with hsub
  obtain ⟨read, _, hfound⟩ := bind_eq_ok_iff.mp hfound
  cases read with
  | none => cases hfound
  | some directory =>
    obtain ⟨entry, _, hfound⟩ := bind_eq_ok_iff.mp hfound
    obtain ⟨copy, _, hfound⟩ := bind_eq_ok_iff.mp hfound
    injection hfound with hfound
    rw [← hsub, ← hfound]
    exact Option.some_ne_none copy

/-- A file entry is given to the filler if it has values. -/
theorem isOk_filldir_iff {name : List UInt8} {fileEntry : MountFileEntry} :
    (∃ call, filldir mountHandle true name (some fileEntry) = .ok call) ↔
      fileEntry.fileEntry.directoryEntry ≠ none ∧ fileEntry.fileEntry.getSize ≤ int64Max := by
  rcases fileEntryStatInfo_cases mountHandle fileEntry with ⟨hnone, e, herror⟩ |
    ⟨entry, hentry, hsize, hok⟩
  · apply iff_of_false
    · rintro ⟨call, hcall⟩
      obtain ⟨statInfo, hstat, _⟩ := bind_eq_ok_iff.mp hcall
      rw [filldirStatInfo, herror] at hstat
      cases hstat
    · rintro ⟨hentry, hsize⟩
      rcases hnone with hnone | hlarge
      · exact hentry hnone
      · exact absurd hsize (not_le.mpr hlarge)
  · refine iff_of_true
      ⟨(name, statInfoOf mountHandle entry fileEntry.fileEntry.getSize), ?_⟩ ⟨?_, hsize⟩
    · rw [filldir, filldirStatInfo, hok]
      rfl
    · rw [hentry]
      exact Option.some_ne_none entry

/-- What a directory must be for its whole list to be given. -/
structure IsListable (mountHandle : MountHandle) (directory : MountFileEntry) (number : Nat) :
    Prop where
  notRoot : directory.fileEntry.directoryEntry ≠ none
  size : directory.fileEntry.getSize ≤ int64Max
  hasNumber : directory.getNumberOfSubFileEntries mountHandle = .ok number
  subFileEntries : ∀ index < number, ∃ subFileEntry,
    directory.getSubFileEntryByIndex mountHandle index = .ok subFileEntry ∧
      subFileEntry.fileEntry.getSize ≤ int64Max

theorem IsListable.fillerCall {number index : Nat} (h : IsListable mountHandle directory number)
    (hindex : index < number + 2) :
    ∃ call, fillerCall mountHandle directory index = .ok call := by
  match index with
  | 0 => exact isOk_filldir_iff.mpr ⟨h.notRoot, h.size⟩
  | 1 => exact ⟨_, rfl⟩
  | index + 2 =>
    obtain ⟨subFileEntry, hsub, hsize⟩ := h.subFileEntries index (by omega)
    have hfill : ∃ call, filldir mountHandle true subFileEntry.name (some subFileEntry) =
        .ok call :=
      isOk_filldir_iff.mpr ⟨directoryEntry_of_getSubFileEntryByIndex hsub, hsize⟩
    obtain ⟨call, hcall⟩ := hfill
    refine ⟨call, ?_⟩
    rw [MountFuse.fillerCall, hsub]
    exact hcall

theorem isListable_of_fillerCall {number : Nat}
    (hnumber : directory.getNumberOfSubFileEntries mountHandle = .ok number)
    (h : ∀ index < number + 2, ∃ call, fillerCall mountHandle directory index = .ok call) :
    IsListable mountHandle directory number := by
  obtain ⟨hroot, hsize⟩ := isOk_filldir_iff.mp (h 0 (Nat.succ_pos _))
  refine ⟨hroot, hsize, hnumber, fun index hindex => ?_⟩
  obtain ⟨call, hcall⟩ := h (index + 2) (by omega)
  obtain ⟨subFileEntry, hsub, hfill⟩ := bind_eq_ok_iff.mp hcall
  exact ⟨subFileEntry, hsub, (isOk_filldir_iff.mp ⟨call, hfill⟩).2⟩

/-- The whole list is given of such a directory. -/
theorem IsListable.readdir_ok {number : Nat} (h : IsListable mountHandle directory number)
    (htakes : ∀ index < number + 2, isFilled index = true) :
    (readdir mountHandle isFilled directory).2 = .ok () ∧
      (readdir mountHandle isFilled directory).1.length = number + 2 := by
  obtain ⟨_, hstops, ⟨hok, number', hnumber', hlength⟩ | ⟨_, hless⟩⟩ :=
    readdir_spec mountHandle isFilled directory
  · have hsame : number' = number := Except.ok.inj (hnumber'.symm.trans h.hasNumber)
    exact ⟨hok, hsame ▸ hlength⟩
  · have hlt := hless number h.hasNumber
    rcases hstops with hrefused | ⟨e, hstop⟩
    · rw [htakes _ hlt] at hrefused
      cases hrefused
    · obtain ⟨call, hcall⟩ := h.fillerCall hlt
      rw [hcall] at hstop
      cases hstop

/-- Listing a directory gives the filler the first part of `.`, `..` and the sub file entries in
order, up to the first that the filler refuses or that cannot be given. It works exactly if
the filler takes all of them and the directory is one with a list that can be given: not the root
directory, and without a size that is not an offset. -/
theorem readdir_listing (mountHandle : MountHandle) (isFilled : Nat → Bool)
    (directory : MountFileEntry) :
    let listed := readdir mountHandle isFilled directory
    Lists mountHandle isFilled directory listed.1 ∧
      Stops mountHandle isFilled directory listed.1 ∧
      (listed.2 = .ok () ∨ listed.2 = .error .inputOutput) ∧
      (listed.2 = .ok () ↔ ∃ number, IsListable mountHandle directory number ∧
        ∀ index < number + 2, isFilled index = true) := by
  obtain ⟨hlists, hstops, hend⟩ := readdir_spec mountHandle isFilled directory
  refine ⟨hlists, hstops, hend.imp And.left And.left, ?_⟩
  constructor
  · intro hok
    rcases hend with ⟨_, number, hnumber, hlength⟩ | ⟨herror, _⟩
    · have hcalls : ∀ index < number + 2, isFilled index = true ∧
          ∃ call, fillerCall mountHandle directory index = .ok call := by
        intro index hindex
        rw [← hlength] at hindex
        obtain ⟨htaken, hcall⟩ := hlists.calls index _ (List.getElem?_eq_getElem hindex)
        exact ⟨htaken, _, hcall⟩
      exact ⟨number, isListable_of_fillerCall hnumber fun index h => (hcalls index h).2,
        fun index h => (hcalls index h).1⟩
    · rw [hok] at herror
      cases herror
  · rintro ⟨number, hlistable, htakes⟩
    exact (hlistable.readdir_ok htakes).1

end Listing

end MountFuse

end FsFat
