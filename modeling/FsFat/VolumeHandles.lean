import FsFat.VolumeSession

/-!
What holds of a volume and of the handles of libbfio after any sequence of calls
(`libfsfat_volume.c`, `libfsfat_support.c`). Each call keeps `WellFormed`, by the
case analysis of what it does to a handle. A volume that is not open is then
closed as a new one is, up to values that opening writes.
-/

namespace FsFat.VolumeSession

/-! ### What every call keeps -/

/-- What holds between the calls. The volume is not open, or it is read and its handle is open. The
library has no other handle than that of the volume, and a handle of the caller is open where the
caller left it open or the volume has it. -/
structure WellFormed (s : VolumeSession) : Prop where
  closed : s.fileIOHandle = none → s.volume.IsClosed
  opened : ∀ handle, s.fileIOHandle = some handle →
    s.isOpen handle = true ∧ s.volume.fileIOHandle.isSome = true ∧
      ∃ fs root, s.volume.fileSystem = some ⟨some fs, some root⟩
  created : s.fileIOHandleCreatedInLibrary = true ↔ ∃ n, s.fileIOHandle = some (.library n)
  libraryHandles : ∀ n, n ∈ s.libraryHandles ↔ s.fileIOHandle = some (.library n)
  libraryOpen : ∀ n, s.isOpen (.library n) = true → n ∈ s.libraryHandles
  fresh : ∀ n ∈ s.libraryHandles, n < s.nextHandle
  callerOpen : ∀ n, s.closeFailed (.caller n) = false →
    s.isOpen (.caller n) = (s.leftOpen n || decide (s.fileIOHandle = some (.caller n)))
  openedInLibrary : ∀ n, s.fileIOHandle = some (.caller n) → s.closeFailed (.caller n) = false →
    s.volume.fileIOHandleOpenedInLibrary = !s.leftOpen n

theorem create_wellFormed : WellFormed create where
  closed _ := Volume.create_isClosed
  opened _ h := by cases h
  created := by simp [create]
  libraryHandles n := by simp [create]
  libraryOpen n h := by cases h
  fresh n h := by cases h
  callerOpen n _ := by simp [create]
  openedInLibrary n h := by cases h

section Steps

variable {s after : VolumeSession} {n : Nat} {volume : Volume}

theorem WellFormed.not_mem_next (h : WellFormed s) : s.nextHandle ∉ s.libraryHandles :=
  fun hmem => Nat.lt_irrefl _ (h.fresh _ hmem)

/-- The library has no handle but that of the volume. -/
theorem WellFormed.not_mem_libraryHandles (h : WellFormed s)
    (hhandle : s.fileIOHandle ≠ some (.library n)) : n ∉ s.libraryHandles :=
  mt (h.libraryHandles n).mp hhandle

theorem WellFormed.library_not_open (h : WellFormed s)
    (hhandle : s.fileIOHandle ≠ some (.library n)) : s.isOpen (.library n) = false := by
  rw [← Bool.not_eq_true]
  exact mt (h.libraryOpen n) (h.not_mem_libraryHandles hhandle)

/-- While the volume is not open its values may change. -/
theorem WellFormed.withVolume (h : WellFormed s) (hnone : s.fileIOHandle = none)
    (hclosed : volume.IsClosed) : WellFormed { s with volume } where
  closed _ := hclosed
  opened handle hsome := by
    have hsome : s.fileIOHandle = some handle := hsome
    rw [hnone] at hsome
    cases hsome
  created := h.created
  libraryHandles := h.libraryHandles
  libraryOpen := h.libraryOpen
  fresh := h.fresh
  callerOpen := h.callerOpen
  openedInLibrary n hsome := by
    have hsome : s.fileIOHandle = some (.caller n) := hsome
    rw [hnone] at hsome
    cases hsome

/-- A handle of the caller is as it was. -/
theorem WellFormed.returned (h : WellFormed s) (hreturned : Returned (.caller n) s after) :
    WellFormed after := by
  obtain ⟨⟨isOpen, closeFailed, rfl⟩, hclose, hstill⟩ := hreturned
  refine ⟨h.closed, ?_, h.created, h.libraryHandles, ?_, h.fresh, ?_, ?_⟩
  · intro handle hsome
    obtain ⟨hisOpen, hread⟩ := h.opened handle hsome
    refine ⟨?_, hread⟩
    by_cases hsame : handle = .caller n
    · rw [hsame] at hisOpen ⊢
      exact hstill hisOpen
    · simpa [withHandle, Function.update_of_ne hsame] using hisOpen
  · intro m hopen
    apply h.libraryOpen
    simpa [withHandle] using hopen
  · intro m hfailed
    by_cases hsame : m = n
    · rw [hsame] at hfailed ⊢
      obtain ⟨hisOpen, hbefore⟩ := hclose hfailed
      rw [hisOpen]
      exact h.callerOpen n hbefore
    · have hne : HandleName.caller m ≠ .caller n := fun hm => hsame (HandleName.caller.inj hm)
      simp only [withHandle, Function.update_of_ne hne] at hfailed ⊢
      exact h.callerOpen m hfailed
  · intro m hsome hfailed
    by_cases hsame : m = n
    · rw [hsame] at hfailed hsome ⊢
      exact h.openedInLibrary n hsome (hclose hfailed).2
    · have hne : HandleName.caller m ≠ .caller n := fun hm => hsame (HandleName.caller.inj hm)
      simp only [withHandle, Function.update_of_ne hne] at hfailed
      exact h.openedInLibrary m hsome hfailed

/-- A handle that the library made for a call, and freed at its end. -/
theorem WellFormed.freed (h : WellFormed s)
    (hreturned : Returned (.library s.nextHandle) s.initializeHandle after) :
    WellFormed (after.freeHandle (.library s.nextHandle)) := by
  obtain ⟨⟨isOpen, closeFailed, rfl⟩, _, _⟩ := hreturned
  have hnext := h.not_mem_next
  have hhandles : ∀ m, m ∈ ((s.initializeHandle.withHandle (.library s.nextHandle) isOpen
      closeFailed).freeHandle (.library s.nextHandle)).libraryHandles ↔ m ∈ s.libraryHandles := by
    intro m
    simp only [freeHandle, withHandle, initializeHandle, setOpen, List.mem_filter, List.mem_cons]
    constructor
    · rintro ⟨rfl | hmem, hne⟩
      · simp at hne
      · exact hmem
    · intro hmem
      refine ⟨Or.inr hmem, ?_⟩
      have hne : m ≠ s.nextHandle := fun hm => hnext (hm ▸ hmem)
      simpa using hne
  refine ⟨h.closed, ?_, h.created, ?_, ?_, ?_, ?_, ?_⟩
  · intro handle hsome
    obtain ⟨hisOpen, hread⟩ := h.opened handle hsome
    refine ⟨?_, hread⟩
    have hne : handle ≠ .library s.nextHandle := by
      rintro rfl
      exact hnext ((h.libraryHandles _).mpr hsome)
    simpa [freeHandle, withHandle, initializeHandle, setOpen, Function.update_of_ne hne]
      using hisOpen
  · intro m
    rw [hhandles]
    exact h.libraryHandles m
  · intro m hopen
    rw [hhandles]
    apply h.libraryOpen
    have hne : HandleName.library m ≠ .library s.nextHandle := by
      intro hm
      rw [hm] at hopen
      simp [freeHandle, setOpen] at hopen
    simpa [freeHandle, withHandle, initializeHandle, setOpen, Function.update_of_ne hne]
      using hopen
  · intro m hmem
    rw [hhandles] at hmem
    exact Nat.lt_succ_of_lt (h.fresh m hmem)
  · intro m hfailed
    simp only [freeHandle, withHandle, initializeHandle, setOpen, ne_eq, reduceCtorEq,
      not_false_eq_true, Function.update_of_ne] at hfailed ⊢
    exact h.callerOpen m hfailed
  · intro m hsome hfailed
    simp only [freeHandle, withHandle, initializeHandle, setOpen, ne_eq, reduceCtorEq,
      not_false_eq_true, Function.update_of_ne] at hfailed
    exact h.openedInLibrary m hsome hfailed

/-- The volume keeps a handle of the caller. -/
theorem WellFormed.keepsCaller (h : WellFormed s) (hnone : s.fileIOHandle = none)
    (hfile : volume.fileIOHandle.isSome = true)
    (hopened : volume.fileIOHandleOpenedInLibrary = !s.isOpen (.caller n))
    (hread : ∃ fs root, volume.fileSystem = some ⟨some fs, some root⟩) :
    WellFormed { s with
      volume
      isOpen := Function.update s.isOpen (.caller n) true
      fileIOHandle := some (.caller n) } := by
  have hlibrary : ∀ m, m ∉ s.libraryHandles :=
    fun m => h.not_mem_libraryHandles (by simp [hnone])
  have hleft : ∀ m, s.closeFailed (.caller m) = false → s.isOpen (.caller m) = s.leftOpen m := by
    intro m hfailed
    have hisOpen := h.callerOpen m hfailed
    rw [hnone] at hisOpen
    simpa using hisOpen
  refine ⟨?_, ?_, ?_, ?_, ?_, h.fresh, ?_, ?_⟩
  · intro hsome
    cases hsome
  · rintro _ ⟨⟩
    exact ⟨by simp, hfile, hread⟩
  · have hcreated := h.created
    rw [hnone] at hcreated
    simpa using hcreated
  · intro m
    simp [hlibrary m]
  · intro m hopen
    apply h.libraryOpen
    simpa using hopen
  · intro m hfailed
    by_cases hsame : m = n
    · simp [hsame]
    · have hne : HandleName.caller m ≠ .caller n := fun hm => hsame (HandleName.caller.inj hm)
      have hne' : n ≠ m := fun hm => hsame hm.symm
      simp [Function.update_of_ne hne, hleft m hfailed, hne']
  · rintro m ⟨⟩ hfailed
    rw [← hleft n hfailed]
    exact hopened

/-- The volume keeps a handle that the library made. -/
theorem WellFormed.keepsLibrary (h : WellFormed s) (hnone : s.fileIOHandle = none)
    (hfile : volume.fileIOHandle.isSome = true)
    (hread : ∃ fs root, volume.fileSystem = some ⟨some fs, some root⟩) :
    WellFormed { s.initializeHandle with
      volume
      isOpen := Function.update s.initializeHandle.isOpen (.library s.nextHandle) true
      fileIOHandle := some (.library s.nextHandle)
      fileIOHandleCreatedInLibrary := true } := by
  have hlibrary : ∀ m, m ∉ s.libraryHandles :=
    fun m => h.not_mem_libraryHandles (by simp [hnone])
  refine ⟨?_, ?_, ?_, ?_, ?_, ?_, ?_, ?_⟩
  · intro hsome
    cases hsome
  · rintro _ ⟨⟩
    exact ⟨by simp, hfile, hread⟩
  · simp
  · intro m
    simp only [initializeHandle, List.mem_cons, hlibrary m, or_false, Option.some.injEq,
      HandleName.library.injEq]
    exact eq_comm
  · intro m hopen
    by_cases hsame : m = s.nextHandle
    · simp [initializeHandle, hsame]
    · have hne : HandleName.library m ≠ .library s.nextHandle :=
        fun hm => hsame (HandleName.library.inj hm)
      simp only [initializeHandle, setOpen, Function.update_of_ne hne] at hopen
      exact absurd (h.libraryOpen m hopen) (hlibrary m)
  · intro m hmem
    rcases List.mem_cons.mp hmem with rfl | hmem
    · exact Nat.lt_succ_self _
    · exact absurd hmem (hlibrary m)
  · intro m hfailed
    have hisOpen := h.callerOpen m hfailed
    rw [hnone] at hisOpen
    simpa [initializeHandle, setOpen] using hisOpen
  · intro m hsome
    cases hsome

theorem WellFormed.openFileIOHandle (h : WellFormed s) (n : Nat) (answers : BfioAnswers)
    (accessFlags : BitVec 32) :
    WellFormed (s.openFileIOHandle (.caller n) answers accessFlags).2 := by
  cases hnone : s.fileIOHandle with
  | some handle =>
    rw [openFileIOHandle_of_isSome (by rw [hnone]; rfl)]
    exact h
  | none =>
    rcases openFileIOHandle_cases (h.closed hnone) with
      ⟨e, volume, after, hopen, hclosed, hreturned⟩ | ⟨volume, hopen, hfile, hopened, hread⟩
    · rw [hopen]
      exact (h.withVolume hnone hclosed).returned hreturned
    · rw [hopen]
      exact h.keepsCaller hnone hfile hopened hread

theorem WellFormed.openFile (h : WellFormed s) (setNameError : Option Error)
    (answers : BfioAnswers) (accessFlags : BitVec 32) :
    WellFormed (s.openFile setNameError answers accessFlags).2 := by
  have hfreed : WellFormed (s.initializeHandle.freeHandle (.library s.nextHandle)) :=
    h.freed (Returned.refl _ _)
  unfold VolumeSession.openFile
  split
  · exact h
  split
  · exact h
  cases setNameError with
  | some e => exact hfreed
  | none =>
  dsimp only
  cases hnone : s.fileIOHandle with
  | some handle =>
    have hsome : s.initializeHandle.fileIOHandle.isSome = true := by
      have hsame : s.initializeHandle.fileIOHandle = s.fileIOHandle := rfl
      rw [hsame, hnone]
      rfl
    rw [openFileIOHandle_of_isSome hsome]
    exact hfreed
  | none =>
    rcases openFileIOHandle_cases (s := s.initializeHandle) (h.closed hnone) with
      ⟨e, volume, after, hopen, hclosed, hreturned⟩ | ⟨volume, hopen, hfile, _, hread⟩
    · rw [hopen]
      exact (h.withVolume hnone hclosed).freed hreturned
    · rw [hopen]
      exact h.keepsLibrary hnone hfile hread

/-- A volume that is not open, where the library has no handle. -/
theorem wellFormed_of_closed (hnone : s.fileIOHandle = none) (hclosed : s.volume.IsClosed)
    (hcreated : s.fileIOHandleCreatedInLibrary = false) (hhandles : s.libraryHandles = [])
    (hlibrary : ∀ m, s.isOpen (.library m) = false)
    (hcaller : ∀ m, s.closeFailed (.caller m) = false →
      s.isOpen (.caller m) = s.leftOpen m) : WellFormed s := by
  refine ⟨fun _ => hclosed, ?_, ?_, ?_, ?_, ?_, ?_, ?_⟩
  · intro handle hsome
    rw [hnone] at hsome
    cases hsome
  · simp [hcreated, hnone]
  · intro m
    simp [hhandles, hnone]
  · intro m hopen
    rw [hlibrary m] at hopen
    cases hopen
  · intro m hmem
    rw [hhandles] at hmem
    cases hmem
  · intro m hfailed
    rw [hcaller m hfailed, hnone]
    simp
  · intro m hsome
    rw [hnone] at hsome
    cases hsome

theorem closeHandle_of_ne {handle other : HandleName} (hne : other ≠ handle)
    (error : Option Error) :
    (s.closeHandle handle error).2.isOpen other = s.isOpen other ∧
      (s.closeHandle handle error).2.closeFailed other = s.closeFailed other := by
  cases error with
  | none => exact ⟨Function.update_of_ne hne _ _, rfl⟩
  | some e => exact ⟨rfl, Function.update_of_ne hne _ _⟩

theorem closeOpenedHandle_rest (handle : HandleName) (answers : BfioAnswers)
    (s : VolumeSession) :
    (s.closeOpenedHandle handle answers).2.fileIOHandleCreatedInLibrary =
        s.fileIOHandleCreatedInLibrary ∧
      (s.closeOpenedHandle handle answers).2.libraryHandles = s.libraryHandles ∧
      (s.closeOpenedHandle handle answers).2.leftOpen = s.leftOpen := by
  unfold closeOpenedHandle
  split
  · cases answers.closeError <;> exact ⟨rfl, rfl, rfl⟩
  · exact ⟨rfl, rfl, rfl⟩

theorem closeOpenedHandle_of_ne {handle other : HandleName} (hne : other ≠ handle)
    (answers : BfioAnswers) :
    (s.closeOpenedHandle handle answers).2.isOpen other = s.isOpen other ∧
      (s.closeOpenedHandle handle answers).2.closeFailed other = s.closeFailed other := by
  unfold closeOpenedHandle
  split
  · exact closeHandle_of_ne hne _
  · exact ⟨rfl, rfl⟩

/-- A handle of the caller is then as the caller left it. -/
theorem WellFormed.closeOpenedHandle_caller (h : WellFormed s) {handle : HandleName}
    (hhandle : s.fileIOHandle = some handle) (answers : BfioAnswers) (m : Nat)
    (hfailed : (s.closeOpenedHandle handle answers).2.closeFailed (.caller m) = false) :
    (s.closeOpenedHandle handle answers).2.isOpen (.caller m) = s.leftOpen m := by
  by_cases hsame : HandleName.caller m = handle
  · subst hsame
    revert hfailed
    unfold closeOpenedHandle
    cases hopened : s.volume.fileIOHandleOpenedInLibrary with
    | false =>
      intro hfailed
      have hleft := h.openedInLibrary m hhandle hfailed
      rw [hopened] at hleft
      have hisOpen : s.isOpen (.caller m) = true := (h.opened _ hhandle).1
      simpa [hisOpen] using hleft
    | true =>
      cases answers.closeError with
      | none =>
        intro hfailed
        have hleft := h.openedInLibrary m hhandle hfailed
        rw [hopened] at hleft
        simpa [closeHandle, setOpen] using hleft
      | some e =>
        intro hfailed
        simp [closeHandle] at hfailed
  · obtain ⟨hisOpen, hkept⟩ := closeOpenedHandle_of_ne (s := s) hsame answers
    have hne : handle ≠ HandleName.caller m := fun hm => hsame hm.symm
    rw [hkept] at hfailed
    rw [hisOpen, h.callerOpen m hfailed, hhandle]
    simp [hne]

/-- The volume closes a handle that it opened, and frees a handle that it made. -/
theorem WellFormed.close (h : WellFormed s) (answers : BfioAnswers) :
    WellFormed (s.close answers).2 := by
  unfold VolumeSession.close
  cases hhandle : s.fileIOHandle with
  | none => exact h
  | some handle =>
  obtain ⟨hcreated, hhandles, hleft⟩ := closeOpenedHandle_rest handle answers s
  have hcaller := h.closeOpenedHandle_caller hhandle answers
  dsimp only
  rw [hcreated]
  cases handle with
  | caller n =>
    have hmade : s.fileIOHandleCreatedInLibrary = false := by
      rw [← Bool.not_eq_true, h.created, hhandle]
      simp
    have hother : ∀ m, s.fileIOHandle ≠ some (.library m) := by simp [hhandle]
    have hnothing : s.libraryHandles = [] :=
      List.eq_nil_iff_forall_not_mem.mpr fun m => h.not_mem_libraryHandles (hother m)
    rw [hmade, if_neg Bool.false_ne_true]
    refine wellFormed_of_closed rfl Volume.create_isClosed rfl (hhandles.trans hnothing) ?_ ?_
    · intro m
      have hne : HandleName.library m ≠ .caller n := by simp
      have hisOpen := (closeOpenedHandle_of_ne (s := s) hne answers).1
      exact hisOpen.trans (h.library_not_open (hother m))
    · intro m hfailed
      rw [hleft]
      exact hcaller m hfailed
  | library n =>
    have hmade : s.fileIOHandleCreatedInLibrary = true := by
      rw [h.created, hhandle]
      exact ⟨n, rfl⟩
    rw [hmade, if_pos rfl]
    refine wellFormed_of_closed rfl Volume.create_isClosed rfl ?_ ?_ ?_
    · rw [List.eq_nil_iff_forall_not_mem]
      intro m hmem
      simp only [freeHandle, setOpen, hhandles, List.mem_filter, h.libraryHandles, hhandle] at hmem
      obtain ⟨hm, hne⟩ := hmem
      injection hm with hm
      simp [hm] at hne
    · intro m
      by_cases hsame : m = n
      · simp [freeHandle, setOpen, hsame]
      · have hne : HandleName.library m ≠ .library n :=
          fun hm => hsame (HandleName.library.inj hm)
        simp only [freeHandle, setOpen, Function.update_of_ne hne]
        rw [(closeOpenedHandle_of_ne hne answers).1]
        apply h.library_not_open
        rw [hhandle]
        exact fun hm => hne (Option.some.inj hm).symm
    · intro m hfailed
      simp only [freeHandle, setOpen, ne_eq, reduceCtorEq, not_false_eq_true,
        Function.update_of_ne, hleft] at hfailed ⊢
      exact hcaller m hfailed

theorem WellFormed.free (h : WellFormed s) (answers : BfioAnswers) :
    WellFormed (s.free answers).2 := by
  have hclosed : ∀ {t : VolumeSession}, WellFormed t → t.fileIOHandle = none →
      WellFormed { t with volume := .create, abort := false } := by
    intro t ht hnone
    have hnew := ht.withVolume hnone Volume.create_isClosed
    exact ⟨hnew.closed, hnew.opened, hnew.created, hnew.libraryHandles, hnew.libraryOpen,
      hnew.fresh, hnew.callerOpen, hnew.openedInLibrary⟩
  unfold VolumeSession.free
  cases hhandle : s.fileIOHandle with
  | none => exact hclosed h hhandle
  | some handle =>
    apply hclosed (h.close answers)
    rw [VolumeSession.close, hhandle]

/-- The caller's own calls of libbfio. -/
theorem WellFormed.leaveHandle (h : WellFormed s) (n : Nat) (isOpen : Bool) :
    WellFormed (s.leaveHandle n isOpen) := by
  unfold VolumeSession.leaveHandle
  split
  · exact h
  next hother =>
  refine ⟨h.closed, ?_, h.created, h.libraryHandles, ?_, h.fresh, ?_, ?_⟩
  · intro handle hsome
    obtain ⟨hisOpen, hread⟩ := h.opened handle hsome
    refine ⟨?_, hread⟩
    have hne : handle ≠ .caller n := by
      rintro rfl
      exact hother hsome
    simpa [setOpen, Function.update_of_ne hne] using hisOpen
  · intro m hopen
    apply h.libraryOpen
    simpa [setOpen] using hopen
  · intro m hfailed
    by_cases hsame : m = n
    · subst hsame
      simp [setOpen, hother]
    · have hne : HandleName.caller m ≠ .caller n := fun hm => hsame (HandleName.caller.inj hm)
      simp only [setOpen, Function.update_of_ne hne, Function.update_of_ne hsame] at hfailed ⊢
      exact h.callerOpen m hfailed
  · intro m hsome hfailed
    have hsame : m ≠ n := by
      rintro rfl
      exact hother hsome
    have hne : HandleName.caller m ≠ .caller n := fun hm => hsame (HandleName.caller.inj hm)
    simp only [setOpen, Function.update_of_ne hne, Function.update_of_ne hsame] at hfailed ⊢
    exact h.openedInLibrary m hsome hfailed

/-- Every call keeps it. -/
theorem WellFormed.respond (h : WellFormed s) (request : VolumeRequest) :
    WellFormed (s.respond request).1 := by
  cases request with
  | openFile setNameError answers accessFlags => exact h.openFile setNameError answers accessFlags
  | openFileIOHandle number answers accessFlags =>
    exact h.openFileIOHandle number answers accessFlags
  | close answers => exact h.close answers
  | free answers => exact h.free answers
  | signalAbort =>
    exact ⟨h.closed, h.opened, h.created, h.libraryHandles, h.libraryOpen, h.fresh, h.callerOpen,
      h.openedInLibrary⟩
  | checkVolumeSignature setNameError answers =>
    cases setNameError with
    | some e => exact h.freed (Returned.refl _ _)
    | none => exact h.freed (checkVolumeSignatureFileIOHandle_returned _ _ _)
  | checkVolumeSignatureFileIOHandle number answers =>
    exact h.returned (checkVolumeSignatureFileIOHandle_returned _ _ _)
  | leaveHandle number isOpen => exact h.leaveHandle number isOpen

end Steps

/-! ### Any sequence of calls -/

theorem after_wellFormed (requests : List VolumeRequest) :
    WellFormed (Session.after respond create requests) :=
  Session.after_invariant (P := fun _ => True) (fun _ request _ h => h.respond request)
    (fun _ _ => trivial) create_wellFormed

/-- Whatever calls were made and whatever failed in them: a volume that is not open has nothing of
a file system, an open volume has all of it and an open handle, the library has no handle but that
of the volume, and a handle of the caller is open exactly where the caller left it open or the
volume has it, unless libbfio failed to close it. -/
theorem handles_after (requests : List VolumeRequest) :
    let s := Session.after respond create requests
    (s.fileIOHandle = none → s.volume.IsClosed) ∧
      (∀ handle, s.fileIOHandle = some handle → s.isOpen handle = true ∧
        ∃ fs root, s.volume.fileSystem = some ⟨some fs, some root⟩) ∧
      (∀ number, number ∈ s.libraryHandles ∨ s.isOpen (.library number) = true →
        s.fileIOHandle = some (.library number)) ∧
      ∀ number, s.closeFailed (.caller number) = false →
        s.isOpen (.caller number) =
          (s.leftOpen number || decide (s.fileIOHandle = some (.caller number))) := by
  have h := after_wellFormed requests
  refine ⟨h.closed, ?_, ?_, h.callerOpen⟩
  · intro handle hsome
    obtain ⟨hisOpen, _, hread⟩ := h.opened handle hsome
    exact ⟨hisOpen, hread⟩
  · rintro number (hmem | hopen)
    · exact (h.libraryHandles number).mp hmem
    · exact (h.libraryHandles number).mp (h.libraryOpen number hopen)

/-- A volume that is not open opens a file as it opens a new handle. -/
theorem openFile_eq {s : VolumeSession} (hnone : s.fileIOHandle = none)
    (answers : BfioAnswers) (accessFlags : BitVec 32) :
    (s.openFile none answers accessFlags).1 =
        (s.initializeHandle.openFileIOHandle (.library s.nextHandle) answers accessFlags).1 ∧
      (s.openFile none answers accessFlags).2.volume =
        (s.initializeHandle.openFileIOHandle (.library s.nextHandle) answers
          accessFlags).2.volume := by
  have hnone' : ¬ s.initializeHandle.fileIOHandle.isSome = true := by
    simp [initializeHandle, setOpen, hnone]
  unfold openFile
  split
  · next hflags =>
    rw [openFileIOHandle, if_neg hnone', if_pos hflags]
    exact ⟨rfl, rfl⟩
  split
  · next hflags hwrite =>
    rw [openFileIOHandle, if_neg hnone', if_neg hflags, if_pos hwrite]
    exact ⟨rfl, rfl⟩
  dsimp only
  cases s.initializeHandle.openFileIOHandle (.library s.nextHandle) answers accessFlags with
  | mk result opened => cases result <;> exact ⟨rfl, rfl⟩

/-- Whatever calls were made before, failed or not: a volume that is not open opens as a new one. -/
theorem opens_after (requests : List VolumeRequest) (number : Nat) (answers : BfioAnswers)
    (accessFlags : BitVec 32)
    (hnone : (Session.after respond create requests).fileIOHandle = none) :
    let s := Session.after respond create requests
    let opened := s.openFileIOHandle (.caller number) answers accessFlags
    let openedFile := s.openFile none answers accessFlags
    let newOpened := Volume.create.openFileIOHandle
      (answers.environment (s.isOpen (.caller number))) accessFlags
    let newOpenedFile := Volume.create.openFileIOHandle (answers.environment false) accessFlags
    opened.1 = newOpened.1 ∧ (newOpened.1 = .ok () → opened.2.volume = newOpened.2) ∧
      openedFile.1 = newOpenedFile.1 ∧
      (newOpenedFile.1 = .ok () → openedFile.2.volume = newOpenedFile.2) := by
  intro s opened openedFile newOpened newOpenedFile
  have hnone : s.fileIOHandle = none := hnone
  have hclosed : s.volume.IsClosed := (after_wellFormed requests).closed hnone
  have hsame : s.volume.fileIOHandle.isSome = s.fileIOHandle.isSome := by
    simp [hclosed.fileIOHandle, hnone]
  have hnext : s.initializeHandle.isOpen (.library s.nextHandle) = false := by
    simp [initializeHandle, setOpen]
  -- of a handle of the caller
  obtain ⟨hresult, hvolume⟩ := openFileIOHandle_volume (.caller number) answers accessFlags hsame
  obtain ⟨hnew, hnewVolume⟩ := Volume.openFileIOHandle_eq_create
    (answers.environment (s.isOpen (.caller number))) accessFlags hclosed
  -- of a file, that gets a new handle
  obtain ⟨hfile, hfileVolume⟩ := openFile_eq hnone answers accessFlags
  obtain ⟨hresult', hvolume'⟩ := openFileIOHandle_volume (s := s.initializeHandle)
    (.library s.nextHandle) answers accessFlags hsame
  rw [hnext] at hresult' hvolume'
  obtain ⟨hnew', hnewVolume'⟩ := Volume.openFileIOHandle_eq_create
    (answers.environment false) accessFlags hclosed
  refine ⟨hresult.trans hnew, ?_, (hfile.trans hresult').trans hnew', ?_⟩
  · intro hok
    exact hvolume.trans (hnewVolume (hnew.trans hok))
  · intro hok
    exact (hfileVolume.trans hvolume').trans (hnewVolume' (hnew'.trans hok))

/-- A file that libbfio opens, and closes, without an error. -/
def answersFor (data : List UInt8) : BfioAnswers where
  data := data
  isOpenError := none
  openError := none
  getSize := .ok data.length
  closeError := none
  closeAgainError := none
  createFileSystem := .ok ()
  freshMemory _ := 0

/-- Opening a truncated file fails and leaves values in the volume. They do not matter later. -/
theorem opens_after_truncated :
    let s := Session.after respond create
      [.openFileIOHandle 0 (answersFor BootRecord.exfatBootSector) accessFlagRead]
    s.fileIOHandle = none ∧ s.volume.getFileSystemFormat = .exfat ∧
      (s.openFileIOHandle (.caller 0) (answersFor rootFileImage) accessFlagRead).1 =
        (Volume.create.openFileIOHandle
          ((answersFor rootFileImage).environment (s.isOpen (.caller 0))) accessFlagRead).1 := by
  have hnone : (Session.after respond create
      [.openFileIOHandle 0 (answersFor BootRecord.exfatBootSector)
        accessFlagRead]).fileIOHandle = none := by decide +kernel
  exact ⟨hnone, by decide +kernel, (opens_after _ 0 (answersFor rootFileImage) _ hnone).1⟩

theorem openFileIOHandle_ok {s : VolumeSession} {handle : HandleName} {answers : BfioAnswers}
    {accessFlags : BitVec 32}
    (h : (s.openFileIOHandle handle answers accessFlags).1 = .ok ()) :
    answers.isOpenError = none ∧
      (s.openFileIOHandle handle answers accessFlags).2.isOpen handle = true ∧
      ∃ bootRecord, BootRecord.readFileIOHandle answers.data 0 = .ok bootRecord := by
  rcases openFileIOHandle_inversion s handle answers accessFlags with
    ⟨e, hopen⟩ | ⟨e, _, _, hopen, _⟩ | ⟨volume, hopen, hread, hanswer⟩
  · rw [hopen] at h
    cases h
  · rw [hopen] at h
    cases h
  · rw [hopen]
    refine ⟨hanswer, ?_, (Volume.openRead_ok hread).1⟩
    simp

/-- A file that a volume is opened from passes the check of its signature, and the check leaves
the volume and the handle as they are. -/
theorem checkVolumeSignatureFileIOHandle_of_opened {s : VolumeSession} {handle : HandleName}
    {answers : BfioAnswers} {accessFlags : BitVec 32}
    (h : (s.openFileIOHandle handle answers accessFlags).1 = .ok ()) :
    let opened := (s.openFileIOHandle handle answers accessFlags).2
    opened.checkVolumeSignatureFileIOHandle handle answers = (.ok true, opened) := by
  obtain ⟨hanswer, hisOpen, bootRecord, hrecord⟩ := openFileIOHandle_ok h
  have hsignature := BootRecord.readAt_signature hrecord
  intro opened
  have hisOpen : opened.isOpen handle = true := hisOpen
  have hopen : opened.openHandle handle answers = (.ok false, opened) := by
    simp [openHandle, hanswer, hisOpen]
  unfold checkVolumeSignatureFileIOHandle
  rw [hanswer]
  dsimp only
  rw [hopen, hsignature, hisOpen]
  rfl

/-- The volume with a file in its root directory. -/
theorem checkVolumeSignatureFileIOHandle_of_opened_rootFile :
    let answers := answersFor rootFileImage
    let opened := (create.openFileIOHandle (.caller 0) answers accessFlagRead).2
    (create.openFileIOHandle (.caller 0) answers accessFlagRead).1 = .ok () ∧
      opened.checkVolumeSignatureFileIOHandle (.caller 0) answers = (.ok true, opened) := by
  have hopen : (create.openFileIOHandle (.caller 0) (answersFor rootFileImage)
      accessFlagRead).1 = .ok () := by decide +kernel
  exact ⟨hopen, checkVolumeSignatureFileIOHandle_of_opened hopen⟩

end FsFat.VolumeSession
