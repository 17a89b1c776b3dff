import FsFat.Lib.Session
import FsFat.MountFuse

/-!
The handles of a mounted volume: `mount_fuse.c` with the file entries that it
allocates. A handle that FUSE has is the address of a file entry. Whatever calls
are made, the address is that of a file entry that is not freed, and the responses
are those of a tool that keeps no file entries and looks the path of a handle up
anew for each call. What is never freed are the file entries of the directories
that were released, and those of the library for paths that were not found.
-/

namespace FsFat

open MountHandle

/-! ### Calls of FUSE -/

/-- The calls. A handle is the number of the file information that FUSE has for it. -/
inductive MountRequest where
  | openFile (path : List UInt8) (flags : Nat)
  | read (handle : Nat) (size : Nat) (offset : Int)
  | release (handle : Nat)
  | openDirectory (path : List UInt8)
  | readDirectory (handle : Nat) (isFilled : Nat → Bool)
  | releaseDirectory (handle : Nat)
  | getAttributes (path : List UInt8)

/-- What a call returns. With `fault` a freed file entry was used. -/
inductive MountResponse where
  | opened (result : Except FuseError Nat)
  | read (result : Except FuseError (List UInt8))
  | listed (filled : List MountFuse.FillerCall) (result : Except FuseError Unit)
  | released
  | attributes (result : Except FuseError StatInfo)
  | fault

/-- The tool: the file entries that are allocated, by their address, and the address in the file
information of each handle. The last two are kept for the statements only: the addresses of the
directories that were released, and how many file entries of the library were lost. -/
structure MountSession where
  fileEntries : Nat → Option (MountFileEntry × FileEntryData)
  nextFileEntry : Nat
  fileHandles : Nat → Option Nat
  nextFileHandle : Nat
  leftFileEntries : List Nat
  lostFileEntries : Nat

section Session

variable (mountHandle : MountHandle)
  (streamReadBufferAtOffset : List Extent → Nat → Int → Except Error (List UInt8))

/-- The library has a file entry for a path that is not found, and the tool does not free it. -/
def MountHandle.losesFileEntry (path : List UInt8) : Bool :=
  path.length ≠ 0 ∧
    (MountFileSystem.getFileEntryByPath mountHandle.una mountHandle.fs mountHandle.image
      mountHandle.rootDirectory (path.take (pathLength path))).map Prod.fst = .ok false

/-- `mount_file_entry_read_buffer_at_offset`. -/
def MountFileEntry.readBufferAtOffset (fileEntry : MountFileEntry) (data : FileEntryData)
    (size : Nat) (offset : Int) : FileEntryData × Except Error (List UInt8) :=
  fileEntry.fileEntry.readBufferAtOffset .unlimited mountHandle.fs data fun segments =>
    streamReadBufferAtOffset segments size offset

/-- What `mount_fuse_read` returns for the result of the file entry. -/
def MountResponse.ofRead : Except Error (List UInt8) → MountResponse
  | .error _ => read (.error .inputOutput)
  | .ok buffer => read (.ok buffer)

namespace MountSession

def create : MountSession where
  fileEntries _ := none
  nextFileEntry := 0
  fileHandles _ := none
  nextFileHandle := 0
  leftFileEntries := []
  lostFileEntries := 0

/-- The file entry that the file information of a handle refers to. -/
def fileEntryOf (handle : Nat) (s : MountSession) :
    Option (Option (MountFileEntry × FileEntryData)) :=
  (s.fileHandles handle).map s.fileEntries

/-- What the functions that open have in common: a file entry is allocated for the path, and FUSE
gets a handle of it. -/
def openPath (path : List UInt8) (s : MountSession) : MountSession × MountResponse :=
  match mountHandle.getFileEntryByPath path with
  | .error _ | .ok none =>
    ({ s with
        lostFileEntries :=
          s.lostFileEntries + if mountHandle.losesFileEntry path then 1 else 0 },
      .opened (.error .noEntry))
  | .ok (some fileEntry) =>
    ({ s with
        fileEntries :=
          Function.update s.fileEntries s.nextFileEntry (some (fileEntry, .create))
        nextFileEntry := s.nextFileEntry + 1
        fileHandles := Function.update s.fileHandles s.nextFileHandle (some s.nextFileEntry)
        nextFileHandle := s.nextFileHandle + 1 },
      .opened (.ok s.nextFileHandle))

def respond (s : MountSession) : MountRequest → MountSession × MountResponse
  -- `mount_fuse_open`
  | .openFile path flags =>
    if flags &&& 0x03 ≠ 0 then (s, .opened (.error .accessDenied))
    else s.openPath mountHandle path
  -- `mount_fuse_read`
  | .read handle size offset =>
    if size > int32Max then (s, .read (.error .invalidArgument))
    else
      match s.fileHandles handle with
      | none => (s, .read (.error .invalidArgument))
      | some address =>
        match s.fileEntries address with
        | none => (s, .fault)
        | some (fileEntry, data) =>
          let (data, result) := fileEntry.readBufferAtOffset mountHandle
            streamReadBufferAtOffset data size offset
          ({ s with
              fileEntries := Function.update s.fileEntries address (some (fileEntry, data)) },
            .ofRead result)
  -- `mount_fuse_release`
  | .release handle =>
    match s.fileHandles handle with
    | none => (s, .released)
    | some address =>
      match s.fileEntries address with
      | none => (s, .fault)
      | some _ =>
        ({ s with
            fileEntries := Function.update s.fileEntries address none
            fileHandles := Function.update s.fileHandles handle none },
          .released)
  -- `mount_fuse_opendir`
  | .openDirectory path => s.openPath mountHandle path
  -- `mount_fuse_readdir`
  | .readDirectory handle isFilled =>
    match s.fileHandles handle with
    | none => (s, .listed [] (.error .invalidArgument))
    | some address =>
      match s.fileEntries address with
      | none => (s, .fault)
      | some (fileEntry, _) =>
        let (filled, result) := MountFuse.readdir mountHandle isFilled fileEntry
        (s, .listed filled result)
  -- `mount_fuse_releasedir`, that does not free the file entry
  | .releaseDirectory handle =>
    match s.fileHandles handle with
    | none => (s, .released)
    | some address =>
      ({ s with
          fileHandles := Function.update s.fileHandles handle none
          leftFileEntries := address :: s.leftFileEntries },
        .released)
  -- `mount_fuse_getattr`, that frees the file entry that it gets
  | .getAttributes path =>
    ({ s with
        lostFileEntries :=
          s.lostFileEntries + if mountHandle.losesFileEntry path then 1 else 0 },
      .attributes (MountFuse.getattr mountHandle path))

end MountSession

/-! ### A tool that keeps paths only -/

/-- The path of each handle that FUSE has. -/
structure PathSession where
  paths : Nat → Option (List UInt8)
  nextFileHandle : Nat

namespace PathSession

def create : PathSession where
  paths _ := none
  nextFileHandle := 0

def openPath (path : List UInt8) (p : PathSession) : PathSession × MountResponse :=
  match mountHandle.getFileEntryByPath path with
  | .error _ | .ok none => (p, .opened (.error .noEntry))
  | .ok (some _) =>
    (⟨Function.update p.paths p.nextFileHandle (some path), p.nextFileHandle + 1⟩,
      .opened (.ok p.nextFileHandle))

/-- The path of the handle is looked up for each call. -/
def respond (p : PathSession) : MountRequest → PathSession × MountResponse
  | .openFile path flags =>
    if flags &&& 0x03 ≠ 0 then (p, .opened (.error .accessDenied))
    else p.openPath mountHandle path
  | .read handle size offset =>
    if size > int32Max then (p, .read (.error .invalidArgument))
    else
      match p.paths handle with
      | none => (p, .read (.error .invalidArgument))
      | some path =>
        match mountHandle.getFileEntryByPath path with
        | .error _ | .ok none => (p, .read (.error .noEntry))
        | .ok (some fileEntry) =>
          (p, .ofRead (fileEntry.readBufferAtOffset mountHandle streamReadBufferAtOffset
            .create size offset).2)
  | .release handle | .releaseDirectory handle =>
    ({ p with paths := Function.update p.paths handle none }, .released)
  | .openDirectory path => p.openPath mountHandle path
  | .readDirectory handle isFilled =>
    match p.paths handle with
    | none => (p, .listed [] (.error .invalidArgument))
    | some path =>
      match mountHandle.getFileEntryByPath path with
      | .error _ | .ok none => (p, .listed [] (.error .noEntry))
      | .ok (some fileEntry) =>
        let (filled, result) := MountFuse.readdir mountHandle isFilled fileEntry
        (p, .listed filled result)
  | .getAttributes path => (p, .attributes (MountFuse.getattr mountHandle path))

end PathSession

/-! ### What is read of a file entry -/

/-- The data stream of the file entry, if it has one yet, is the one that building it gives. -/
def FileEntryData.IsOf (fs : FileSystem) (fileEntry : FileEntry) (data : FileEntryData) : Prop :=
  ∀ segments, data.clusterBlockStream = some segments →
    (buildDataStream .unlimited fs fileEntry.clusterNumber fileEntry.dataSize).2 = .ok segments

theorem FileEntryData.create_isOf (fs : FileSystem) (fileEntry : FileEntry) :
    FileEntryData.create.IsOf fs fileEntry :=
  fun _ h => by cases h

/-- A call gives what it would give of a file entry that was not read before. -/
theorem FileEntryData.IsOf.withDataStream {α : Type} {fs : FileSystem} {fileEntry : FileEntry}
    {data : FileEntryData} (h : data.IsOf fs fileEntry)
    (use : List Extent → Except Error α) :
    (fileEntry.withDataStream use .unlimited fs data).1.IsOf fs fileEntry ∧
      (fileEntry.withDataStream use .unlimited fs data).2 =
        (fileEntry.withDataStream use .unlimited fs .create).2 := by
  unfold FileEntry.withDataStream
  split
  · exact ⟨h, rfl⟩
  · cases hstream : data.clusterBlockStream with
    | none =>
      have hensure : fileEntry.ensureDataStream .unlimited fs data =
          (⟨(buildDataStream .unlimited fs fileEntry.clusterNumber
              fileEntry.dataSize).2.toOption, data.dataExtents ++
            (buildDataStream .unlimited fs fileEntry.clusterNumber fileEntry.dataSize).1⟩,
            (buildDataStream .unlimited fs fileEntry.clusterNumber fileEntry.dataSize).2) := by
        rw [FileEntry.ensureDataStream, hstream]
      rw [hensure]
      refine ⟨fun segments hsome => ?_, rfl⟩
      cases hbuild : (buildDataStream .unlimited fs fileEntry.clusterNumber
          fileEntry.dataSize).2 with
      | error e =>
        rw [hbuild] at hsome
        cases hsome
      | ok built =>
        rw [hbuild] at hsome
        exact congrArg Except.ok (Option.some.inj hsome)
    | some segments =>
      have hensure : fileEntry.ensureDataStream .unlimited fs data = (data, .ok segments) := by
        rw [FileEntry.ensureDataStream, hstream]
      have hcreate : (fileEntry.ensureDataStream .unlimited fs .create).2 = .ok segments :=
        h segments hstream
      rw [hensure]
      refine ⟨h, ?_⟩
      dsimp only
      rw [hcreate]

/-! ### The tool and the paths -/

/-- A handle has a path that leads to the file entry at its address, which is not freed. -/
def HandleTracks (s : MountSession) (handle : Option Nat) (path : Option (List UInt8)) : Prop :=
  match handle, path with
  | none, none => True
  | some address, some path => ∃ fileEntry data, s.fileEntries address = some (fileEntry, data) ∧
      mountHandle.getFileEntryByPath path = .ok (some fileEntry) ∧
      data.IsOf mountHandle.fs fileEntry.fileEntry
  | _, _ => False

structure Tracks (s : MountSession) (p : PathSession) : Prop where
  nextFileHandle : s.nextFileHandle = p.nextFileHandle
  handles : ∀ handle, HandleTracks mountHandle s (s.fileHandles handle) (p.paths handle)
  distinct : ∀ first second address, s.fileHandles first = some address →
    s.fileHandles second = some address → first = second
  fresh : ∀ address, s.fileEntries address ≠ none → address < s.nextFileEntry

end Session

section Steps

variable {mountHandle : MountHandle}
  {streamReadBufferAtOffset : List Extent → Nat → Int → Except Error (List UInt8)}
  {s : MountSession} {p : PathSession}

theorem HandleTracks.congr {after : MountSession} {handle : Option Nat}
    {path : Option (List UInt8)} (h : HandleTracks mountHandle s handle path)
    (hsame : ∀ address, handle = some address → s.fileEntries address ≠ none →
      after.fileEntries address = s.fileEntries address) :
    HandleTracks mountHandle after handle path := by
  match handle, path with
  | none, none => trivial
  | none, some _ => exact h.elim
  | some _, none => exact h.elim
  | some address, some path =>
    obtain ⟨fileEntry, data, hsome, hrest⟩ := h
    refine ⟨fileEntry, data, ?_, hrest⟩
    rw [hsame address rfl (by simp [hsome]), hsome]

/-- A handle that FUSE has refers to a file entry. -/
theorem Tracks.cases (h : Tracks mountHandle s p) (handle : Nat) :
    (s.fileHandles handle = none ∧ p.paths handle = none) ∨
    ∃ address path fileEntry data, s.fileHandles handle = some address ∧
      p.paths handle = some path ∧ s.fileEntries address = some (fileEntry, data) ∧
      mountHandle.getFileEntryByPath path = .ok (some fileEntry) ∧
      data.IsOf mountHandle.fs fileEntry.fileEntry := by
  have htracks := h.handles handle
  revert htracks
  cases s.fileHandles handle with
  | none =>
    cases p.paths handle with
    | none => exact fun _ => Or.inl ⟨rfl, rfl⟩
    | some path => exact False.elim
  | some address =>
    cases p.paths handle with
    | none => exact False.elim
    | some path =>
      rintro ⟨fileEntry, data, hrest⟩
      exact Or.inr ⟨address, path, fileEntry, data, rfl, rfl, hrest⟩

theorem create_tracks : Tracks mountHandle .create .create where
  nextFileHandle := rfl
  handles _ := trivial
  distinct _ _ _ h := by cases h
  fresh _ h := absurd rfl h

theorem Tracks.openPath (h : Tracks mountHandle s p) (path : List UInt8) :
    Tracks mountHandle (s.openPath mountHandle path).1 (p.openPath mountHandle path).1 ∧
      (s.openPath mountHandle path).2 = (p.openPath mountHandle path).2 := by
  unfold MountSession.openPath PathSession.openPath
  rcases hget : mountHandle.getFileEntryByPath path with e | _ | fileEntry
  · exact ⟨⟨h.nextFileHandle, h.handles, h.distinct, h.fresh⟩, rfl⟩
  · exact ⟨⟨h.nextFileHandle, h.handles, h.distinct, h.fresh⟩, rfl⟩
  dsimp only
  rw [h.nextFileHandle]
  have hnew : ∀ handle address, s.fileHandles handle = some address →
      address ≠ s.nextFileEntry := by
    intro handle address haddress
    rcases h.cases handle with ⟨hnone, _⟩ | ⟨address', _, _, _, hsome, _, hlive, _⟩
    · rw [haddress] at hnone
      cases hnone
    · rw [haddress] at hsome
      obtain rfl := Option.some.inj hsome
      exact (h.fresh address (by simp [hlive])).ne
  refine ⟨⟨rfl, ?_, ?_, ?_⟩, rfl⟩
  · intro handle
    by_cases hsame : handle = p.nextFileHandle
    · subst hsame
      simp only [Function.update_self]
      exact ⟨fileEntry, .create, Function.update_self .., hget, FileEntryData.create_isOf _ _⟩
    · simp only [Function.update_of_ne hsame]
      apply (h.handles handle).congr
      intro address haddress _
      exact Function.update_of_ne (hnew handle address haddress) _ _
  · apply Session.Distinct.update_some h.distinct
    intro handle haddress
    exact hnew handle _ haddress rfl
  · exact fun _ => Session.lt_succ_of_update_ne_none h.fresh

/-- FUSE forgets a handle. What its address has does not matter then. -/
theorem Tracks.forget (h : Tracks mountHandle s p) {handle address : Nat}
    (haddress : s.fileHandles handle = some address) {after : MountSession}
    (hhandles : after.fileHandles = Function.update s.fileHandles handle none)
    (hnext : after.nextFileHandle = s.nextFileHandle ∧ after.nextFileEntry = s.nextFileEntry)
    (hother : ∀ other, other ≠ address → after.fileEntries other = s.fileEntries other)
    (hlive : after.fileEntries address ≠ none → s.fileEntries address ≠ none) :
    Tracks mountHandle after { p with paths := Function.update p.paths handle none } where
  nextFileHandle := hnext.1.trans h.nextFileHandle
  handles other := by
    rw [hhandles]
    dsimp only
    by_cases hsame : other = handle
    · rw [hsame, Function.update_self, Function.update_self]
      trivial
    · rw [Function.update_of_ne hsame, Function.update_of_ne hsame]
      apply (h.handles other).congr
      intro address' haddress' _
      apply hother
      rintro rfl
      exact hsame (h.distinct other handle address' haddress' haddress)
  distinct := by
    rw [hhandles]
    exact Session.Distinct.update_none h.distinct
  fresh other hsome := by
    rw [hnext.2]
    apply h.fresh
    by_cases hsame : other = address
    · rw [hsame] at hsome ⊢
      exact hlive hsome
    · rwa [hother other hsame] at hsome

/-- Forgetting a handle that FUSE does not have changes nothing. -/
theorem Tracks.forget_none (h : Tracks mountHandle s p) {handle : Nat}
    (hnone : p.paths handle = none) :
    Tracks mountHandle s { p with paths := Function.update p.paths handle none } := by
  rwa [← hnone, Function.update_eq_self]

/-- The data of a file entry is read, and it stays that of the file entry. -/
theorem Tracks.withData (h : Tracks mountHandle s p) {address : Nat} {fileEntry : MountFileEntry}
    {data after : FileEntryData} (hlive : s.fileEntries address = some (fileEntry, data))
    (hdata : after.IsOf mountHandle.fs fileEntry.fileEntry) :
    Tracks mountHandle
      { s with fileEntries := Function.update s.fileEntries address (some (fileEntry, after)) }
      p where
  nextFileHandle := h.nextFileHandle
  handles handle := by
    rcases h.cases handle with ⟨hnone, hpath⟩ |
      ⟨address', path, fileEntry', data', haddress, hpath, hlive', hget, hdata'⟩
    · dsimp only
      rw [hnone, hpath]
      trivial
    · dsimp only
      rw [haddress, hpath]
      by_cases hsame : address' = address
      · subst hsame
        rw [hlive] at hlive'
        injection hlive' with hlive'
        injection hlive' with hfileEntry _
        subst hfileEntry
        exact ⟨fileEntry, after, Function.update_self .., hget, hdata⟩
      · refine ⟨fileEntry', data', ?_, hget, hdata'⟩
        rw [← hlive']
        exact Function.update_of_ne hsame _ _
  distinct := h.distinct
  fresh other hsome := by
    apply h.fresh
    by_cases hsame : other = address
    · rw [hsame, hlive]
      exact Option.some_ne_none _
    · dsimp only at hsome
      rwa [Function.update_of_ne hsame] at hsome

/-- The tool responds as one that keeps paths only. -/
theorem Tracks.respond (h : Tracks mountHandle s p) (request : MountRequest) :
    Tracks mountHandle (s.respond mountHandle streamReadBufferAtOffset request).1
        (p.respond mountHandle streamReadBufferAtOffset request).1 ∧
      (s.respond mountHandle streamReadBufferAtOffset request).2 =
        (p.respond mountHandle streamReadBufferAtOffset request).2 := by
  cases request with
  | openFile path flags =>
    unfold MountSession.respond PathSession.respond
    dsimp only
    split
    · exact ⟨h, rfl⟩
    · exact h.openPath path
  | read handle size offset =>
    unfold MountSession.respond PathSession.respond
    dsimp only
    split
    · exact ⟨h, rfl⟩
    rcases h.cases handle with ⟨hnone, hpath⟩ |
      ⟨address, path, fileEntry, data, haddress, hpath, hlive, hget, hdata⟩
    · rw [hnone, hpath]
      exact ⟨h, rfl⟩
    · rw [haddress, hpath]
      dsimp only
      rw [hlive, hget]
      obtain ⟨hafter, hresult⟩ := hdata.withDataStream fun segments =>
        streamReadBufferAtOffset segments size offset
      exact ⟨h.withData hlive hafter, congrArg MountResponse.ofRead hresult⟩
  | release handle =>
    unfold MountSession.respond PathSession.respond
    dsimp only
    rcases h.cases handle with ⟨hnone, hpath⟩ |
      ⟨address, path, fileEntry, data, haddress, hpath, hlive, hget, hdata⟩
    · rw [hnone]
      exact ⟨h.forget_none hpath, rfl⟩
    · rw [haddress]
      dsimp only
      rw [hlive]
      refine ⟨h.forget haddress rfl ⟨rfl, rfl⟩ ?_ ?_, rfl⟩
      · intro other hother
        exact Function.update_of_ne hother _ _
      · intro hfreed
        simp at hfreed
  | openDirectory path => exact h.openPath path
  | readDirectory handle isFilled =>
    unfold MountSession.respond PathSession.respond
    dsimp only
    rcases h.cases handle with ⟨hnone, hpath⟩ |
      ⟨address, path, fileEntry, data, haddress, hpath, hlive, hget, hdata⟩
    · rw [hnone, hpath]
      exact ⟨h, rfl⟩
    · rw [haddress, hpath]
      dsimp only
      rw [hlive, hget]
      exact ⟨h, rfl⟩
  | releaseDirectory handle =>
    unfold MountSession.respond PathSession.respond
    dsimp only
    rcases h.cases handle with ⟨hnone, hpath⟩ |
      ⟨address, path, fileEntry, data, haddress, hpath, hlive, hget, hdata⟩
    · rw [hnone]
      exact ⟨h.forget_none hpath, rfl⟩
    · rw [haddress]
      exact ⟨h.forget haddress rfl ⟨rfl, rfl⟩ (fun _ _ => rfl) id, rfl⟩
  | getAttributes path =>
    exact ⟨⟨h.nextFileHandle, h.handles, h.distinct, h.fresh⟩, rfl⟩

theorem respondPath_ne_fault (p : PathSession) (request : MountRequest) :
    (p.respond mountHandle streamReadBufferAtOffset request).2 ≠ .fault := by
  have hopen : ∀ path, (p.openPath mountHandle path).2 ≠ .fault := by
    intro path
    unfold PathSession.openPath
    split <;> simp
  have hread : ∀ result, MountResponse.ofRead result ≠ .fault := by
    intro result
    cases result <;> simp [MountResponse.ofRead]
  cases request with
  | openFile path flags =>
    unfold PathSession.respond
    dsimp only
    split
    · simp
    · exact hopen path
  | read handle size offset =>
    unfold PathSession.respond
    dsimp only
    split
    · simp
    split
    · simp
    · split
      · simp
      · simp
      · exact hread _
  | release handle => simp [PathSession.respond]
  | openDirectory path => exact hopen path
  | readDirectory handle isFilled =>
    unfold PathSession.respond
    dsimp only
    split
    · simp
    · split <;> simp
  | releaseDirectory handle => simp [PathSession.respond]
  | getAttributes path => simp [PathSession.respond]

end Steps

/-- Whatever sequence of calls FUSE makes, the tool responds as one that keeps the path of each
handle only and looks it up anew for each call. No response is a fault: none of the calls uses a
file entry that was freed. -/
theorem mount_responds_as_paths (mountHandle : MountHandle)
    (streamReadBufferAtOffset : List Extent → Nat → Int → Except Error (List UInt8))
    (requests : List MountRequest) :
    let respond := MountSession.respond mountHandle streamReadBufferAtOffset
    let respondPath := PathSession.respond mountHandle streamReadBufferAtOffset
    Session.responses respond .create requests = Session.responses respondPath .create requests ∧
      .fault ∉ Session.responses respond .create requests := by
  intro respond respondPath
  have hstep : ∀ s p request, Tracks mountHandle s p →
      Tracks mountHandle (respond s request).1 (respondPath p request).1 ∧
        (respond s request).2 = (respondPath p request).2 :=
    fun s p request h => h.respond request
  have hrelated := (Session.responses_related hstep create_tracks requests).2
  rw [List.forall₂_eq_eq_eq] at hrelated
  refine ⟨hrelated, ?_⟩
  rw [hrelated]
  intro hfault
  exact Session.responses_forall (Q := (· ≠ .fault)) respondPath_ne_fault requests _ hfault rfl

/-! ### What is not freed -/

/-- The file entries that are not freed are those of the handles that FUSE has and of the
directories that were released, each of them once. -/
structure Accounted (s : MountSession) : Prop where
  live : ∀ address, s.fileEntries address ≠ none ↔
    (∃ handle, s.fileHandles handle = some address) ∨ address ∈ s.leftFileEntries
  notBoth : ∀ handle address, s.fileHandles handle = some address → address ∉ s.leftFileEntries
  distinct : ∀ first second address, s.fileHandles first = some address →
    s.fileHandles second = some address → first = second
  leftOnce : s.leftFileEntries.Nodup
  fresh : ∀ address, s.fileEntries address ≠ none → address < s.nextFileEntry
  freshHandle : ∀ handle address, s.fileHandles handle = some address → handle < s.nextFileHandle

section Accounting

variable {mountHandle : MountHandle}
  {streamReadBufferAtOffset : List Extent → Nat → Int → Except Error (List UInt8)}
  {s : MountSession}

theorem create_accounted : Accounted .create := by
  refine ⟨fun address => ?_, ?_, ?_, .nil, ?_, ?_⟩
  · simp [MountSession.create]
  · intro handle address h
    cases h
  · intro first second address h
    cases h
  · intro address h
    exact absurd rfl h
  · intro handle address h
    cases h

theorem Accounted.openPath (h : Accounted s) (path : List UInt8) :
    Accounted (s.openPath mountHandle path).1 := by
  unfold MountSession.openPath
  rcases mountHandle.getFileEntryByPath path with e | _ | fileEntry
  · exact ⟨h.live, h.notBoth, h.distinct, h.leftOnce, h.fresh, h.freshHandle⟩
  · exact ⟨h.live, h.notBoth, h.distinct, h.leftOnce, h.fresh, h.freshHandle⟩
  dsimp only
  have hfree : s.fileEntries s.nextFileEntry = none := by
    by_contra hlive
    exact Nat.lt_irrefl _ (h.fresh _ hlive)
  have hnothing : ¬ ((∃ handle, s.fileHandles handle = some s.nextFileEntry) ∨
      s.nextFileEntry ∈ s.leftFileEntries) := fun hsome => (h.live _).mpr hsome hfree
  obtain ⟨hnoHandle, hnotLeft⟩ := not_or.mp hnothing
  have hunused : s.fileHandles s.nextFileHandle = none := by
    by_contra hsome
    obtain ⟨address, haddress⟩ := Option.ne_none_iff_exists'.mp hsome
    exact Nat.lt_irrefl _ (h.freshHandle _ _ haddress)
  have hhandles : ∀ handle address,
      Function.update s.fileHandles s.nextFileHandle (some s.nextFileEntry) handle =
        some address ↔
      (handle = s.nextFileHandle ∧ address = s.nextFileEntry) ∨
        s.fileHandles handle = some address := by
    intro handle address
    by_cases hsame : handle = s.nextFileHandle
    · simp [hsame, hunused, eq_comm]
    · simp [hsame]
  refine ⟨?_, ?_, ?_, h.leftOnce, ?_, ?_⟩
  · intro address
    simp only [hhandles]
    by_cases hsame : address = s.nextFileEntry
    · simp [hsame]
    · simp [hsame, h.live]
  · intro handle address haddress hleft
    rcases (hhandles handle address).mp haddress with ⟨_, rfl⟩ | haddress
    · exact hnotLeft hleft
    · exact h.notBoth handle address haddress hleft
  · exact Session.Distinct.update_some h.distinct fun handle haddress =>
      hnoHandle ⟨handle, haddress⟩
  · exact fun _ => Session.lt_succ_of_update_ne_none h.fresh
  · intro handle address haddress
    rcases (hhandles handle address).mp haddress with ⟨rfl, _⟩ | haddress
    · exact Nat.lt_succ_self _
    · exact Nat.lt_succ_of_lt (h.freshHandle handle address haddress)

/-- What a handle that is forgotten leaves behind. -/
theorem Accounted.forget (h : Accounted s) {handle address : Nat}
    (haddress : s.fileHandles handle = some address) :
    let fileHandles := Function.update s.fileHandles handle none
    Accounted { s with fileHandles, fileEntries := Function.update s.fileEntries address none } ∧
      Accounted { s with fileHandles, leftFileEntries := address :: s.leftFileEntries } := by
  intro fileHandles
  have hhandles : ∀ other address', fileHandles other = some address' ↔
      other ≠ handle ∧ s.fileHandles other = some address' :=
    fun _ _ => Session.update_none_eq_some_iff
  have hdistinct : Session.Distinct fileHandles := Session.Distinct.update_none h.distinct
  have hnone : ∀ other, fileHandles other ≠ some address := by
    intro other hother
    obtain ⟨hne, hother⟩ := (hhandles other address).mp hother
    exact hne (h.distinct other handle address hother haddress)
  have hothers : ∀ address', address' ≠ address →
      ((∃ other, fileHandles other = some address') ↔
        ∃ other, s.fileHandles other = some address') := by
    intro address' hne
    constructor
    · rintro ⟨other, hother⟩
      exact ⟨other, ((hhandles _ _).mp hother).2⟩
    · rintro ⟨other, hother⟩
      refine ⟨other, (hhandles _ _).mpr ⟨?_, hother⟩⟩
      rintro rfl
      exact hne (Option.some.inj (hother.symm.trans haddress))
  have hnotLeft : address ∉ s.leftFileEntries := h.notBoth handle address haddress
  constructor
  · refine ⟨?_, ?_, hdistinct, h.leftOnce, ?_, ?_⟩
    · intro address'
      by_cases hsame : address' = address
      · subst hsame
        simp [hnone, hnotLeft]
      · simp [hsame, hothers address' hsame, h.live]
    · intro other address' hother
      exact h.notBoth other address' ((hhandles _ _).mp hother).2
    · intro address' hlive
      apply h.fresh
      by_cases hsame : address' = address
      · simp [hsame] at hlive
      · simpa [hsame] using hlive
    · intro other address' hother
      exact h.freshHandle other address' ((hhandles _ _).mp hother).2
  · refine ⟨?_, ?_, hdistinct, ?_, h.fresh, ?_⟩
    · intro address'
      by_cases hsame : address' = address
      · subst hsame
        simpa using (h.live address').mpr (Or.inl ⟨handle, haddress⟩)
      · simp [hsame, hothers address' hsame, h.live]
    · intro other address' hother hleft
      rcases List.mem_cons.mp hleft with rfl | hleft
      · exact hnone other hother
      · exact h.notBoth other address' ((hhandles _ _).mp hother).2 hleft
    · exact List.nodup_cons.mpr ⟨hnotLeft, h.leftOnce⟩
    · intro other address' hother
      exact h.freshHandle other address' ((hhandles _ _).mp hother).2

theorem Accounted.respond (h : Accounted s) (request : MountRequest) :
    Accounted (s.respond mountHandle streamReadBufferAtOffset request).1 := by
  cases request with
  | openFile path flags =>
    unfold MountSession.respond
    dsimp only
    split
    · exact h
    · exact h.openPath path
  | read handle size offset =>
    unfold MountSession.respond
    dsimp only
    split
    · exact h
    split
    · exact h
    next address _ =>
    split
    · exact h
    next fileEntry data hlive =>
    have hsame : ∀ value other, Function.update s.fileEntries address (some value) other ≠ none ↔
        s.fileEntries other ≠ none := by
      intro value other
      by_cases hother : other = address
      · simp [hother, hlive]
      · simp [hother]
    refine ⟨?_, h.notBoth, h.distinct, h.leftOnce, ?_, h.freshHandle⟩
    · intro other
      rw [← h.live]
      exact hsame _ other
    · intro other hother
      exact h.fresh other ((hsame _ other).mp hother)
  | release handle =>
    unfold MountSession.respond
    dsimp only
    split
    · exact h
    next address haddress =>
    split
    · exact h
    · exact (h.forget haddress).1
  | openDirectory path => exact h.openPath path
  | readDirectory handle isFilled =>
    unfold MountSession.respond
    dsimp only
    split
    · exact h
    · split
      · exact h
      · exact h
  | releaseDirectory handle =>
    unfold MountSession.respond
    dsimp only
    split
    · exact h
    next address haddress => exact (h.forget haddress).2
  | getAttributes path =>
    exact ⟨h.live, h.notBoth, h.distinct, h.leftOnce, h.fresh, h.freshHandle⟩

end Accounting

/-- A call for which the library has a file entry of a path that is not found. -/
def MountRequest.losesFileEntry (mountHandle : MountHandle) : MountRequest → Bool
  | .openFile path flags => flags &&& 0x03 = 0 ∧ mountHandle.losesFileEntry path
  | .openDirectory path | .getAttributes path => mountHandle.losesFileEntry path
  | .read .. | .release .. | .readDirectory .. | .releaseDirectory .. => false

/-- A path that loses a file entry is not found. -/
theorem getFileEntryByPath_of_losesFileEntry {mountHandle : MountHandle} {path : List UInt8}
    (h : mountHandle.losesFileEntry path = true) :
    mountHandle.getFileEntryByPath path = .ok none := by
  have hloses : path.length ≠ 0 ∧ (MountFileSystem.getFileEntryByPath mountHandle.una
      mountHandle.fs mountHandle.image mountHandle.rootDirectory
      (path.take (pathLength path))).map Prod.fst = .ok false := of_decide_eq_true h
  obtain ⟨⟨result, fileEntry⟩, hfound, hresult⟩ := map_eq_ok_iff.mp hloses.2
  obtain rfl : result = false := hresult
  rw [MountHandle.getFileEntryByPath, if_neg hloses.1]
  dsimp only
  rw [hfound]

theorem lostFileEntries_openPath (mountHandle : MountHandle) (s : MountSession)
    (path : List UInt8) :
    (s.openPath mountHandle path).1.lostFileEntries =
      s.lostFileEntries + if mountHandle.losesFileEntry path then 1 else 0 := by
  unfold MountSession.openPath
  split
  · rfl
  · rfl
  · next fileEntry hget =>
    have hkept : ¬ mountHandle.losesFileEntry path = true := by
      intro hloses
      rw [getFileEntryByPath_of_losesFileEntry hloses] at hget
      injection hget with hget
      cases hget
    rw [if_neg hkept]
    rfl

theorem lostFileEntries_respond (mountHandle : MountHandle)
    (streamReadBufferAtOffset : List Extent → Nat → Int → Except Error (List UInt8))
    (s : MountSession) (request : MountRequest) :
    (s.respond mountHandle streamReadBufferAtOffset request).1.lostFileEntries =
      s.lostFileEntries + if request.losesFileEntry mountHandle then 1 else 0 := by
  cases request with
  | openFile path flags =>
    unfold MountSession.respond MountRequest.losesFileEntry
    dsimp only
    split
    · next hwrite => simp [hwrite]
    · next hread =>
      rw [lostFileEntries_openPath]
      simp [not_not.mp hread]
  | read handle size offset =>
    unfold MountSession.respond
    dsimp only
    split
    · rfl
    split
    · rfl
    · split <;> rfl
  | release handle =>
    unfold MountSession.respond
    dsimp only
    split
    · rfl
    · split <;> rfl
  | openDirectory path => exact lostFileEntries_openPath mountHandle s path
  | readDirectory handle isFilled =>
    unfold MountSession.respond
    dsimp only
    split
    · rfl
    · split <;> rfl
  | releaseDirectory handle =>
    unfold MountSession.respond
    dsimp only
    split <;> rfl
  | getAttributes path => rfl

theorem lostFileEntries_after (mountHandle : MountHandle)
    (streamReadBufferAtOffset : List Extent → Nat → Int → Except Error (List UInt8))
    (s : MountSession) (requests : List MountRequest) :
    (Session.after (MountSession.respond mountHandle streamReadBufferAtOffset) s
      requests).lostFileEntries =
      s.lostFileEntries + requests.countP (MountRequest.losesFileEntry mountHandle) := by
  induction requests generalizing s with
  | nil => rfl
  | cons request requests ih =>
    rw [Session.after_cons, ih, lostFileEntries_respond, List.countP_cons]
    omega

/-- Whatever sequence of calls FUSE makes: the file entries that are allocated are those of its
handles and those of the directories that it released, and of the library one more is lost for each
call with a path that is not found. -/
theorem mount_memory (mountHandle : MountHandle)
    (streamReadBufferAtOffset : List Extent → Nat → Int → Except Error (List UInt8))
    (requests : List MountRequest) :
    let s := Session.after (MountSession.respond mountHandle streamReadBufferAtOffset) .create
      requests
    Accounted s ∧
      s.lostFileEntries = requests.countP (MountRequest.losesFileEntry mountHandle) := by
  have haccounted : Accounted (Session.after
      (MountSession.respond mountHandle streamReadBufferAtOffset) .create requests) :=
    Session.after_invariant (P := fun _ => True) (fun _ request _ h => h.respond request)
      (fun _ _ => trivial) create_accounted
  refine ⟨haccounted, ?_⟩
  rw [lostFileEntries_after]
  exact Nat.zero_add _

end FsFat
