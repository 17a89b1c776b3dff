import FsFat.Lib.Session
import FsFat.SubFileEntryNames

/-!
What the library keeps between calls: the directory cache and the root directory
of a file system (`libfsfat_file_system.c`), and the directory of each file entry
that a caller has (`libfsfat_file_entry.c`). A directory is read once, and the
name of an entry is determined where it is asked for first. A caller cannot tell
this from a library that reads every directory anew for each call.
-/

namespace FsFat

open DirectoryEntry

/-! ### The directory cache -/

/-- What libfcache decides by itself, in a state of its own: whether a value that it has is still
found, and which values are left where another is set. -/
structure LibFcache (κ : Type) where
  empty : κ
  getValueByIdentifier : κ → Nat → Bool × κ
  setValueByIdentifier : κ → Nat → (Nat → Bool) × κ

/-- The directories in the cache, by the number of their first cluster. -/
structure DirectoryCache (κ : Type) where
  state : κ
  directories : Nat → Option Directory

/-- What the library keeps: the root directory, the directory cache, and the file entries that a
caller got so far. The directory of a file entry is set when it is read. -/
structure LibraryState (κ : Type) where
  rootDirectory : Directory
  directoryCache : DirectoryCache κ
  fileEntries : List FileEntry

section Library

variable {κ : Type} (fcache : LibFcache κ) (una : LibUna) (fs : FileSystem) (image : List UInt8)

namespace LibraryState

/-- After a volume was opened. -/
def create (root : Directory) : LibraryState κ where
  rootDirectory := root
  directoryCache := ⟨fcache.empty, fun _ => none⟩
  fileEntries := []

/-- `libfsfat_file_system_get_directory`. -/
def getDirectory (clusterNumber : Nat) (s : LibraryState κ) :
    Except Error Directory × LibraryState κ :=
  let (isFound, state) := fcache.getValueByIdentifier s.directoryCache.state clusterNumber
  match if isFound then s.directoryCache.directories clusterNumber else none with
  | some directory =>
    (.ok directory, { s with directoryCache := { s.directoryCache with state } })
  | none =>
    match readDirectory fs image clusterNumber with
    | .error e => (.error e, { s with directoryCache := { s.directoryCache with state } })
    | .ok directory =>
      let (isLeft, state) := fcache.setValueByIdentifier state clusterNumber
      (.ok directory,
        { s with
          directoryCache :=
            { state
              directories := fun other =>
                if other = clusterNumber then some directory
                else if isLeft other then s.directoryCache.directories other else none } })

/-- The directory of the next component of a path. -/
def getPathDirectory (position : PathPosition) (s : LibraryState κ) :
    Except Error Directory × LibraryState κ :=
  if position.isRoot then (.ok s.rootDirectory, s)
  else s.getDirectory fcache fs image position.clusterNumber

/-- The directory that a component was looked up in, with the names that were determined. The
cache has the same directory. -/
def setPathDirectory (position : PathPosition) (directory : Directory) (s : LibraryState κ) :
    LibraryState κ :=
  if position.isRoot then { s with rootDirectory := directory }
  else
    { s with
      directoryCache :=
        { s.directoryCache with
          directories := fun other =>
            if other = position.clusterNumber then some directory
            else s.directoryCache.directories other } }

variable {υ : Type} (units : CodeUnits υ)

/-- The loop over the components of a path, as `walkPath`, with the cache. -/
def walkPath (string : List υ) :
    Nat → Nat → PathPosition → LibraryState κ → Except Error PathPosition × LibraryState κ
  | 0, _, _, s => (.error .iterationLimit, s)
  | count + 1, index, position, s =>
    if index < string.length then
      match s.getPathDirectory fcache fs image position with
      | (.error e, s) => (.error e, s)
      | (.ok directory, s) =>
        match scanComponent (units.copy string) string.length (string.length + 1) index with
        | .error e => (.error e, s)
        | .ok (nextIndex, isEnded) =>
          let segmentLength := nextIndex - (if isEnded then index + 1 else index)
          if segmentLength = 0 then (.ok (position.atEmptyComponent directory), s)
          else
            let segment := (string.drop index).take segmentLength
            let named : Directory :=
              { directory with
                fileEntries :=
                  afterScan (·.compareWithString una units segment) directory.fileEntries }
            let s := s.setPathDirectory position named
            match directory.getFileEntryByName una units segment with
            | .error e => (.error e, s)
            | .ok none => (.ok (position.atMissing named), s)
            | .ok (some entry) => walkPath string count nextIndex (position.atEntry named entry) s
    else (.ok position, s)

/-- The part of the function before the file entry is made, as `resolvePath`. -/
def resolvePath (string : List υ) (s : LibraryState κ) :
    Except Error PathPosition × LibraryState κ :=
  if string.length > ssizeMax then (.error .valueExceedsMaximum, s)
  else
    let index := if string.head?.map units.value = some separator then 1 else 0
    if string.length = 0 ∨ string.length = 1 then
      (.ok { PathPosition.start s.rootDirectory with result := true }, s)
    else
      s.walkPath fcache una fs image units string (string.length + 1) index
        (.start s.rootDirectory)

/-- `libfsfat_file_system_get_file_entry_by_utf8_path` and
`libfsfat_file_system_get_file_entry_by_utf16_path`. -/
def getFileEntryByPath (string : List υ) (s : LibraryState κ) :
    Except Error (Bool × FileEntry) × LibraryState κ :=
  match s.resolvePath fcache una fs image units string with
  | (.error e, s) => (.error e, s)
  | (.ok position, s) => (position.getFileEntry fs, s)

end LibraryState

end Library

/-! ### Calls of the library -/

/-- A call of the library. A file entry that the caller has is given by its place among those that
it got. -/
inductive LibraryRequest where
  | getRootDirectory
  | getFileEntryByUtf8Path (utf8String : List UInt8)
  | getFileEntryByUtf16Path (utf16String : List UInt16)
  | getNumberOfSubFileEntries (place : Nat)
  | getSubFileEntryByIndex (place subFileEntryIndex : Nat)
  | getSubFileEntryByUtf8Name (place : Nat) (utf8String : List UInt8)
  | getSubFileEntryByUtf16Name (place : Nat) (utf16String : List UInt16)

/-- What a call gives: a file entry, no file entry for the result 0, a number, or an error. -/
inductive LibraryResponse where
  | fileEntry (fileEntry : FileEntry)
  | noFileEntry
  | number (number : Nat)
  | error (e : Error)
  deriving DecidableEq

/-- What a caller can see of a file entry. -/
def FileEntry.values (fileEntry : FileEntry) : FileEntry := { fileEntry with directory := none }

/-- What is returned for the result of a call that gives a file entry. -/
def LibraryResponse.ofFileEntry : Except Error (Option FileEntry) → LibraryResponse
  | .error e => error e
  | .ok none => noFileEntry
  | .ok (some found) => fileEntry found.values

/-- What is returned for the result of a call that gives a number. -/
def LibraryResponse.ofNumber : Except Error Nat → LibraryResponse
  | .error e => error e
  | .ok value => number value

/-- A path that is not found gives no file entry that is used. -/
def ofPath : Except Error (Bool × FileEntry) → Except Error (Option FileEntry)
  | .error e => .error e
  | .ok (true, fileEntry) => .ok (some fileEntry)
  | .ok (false, _) => .ok none

section Calls

variable {κ : Type} (fcache : LibFcache κ) (una : LibUna) (fs : FileSystem) (image : List UInt8)

/-- The file entry after a call that reads its directory and determines names in it. -/
def FileEntry.withDirectory (change : List DirectoryEntry → List DirectoryEntry)
    (fileEntry : FileEntry) : FileEntry :=
  match fileEntry.getDirectory fs image with
  | .ok (some directory) =>
    { fileEntry with
      directory := some { directory with fileEntries := change directory.fileEntries } }
  | .ok none | .error _ => fileEntry

namespace LibraryState

/-- The file entry at a place. The root directory is the same one for all its file entries. -/
def fileEntryAt (place : Nat) (s : LibraryState κ) : Option FileEntry :=
  s.fileEntries[place]?.map fun fileEntry =>
    if fileEntry.directoryEntry.isNone then { fileEntry with directory := some s.rootDirectory }
    else fileEntry

/-- After a call that determines names in the directory of the file entry at a place. -/
def changeDirectory (place : Nat) (change : List DirectoryEntry → List DirectoryEntry)
    (s : LibraryState κ) : LibraryState κ :=
  match s.fileEntries[place]? with
  | none => s
  | some fileEntry =>
    if fileEntry.directoryEntry.isNone then
      { s with
        rootDirectory :=
          { s.rootDirectory with fileEntries := change s.rootDirectory.fileEntries } }
    else
      { s with fileEntries := s.fileEntries.set place (fileEntry.withDirectory fs image change) }

/-- The caller keeps the file entry that it got. -/
def returning (result : Except Error (Option FileEntry)) (s : LibraryState κ) :
    LibraryState κ × LibraryResponse :=
  match result with
  | .ok (some fileEntry) =>
    ({ s with fileEntries := s.fileEntries ++ [fileEntry] }, .ofFileEntry result)
  | .ok none | .error _ => (s, .ofFileEntry result)

/-- A call about the file entry at a place. -/
def call (place : Nat) (change : List DirectoryEntry → List DirectoryEntry)
    (get : FileEntry → Except Error (Option FileEntry)) (s : LibraryState κ) :
    LibraryState κ × LibraryResponse :=
  match s.fileEntryAt place with
  | none => (s, .error .missingDirectory)
  | some fileEntry => (s.changeDirectory fs image place change).returning (get fileEntry)

/-- What the library does for a call. -/
def respond (s : LibraryState κ) : LibraryRequest → LibraryState κ × LibraryResponse
  | .getRootDirectory => s.returning (.ok (some (getRootDirectory fs s.rootDirectory)))
  | .getFileEntryByUtf8Path string =>
    match s.getFileEntryByPath fcache una fs image una.utf8Units string with
    | (result, s) => s.returning (ofPath result)
  | .getFileEntryByUtf16Path string =>
    match s.getFileEntryByPath fcache una fs image una.utf16Units string with
    | (result, s) => s.returning (ofPath result)
  | .getNumberOfSubFileEntries place =>
    match s.fileEntryAt place with
    | none => (s, .error .missingDirectory)
    | some fileEntry =>
      (s.changeDirectory fs image place id,
        .ofNumber (fileEntry.getNumberOfSubFileEntries fs image))
  | .getSubFileEntryByIndex place index =>
    s.call fs image place ((LookupCall.byIndex index).after una) fun fileEntry =>
      (fileEntry.getSubFileEntryByIndex fs image index).map some
  | .getSubFileEntryByUtf8Name place string =>
    s.call fs image place ((LookupCall.byUtf8Name string).after una) fun fileEntry =>
      FileEntry.Public.getSubFileEntryByUtf8Name una fs image fileEntry string
  | .getSubFileEntryByUtf16Name place string =>
    s.call fs image place ((LookupCall.byUtf16Name string).after una) fun fileEntry =>
      FileEntry.Public.getSubFileEntryByUtf16Name una fs image fileEntry string

end LibraryState

/-! ### A library that keeps nothing -/

/-- The file entries that a caller got, and nothing else. -/
structure PlainState where
  fileEntries : List FileEntry

namespace PlainState

variable (root : Directory)

def returning (result : Except Error (Option FileEntry)) (s : PlainState) :
    PlainState × LibraryResponse :=
  match result with
  | .ok (some fileEntry) => (⟨s.fileEntries ++ [fileEntry]⟩, .ofFileEntry result)
  | .ok none | .error _ => (s, .ofFileEntry result)

def call (place : Nat) (get : FileEntry → Except Error (Option FileEntry)) (s : PlainState) :
    PlainState × LibraryResponse :=
  match s.fileEntries[place]? with
  | none => (s, .error .missingDirectory)
  | some fileEntry => s.returning (get fileEntry)

/-- Every directory but the root directory is read for each call. -/
def respond (s : PlainState) : LibraryRequest → PlainState × LibraryResponse
  | .getRootDirectory => s.returning (.ok (some (getRootDirectory fs root)))
  | .getFileEntryByUtf8Path string =>
    s.returning (ofPath (getFileEntryByUtf8Path una fs image root string))
  | .getFileEntryByUtf16Path string =>
    s.returning (ofPath (getFileEntryByUtf16Path una fs image root string))
  | .getNumberOfSubFileEntries place =>
    match s.fileEntries[place]? with
    | none => (s, .error .missingDirectory)
    | some fileEntry => (s, .ofNumber (fileEntry.getNumberOfSubFileEntries fs image))
  | .getSubFileEntryByIndex place index =>
    s.call place fun fileEntry => (fileEntry.getSubFileEntryByIndex fs image index).map some
  | .getSubFileEntryByUtf8Name place string =>
    s.call place fun fileEntry =>
      FileEntry.Public.getSubFileEntryByUtf8Name una fs image fileEntry string
  | .getSubFileEntryByUtf16Name place string =>
    s.call place fun fileEntry =>
      FileEntry.Public.getSubFileEntryByUtf16Name una fs image fileEntry string

end PlainState

end Calls

/-! ### Directories whose names may be determined -/

/-- The directories have the same entries, whose names may be determined in the second. -/
def SameDirectory (directory later : Directory) : Prop :=
  List.Forall₂ SameWhenNamed directory.fileEntries later.fileEntries

theorem SameDirectory.refl (directory : Directory) : SameDirectory directory directory :=
  List.forall₂_same.mpr fun entry _ => .refl entry

theorem DirectoryEntry.SameWhenNamed.trans {first second third : DirectoryEntry}
    (h : first.SameWhenNamed second) (h' : second.SameWhenNamed third) :
    first.SameWhenNamed third :=
  ⟨h'.identifier.trans h.identifier, h'.determineName.trans h.determineName⟩

theorem forall₂_sameWhenNamed_trans {first second third : List DirectoryEntry}
    (h : List.Forall₂ SameWhenNamed first second) (h' : List.Forall₂ SameWhenNamed second third) :
    List.Forall₂ SameWhenNamed first third := by
  induction h generalizing third with
  | nil => exact h'
  | cons hentry _ ih =>
    cases h' with
    | cons hentry' h' => exact .cons (hentry.trans hentry') (ih h')

/-- Determining names in a directory. -/
def Determines (change : List DirectoryEntry → List DirectoryEntry) : Prop :=
  ∀ entries, List.Forall₂ SameWhenNamed entries (change entries)

theorem SameDirectory.change {directory later : Directory} (h : SameDirectory directory later)
    {change : List DirectoryEntry → List DirectoryEntry} (hchange : Determines change) :
    SameDirectory directory { later with fileEntries := change later.fileEntries } :=
  forall₂_sameWhenNamed_trans h (hchange later.fileEntries)

theorem determines_id : Determines id :=
  fun _ => List.forall₂_same.mpr fun entry _ => .refl entry

theorem determines_after (una : LibUna) (call : LookupCall) : Determines (call.after una) :=
  call.after_same una

theorem SameDirectory.getFileEntryByName {directory later : Directory}
    (h : SameDirectory directory later) {υ : Type} (una : LibUna) (units : CodeUnits υ)
    (string : List υ) :
    later.getFileEntryByName una units string = directory.getFileEntryByName una units string :=
  findFileEntry_congr h

/-! ### Paths with the cache -/

/-- The positions of a path differ in their directory at most. A result is that of an entry. -/
structure SamePosition (position later : PathPosition) : Prop where
  eq : ∃ directory, later = { position with directory }
  entry : position.result = true → position.directoryEntry ≠ none

namespace SamePosition

variable {position later : PathPosition} (h : SamePosition position later)
include h

theorem atEmptyComponent (read directory : Directory) :
    SamePosition (position.atEmptyComponent read) (later.atEmptyComponent directory) := by
  obtain ⟨_, rfl⟩ := h.eq
  exact ⟨⟨_, rfl⟩, fun hresult => by cases hresult⟩

theorem atMissing (read directory : Directory) :
    SamePosition (position.atMissing read) (later.atMissing directory) := by
  obtain ⟨_, rfl⟩ := h.eq
  exact ⟨⟨_, rfl⟩, fun hresult => by cases hresult⟩

theorem atEntry (read directory : Directory) (entry : DirectoryEntry) :
    SamePosition (position.atEntry read entry) (later.atEntry directory entry) := by
  obtain ⟨_, rfl⟩ := h.eq
  exact ⟨⟨_, rfl⟩, fun _ => Option.some_ne_none entry⟩

end SamePosition

section Paths

variable {κ : Type} {fcache : LibFcache κ} {una : LibUna} {fs : FileSystem} {image : List UInt8}
  {root : Directory}

/-- The directories that are kept are those that are read, with names that are determined. -/
structure LibraryState.Keeps (fs : FileSystem) (image : List UInt8) (root : Directory)
    (s : LibraryState κ) : Prop where
  rootDirectory : SameDirectory root s.rootDirectory
  directoryCache : ∀ clusterNumber directory,
    s.directoryCache.directories clusterNumber = some directory →
      ∃ read, readDirectory fs image clusterNumber = .ok read ∧ SameDirectory read directory

namespace LibraryState

variable {s : LibraryState κ}

theorem keeps_create (fcache : LibFcache κ) (fs : FileSystem) (image : List UInt8)
    (root : Directory) : (create fcache root).Keeps fs image root where
  rootDirectory := .refl root
  directoryCache := fun _ _ h => by cases h

/-- A directory that is found in the cache, or that is read and set. -/
theorem getDirectory_same (hs : s.Keeps fs image root) (clusterNumber : Nat) :
    Outcome.Same SameDirectory (readDirectory fs image clusterNumber)
        (s.getDirectory fcache fs image clusterNumber).1 ∧
      (s.getDirectory fcache fs image clusterNumber).2.Keeps fs image root ∧
      (s.getDirectory fcache fs image clusterNumber).2.fileEntries = s.fileEntries := by
  unfold getDirectory
  dsimp only
  split
  · next directory hfound =>
    have hdirectory : s.directoryCache.directories clusterNumber = some directory := by
      split_ifs at hfound
      exact hfound
    obtain ⟨read, hread, hsame⟩ := hs.directoryCache clusterNumber directory hdirectory
    rw [hread]
    exact ⟨.ok hsame, ⟨hs.rootDirectory, hs.directoryCache⟩, rfl⟩
  · cases hread : readDirectory fs image clusterNumber with
    | error e => exact ⟨.error e, ⟨hs.rootDirectory, hs.directoryCache⟩, rfl⟩
    | ok read =>
      refine ⟨.ok (.refl read), ⟨hs.rootDirectory, ?_⟩, rfl⟩
      intro other directory hother
      dsimp only at hother
      split_ifs at hother with heq hleft
      · injection hother with hother
        exact ⟨read, heq ▸ hread, hother ▸ .refl read⟩
      · exact hs.directoryCache other directory hother

variable (fcache) in
theorem getPathDirectory_same (hs : s.Keeps fs image root) {position later : PathPosition}
    (hposition : SamePosition position later) :
    Outcome.Same SameDirectory (position.getDirectory fs image root)
        (s.getPathDirectory fcache fs image later).1 ∧
      (s.getPathDirectory fcache fs image later).2.Keeps fs image root ∧
      (s.getPathDirectory fcache fs image later).2.fileEntries = s.fileEntries := by
  obtain ⟨directory, rfl⟩ := hposition.eq
  unfold PathPosition.getDirectory getPathDirectory
  dsimp only
  split
  · exact ⟨.ok hs.rootDirectory, hs, rfl⟩
  · exact getDirectory_same hs position.clusterNumber

/-- The names that are determined in a directory of a path. -/
theorem setPathDirectory_keeps (hs : s.Keeps fs image root) {position later : PathPosition}
    (hposition : SamePosition position later) {read named : Directory}
    (hread : position.getDirectory fs image root = .ok read) (hnamed : SameDirectory read named) :
    (s.setPathDirectory later named).Keeps fs image root ∧
      (s.setPathDirectory later named).fileEntries = s.fileEntries := by
  obtain ⟨directory, rfl⟩ := hposition.eq
  unfold PathPosition.getDirectory at hread
  unfold setPathDirectory
  dsimp only
  split
  · next hroot =>
    rw [if_pos hroot] at hread
    injection hread with hread
    exact ⟨⟨hread ▸ hnamed, hs.directoryCache⟩, rfl⟩
  · next hroot =>
    rw [if_neg hroot] at hread
    refine ⟨⟨hs.rootDirectory, ?_⟩, rfl⟩
    intro other found hother
    dsimp only at hother
    split_ifs at hother with heq
    · injection hother with hother
      exact ⟨read, heq ▸ hread, hother ▸ hnamed⟩
    · exact hs.directoryCache other found hother

variable {υ : Type} (units : CodeUnits υ)

variable (fcache una) in
/-- The loop over the components of a path comes to the same position. -/
theorem walkPath_same (string : List υ) (count index : Nat) {position later : PathPosition}
    (hs : s.Keeps fs image root) (hposition : SamePosition position later) :
    Outcome.Same SamePosition
        (FsFat.walkPath una units fs image root string count index position)
        (s.walkPath fcache una fs image units string count index later).1 ∧
      (s.walkPath fcache una fs image units string count index later).2.Keeps fs image root ∧
      (s.walkPath fcache una fs image units string count index later).2.fileEntries =
        s.fileEntries := by
  induction count generalizing index position later s with
  | zero => exact ⟨.error _, hs, rfl⟩
  | succ count ih =>
    rw [FsFat.walkPath, LibraryState.walkPath]
    by_cases hindex : index < string.length
    swap
    · rw [if_neg hindex, if_neg hindex]
      exact ⟨.ok hposition, hs, rfl⟩
    rw [if_pos hindex, if_pos hindex]
    obtain ⟨hdirectory, hkept, hentries⟩ :=
      getPathDirectory_same fcache hs hposition
    cases hget : s.getPathDirectory fcache fs image later with
    | mk result t =>
    rw [hget] at hdirectory hkept hentries
    dsimp only at hdirectory hkept hentries ⊢
    cases hread : position.getDirectory fs image root with
    | error e =>
      rw [hread] at hdirectory
      cases hdirectory
      exact ⟨.error e, hkept, hentries⟩
    | ok read =>
    rw [hread] at hdirectory
    obtain ⟨directory, rfl, hsame⟩ : ∃ directory, result = .ok directory ∧
        SameDirectory read directory := by
      cases hdirectory with
      | ok hsame => exact ⟨_, rfl, hsame⟩
    simp only [bind, Except.bind]
    cases hscan : scanComponent (units.copy string) string.length (string.length + 1) index with
    | error e => exact ⟨.error e, hkept, hentries⟩
    | ok scanned =>
    obtain ⟨nextIndex, isEnded⟩ := scanned
    dsimp only
    generalize nextIndex - (if isEnded = true then index + 1 else index) = segmentLength
    by_cases hempty : segmentLength = 0
    · rw [if_pos hempty, if_pos hempty]
      exact ⟨.ok (hposition.atEmptyComponent read directory), hkept, hentries⟩
    rw [if_neg hempty, if_neg hempty]
    generalize (string.drop index).take segmentLength = segment
    -- the names before the one that is found are determined
    have hscanned : Determines (afterScan (·.compareWithString una units segment)) :=
      afterScan_same _
    obtain ⟨hset, hsetEntries⟩ :=
      setPathDirectory_keeps hkept hposition hread (hsame.change hscanned)
    rw [hentries] at hsetEntries
    rw [hsame.getFileEntryByName]
    cases read.getFileEntryByName una units segment with
    | error e => exact ⟨.error e, hset, hsetEntries⟩
    | ok found =>
    cases found with
    | none => exact ⟨.ok (hposition.atMissing _ _), hset, hsetEntries⟩
    | some entry =>
      obtain ⟨hresult, hafter, hafterEntries⟩ :=
        ih nextIndex hset (hposition.atEntry read _ entry)
      exact ⟨hresult, hafter, hafterEntries.trans hsetEntries⟩

end LibraryState

/-! ### File entries -/

/-- The directories of the file entries have the same entries. -/
def SameDirectories (fs : FileSystem) (image : List UInt8) (fileEntry later : FileEntry) : Prop :=
  Outcome.Same (Option.Rel SameDirectory) (fileEntry.getDirectory fs image)
    (later.getDirectory fs image)

/-- The file entries have the same values. The directory of the second one may be read, and names
in it determined. -/
structure SameFileEntry (fs : FileSystem) (image : List UInt8) (root : Directory)
    (fileEntry later : FileEntry) : Prop where
  values : later.values = fileEntry.values
  root : fileEntry.directoryEntry = none → fileEntry.directory = some root
  directory : fileEntry.directoryEntry ≠ none → SameDirectories fs image fileEntry later

theorem sameDirectories_refl (fs : FileSystem) (image : List UInt8) (fileEntry : FileEntry) :
    SameDirectories fs image fileEntry fileEntry := by
  apply Outcome.Same.refl
  intro directory
  cases directory with
  | none => exact .none
  | some directory => exact .some (.refl directory)

/-- A file entry that was just made. -/
theorem sameFileEntry_create (fs : FileSystem) (image : List UInt8) (root : Directory)
    (identifier : Nat) (entry : DirectoryEntry) :
    SameFileEntry fs image root (.create identifier (some entry) none)
      (.create identifier (some entry) none) where
  values := rfl
  root := fun h => absurd h (Option.some_ne_none entry)
  directory := fun _ => sameDirectories_refl fs image _

theorem sameFileEntry_root (fs : FileSystem) (image : List UInt8) (root directory : Directory) :
    SameFileEntry fs image root (getRootDirectory fs root) (getRootDirectory fs directory) where
  values := rfl
  root := fun _ => rfl
  directory := fun h => absurd rfl h

/-- What two calls return. -/
def SameReturned (fs : FileSystem) (image : List UInt8) (root : Directory) :
    Except Error (Option FileEntry) → Except Error (Option FileEntry) → Prop :=
  Outcome.Same (Option.Rel (SameFileEntry fs image root))

theorem SamePosition.getFileEntry {position later : PathPosition}
    (h : SamePosition position later) :
    SameReturned fs image root (ofPath (position.getFileEntry fs))
      (ofPath (later.getFileEntry fs)) := by
  obtain ⟨directory, rfl⟩ := h.eq
  cases hentry : position.directoryEntry with
  | none =>
    have hresult : position.result = false := by
      cases hresult : position.result with
      | false => rfl
      | true => exact absurd hentry (h.entry hresult)
    simp only [PathPosition.getFileEntry, hentry, hresult, ofPath]
    exact .ok .none
  | some entry =>
    simp only [PathPosition.getFileEntry, hentry]
    cases entry.clone with
    | error e => exact .error e
    | ok copy =>
      cases position.result with
      | false => exact .ok .none
      | true => exact .ok (.some (sameFileEntry_create fs image root entry.identifier copy))

variable (fcache una) in
/-- Looking a path up comes to the same file entry. -/
theorem LibraryState.getFileEntryByPath_same {s : LibraryState κ} {υ : Type} (units : CodeUnits υ)
    (hs : s.Keeps fs image root) (string : List υ) :
    SameReturned fs image root (ofPath (FsFat.getFileEntryByPath una units fs image root string))
        (ofPath (s.getFileEntryByPath fcache una fs image units string).1) ∧
      (s.getFileEntryByPath fcache una fs image units string).2.Keeps fs image root ∧
      (s.getFileEntryByPath fcache una fs image units string).2.fileEntries = s.fileEntries := by
  unfold FsFat.getFileEntryByPath FsFat.resolvePath LibraryState.getFileEntryByPath
    LibraryState.resolvePath
  by_cases hmax : string.length > ssizeMax
  · rw [if_pos hmax, if_pos hmax]
    exact ⟨.error _, hs, rfl⟩
  rw [if_neg hmax, if_neg hmax]
  by_cases hshort : string.length = 0 ∨ string.length = 1
  · simp only [if_pos hshort]
    exact ⟨.ok (.some (sameFileEntry_root fs image root s.rootDirectory)), hs, trivial⟩
  simp only [if_neg hshort]
  obtain ⟨hwalk, hkept, hentries⟩ :=
    LibraryState.walkPath_same fcache una units string (string.length + 1)
      (if string.head?.map units.value = some separator then 1 else 0) hs
      (⟨⟨_, rfl⟩, fun h => by cases h⟩ :
        SamePosition (.start root) (.start s.rootDirectory))
  generalize FsFat.walkPath una units fs image root string _ _ _ = walked at hwalk ⊢
  cases hlater : s.walkPath fcache una fs image units string (string.length + 1)
      (if string.head?.map units.value = some separator then 1 else 0)
      (.start s.rootDirectory) with
  | mk result t =>
  rw [hlater] at hwalk hkept hentries
  cases hwalk with
  | error e => exact ⟨.error e, hkept, hentries⟩
  | ok hposition => exact ⟨hposition.getFileEntry, hkept, hentries⟩

end Paths

/-! ### Lookups in a directory -/

section Lookups

variable {una : LibUna} {fs : FileSystem} {image : List UInt8} {root : Directory}
  {fileEntry later : FileEntry}

/-- Reading the directories fails alike, or gives none, or the same entries. -/
theorem SameDirectories.cases (h : SameDirectories fs image fileEntry later) :
    (∃ e, fileEntry.getDirectory fs image = .error e ∧
      later.getDirectory fs image = .error e) ∨
    (fileEntry.getDirectory fs image = .ok none ∧ later.getDirectory fs image = .ok none) ∨
    ∃ directory directory', fileEntry.getDirectory fs image = .ok (some directory) ∧
      later.getDirectory fs image = .ok (some directory') ∧
      SameDirectory directory directory' := by
  unfold SameDirectories at h
  generalize fileEntry.getDirectory fs image = result at h
  generalize later.getDirectory fs image = result' at h
  cases h with
  | error e => exact Or.inl ⟨e, rfl, rfl⟩
  | ok h =>
    cases h with
    | none => exact Or.inr (Or.inl ⟨rfl, rfl⟩)
    | some h => exact Or.inr (Or.inr ⟨_, _, rfl, rfl, h⟩)

theorem getNumberOfSubFileEntries_same (h : SameDirectories fs image fileEntry later) :
    later.getNumberOfSubFileEntries fs image = fileEntry.getNumberOfSubFileEntries fs image := by
  unfold FileEntry.getNumberOfSubFileEntries
  rcases h.cases with ⟨e, hread, hlater⟩ | ⟨hread, hlater⟩ |
    ⟨directory, directory', hread, hlater, hsame⟩
  · rw [hread, hlater]
  · rw [hread, hlater]
  · rw [hread, hlater]
    exact congrArg Except.ok hsame.length_eq.symm

theorem getSubFileEntryByIndex_same (h : SameDirectories fs image fileEntry later) (index : Nat) :
    later.getSubFileEntryByIndex fs image index =
      fileEntry.getSubFileEntryByIndex fs image index := by
  unfold FileEntry.getSubFileEntryByIndex
  rcases h.cases with ⟨e, hread, hlater⟩ | ⟨hread, hlater⟩ |
    ⟨directory, directory', hread, hlater, hsame⟩
  · rw [hread, hlater]
  · rw [hread, hlater]
  · rw [hread, hlater]
    have hcopy := getElem?_clone_congr hsame index
    simp only [bind, Except.bind, Directory.getFileEntryByIndex]
    cases hentry : directory.fileEntries[index]? with
    | none =>
      rw [hentry, Option.map_none, Option.map_eq_none_iff] at hcopy
      rw [hcopy]
    | some entry =>
      rw [hentry, Option.map_some, Option.map_eq_some_iff] at hcopy
      obtain ⟨entry', hentry', heq⟩ := hcopy
      injection heq with hidentifier hclone
      simp only [hentry', hidentifier, hclone]

theorem getSubFileEntryByName_same (h : SameDirectories fs image fileEntry later) {υ : Type}
    (units : CodeUnits υ) (string : List υ) :
    FileEntry.Public.getSubFileEntryByName una units fs image later string =
      FileEntry.Public.getSubFileEntryByName una units fs image fileEntry string := by
  unfold FileEntry.Public.getSubFileEntryByName FileEntry.getSubFileEntryByName
  rcases h.cases with ⟨e, hread, hlater⟩ | ⟨hread, hlater⟩ |
    ⟨directory, directory', hread, hlater, hsame⟩
  · rw [hread, hlater]
  · rw [hread, hlater]
  · rw [hread, hlater]
    simp only [bind, Except.bind, hsame.getFileEntryByName]

/-- The directory of a file entry is read, and names in it are determined. -/
theorem sameDirectories_withDirectory (h : SameDirectories fs image fileEntry later)
    {change : List DirectoryEntry → List DirectoryEntry} (hchange : Determines change) :
    SameDirectories fs image fileEntry (later.withDirectory fs image change) := by
  unfold SameDirectories FileEntry.withDirectory
  rcases h.cases with ⟨e, hread, hlater⟩ | ⟨hread, hlater⟩ |
    ⟨directory, directory', hread, hlater, hsame⟩
  · rw [hlater, hread]
    dsimp only
    rw [hlater]
    exact .error e
  · rw [hlater, hread]
    dsimp only
    rw [hlater]
    exact .ok .none
  · rw [hlater, hread]
    exact .ok (.some (hsame.change hchange))

theorem values_withDirectory (change : List DirectoryEntry → List DirectoryEntry)
    (fileEntry : FileEntry) :
    (fileEntry.withDirectory fs image change).values = fileEntry.values := by
  unfold FileEntry.withDirectory
  split <;> rfl

/-- A sub file entry is one that was just made. -/
theorem sameFileEntry_of_subFileEntryByIndex {index : Nat} {found : FileEntry}
    (h : fileEntry.getSubFileEntryByIndex fs image index = .ok found) :
    SameFileEntry fs image root found found := by
  obtain ⟨directory, _, h⟩ := bind_eq_ok_iff.mp h
  cases directory with
  | none => cases h
  | some directory =>
    obtain ⟨entry, _, h⟩ := bind_eq_ok_iff.mp h
    obtain ⟨copy, _, h⟩ := bind_eq_ok_iff.mp h
    injection h with h
    exact h ▸ sameFileEntry_create fs image root entry.identifier copy

theorem sameFileEntry_of_subFileEntryByName {υ : Type} {units : CodeUnits υ} {string : List υ}
    {found : FileEntry}
    (h : FileEntry.Public.getSubFileEntryByName una units fs image fileEntry string =
      .ok (some found)) : SameFileEntry fs image root found found := by
  unfold FileEntry.Public.getSubFileEntryByName at h
  split at h
  · cases h
  · cases h
  next subFileEntry hresult =>
  injection h with h
  injection h with h
  subst h
  obtain ⟨directory, _, hresult⟩ := bind_eq_ok_iff.mp hresult
  cases directory with
  | none => cases hresult
  | some directory =>
    obtain ⟨entry, _, hresult⟩ := bind_eq_ok_iff.mp hresult
    cases entry with
    | none => cases hresult
    | some entry =>
      obtain ⟨copy, _, hresult⟩ := bind_eq_ok_iff.mp hresult
      injection hresult with hresult
      injection hresult with hresult
      exact hresult ▸ sameFileEntry_create fs image root entry.identifier copy

end Lookups

/-! ### Sequences of calls -/

section Lists

variable {α β : Type} {R : α → β → Prop} {xs : List α} {ys : List β}

theorem forall₂_getElem? (h : List.Forall₂ R xs ys) (i : Nat) : Option.Rel R xs[i]? ys[i]? := by
  induction h generalizing i with
  | nil => exact .none
  | cons hhead _ ih =>
    cases i with
    | zero => exact .some hhead
    | succ i => exact ih i

theorem forall₂_set (h : List.Forall₂ R xs ys) {i : Nat} {y : β}
    (hy : ∀ x, xs[i]? = some x → R x y) : List.Forall₂ R xs (ys.set i y) := by
  induction h generalizing i with
  | nil => exact .nil
  | cons hhead htail ih =>
    cases i with
    | zero => exact .cons (hy _ rfl) htail
    | succ i => exact .cons hhead (ih hy)

end Lists

section Requests

variable {κ : Type} {fcache : LibFcache κ} {una : LibUna} {fs : FileSystem} {image : List UInt8}
  {root : Directory} {p : PlainState} {s : LibraryState κ}

/-- The library keeps what it read, and the caller has the same file entries. -/
structure Represents (fs : FileSystem) (image : List UInt8) (root : Directory) (p : PlainState)
    (s : LibraryState κ) : Prop where
  keeps : s.Keeps fs image root
  fileEntries : List.Forall₂ (SameFileEntry fs image root) p.fileEntries s.fileEntries

theorem LibraryResponse.ofFileEntry_congr {result result' : Except Error (Option FileEntry)}
    (h : SameReturned fs image root result result') : ofFileEntry result' = ofFileEntry result := by
  cases h with
  | error e => rfl
  | ok h =>
    cases h with
    | none => rfl
    | some h => exact congrArg fileEntry h.values

/-- The caller keeps what it got. -/
theorem Represents.returning (h : Represents fs image root p s)
    {result result' : Except Error (Option FileEntry)}
    (hresult : SameReturned fs image root result result') :
    Represents fs image root (p.returning result).1 (s.returning result').1 ∧
      (p.returning result).2 = (s.returning result').2 := by
  have hresponse := LibraryResponse.ofFileEntry_congr hresult
  cases hresult with
  | error e => exact ⟨h, rfl⟩
  | ok hfound =>
    cases hfound with
    | none => exact ⟨h, rfl⟩
    | some hfound =>
      refine ⟨⟨⟨h.keeps.rootDirectory, h.keeps.directoryCache⟩, ?_⟩, hresponse.symm⟩
      exact List.rel_append h.fileEntries (.cons hfound .nil)

theorem SameFileEntry.directoryEntry {fileEntry later : FileEntry}
    (h : SameFileEntry fs image root fileEntry later) :
    later.directoryEntry = fileEntry.directoryEntry := by
  have hentry := congrArg FileEntry.directoryEntry h.values
  exact hentry

/-- The file entry at a place, with the same directory. -/
theorem Represents.fileEntryAt (h : Represents fs image root p s) (place : Nat) :
    Option.Rel (SameDirectories fs image) p.fileEntries[place]? (s.fileEntryAt place) := by
  have hplace := forall₂_getElem? h.fileEntries place
  unfold LibraryState.fileEntryAt
  generalize p.fileEntries[place]? = fileEntry at hplace
  generalize s.fileEntries[place]? = later at hplace
  cases hplace with
  | none => exact .none
  | @some fileEntry later hsame =>
    apply Option.Rel.some
    dsimp only
    split
    · next hnone =>
      have hroot := hsame.root (hsame.directoryEntry ▸ Option.isNone_iff_eq_none.mp hnone)
      have hdirectory : fileEntry.getDirectory fs image = .ok (some root) := by
        rw [FileEntry.getDirectory, hroot]
      rw [SameDirectories, hdirectory]
      exact .ok (.some h.keeps.rootDirectory)
    · next hsome =>
      apply hsame.directory
      intro hnone
      exact hsome (Option.isNone_iff_eq_none.mpr (hsame.directoryEntry.trans hnone))

/-- Names are determined in the directory of the file entry at a place. -/
theorem Represents.changeDirectory (h : Represents fs image root p s) (place : Nat)
    {change : List DirectoryEntry → List DirectoryEntry} (hchange : Determines change) :
    Represents fs image root p (s.changeDirectory fs image place change) := by
  have hplace := forall₂_getElem? h.fileEntries place
  unfold LibraryState.changeDirectory
  split
  · exact h
  next later hlater =>
  split
  · exact ⟨⟨h.keeps.rootDirectory.change hchange, h.keeps.directoryCache⟩, h.fileEntries⟩
  · refine ⟨⟨h.keeps.rootDirectory, h.keeps.directoryCache⟩, forall₂_set h.fileEntries ?_⟩
    intro fileEntry hentry
    rw [hentry, hlater] at hplace
    cases hplace with
    | some hsame =>
      refine ⟨(values_withDirectory change later).trans hsame.values, hsame.root, ?_⟩
      intro hne
      exact sameDirectories_withDirectory (hsame.directory hne) hchange

/-- A call about a file entry. -/
theorem Represents.call (h : Represents fs image root p s) (place : Nat)
    {change : List DirectoryEntry → List DirectoryEntry} (hchange : Determines change)
    {get : FileEntry → Except Error (Option FileEntry)}
    (hget : ∀ fileEntry later, SameDirectories fs image fileEntry later →
      get later = get fileEntry)
    (hfound : ∀ fileEntry found, get fileEntry = .ok (some found) →
      SameFileEntry fs image root found found) :
    Represents fs image root (p.call place get).1 (s.call fs image place change get).1 ∧
      (p.call place get).2 = (s.call fs image place change get).2 := by
  have hplace := h.fileEntryAt place
  unfold PlainState.call LibraryState.call
  generalize p.fileEntries[place]? = fileEntry at hplace
  generalize s.fileEntryAt place = later at hplace
  cases hplace with
  | none => exact ⟨h, rfl⟩
  | @some fileEntry later hsame =>
    dsimp only
    rw [hget fileEntry later hsame]
    apply (h.changeDirectory place hchange).returning
    cases hresult : get fileEntry with
    | error e => exact .error e
    | ok found =>
      cases found with
      | none => exact .ok .none
      | some found => exact .ok (.some (hfound fileEntry found hresult))

/-- Looking a path up. -/
theorem Represents.path (h : Represents fs image root p s) {υ : Type} (units : CodeUnits υ)
    (string : List υ) :
    let result := s.getFileEntryByPath fcache una fs image units string
    Represents fs image root
        (p.returning (ofPath (getFileEntryByPath una units fs image root string))).1
        (result.2.returning (ofPath result.1)).1 ∧
      (p.returning (ofPath (getFileEntryByPath una units fs image root string))).2 =
        (result.2.returning (ofPath result.1)).2 := by
  intro result
  obtain ⟨hresult, hkept, hentries⟩ :=
    LibraryState.getFileEntryByPath_same fcache una units h.keeps string
  exact Represents.returning ⟨hkept, hentries ▸ h.fileEntries⟩ hresult

variable (fcache una) in
/-- A call of the library, and of one that keeps nothing. -/
theorem respond_same (h : Represents fs image root p s) (request : LibraryRequest) :
    Represents fs image root (p.respond una fs image root request).1
        (s.respond fcache una fs image request).1 ∧
      (p.respond una fs image root request).2 = (s.respond fcache una fs image request).2 := by
  cases request with
  | getRootDirectory =>
    exact h.returning (.ok (.some (sameFileEntry_root fs image root s.rootDirectory)))
  | getFileEntryByUtf8Path string => exact h.path una.utf8Units string
  | getFileEntryByUtf16Path string => exact h.path una.utf16Units string
  | getNumberOfSubFileEntries place =>
    have hplace := h.fileEntryAt place
    unfold PlainState.respond LibraryState.respond
    dsimp only
    generalize p.fileEntries[place]? = fileEntry at hplace
    generalize s.fileEntryAt place = later at hplace
    cases hplace with
    | none => exact ⟨h, rfl⟩
    | some hsame =>
      refine ⟨h.changeDirectory place determines_id, ?_⟩
      exact congrArg LibraryResponse.ofNumber (getNumberOfSubFileEntries_same hsame).symm
  | getSubFileEntryByIndex place index =>
    apply h.call place (determines_after una (.byIndex index))
    · intro fileEntry later hsame
      rw [getSubFileEntryByIndex_same hsame]
    · intro fileEntry found hfound
      cases hresult : fileEntry.getSubFileEntryByIndex fs image index with
      | error e =>
        rw [hresult] at hfound
        cases hfound
      | ok subFileEntry =>
        rw [hresult] at hfound
        injection hfound with hfound
        injection hfound with hfound
        exact hfound ▸ sameFileEntry_of_subFileEntryByIndex hresult
  | getSubFileEntryByUtf8Name place string =>
    apply h.call place (determines_after una (.byUtf8Name string))
    · exact fun _ _ hsame => getSubFileEntryByName_same hsame una.utf8Units string
    · exact fun _ _ hfound => sameFileEntry_of_subFileEntryByName hfound
  | getSubFileEntryByUtf16Name place string =>
    apply h.call place (determines_after una (.byUtf16Name string))
    · exact fun _ _ hsame => getSubFileEntryByName_same hsame una.utf16Units string
    · exact fun _ _ hfound => sameFileEntry_of_subFileEntryByName hfound

end Requests

end FsFat
