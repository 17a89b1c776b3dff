import FsFat.PathIteration

/-!
Sub file entries by name: the functions of `libfsfat_file_entry.c` and what a
lookup of a name in a directory comes to. The name is found, it is absent, or
something fails before that is known. The public functions take a name that is
absent for a failure.
-/

namespace FsFat

/-! ### The public functions -/

namespace FileEntry.Public

/-- `libfsfat_file_entry_get_sub_file_entry_by_utf8_name` and
`libfsfat_file_entry_get_sub_file_entry_by_utf16_name`: anything but the result 1 of
the internal function is an error. -/
def getSubFileEntryByName {υ : Type} (una : LibUna) (units : CodeUnits υ) (fs : FileSystem)
    (image : List UInt8) (fileEntry : FileEntry) (string : List υ) :
    Except Error (Option FileEntry) :=
  match fileEntry.getSubFileEntryByName una units fs image string with
  | .error error => .error error
  | .ok none => .error .getFailed
  | .ok (some subFileEntry) => .ok (some subFileEntry)

def getSubFileEntryByUtf8Name (una : LibUna) : FileSystem → List UInt8 → FileEntry → List UInt8 →
    Except Error (Option FileEntry) := getSubFileEntryByName una una.utf8Units

def getSubFileEntryByUtf16Name (una : LibUna) : FileSystem → List UInt8 → FileEntry →
    List UInt16 → Except Error (Option FileEntry) := getSubFileEntryByName una una.utf16Units

end FileEntry.Public

/-! ### The scan of a directory -/

section Scan

variable (compare : DirectoryEntry → Except Error Ordering)

/-- The comparison of the scan. The name of the entry is determined first. -/
def compareNamed (entry : DirectoryEntry) : Except Error Ordering :=
  entry.determineName >>= compare

/-- The comparison succeeds and is not equal. -/
def IsOther (entry : DirectoryEntry) : Prop :=
  ∃ order, compareNamed compare entry = .ok order ∧ order ≠ .eq

/-- The scan comes to the entry: all entries before it are others. -/
def ScanComesTo (entries : List DirectoryEntry) (entry : DirectoryEntry) : Prop :=
  ∃ before rest, entries = before ++ entry :: rest ∧ ∀ other ∈ before, IsOther compare other

variable {compare}

theorem isOther_or (entry : DirectoryEntry) :
    IsOther compare entry ∨ compareNamed compare entry = .ok .eq ∨
      ∃ error, compareNamed compare entry = .error error := by
  cases h : compareNamed compare entry with
  | error error => exact .inr (.inr ⟨error, rfl⟩)
  | ok order =>
    cases order with
    | lt => exact .inl ⟨.lt, h, by decide⟩
    | eq => exact .inr (.inl rfl)
    | gt => exact .inl ⟨.gt, h, by decide⟩

/-- Entries that are others are passed over. -/
theorem findFileEntry_append {before : List DirectoryEntry}
    (h : ∀ other ∈ before, IsOther compare other) (rest : List DirectoryEntry) :
    findFileEntry compare (before ++ rest) = findFileEntry compare rest := by
  induction before with
  | nil => rfl
  | cons entry before ih =>
    obtain ⟨⟨order, hcompare, hne⟩, hbefore⟩ := List.forall_mem_cons.mp h
    obtain ⟨named, hnamed, hcompare⟩ := bind_eq_ok_iff.mp hcompare
    rw [List.cons_append, findFileEntry, hnamed]
    simp only [bind, Except.bind, hcompare]
    cases order with
    | lt => exact ih hbefore
    | eq => exact absurd rfl hne
    | gt => exact ih hbefore

/-- All entries are others, or the scan comes to one that is not. -/
theorem forall_isOther_or_scanComesTo (entries : List DirectoryEntry) :
    (∀ entry ∈ entries, IsOther compare entry) ∨
      ∃ entry, ScanComesTo compare entries entry ∧ ¬ IsOther compare entry := by
  induction entries with
  | nil => exact .inl fun _ h => absurd h List.not_mem_nil
  | cons entry entries ih =>
    by_cases hother : IsOther compare entry
    · rcases ih with hall | ⟨first, ⟨before, rest, rfl, hbefore⟩, hfirst⟩
      · exact .inl (List.forall_mem_cons.mpr ⟨hother, hall⟩)
      · exact .inr ⟨first, ⟨entry :: before, rest, rfl,
          List.forall_mem_cons.mpr ⟨hother, hbefore⟩⟩, hfirst⟩
    · exact .inr ⟨entry, ⟨[], entries, rfl, fun _ h => absurd h List.not_mem_nil⟩, hother⟩

theorem findFileEntry_of_forall {entries : List DirectoryEntry}
    (h : ∀ entry ∈ entries, IsOther compare entry) : findFileEntry compare entries = .ok none := by
  have happend := findFileEntry_append h []
  rwa [List.append_nil] at happend

theorem findFileEntry_of_eq {entries : List DirectoryEntry} {entry named : DirectoryEntry}
    (h : ScanComesTo compare entries entry) (hnamed : entry.determineName = .ok named)
    (heq : compare named = .ok .eq) : findFileEntry compare entries = .ok (some named) := by
  obtain ⟨before, rest, rfl, hbefore⟩ := h
  rw [findFileEntry_append hbefore, findFileEntry, hnamed]
  simp only [bind, Except.bind, heq]
  rfl

theorem findFileEntry_of_error {entries : List DirectoryEntry} {entry : DirectoryEntry}
    {error : Error} (h : ScanComesTo compare entries entry)
    (herror : compareNamed compare entry = .error error) :
    findFileEntry compare entries = .error error := by
  obtain ⟨before, rest, rfl, hbefore⟩ := h
  rw [findFileEntry_append hbefore, findFileEntry]
  cases hnamed : entry.determineName with
  | error error' =>
    rw [compareNamed, hnamed] at herror
    exact congrArg _ (Except.error.inj herror)
  | ok named =>
    rw [compareNamed, hnamed] at herror
    have hcompare : compare named = .error error := herror
    simp only [bind, Except.bind, hcompare]

end Scan

/-! ### What a lookup should come to -/

section Lookup

variable (compare : DirectoryEntry → Except Error Ordering)

/-- A directory is read and all its entries are others. -/
def IsAbsent (directory : Except Error (Option Directory)) : Prop :=
  ∃ entries, directory = .ok (some entries) ∧ ∀ entry ∈ entries.fileEntries, IsOther compare entry

/-- The result of a lookup says what happened: an entry is equal before a comparison fails, all
entries are others, or the directory, a comparison or the copy of the equal entry fails. -/
def SaysWhatHappened (directory : Except Error (Option Directory)) :
    Except Error (Option FileEntry) → Prop
  | .ok (some subFileEntry) => ∃ entries entry named copy, directory = .ok (some entries) ∧
      ScanComesTo compare entries.fileEntries entry ∧ entry.determineName = .ok named ∧
      compare named = .ok .eq ∧ named.clone = .ok copy ∧
      subFileEntry = .create named.identifier (some copy) none
  | .ok none => IsAbsent compare directory
  | .error _ => (∀ entries, directory ≠ .ok (some entries)) ∨
      ∃ entries entry, directory = .ok (some entries) ∧
        ScanComesTo compare entries.fileEntries entry ∧
        ((∃ error, compareNamed compare entry = .error error) ∨
          ∃ named error, entry.determineName = .ok named ∧ compare named = .ok .eq ∧
            named.clone = .error error)

variable {υ : Type} (una : LibUna) (units : CodeUnits υ) (fs : FileSystem) (image : List UInt8)
  (fileEntry : FileEntry) (string : List υ)

/-- The result of the internal function says what happened. -/
theorem saysWhatHappened_getSubFileEntryByName :
    SaysWhatHappened (·.compareWithString una units string) (fileEntry.getDirectory fs image)
      (fileEntry.getSubFileEntryByName una units fs image string) := by
  rw [FileEntry.getSubFileEntryByName]
  cases hdirectory : fileEntry.getDirectory fs image with
  | error error => exact .inl fun entries h => by cases h
  | ok directory =>
    cases directory with
    | none => exact .inl fun entries h => by cases h
    | some entries =>
      simp only [bind, Except.bind, Directory.getFileEntryByName]
      rcases @forall_isOther_or_scanComesTo (·.compareWithString una units string)
        entries.fileEntries with hall | ⟨entry, hscan, hnot⟩
      · rw [findFileEntry_of_forall hall]
        exact ⟨entries, rfl, hall⟩
      · rcases (isOther_or entry).resolve_left hnot with heq | ⟨error, herror⟩
        · obtain ⟨named, hnamed, heq⟩ := bind_eq_ok_iff.mp heq
          rw [findFileEntry_of_eq hscan hnamed heq]
          cases hcopy : named.clone with
          | error error =>
            simp only [hcopy]
            exact .inr ⟨entries, entry, rfl, hscan, .inr ⟨named, error, hnamed, heq, hcopy⟩⟩
          | ok copy =>
            simp only [hcopy]
            exact ⟨entries, entry, named, copy, rfl, hscan, hnamed, heq, hcopy, rfl⟩
        · rw [findFileEntry_of_error hscan herror]
          exact .inr ⟨entries, entry, rfl, hscan, .inl ⟨error, herror⟩⟩

/-- The internal function returns 0 exactly when the name is absent. -/
theorem getSubFileEntryByName_eq_none_iff :
    fileEntry.getSubFileEntryByName una units fs image string = .ok none ↔
      IsAbsent (·.compareWithString una units string) (fileEntry.getDirectory fs image) := by
  constructor
  · intro h
    have hsays := saysWhatHappened_getSubFileEntryByName una units fs image fileEntry string
    rwa [h] at hsays
  · rintro ⟨entries, hdirectory, hall⟩
    rw [FileEntry.getSubFileEntryByName, hdirectory]
    simp only [bind, Except.bind, Directory.getFileEntryByName, findFileEntry_of_forall hall]
    rfl

/-- Nothing fails where the name is absent. -/
theorem not_saysWhatHappened_error {compare : DirectoryEntry → Except Error Ordering}
    {directory : Except Error (Option Directory)} (h : IsAbsent compare directory) (error : Error) :
    ¬ SaysWhatHappened compare directory (.error error) := by
  obtain ⟨entries, rfl, hall⟩ := h
  rintro (hnone | ⟨entries', entry, hentries, ⟨before, rest, hsplit, -⟩, hfailed⟩)
  · exact hnone entries rfl
  · obtain rfl : entries = entries' := Option.some.inj (Except.ok.inj hentries)
    have hmem : entry ∈ entries.fileEntries := hsplit ▸ List.mem_append_right _ List.mem_cons_self
    obtain ⟨order, hcompare, hne⟩ := hall entry hmem
    rcases hfailed with ⟨error, herror⟩ | ⟨named, _, hnamed, heq, _⟩
    · cases hcompare.symm.trans herror
    · rw [compareNamed, hnamed] at hcompare
      exact hne (Except.ok.inj (hcompare.symm.trans heq))

theorem saysWhatHappened_public_iff :
    SaysWhatHappened (·.compareWithString una units string) (fileEntry.getDirectory fs image)
        (FileEntry.Public.getSubFileEntryByName una units fs image fileEntry string) ↔
      ¬ IsAbsent (·.compareWithString una units string) (fileEntry.getDirectory fs image) := by
  have hsays := saysWhatHappened_getSubFileEntryByName una units fs image fileEntry string
  have hnone := getSubFileEntryByName_eq_none_iff una units fs image fileEntry string
  rw [FileEntry.Public.getSubFileEntryByName]
  cases hresult : fileEntry.getSubFileEntryByName una units fs image string with
  | error error =>
    rw [hresult] at hsays hnone
    exact iff_of_true hsays fun h => by cases hnone.mpr h
  | ok found =>
    cases found with
    | none =>
      have habsent := hnone.mp hresult
      exact iff_of_false (not_saysWhatHappened_error habsent _) (not_not.mpr habsent)
    | some subFileEntry =>
      rw [hresult] at hsays hnone
      exact iff_of_true hsays fun h => by cases hnone.mpr h

end Lookup

/-- The public functions tell what happened if and only if the name is not absent. -/
theorem public_lookup_saysWhatHappened_iff (una : LibUna) (fs : FileSystem) (image : List UInt8)
    (fileEntry : FileEntry) (utf8String : List UInt8) (utf16String : List UInt16) :
    (SaysWhatHappened (·.compareWithString una una.utf8Units utf8String)
          (fileEntry.getDirectory fs image)
          (FileEntry.Public.getSubFileEntryByUtf8Name una fs image fileEntry utf8String) ↔
        ¬ IsAbsent (·.compareWithString una una.utf8Units utf8String)
          (fileEntry.getDirectory fs image)) ∧
      (SaysWhatHappened (·.compareWithString una una.utf16Units utf16String)
          (fileEntry.getDirectory fs image)
          (FileEntry.Public.getSubFileEntryByUtf16Name una fs image fileEntry utf16String) ↔
        ¬ IsAbsent (·.compareWithString una una.utf16Units utf16String)
          (fileEntry.getDirectory fs image)) :=
  ⟨saysWhatHappened_public_iff una una.utf8Units fs image fileEntry utf8String,
    saysWhatHappened_public_iff una una.utf16Units fs image fileEntry utf16String⟩

/-- The file "A" is the only one in the root directory of this volume. The name "B" is absent, and
the public functions fail. -/
theorem absent_name_fails :
    ∃ opened fs root,
      Volume.openFileIOHandle rootFileEnvironment accessFlagRead .create = (.ok (), opened) ∧
      opened.fileSystem = some ⟨some fs, some root⟩ ∧
      FileEntry.getSubFileEntryByUtf8Name wellFormedLibUna fs rootFileImage
        (getRootDirectory fs root) [0x42] = .ok none ∧
      FileEntry.Public.getSubFileEntryByUtf8Name wellFormedLibUna fs rootFileImage
        (getRootDirectory fs root) [0x42] = .error .getFailed ∧
      ¬ SaysWhatHappened (·.compareWithString wellFormedLibUna wellFormedLibUna.utf8Units [0x42])
        ((getRootDirectory fs root).getDirectory fs rootFileImage)
        (FileEntry.Public.getSubFileEntryByUtf8Name wellFormedLibUna fs rootFileImage
          (getRootDirectory fs root) [0x42]) := by
  obtain ⟨opened, fs, root, hopen, hfs, _⟩ := open_rootFile
  have hlisted : (Volume.openFileIOHandle rootFileEnvironment accessFlagRead
      .create).2.fileSystem.map (fun fileSystem => fileSystem.rootDirectory.map fun root =>
        (root.getFileEntryByUtf8Name wellFormedLibUna [0x42]).toOption.map Option.isNone) =
      some (some (some true)) := by
    decide +kernel
  rw [hopen] at hlisted
  dsimp only at hlisted
  rw [hfs] at hlisted
  simp only [Option.map_some, Option.some.injEq] at hlisted
  have hlookup := eq_ok_none_of_isNone hlisted
  have hinternal : FileEntry.getSubFileEntryByUtf8Name wellFormedLibUna fs rootFileImage
      (getRootDirectory fs root) [0x42] = .ok none := by
    have hname : root.getFileEntryByName wellFormedLibUna wellFormedLibUna.utf8Units [0x42] =
        .ok none := hlookup
    rw [FileEntry.getSubFileEntryByUtf8Name, FileEntry.getSubFileEntryByName]
    simp only [getRootDirectory, FileEntry.getDirectory, FileEntry.create, bind, Except.bind, hname]
    rfl
  refine ⟨opened, fs, root, hopen, hfs, hinternal, ?_, ?_⟩
  · have hname : (getRootDirectory fs root).getSubFileEntryByName wellFormedLibUna
        wellFormedLibUna.utf8Units fs rootFileImage [0x42] = .ok none := hinternal
    rw [FileEntry.Public.getSubFileEntryByUtf8Name, FileEntry.Public.getSubFileEntryByName, hname]
  · rw [FileEntry.Public.getSubFileEntryByUtf8Name, saysWhatHappened_public_iff]
    exact not_not.mpr ((getSubFileEntryByName_eq_none_iff _ _ _ _ _ _).mp hinternal)

end FsFat
