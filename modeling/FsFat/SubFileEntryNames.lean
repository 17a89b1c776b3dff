import FsFat.NameOrder
import FsFat.SubFileEntry
import FsFat.FileSystem

/-!
Sub file entries by index and by name. Both functions determine the names of the
entries that they come to and leave them in the directory, so that a later call
sees another directory. It comes to the same entries, and a name leads to the
first entry whose name folds to the same characters.
-/

namespace FsFat

/-! ### What a lookup leaves in a directory -/

/-- The entry after its name was asked for. -/
def DirectoryEntry.afterName (entry : DirectoryEntry) : DirectoryEntry :=
  match entry.determineName with
  | .ok named => named
  | .error _ => entry

/-- The file entries after the loop over them, which determines the names of those that it
compares. -/
def afterScan (compare : DirectoryEntry → Except Error Ordering) :
    List DirectoryEntry → List DirectoryEntry
  | [] => []
  | entry :: entries =>
    entry.afterName ::
      match compareNamed compare entry with
      | .ok .lt | .ok .gt => afterScan compare entries
      | .ok .eq | .error _ => entries

/-- The calls that come to entries of a directory. A path is looked up by the names in it. -/
inductive LookupCall where
  | byUtf8Name (utf8String : List UInt8)
  | byUtf16Name (utf16String : List UInt16)
  | byIndex (index : Nat)

/-- The file entries that a call leaves in a directory. -/
def LookupCall.after (una : LibUna) : LookupCall → List DirectoryEntry → List DirectoryEntry
  | .byUtf8Name utf8String, entries =>
    afterScan (·.compareWithString una una.utf8Units utf8String) entries
  | .byUtf16Name utf16String, entries =>
    afterScan (·.compareWithString una una.utf16Units utf16String) entries
  | .byIndex index, entries => entries.modify index DirectoryEntry.afterName

namespace FileEntry

section Lookups

variable (una : LibUna) (fs : FileSystem) (image : List UInt8)

/-- The file entry after a call: its directory was read. -/
def afterLookup (fileEntry : FileEntry) (call : LookupCall) : FileEntry :=
  match fileEntry.getDirectory fs image with
  | .ok (some directory) =>
    { fileEntry with
      directory := some { directory with fileEntries := call.after una directory.fileEntries } }
  | .ok none | .error _ => fileEntry

def afterLookups (fileEntry : FileEntry) (calls : List LookupCall) : FileEntry :=
  calls.foldl (afterLookup una fs image) fileEntry

end Lookups

end FileEntry

/-! ### Later lookups -/

namespace DirectoryEntry

/-- The entries have the same identifier, and the same name whether it was determined or not. -/
structure SameWhenNamed (entry later : DirectoryEntry) : Prop where
  identifier : later.identifier = entry.identifier
  determineName : later.determineName = entry.determineName

theorem SameWhenNamed.refl (entry : DirectoryEntry) : entry.SameWhenNamed entry := ⟨rfl, rfl⟩

theorem SameWhenNamed.clone {entry later : DirectoryEntry} (h : entry.SameWhenNamed later) :
    later.clone = entry.clone := by
  rw [DirectoryEntry.clone, h.determineName, DirectoryEntry.clone]

/-- What the name is asked of has no name, or it is determined. -/
theorem name_of_getName {entry named : DirectoryEntry} (h : entry.getName = .ok named) :
    named = entry ∨ ∃ name, named.name = some name := by
  unfold getName at h
  split at h
  · cases h
  · split at h
    · next nameEntries _ =>
      unfold getNameFromExfatFileNameEntries setNameFromSegments at h
      split_ifs at h
      injection h with h
      exact .inr ⟨_, congrArg DirectoryEntry.name h.symm⟩
    · split at h
      · injection h with h
        exact .inr ⟨_, congrArg DirectoryEntry.name h.symm⟩
      · injection h with h
        exact .inr ⟨_, congrArg DirectoryEntry.name h.symm⟩
      · injection h with h
        exact .inl h.symm

/-- A name is determined once. -/
theorem determineName_again {entry named : DirectoryEntry} (h : entry.determineName = .ok named) :
    named.determineName = .ok named := by
  have hcases : named = entry ∨ ∃ name, named.name = some name := by
    unfold determineName at h
    split at h
    · exact name_of_getName h
    · injection h with h
      exact .inl h.symm
  rcases hcases with rfl | ⟨name, hname⟩
  · exact h
  · exact if_neg (by simp [hname])

theorem sameWhenNamed_afterName (entry : DirectoryEntry) :
    entry.SameWhenNamed entry.afterName := by
  unfold afterName
  cases h : entry.determineName with
  | error error => exact .refl entry
  | ok named => exact ⟨(sameEntry_of_determineName h).1, (determineName_again h).trans h.symm⟩

end DirectoryEntry

open DirectoryEntry

theorem afterScan_same (compare : DirectoryEntry → Except Error Ordering)
    (entries : List DirectoryEntry) :
    List.Forall₂ SameWhenNamed entries (afterScan compare entries) := by
  have hrefl (entries : List DirectoryEntry) : List.Forall₂ SameWhenNamed entries entries :=
    List.forall₂_same.mpr fun entry _ => .refl entry
  induction entries with
  | nil => exact .nil
  | cons entry entries ih =>
    apply List.Forall₂.cons (sameWhenNamed_afterName entry)
    split
    · exact ih
    · exact ih
    · exact hrefl entries
    · exact hrefl entries

theorem modify_afterName_same (index : Nat) (entries : List DirectoryEntry) :
    List.Forall₂ SameWhenNamed entries (entries.modify index afterName) := by
  induction entries generalizing index with
  | nil =>
    rw [List.modify_nil]
    exact .nil
  | cons entry entries ih =>
    cases index with
    | zero =>
      rw [List.modify_zero_cons]
      exact .cons (sameWhenNamed_afterName entry) (List.forall₂_same.mpr fun entry _ => .refl entry)
    | succ index =>
      rw [List.modify_succ_cons]
      exact .cons (.refl entry) (ih index)

/-- What a call leaves has the same entries. -/
theorem LookupCall.after_same (una : LibUna) (call : LookupCall) (entries : List DirectoryEntry) :
    List.Forall₂ SameWhenNamed entries (call.after una entries) := by
  cases call with
  | byUtf8Name utf8String => exact afterScan_same _ entries
  | byUtf16Name utf16String => exact afterScan_same _ entries
  | byIndex index => exact modify_afterName_same index entries

/-- The loop over entries whose names may be determined finds the same one. -/
theorem findFileEntry_congr {compare : DirectoryEntry → Except Error Ordering}
    {entries after : List DirectoryEntry} (h : List.Forall₂ SameWhenNamed entries after) :
    findFileEntry compare after = findFileEntry compare entries := by
  induction h with
  | nil => rfl
  | cons hfirst _ ih => rw [findFileEntry, findFileEntry, hfirst.determineName, ih]

/-- The copy of an entry whose name may be determined. -/
theorem getElem?_clone_congr {entries after : List DirectoryEntry}
    (h : List.Forall₂ SameWhenNamed entries after) (index : Nat) :
    (after[index]?).map (fun entry => (entry.identifier, entry.clone)) =
      (entries[index]?).map fun entry => (entry.identifier, entry.clone) := by
  induction h generalizing index with
  | nil => rfl
  | cons hfirst _ ih =>
    cases index with
    | zero =>
      simp only [List.getElem?_cons_zero, Option.map_some, hfirst.identifier, hfirst.clone]
    | succ index => exact ih index

namespace FileEntry

section Lookups

variable {una : LibUna} {fs : FileSystem} {image : List UInt8}

theorem getDirectory_afterLookup (fileEntry : FileEntry) (call : LookupCall) :
    (fileEntry.afterLookup una fs image call).getDirectory fs image =
      (fileEntry.getDirectory fs image).map (Option.map fun directory =>
        { directory with fileEntries := call.after una directory.fileEntries }) := by
  rw [afterLookup]
  cases hdirectory : fileEntry.getDirectory fs image with
  | error error => exact hdirectory
  | ok directory =>
    cases directory with
    | none => exact hdirectory
    | some directory => rfl

/-- A lookup by name is not changed by the lookup before it. -/
theorem getSubFileEntryByName_afterLookup {υ : Type} (units : CodeUnits υ) (fileEntry : FileEntry)
    (call : LookupCall) (string : List υ) :
    (fileEntry.afterLookup una fs image call).getSubFileEntryByName una units fs image string =
      fileEntry.getSubFileEntryByName una units fs image string := by
  rw [getSubFileEntryByName, getSubFileEntryByName, getDirectory_afterLookup]
  cases fileEntry.getDirectory fs image with
  | error error => rfl
  | ok directory =>
    cases directory with
    | none => rfl
    | some directory =>
      have hfind := @findFileEntry_congr (·.compareWithString una units string) _ _
        (call.after_same una directory.fileEntries)
      simp only [Except.map, Option.map_some, bind, Except.bind, Directory.getFileEntryByName, hfind]

/-- A lookup by index is not changed by the lookup before it. -/
theorem getSubFileEntryByIndex_afterLookup (fileEntry : FileEntry) (call : LookupCall)
    (index : Nat) :
    (fileEntry.afterLookup una fs image call).getSubFileEntryByIndex fs image index =
      fileEntry.getSubFileEntryByIndex fs image index := by
  rw [getSubFileEntryByIndex, getSubFileEntryByIndex, getDirectory_afterLookup]
  cases fileEntry.getDirectory fs image with
  | error error => rfl
  | ok directory =>
    cases directory with
    | none => rfl
    | some directory =>
      have hcopy := getElem?_clone_congr (call.after_same una directory.fileEntries) index
      simp only [Except.map, Option.map_some, bind, Except.bind, Directory.getFileEntryByIndex]
      cases hentry : directory.fileEntries[index]? with
      | none =>
        rw [hentry, Option.map_none, Option.map_eq_none_iff] at hcopy
        rw [hcopy]
      | some entry =>
        rw [hentry, Option.map_some, Option.map_eq_some_iff] at hcopy
        obtain ⟨later, hlater, hsame⟩ := hcopy
        injection hsame with hidentifier hclone
        simp only [hlater, hidentifier, hclone]

/-- Lookups by name and by index come to the same whatever lookups were before them. -/
theorem lookups_afterLookups {υ : Type} (units : CodeUnits υ) (fileEntry : FileEntry)
    (calls : List LookupCall) :
    (∀ string,
      (fileEntry.afterLookups una fs image calls).getSubFileEntryByName una units fs image string =
        fileEntry.getSubFileEntryByName una units fs image string) ∧
      ∀ index, (fileEntry.afterLookups una fs image calls).getSubFileEntryByIndex fs image index =
        fileEntry.getSubFileEntryByIndex fs image index := by
  induction calls generalizing fileEntry with
  | nil => exact ⟨fun _ => rfl, fun _ => rfl⟩
  | cons call calls ih =>
    obtain ⟨hname, hindex⟩ := ih (fileEntry.afterLookup una fs image call)
    constructor
    · intro string
      exact (hname string).trans (getSubFileEntryByName_afterLookup units fileEntry call string)
    · intro index
      exact (hindex index).trans (getSubFileEntryByIndex_afterLookup fileEntry call index)

end Lookups

end FileEntry

/-! ### The first entry of a name -/

/-- The index is the first one of a name that folds to the same characters. -/
def IsFirstNamed (una : LibUna) (names : List (List Char)) (name : List Char) (first : Nat) :
    Prop :=
  IsLeast {index | ∃ other, names[index]? = some other ∧ una.foldName other = una.foldName name}
    first

theorem exists_isFirstNamed (una : LibUna) {names : List (List Char)} {index : Nat}
    {name : List Char} (h : names[index]? = some name) :
    ∃ first, IsFirstNamed una names name first :=
  ⟨_, isLeast_csInf ⟨index, name, h, rfl⟩⟩

/-- The names before the first one are others. -/
theorem IsFirstNamed.ne_of_lt {una : LibUna} {names : List (List Char)} {name : List Char}
    {first : Nat} (h : IsFirstNamed una names name first) {index : Nat} (hindex : index < first)
    {earlier : List Char} (hearlier : names[index]? = some earlier) :
    una.foldName earlier ≠ una.foldName name := by
  intro heq
  exact Nat.not_lt.mpr (h.2 ⟨earlier, hearlier, heq⟩) hindex

/-- The index of a name is the first one if the names before it are others. -/
theorem IsFirstNamed.eq_of_forall_ne {una : LibUna} {names : List (List Char)} {name : List Char}
    {first : Nat} (h : IsFirstNamed una names name first) {index : Nat}
    (hname : names[index]? = some name)
    (hother : ∀ earlier < index, ∀ other, names[earlier]? = some other →
      una.foldName other ≠ una.foldName name) : first = index := by
  obtain ⟨other, hfirst, hfold⟩ := h.1
  apply le_antisymm (h.2 ⟨name, hname, rfl⟩)
  apply Nat.le_of_not_lt
  intro hless
  exact hother first hless other hfirst hfold

namespace FileEntry

section Found

variable {una : LibUna} {fs : FileSystem} {image : List UInt8} {fileEntry : FileEntry}
  {directory : Directory} {named : DirectoryEntry}

/-- The file entry of an entry that was found by its name. -/
theorem getSubFileEntryByName_of_found {υ : Type} {units : CodeUnits υ} {string : List υ}
    (hdirectory : fileEntry.getDirectory fs image = .ok (some directory))
    (hfind : directory.getFileEntryByName una units string = .ok (some named))
    (hname : named.name ≠ none) :
    fileEntry.getSubFileEntryByName una units fs image string =
      .ok (some (.create named.identifier (some { named with nameEntries := none }) none)) := by
  obtain ⟨name, hname⟩ := Option.ne_none_iff_exists'.mp hname
  have hcopy := DirectoryEntry.clone_of_name hname
  rw [getSubFileEntryByName, hdirectory]
  simp only [bind, Except.bind, hfind, hcopy]
  rfl

/-- The file entry of an entry at an index, whose name is determined for it. -/
theorem getSubFileEntryByIndex_of_named {index : Nat} {entry : DirectoryEntry}
    (hdirectory : fileEntry.getDirectory fs image = .ok (some directory))
    (hentry : directory.fileEntries[index]? = some entry)
    (hnamed : entry.determineName = .ok named) :
    fileEntry.getSubFileEntryByIndex fs image index =
      .ok (.create named.identifier (some { named with nameEntries := none }) none) := by
  have hcopy : entry.clone = .ok { named with nameEntries := none } := by
    rw [DirectoryEntry.clone, hnamed]
    rfl
  have hidentifier := (sameEntry_of_determineName hnamed).1
  rw [getSubFileEntryByIndex, hdirectory]
  simp only [bind, Except.bind, Directory.getFileEntryByIndex, hentry, hcopy, hidentifier]
  rfl

end Found

end FileEntry

/-- The lookup by the name of an entry comes to the first entry whose name folds to the same
characters, and gives the file entry that the lookup by its index gives, whatever lookups were
before them. -/
theorem lookup_by_name_is_lookup_by_first_index {una : LibUna}
    (huna : utf8.IsReadBy Char.toNat una.copyFromUtf8) {fs : FileSystem} {image : List UInt8}
    {fileEntry : FileEntry} {directory : Directory}
    (hdirectory : fileEntry.getDirectory fs image = .ok (some directory))
    {names : List (List Char)}
    (hnames : List.Forall₂ (HasName una) directory.fileEntries names) {index : Nat}
    {name : List Char} (hname : names[index]? = some name) {s : List Char}
    (hs : Name.charactersWithoutTerminator s = name)
    (hlength : (utf8.encode s).length ≤ ssizeMax) (calls others : List LookupCall) :
    ∃ first subFileEntry, IsFirstNamed una names name first ∧
      (fileEntry.afterLookups una fs image calls).getSubFileEntryByUtf8Name una fs image
        (utf8.encode s) = .ok (some subFileEntry) ∧
      (fileEntry.afterLookups una fs image others).getSubFileEntryByIndex fs image first =
        .ok subFileEntry ∧
      ((∀ earlier < index, ∀ other, names[earlier]? = some other →
        una.foldName other ≠ una.foldName name) → first = index) := by
  obtain ⟨first, hfirst⟩ := exists_isFirstNamed una hname
  obtain ⟨other, hother, hfold⟩ := hfirst.1
  have hlt : first < directory.fileEntries.length := by
    rw [hnames.length_eq]
    exact (List.getElem?_eq_some_iff.mp hother).1
  have hentry : directory.fileEntries[first]? = some directory.fileEntries[first] :=
    List.getElem?_eq_getElem hlt
  obtain ⟨named, hnamed, hnamedName, hfind⟩ :=
    findFileEntry_first hnames hentry hother (by rw [hs, hfold]) fun index hindex earlier hearlier =>
      hfold ▸ hfirst.ne_of_lt hindex hearlier
  have hlookup : directory.getFileEntryByName una una.utf8Units (utf8.encode s) =
      .ok (some named) :=
    (getFileEntryByName_encode (isStringEncoding_utf8 huna) una directory s hlength).trans hfind
  obtain ⟨hbyName, -⟩ := @FileEntry.lookups_afterLookups una fs image _ una.utf8Units fileEntry calls
  obtain ⟨-, hbyIndex⟩ :=
    @FileEntry.lookups_afterLookups una fs image _ una.utf8Units fileEntry others
  have hfound := FileEntry.getSubFileEntryByName_of_found hdirectory hlookup hnamedName
  have hindexed := FileEntry.getSubFileEntryByIndex_of_named hdirectory hentry hnamed
  exact ⟨first, _, hfirst, (hbyName (utf8.encode s)).trans hfound,
    (hbyIndex first).trans hindexed, hfirst.eq_of_forall_ne hname⟩

/-! ### Names in upper and in lower case -/

theorem length_shortNameOf_le (nameData : List UInt8) (isVolumeLabel : Bool) :
    (shortNameOf nameData isVolumeLabel).length ≤ 13 := by
  have hname : (upToSpace (field nameData 0 8)).length ≤ 8 :=
    le_trans (List.takeWhile_sublist _).length_le (List.length_take_le _ _)
  have hextension : (upToSpace (field nameData 8 3)).length ≤ 3 :=
    le_trans (List.takeWhile_sublist _).length_le (List.length_take_le _ _)
  unfold shortNameOf
  dsimp only
  split <;> simp only [List.length_append, List.length_cons, List.length_nil] <;> omega

/-- A short name is read, whatever its bytes are. -/
theorem hasName_shortName {una : LibUna} (hstrings : una.ReadsUnicode) (hnames : una.ReadsNames)
    {entry : DirectoryEntry} (hname : entry.name = none) (hentries : entry.nameEntries = none)
    (htype : entry.entryType = .shortName) :
    entry.HasName una (Name.charactersWithoutTerminator
      ((shortNameOf entry.nameData
        (entry.fileAttributeFlags &&& fileAttributeFlagVolumeLabel ≠ 0)).map byteCharacter)) := by
  set name := shortNameOf entry.nameData
    (entry.fileAttributeFlags &&& fileAttributeFlagVolumeLabel ≠ 0) with hshort
  have hlength : name.length ≤ 13 := length_shortNameOf_le _ _
  have hpos : 0 < name.length := by
    rw [hshort, shortNameOf, List.length_append]
    exact Nat.succ_pos _
  refine ⟨{ entry with name := some name, nameSize := name.length, isUnicode := false }, name, ?_,
    rfl, hpos, le_trans hlength (by decide), ?_⟩
  · simp only [determineName, getName, hname, hentries, htype, Option.isNone_none,
      Option.isSome_none, hshort]
    rfl
  · rw [List.take_length]
    exact Name.reads_of_isStoredName hstrings hnames (.bytes name)

/-- The entry of a file whose name is one character. -/
def letterEntry (letter : UInt8) : DirectoryEntry :=
  DirectoryEntry.readShortName (letter :: List.replicate 10 0x20 ++ List.replicate 21 0)

/-- The directory has the files "A" and "a". -/
def lettersDirectory : Directory :=
  { Directory.create with
    entries := [0, 32]
    fileEntries := [letterEntry 0x41, { letterEntry 0x61 with identifier := 32 }] }

def letterNames : List (List Char) := [[Char.ofNat 0x41], [Char.ofNat 0x61]]

theorem hasName_letterNames :
    List.Forall₂ (HasName wellFormedLibUna) lettersDirectory.fileEntries letterNames :=
  .cons (hasName_shortName readsUnicode_wellFormedLibUna readsNames_wellFormedLibUna rfl rfl rfl)
    (.cons (hasName_shortName readsUnicode_wellFormedLibUna readsNames_wellFormedLibUna rfl rfl rfl)
      .nil)

/-- The name "a" leads to the first of the two files. -/
theorem lookup_by_name_is_lookup_by_first_index_letters :
    ∃ first subFileEntry,
      IsFirstNamed wellFormedLibUna letterNames [Char.ofNat 0x61] first ∧
      ((FileEntry.create 0 none (some lettersDirectory)).afterLookups wellFormedLibUna
          selfLinkedFileSystem [] [.byIndex 1, .byUtf8Name [0x42]]).getSubFileEntryByUtf8Name
        wellFormedLibUna selfLinkedFileSystem [] (utf8.encode [Char.ofNat 0x61, Char.ofNat 0]) =
          .ok (some subFileEntry) ∧
      ((FileEntry.create 0 none (some lettersDirectory)).afterLookups wellFormedLibUna
          selfLinkedFileSystem [] []).getSubFileEntryByIndex selfLinkedFileSystem [] first =
        .ok subFileEntry ∧
      ((∀ earlier < 1, ∀ other, letterNames[earlier]? = some other →
        wellFormedLibUna.foldName other ≠ wellFormedLibUna.foldName [Char.ofNat 0x61]) →
          first = 1) := by
  have hname : letterNames[1]? = some [Char.ofNat 0x61] := rfl
  have hs : Name.charactersWithoutTerminator [Char.ofNat 0x61, Char.ofNat 0] =
      [Char.ofNat 0x61] := rfl
  exact lookup_by_name_is_lookup_by_first_index readsUnicode_wellFormedLibUna.utf8 rfl
    hasName_letterNames hname hs (by decide) _ _

end FsFat
