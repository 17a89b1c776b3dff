import FsFat.MountPathString

/-!
File entries by path and the names of file entries in the mount tool:
`mount_file_system.c`. A file name that the tool shows is looked up again in the
directory that it was shown in. The file name stands for the name itself, but a
backslash in the name separates two components of the path.
-/

namespace FsFat

open MountPathString

/-- `libfsfat_directory_entry_get_utf8_name`, with the function for its size. -/
def DirectoryEntry.getUtf8Name (una : MountLibUna) (entry : DirectoryEntry) :
    Except Error (List UInt8) := do
  let entry ← entry.determineName
  match entry.name with
  | none => .error .missingName
  | some name => una.utf8String entry.isUnicode (name.take entry.nameSize)

/-- `libfsfat_file_entry_get_utf8_name`, with the function for its size. The root
directory has no name. -/
def FileEntry.getUtf8Name (una : MountLibUna) (fileEntry : FileEntry) :
    Except Error (Option (List UInt8)) :=
  match fileEntry.directoryEntry with
  | none => .ok none
  | some entry => (entry.getUtf8Name una).map some

namespace MountFileSystem

/-- `mount_file_system_get_filename_from_file_entry`. The end of string character
of the name is not copied. -/
def getFilenameFromFileEntry (una : MountLibUna) (fileEntry : FileEntry) :
    Except Error (List UInt8) := do
  match ← fileEntry.getUtf8Name una with
  | none => .error .getFailed
  | some name =>
    if name.length = 0 ∨ name.length > ssizeMax then .error .valueOutOfBounds
    else copyFromFileEntryPath una name.dropLast

/-- `mount_file_system_get_file_entry_by_path`. The length of the file entry path
is that of the string, up to the first end of string character. -/
def getFileEntryByPath (una : MountLibUna) (fs : FileSystem) (image : List UInt8)
    (root : Directory) (path : List UInt8) : Except Error (Bool × FileEntry) := do
  let fileEntryPath ← copyToFileEntryPath una path
  getFileEntryByUtf8Path una.toLibUna fs image root (fileEntryPath.takeWhile (· ≠ 0))

/-! ### The characters of a path and of a name -/

section Characters

variable {una : MountLibUna} {fs : FileSystem} {image : List UInt8} {root : Directory}

/-- A string without an end of string character is as long as it is. -/
theorem takeWhile_encode (huna : una.IsUnicode) {s : List Char} (h : ∀ c ∈ s, c.toNat ≠ 0) :
    (utf8.encode s).takeWhile (· ≠ 0) = utf8.encode s := by
  rw [List.takeWhile_eq_self_iff]
  intro byte hbyte
  obtain ⟨c, hc, hsymbol⟩ := List.mem_flatMap.mp hbyte
  have hencoding := isStringEncoding_utf8 huna.reads
  simp only [ne_eq, decide_not, Bool.not_eq_true', decide_eq_false_iff_not]
  rintro rfl
  have hvalue : una.utf8Units.value 0 = 0 := rfl
  exact h c hc ((hencoding.of_value_lt hsymbol (by rw [hvalue]; omega)).2.symm.trans hvalue)

/-- Looking a path up is looking up what it stands for. -/
theorem getFileEntryByPath_encode (huna : una.IsUnicode) {s t : List Char} (h : Unescapes s t)
    (hhead : s.head? = some (Char.ofNat libcpathSeparator))
    (hlength : (utf8.encode s).length ≤ ssizeMax - 1) (ht : ∀ c ∈ t, c.toNat ≠ 0) :
    getFileEntryByPath una fs image root (utf8.encode s) =
      getFileEntryByUtf8Path una.toLibUna fs image root (utf8.encode t) := by
  rw [getFileEntryByPath, copyToFileEntryPath_encode huna h hhead hlength]
  simp only [bind, Except.bind, takeWhile_encode huna ht]

/-- A path that is looked up begins with a separator. -/
theorem head?_of_getFileEntryByPath (huna : una.IsUnicode) {s : List Char}
    {result : Bool × FileEntry}
    (h : getFileEntryByPath una fs image root (utf8.encode s) = .ok result) :
    s.head? = some (Char.ofNat libcpathSeparator) := by
  obtain ⟨fileEntryPath, hcopy, _⟩ := bind_eq_ok_iff.mp h
  unfold copyToFileEntryPath at hcopy
  dsimp only at hcopy
  split_ifs at hcopy with hempty hfirst
  cases s with
  | nil => exact absurd (Or.inl rfl) hempty
  | cons c s =>
    obtain ⟨byte, bytes, hsymbol⟩ := List.exists_cons_of_ne_nil (utf8.ne_nil c)
    have hbyte : byte.toNat = libcpathSeparator := by
      rw [Encoding.encode_cons, hsymbol, List.cons_append] at hfirst
      exact not_not.mp hfirst
    have hc : c.toNat = libcpathSeparator := by
      apply ((isStringEncoding_utf8 huna.reads).head_value_iff (by decide) c).mp
      rw [hsymbol, List.head?_cons, Option.map_some, ← hbyte]
      rfl
    rw [List.head?_cons, ← hc, Char.ofNat_toNat]

/-- The file entry path that a path stands for begins with a separator too. -/
theorem unescapes_separator_cons {s t : List Char}
    (h : Unescapes (Char.ofNat libcpathSeparator :: s) t) :
    ∃ rest, t = separatorCharacter :: rest ∧ Unescapes s rest := by
  generalize hpath : Char.ofNat libcpathSeparator :: s = path at h
  cases h with
  | nil => cases hpath
  | @cons c part s' t hpart hrest =>
    cases hpart with
    | separator =>
      injection hpath with _ hpath
      exact ⟨t, rfl, hpath ▸ hrest⟩
    | escapeCharacter => injection hpath with hhead; exact absurd hhead (by decide)
    | twoDigits => injection hpath with hhead; exact absurd hhead (by decide)
    | eightDigits => injection hpath with hhead; exact absurd hhead (by decide)
    | itself hseparator =>
      injection hpath with hhead
      exact absurd (by rw [← hhead]; rfl) hseparator

theorem toNat_ne_zero_of_isWrittenAs {c : Char} {part : List Char} (h : IsWrittenAs c part)
    (hpart : ∀ d ∈ part, d.toNat ≠ 0) : c.toNat ≠ 0 := by
  cases h with
  | separator => decide
  | escapeCharacter => decide
  | twoDigits hvalue =>
    intro hzero
    rw [hzero] at hvalue
    exact absurd hvalue (by decide)
  | eightDigits hvalue =>
    intro hzero
    rw [hzero] at hvalue
    exact absurd hvalue (by decide)
  | itself => exact hpart c List.mem_cons_self

/-- A path without an end of string character stands for one without. -/
theorem toNat_ne_zero_of_unescapes {s t : List Char} (h : Unescapes s t)
    (hs : ∀ c ∈ s, c.toNat ≠ 0) : ∀ c ∈ t, c.toNat ≠ 0 := by
  induction h with
  | nil => exact hs
  | cons hpart _ ih =>
    obtain ⟨hfirst, hrest⟩ := List.forall_mem_append.mp hs
    exact List.forall_mem_cons.mpr ⟨toNat_ne_zero_of_isWrittenAs hpart hfirst, ih hrest⟩

theorem eq_nil_of_reads_nil {una : LibUna} {isUnicode : Bool} {s : List Char}
    (h : Name.Reads una isUnicode [] s) : s = [] := by
  have hempty : Name.withoutTerminator isUnicode [] = [] := by cases isUnicode <;> rfl
  rw [Name.Reads, hempty] at h
  cases h with
  | nil => rfl
  | cons hlt => exact absurd hlt (Nat.not_lt_zero _)

/-- The UTF-8 string of the name of a copied entry. -/
theorem getUtf8Name_of_hasName (huna : una.IsUnicode) {entry copy : DirectoryEntry}
    (hcopy : entry.clone = .ok copy) {name : List Char}
    (hname : entry.HasName una.toLibUna name) (hne : name ≠ []) (identifier : Nat) :
    ∃ string, upToNul string = upToNul name ∧
      FileEntry.getUtf8Name una (.create identifier (some copy) none) =
        .ok (some (utf8.encode string ++ [0])) := by
  obtain ⟨named, bytes, hnamed, hbytes, hpos, hmax, hreads⟩ := hname
  rw [DirectoryEntry.clone, hnamed] at hcopy
  injection hcopy with hcopy
  subst hcopy
  have hlength : 0 < (bytes.take named.nameSize).length := by
    by_contra hzero
    have hnil := List.length_eq_zero_iff.mp (Nat.eq_zero_of_not_pos hzero)
    rw [hnil] at hreads
    exact hne (eq_nil_of_reads_nil hreads)
  obtain ⟨string, hstring, hutf8⟩ := huna.names named.isUnicode _ name hlength
    (le_trans (List.length_take_le _ _) hmax) hreads
  refine ⟨string, hstring, ?_⟩
  have hentry : DirectoryEntry.getUtf8Name una { named with nameEntries := none } =
      una.utf8String named.isUnicode (bytes.take named.nameSize) := by
    have hdetermined : DirectoryEntry.determineName { named with nameEntries := none } =
        .ok { named with nameEntries := none } := if_neg (by simp [hbytes])
    rw [DirectoryEntry.getUtf8Name, hdetermined]
    simp only [bind, Except.bind, hbytes]
  rw [FileEntry.getUtf8Name, FileEntry.create_directoryEntry]
  dsimp only
  rw [hentry, hutf8]
  rfl

/-- The file name of a file entry is what its name is written as. -/
theorem getFilenameFromFileEntry_eq_ok (huna : una.IsUnicode) {entry copy : DirectoryEntry}
    (hcopy : entry.clone = .ok copy) {name : List Char}
    (hname : entry.HasName una.toLibUna name) (hne : name ≠ []) {identifier : Nat}
    {filename : List UInt8}
    (h : getFilenameFromFileEntry una (.create identifier (some copy) none) = .ok filename) :
    filename = utf8.encode (escapeName name) := by
  obtain ⟨string, hstring, hget⟩ := getUtf8Name_of_hasName huna hcopy hname hne identifier
  rw [getFilenameFromFileEntry, hget] at h
  simp only [bind, Except.bind, List.dropLast_concat] at h
  split_ifs at h
  rw [copyFromFileEntryPath_eq_ok huna h, escapeName, hstring]
  rfl

/-! ### From a file name back to its file -/

/-- The directory has the path. The root directory has the empty path in front of
the separator of a name. -/
def IsMountedAt (una : MountLibUna) (fs : FileSystem) (image : List UInt8) (root : Directory)
    (path : List Char) (directory : FileEntry) : Prop :=
  path = [] ∧ directory = getRootDirectory fs root ∨
    getFileEntryByPath una fs image root (utf8.encode path) = .ok (true, directory)

/-- The path of the file name in the directory. -/
def joinPath (path : List Char) (filename : List UInt8) : List UInt8 :=
  utf8.encode path ++ UInt8.ofNat libcpathSeparator :: filename

/-- Looking the path up gives a file entry with the identifier. -/
def LeadsTo (una : MountLibUna) (fs : FileSystem) (image : List UInt8) (root : Directory)
    (path : List UInt8) (identifier : Nat) : Prop :=
  ∃ found, getFileEntryByPath una fs image root path = .ok (true, found) ∧
    found.identifier = identifier

/-- From the directory only the name leads to a directory entry with the
identifier. Elsewhere the clusters of the directory are those of another one
too. -/
def OnlyByName (una : LibUna) (fs : FileSystem) (image : List UInt8) (directory : Directory)
    (identifier : Nat) (name : List Char) : Prop :=
  ∀ components entry, LeadsToEntry una fs image directory components entry →
    entry.identifier = identifier → ∃ component, components = [component] ∧
      una.foldName (Name.charactersWithoutTerminator component) = una.foldName name

/-- The position of the directory: the name is looked up in it. -/
structure IsPositionOf (una : MountLibUna) (fs : FileSystem) (image : List UInt8)
    (root : Directory) (path : List Char) (directory : Directory) (position : PathPosition) :
    Prop where
  getDirectory : position.getDirectory fs image root = .ok directory
  resolve : path = [] ∧ position = .start root ∨ ∃ s, path = separatorCharacter :: s ∧
    resolvePath una.toLibUna una.utf8Units fs image root (utf8.encode path) = .ok position ∧
    position.result = true

/-- A directory that has a path has a position. -/
theorem IsMountedAt.exists_position (huna : una.IsUnicode) {path fileEntryPath : List Char}
    (hpath : ∀ c ∈ path, c.toNat ≠ 0) (h : Unescapes path fileEntryPath)
    (hlength : (utf8.encode path).length ≤ ssizeMax - 1) {fileEntry : FileEntry}
    (hmounted : IsMountedAt una fs image root path fileEntry) {directory : Directory}
    (hdirectory : fileEntry.getDirectory fs image = .ok (some directory)) :
    ∃ position, IsPositionOf una fs image root fileEntryPath directory position := by
  rcases hmounted with ⟨rfl, rfl⟩ | hget
  · generalize hnil : ([] : List Char) = path at h
    cases h with
    | nil =>
      refine ⟨.start root, ?_, Or.inl ⟨rfl, rfl⟩⟩
      injection hdirectory with hdirectory
      injection hdirectory with hdirectory
      exact congrArg Except.ok hdirectory
    | cons hpart =>
      exact absurd (List.append_eq_nil_iff.mp hnil.symm).1 (ne_nil_of_isWrittenAs hpart)
  · have hhead := head?_of_getFileEntryByPath huna hget
    have hnul := toNat_ne_zero_of_unescapes h hpath
    have hle := h.length_encode_le
    rw [getFileEntryByPath_encode huna h hhead hlength hnul] at hget
    obtain ⟨position, hresolve, hentry⟩ := bind_eq_ok_iff.mp hget
    have hresult : position.result = true := getFileEntry_result hentry
    obtain ⟨rest, rfl⟩ : ∃ rest, path = Char.ofNat libcpathSeparator :: rest := by
      cases path with
      | nil => cases hhead
      | cons c rest => exact ⟨rest, by rw [Option.some.inj hhead]⟩
    obtain ⟨s, rfl, _⟩ := unescapes_separator_cons h
    refine ⟨position, ?_, Or.inr ⟨s, rfl, hresolve, hresult⟩⟩
    exact getDirectory_of_resolvePath (isStringEncoding_utf8 huna.reads) (by omega) hresolve hresult
      hentry hdirectory

/-- A name is looked up in the directory whose path is in front of it. -/
theorem IsPositionOf.resolvePath_name (huna : una.IsUnicode) {path : List Char}
    {directory : Directory} {position : PathPosition}
    (h : IsPositionOf una fs image root path directory position)
    (hend : ∀ c ∈ path.getLast?, isPathSeparator c = false) {name : List Char} (hname : name ≠ [])
    (hlength : (utf8.encode (path ++ separatorCharacter :: name)).length ≤ ssizeMax) :
    resolvePath una.toLibUna una.utf8Units fs image root
        (utf8.encode (path ++ separatorCharacter :: name)) =
      followPath una.toLibUna fs image root position (components isPathSeparator name) := by
  have hencoding := isStringEncoding_utf8 huna.reads
  rcases h.resolve with ⟨rfl, rfl⟩ | ⟨s, rfl, hresolve, hresult⟩
  · exact resolvePath_rootName hencoding hname hlength
  · rcases List.eq_nil_or_concat s with rfl | ⟨first, last, rfl⟩
    · exact absurd (hend separatorCharacter rfl) (by decide)
    · rw [List.concat_eq_append] at hend hresolve hlength ⊢
      have hlast : isPathSeparator last = false := by
        apply hend
        rw [← List.cons_append, List.getLast?_concat]
        rfl
      have hpath : (utf8.encode (separatorCharacter :: (first ++ [last]))).length ≤ ssizeMax := by
        rw [Encoding.encode_append, List.length_append] at hlength
        omega
      exact resolvePath_join hencoding hlast hpath hresolve hresult name hlength

/-- Behind a path that ends with a separator no name is found. -/
theorem IsPositionOf.resolvePath_separator (huna : una.IsUnicode) {path : List Char}
    {directory : Directory} {position : PathPosition}
    (h : IsPositionOf una fs image root path directory position) {c : Char}
    (hlast : path.getLast? = some c) (hc : isPathSeparator c = true) {name : List Char}
    (hlength : (utf8.encode (path ++ separatorCharacter :: name)).length ≤ ssizeMax)
    {last : PathPosition}
    (hresolve : resolvePath una.toLibUna una.utf8Units fs image root
      (utf8.encode (path ++ separatorCharacter :: name)) = .ok last) : last.result = false := by
  rcases h.resolve with ⟨rfl, rfl⟩ | ⟨s, rfl, hposition, hresult⟩
  · cases hlast
  · have hpath : (utf8.encode (separatorCharacter :: s)).length ≤ ssizeMax := by
      rw [Encoding.encode_append, List.length_append] at hlength
      omega
    refine resolvePath_join_of_separator (isStringEncoding_utf8 huna.reads) ?_ hpath hposition
      hresult name hlength hresolve
    intro d hd
    rw [List.getLast?_cons, Option.mem_def.mp hd] at hlast
    have hlastSame : d = c := Option.some.inj hlast
    exact hlastSame ▸ hc

/-- A name without a separator leads to its entry. -/
theorem exists_found_of_name {position : PathPosition} {directory : Directory}
    (hdirectory : position.getDirectory fs image root = .ok directory)
    {names : List (List Char)}
    (hnames : List.Forall₂ (DirectoryEntry.HasName una.toLibUna) directory.fileEntries names)
    (hdistinct : (names.map una.foldName).Nodup) {index : Nat} {entry : DirectoryEntry}
    {name : List Char} (hentry : directory.fileEntries[index]? = some entry)
    (hname : names[index]? = some name) (hne : name ≠ [])
    (hseparator : ∀ c ∈ name, isPathSeparator c = false) :
    ∃ found, (followPath una.toLibUna fs image root position (components isPathSeparator name) >>=
      PathPosition.getFileEntry fs) = .ok (true, found) ∧ found.identifier = entry.identifier := by
  have hnul : ∀ c ∈ name, c.toNat ≠ 0 := by
    intro c hc hzero
    have hfalse := hseparator c hc
    simp [isPathSeparator, hzero] at hfalse
  obtain ⟨named, hnamed, hnamedName, hfind⟩ := findFileEntry_of_hasName hnames hdistinct hentry
    hname (s := name) (by rw [charactersWithoutTerminator_of_forall hnul])
  obtain ⟨bytes, hbytes⟩ := Option.ne_none_iff_exists'.mp hnamedName
  have hfound : directory.findName una.toLibUna name = .ok (some named) := hfind
  refine ⟨.create named.identifier (some { named with nameEntries := none }) none, ?_,
    (DirectoryEntry.sameEntry_of_determineName hnamed).1⟩
  have hcopy := DirectoryEntry.clone_of_name hbytes
  rw [components_of_forall hseparator hne, followPath_cons hne hdirectory hfound]
  have hget : (position.atEntry directory named).getFileEntry fs = .ok (true,
      .create named.identifier (some { named with nameEntries := none }) none) := by
    rw [PathPosition.getFileEntry, PathPosition.atEntry]
    dsimp only
    rw [hcopy]
    rfl
  exact hget

theorem upToNul_eq_self {s : List Char} (h : ∀ c ∈ s, c.toNat ≠ 0) : upToNul s = s :=
  List.takeWhile_eq_self_iff.mpr fun c hc => by simpa using h c hc

/-- A name with a separator is not looked up whole. -/
theorem identifier_ne_of_separator {position : PathPosition} {directory : Directory}
    (hdirectory : position.getDirectory fs image root = .ok directory) {name : List Char}
    (hseparator : ∃ c ∈ name, isPathSeparator c = true) (hne : upToNul name ≠ [])
    {identifier : Nat} (honly : OnlyByName una.toLibUna fs image directory identifier name)
    {found : FileEntry}
    (h : (followPath una.toLibUna fs image root position
      (components isPathSeparator (upToNul name)) >>= PathPosition.getFileEntry fs) =
        .ok (true, found)) : found.identifier ≠ identifier := by
  intro hidentifier
  obtain ⟨last, hfollow, hget⟩ := bind_eq_ok_iff.mp h
  have hresult := getFileEntry_result hget
  have hcomponentsNe : components isPathSeparator (upToNul name) ≠ [] := components_ne_nil hne
  obtain ⟨first, rest, hcomponents⟩ := List.exists_cons_of_ne_nil hcomponentsNe
  rw [hcomponents] at hfollow
  obtain ⟨entry, hentry, hleads⟩ := leadsToEntry_of_followPath hdirectory hfollow hresult
  rw [PathPosition.getFileEntry, hentry] at hget
  obtain ⟨copy, _, hfound⟩ := map_eq_ok_iff.mp hget
  injection hfound with _ hfound
  subst hfound
  -- the components would be the whole name, and they have fewer characters
  obtain ⟨component, hsingle, hfold⟩ := honly _ entry hleads hidentifier
  have hlength := length_eq_of_foldName hfold
  have hcomponent := length_charactersWithoutTerminator_le component
  obtain ⟨hle, hlt⟩ := length_of_components_eq_singleton (hcomponents.trans hsingle)
  have hprefix : (upToNul name).length ≤ name.length := (List.takeWhile_sublist _).length_le
  by_cases hnul : ∀ c ∈ name, c.toNat ≠ 0
  · rw [upToNul_eq_self hnul] at hlt
    have hless := hlt hseparator
    omega
  · have hshorter : (upToNul name).length ≠ name.length := by
      intro heq
      apply hnul
      have hself := (List.takeWhile_prefix (fun c : Char => c.toNat ≠ 0)).eq_of_length heq
      intro c hc
      exact toNat_of_mem_upToNul (hself.symm ▸ hc)
    omega

/-- The path of a file name is looked up as that of the name. -/
theorem getFileEntryByPath_joinPath (huna : una.IsUnicode) {path fileEntryPath : List Char}
    (hpath : ∀ c ∈ path, c.toNat ≠ 0) (h : Unescapes path fileEntryPath) {directory : FileEntry}
    (hmounted : IsMountedAt una fs image root path directory) (name : List Char)
    (hlength : (joinPath path (utf8.encode (escapeName name))).length ≤ ssizeMax - 1) :
    getFileEntryByPath una fs image root (joinPath path (utf8.encode (escapeName name))) =
      getFileEntryByUtf8Path una.toLibUna fs image root
        (utf8.encode (fileEntryPath ++ separatorCharacter :: upToNul name)) := by
  have hjoin : joinPath path (utf8.encode (escapeName name)) =
      utf8.encode (path ++ Char.ofNat libcpathSeparator :: escapeName name) := by
    rw [joinPath, Encoding.encode_append, Encoding.encode_cons, encodeSymbol_of_lt (by decide),
      List.singleton_append]
    rfl
  have hunescapes : Unescapes (path ++ Char.ofNat libcpathSeparator :: escapeName name)
      (fileEntryPath ++ separatorCharacter :: upToNul name) :=
    h.append (.cons .separator (unescapes_escapeName name))
  rw [hjoin] at hlength ⊢
  apply getFileEntryByPath_encode huna hunescapes _ hlength
  · refine List.forall_mem_append.mpr ⟨toNat_ne_zero_of_unescapes h hpath, ?_⟩
    exact List.forall_mem_cons.mpr ⟨by decide, fun c hc => toNat_of_mem_upToNul hc⟩
  · rcases hmounted with ⟨rfl, _⟩ | hget
    · rfl
    · have hhead := head?_of_getFileEntryByPath huna hget
      rw [List.head?_append, hhead]
      rfl

/-- The file name that is shown for a file entry leads back to it if the name has
no backslash and no end of string character, and the path of the directory does
not end with a separator. -/
theorem leadsTo_filename_iff (huna : una.IsUnicode) {path fileEntryPath : List Char}
    (hpath : ∀ c ∈ path, c.toNat ≠ 0) (hunescapes : Unescapes path fileEntryPath)
    {directoryEntry : FileEntry} (hmounted : IsMountedAt una fs image root path directoryEntry)
    {directory : Directory}
    (hdirectory : directoryEntry.getDirectory fs image = .ok (some directory))
    {names : List (List Char)}
    (hnames : List.Forall₂ (DirectoryEntry.HasName una.toLibUna) directory.fileEntries names)
    (hnonempty : ∀ name ∈ names, upToNul name ≠ [])
    (hdistinct : (names.map una.foldName).Nodup) {index : Nat} {fileEntry : FileEntry}
    (hentry : directoryEntry.getSubFileEntryByIndex fs image index = .ok fileEntry)
    {name : List Char} (hname : names[index]? = some name) {filename : List UInt8}
    (hfilename : getFilenameFromFileEntry una fileEntry = .ok filename)
    (hlength : (joinPath path filename).length ≤ ssizeMax - 1)
    (honly : (∃ c ∈ name, isPathSeparator c = true) →
      OnlyByName una.toLibUna fs image directory fileEntry.identifier name) :
    LeadsTo una fs image root (joinPath path filename) fileEntry.identifier ↔
      (∀ c ∈ name, isPathSeparator c = false) ∧
        ∀ c ∈ fileEntryPath.getLast?, isPathSeparator c = false := by
  obtain ⟨found, hfound, hentry⟩ := bind_eq_ok_iff.mp hentry
  obtain rfl : some directory = found := Except.ok.inj (hdirectory.symm.trans hfound)
  obtain ⟨entry, hindex, hentry⟩ := bind_eq_ok_iff.mp hentry
  obtain ⟨copy, hcopy, hentry⟩ := bind_eq_ok_iff.mp hentry
  injection hentry with hentry
  subst hentry
  have hentries : directory.fileEntries[index]? = some entry := by
    unfold Directory.getFileEntryByIndex at hindex
    split at hindex
    · next h =>
      injection hindex with hindex
      rw [h, hindex]
    · cases hindex
  have hne : upToNul name ≠ [] := hnonempty name (List.mem_of_getElem? hname)
  have hnameNe : name ≠ [] := by
    rintro rfl
    exact hne rfl
  have hhas := DirectoryEntry.hasName_of_getElem hnames hentries hname
  obtain rfl := getFilenameFromFileEntry_eq_ok huna hcopy hhas hnameNe hfilename
  have hpathLength : (utf8.encode path).length ≤ ssizeMax - 1 := by
    rw [joinPath, List.length_append] at hlength
    omega
  obtain ⟨position, hposition⟩ :=
    hmounted.exists_position huna hpath hunescapes hpathLength hdirectory
  have hjoined : (utf8.encode (fileEntryPath ++ separatorCharacter :: upToNul name)).length ≤
      ssizeMax := by
    have hpathLe := hunescapes.length_encode_le
    have hnameLe := (unescapes_escapeName name).length_encode_le
    have hone : (utf8.encodeSymbol separatorCharacter).length = 1 := rfl
    simp only [joinPath, List.length_append, List.length_cons] at hlength
    simp only [Encoding.encode_append, Encoding.encode_cons, List.length_append]
    omega
  rw [LeadsTo, getFileEntryByPath_joinPath huna hpath hunescapes hmounted name hlength,
    FileEntry.create_identifier, getFileEntryByUtf8Path, FsFat.getFileEntryByPath]
  constructor
  · rintro ⟨found, hget, hidentifier⟩
    by_cases hend : ∀ c ∈ fileEntryPath.getLast?, isPathSeparator c = false
    · rw [hposition.resolvePath_name huna hend hne hjoined] at hget
      refine ⟨?_, hend⟩
      by_contra hnot
      have hseparator : ∃ c ∈ name, isPathSeparator c = true := by simpa using hnot
      exact identifier_ne_of_separator hposition.getDirectory hseparator hne (honly hseparator) hget
        hidentifier
    · obtain ⟨c, hlast, hc⟩ : ∃ c, fileEntryPath.getLast? = some c ∧ isPathSeparator c = true := by
        simpa using hend
      obtain ⟨last, hresolve, hget⟩ := bind_eq_ok_iff.mp hget
      have hmissing := hposition.resolvePath_separator huna hlast hc hjoined hresolve
      rw [getFileEntry_result hget] at hmissing
      cases hmissing
  · rintro ⟨hseparator, hend⟩
    have hself : upToNul name = name := by
      apply upToNul_eq_self
      intro c hc hzero
      have hfalse := hseparator c hc
      simp [isPathSeparator, hzero] at hfalse
    rw [hposition.resolvePath_name huna hend hne hjoined, hself]
    exact exists_found_of_name hposition.getDirectory hnames hdistinct hentries hname hnameNe
      hseparator

end Characters

end MountFileSystem

/-! ### A name with a slash and one with a backslash -/

/-- The characters of a string in UTF-16. -/
def decodeUtf16 : List UInt16 → List Char
  | [] => []
  | [unit] => if 0xd800 ≤ unit.toNat ∧ unit.toNat < 0xdc00 then [] else [Char.ofNat unit.toNat]
  | unit :: low :: rest =>
    if 0xd800 ≤ unit.toNat ∧ unit.toNat < 0xdc00 then
      Char.ofNat (0x10000 + (unit.toNat - 0xd800) * 0x400 + (low.toNat - 0xdc00)) ::
        decodeUtf16 rest
    else Char.ofNat unit.toNat :: decodeUtf16 (low :: rest)

/-- libuna on well-formed strings and names. -/
def wellFormedMountLibUna : MountLibUna where
  toLibUna := wellFormedLibUna
  copyToUtf8 character room :=
    if (utf8.encodeSymbol (Char.ofNat character)).length ≤ room then
      .ok (utf8.encodeSymbol (Char.ofNat character))
    else .error .copyFailed
  utf8StringFromUtf16Stream name :=
    .ok (utf8.encode (decodeUtf16 (utf16Units (Name.withoutTerminator true name))) ++ [0])
  utf8StringFromByteStream name :=
    .ok (utf8.encode ((Name.withoutTerminator false name).map byteCharacter) ++ [0])

/-- A character that is read is the first one, and the rest is behind it. -/
theorem decodeUtf16_of_copy {units : List UInt16} {c : Char} {count : Nat}
    (h : copyUtf16Character units 0 = .ok (c.toNat, count)) :
    decodeUtf16 units = c :: decodeUtf16 (units.drop count) := by
  rw [copyUtf16Character, List.drop_zero] at h
  rcases units with _ | ⟨unit, _ | ⟨low, rest⟩⟩
  · cases h
  · by_cases hhigh : 0xd800 ≤ unit.toNat ∧ unit.toNat < 0xdc00
    · simp only [if_pos hhigh] at h
      cases h
    · simp only [if_neg hhigh] at h
      injection h with h
      injection h with hc hcount
      subst hcount
      rw [decodeUtf16, if_neg hhigh, hc, Char.ofNat_toNat]
      rfl
  · dsimp only at h
    rw [decodeUtf16]
    split_ifs at h ⊢ with hhigh hlow
    · simp only [Except.ok.injEq, Prod.mk.injEq] at h
      obtain ⟨hc, rfl⟩ := h
      rw [hc, Char.ofNat_toNat]
      rfl
    · injection h with h
      injection h with hc hcount
      subst hcount
      rw [hc, Char.ofNat_toNat]
      rfl

/-- The characters of a name in UTF-16 are those of its units. -/
theorem decodeUtf16_of_readsFrom {name : List UInt8} {index : Nat} {s : List Char}
    (h : Name.ReadsFrom (wellFormedLibUna.copyFromUtf16Stream name) name.length index s) :
    decodeUtf16 (utf16Units (name.drop index)) = s := by
  induction h with
  | nil hend =>
    rw [List.drop_eq_nil_of_le hend]
    rfl
  | @cons index next c s _ hcopy _ ih =>
    obtain ⟨⟨value, count⟩, hunit, heq⟩ := map_eq_ok_iff.mp hcopy
    injection heq with hvalue hnext
    subst hvalue hnext
    rw [decodeUtf16_of_copy hunit, ← utf16Units_drop, List.drop_drop, ih]

/-- The characters of a name in ASCII are those of its bytes. -/
theorem map_byteCharacter_of_readsFrom {name : List UInt8} {index : Nat} {s : List Char}
    (h : Name.ReadsFrom (wellFormedLibUna.copyFromByteStream name) name.length index s) :
    (name.drop index).map byteCharacter = s := by
  induction h with
  | nil hend =>
    rw [List.drop_eq_nil_of_le hend]
    rfl
  | @cons index next c s hlt hcopy _ ih =>
    have hsplit := List.drop_eq_getElem_cons hlt
    simp only [wellFormedLibUna, hsplit, Except.ok.injEq, Prod.mk.injEq] at hcopy
    obtain ⟨hvalue, rfl⟩ := hcopy
    rw [hsplit, List.map_cons, ih, byteCharacter, hvalue, Char.ofNat_toNat]

theorem isUnicode_wellFormedMountLibUna : wellFormedMountLibUna.IsUnicode := by
  refine ⟨readsUnicode_wellFormedLibUna.utf8, ?_, ?_⟩
  · intro c room hroom
    simp only [wellFormedMountLibUna, Char.ofNat_toNat, if_pos hroom]
  · intro isUnicode name s _ _ h
    refine ⟨s, rfl, ?_⟩
    cases isUnicode with
    | true =>
      have hs : decodeUtf16 (utf16Units (Name.withoutTerminator true name)) = s :=
        decodeUtf16_of_readsFrom h
      rw [← hs]
      rfl
    | false =>
      have hs : (Name.withoutTerminator false name).map byteCharacter = s :=
        map_byteCharacter_of_readsFrom h
      rw [← hs]
      rfl

namespace MountFileSystem

/-- The volume has a directory `D` in its root directory, and in it a file whose
name has a slash and one whose name has a backslash. -/
def separatorNamesImage : List UInt8 :=
  List.replicate 11 0 ++ [0, 2, 1, 1, 0, 1, 16, 0, 8, 0, 0xf8, 1, 0] ++ List.replicate 486 0 ++
    [0x55, 0xaa] ++ [0, 0, 0, 0xff, 0x0f] ++ List.replicate 507 0 ++
    (0x44 :: List.replicate 10 0x20) ++ (0x10 :: List.replicate 14 0) ++
    (2 :: List.replicate 485 0) ++
    ([0x41, 0x2f, 0x42] ++ List.replicate 8 0x20) ++ (0x20 :: List.replicate 20 0) ++
    ([0x41, 0x5c, 0x42] ++ List.replicate 8 0x20) ++ (0x20 :: List.replicate 468 0)

def separatorNamesEnvironment : OpenEnvironment where
  file :=
    { data := separatorNamesImage
      isOpen := .ok true
      openResult := .error .openFailed
      getSize := .ok 2048 }
  createFileSystem := .ok ()
  freshMemory _ := 0

/-- The entry at an offset of this volume. -/
def separatorNamesEntry (offset : Nat) : DirectoryEntry :=
  { DirectoryEntry.readShortName ((separatorNamesImage.drop offset).take 32) with
    identifier := offset }

/-- The directory `D`. -/
def separatorNamesDirectory : Directory :=
  { Directory.create with
    entries := [1536, 1568]
    fileEntries := [separatorNamesEntry 1536, separatorNamesEntry 1568] }

/-- The file entry of `D`. -/
def separatorNamesFileEntry : FileEntry :=
  .create 1024 (some { separatorNamesEntry 1024 with name := some [0x44, 0], nameSize := 2 }) none

/-- The path of `D`. -/
def separatorNamesPath : List Char := ascii [0x2f, 0x44]

theorem open_separatorNames :
    ∃ opened fs root,
      Volume.openFileIOHandle separatorNamesEnvironment accessFlagRead .create = (.ok (), opened) ∧
      opened.fileSystem = some ⟨some fs, some root⟩ ∧
      getFileEntryByPath wellFormedMountLibUna fs separatorNamesImage root
        (utf8.encode separatorNamesPath) = .ok (true, separatorNamesFileEntry) ∧
      separatorNamesFileEntry.getDirectory fs separatorNamesImage =
        .ok (some separatorNamesDirectory) ∧
      (getFileEntryByPath wellFormedMountLibUna fs separatorNamesImage root
        (joinPath separatorNamesPath [0x41, 0x5c, 0x5c, 0x42])).map Prod.fst = .ok false := by
  have hresult : (Volume.openFileIOHandle separatorNamesEnvironment accessFlagRead .create).1 =
      .ok () := by decide +kernel
  have hopen : Volume.openFileIOHandle separatorNamesEnvironment accessFlagRead .create = (.ok (),
      (Volume.openFileIOHandle separatorNamesEnvironment accessFlagRead .create).2) := by
    rw [← hresult]
  have hlookups : ((Volume.openFileIOHandle separatorNamesEnvironment accessFlagRead
      .create).2.fileSystem.bind fun fileSystem => fileSystem.tables.bind fun fs =>
        fileSystem.rootDirectory.map fun root =>
          (getFileEntryByPath wellFormedMountLibUna fs separatorNamesImage root
              (utf8.encode separatorNamesPath),
            separatorNamesFileEntry.getDirectory fs separatorNamesImage,
            (getFileEntryByPath wellFormedMountLibUna fs separatorNamesImage root
              (joinPath separatorNamesPath [0x41, 0x5c, 0x5c, 0x42])).map Prod.fst)) =
      some (.ok (true, separatorNamesFileEntry), .ok (some separatorNamesDirectory),
        .ok false) := by
    decide +kernel
  obtain ⟨bootRecord, fs, root, _, _, hfs⟩ := Volume.openFileIOHandle_ok hopen
  rw [hfs] at hlookups
  simp only [Option.bind_some, Option.map_some, Option.some.injEq, Prod.mk.injEq] at hlookups
  exact ⟨_, fs, root, hopen, hfs, hlookups⟩

/-- The file at an offset of this volume, with its name. -/
def separatorNamesFile (offset : Nat) (name : List UInt8) : FileEntry :=
  .create offset (some { separatorNamesEntry offset with name := some name, nameSize := 4 }) none

theorem getSubFileEntryByIndex_separatorNames {fs : FileSystem}
    (h : separatorNamesFileEntry.getDirectory fs separatorNamesImage =
      .ok (some separatorNamesDirectory)) :
    separatorNamesFileEntry.getSubFileEntryByIndex fs separatorNamesImage 0 =
        .ok (separatorNamesFile 1536 [0x41, 0x2f, 0x42, 0]) ∧
      separatorNamesFileEntry.getSubFileEntryByIndex fs separatorNamesImage 1 =
        .ok (separatorNamesFile 1568 [0x41, 0x5c, 0x42, 0]) := by
  have hcopies : (separatorNamesEntry 1536).clone = .ok { separatorNamesEntry 1536 with
        name := some [0x41, 0x2f, 0x42, 0], nameSize := 4 } ∧
      (separatorNamesEntry 1568).clone = .ok { separatorNamesEntry 1568 with
        name := some [0x41, 0x5c, 0x42, 0], nameSize := 4 } := by decide +kernel
  constructor
  · rw [FileEntry.getSubFileEntryByIndex, h]
    exact congrArg (Except.map fun copy => FileEntry.create 1536 (some copy) none) hcopies.1
  · rw [FileEntry.getSubFileEntryByIndex, h]
    exact congrArg (Except.map fun copy => FileEntry.create 1568 (some copy) none) hcopies.2

/-- The names in the directory. -/
def separatorNames : List (List Char) := [ascii [0x41, 0x2f, 0x42], ascii [0x41, 0x5c, 0x42]]

theorem hasName_separatorNames :
    List.Forall₂ (DirectoryEntry.HasName wellFormedLibUna) separatorNamesDirectory.fileEntries
      separatorNames := by
  refine .cons ?_ (.cons ?_ .nil)
  · refine ⟨{ separatorNamesEntry 1536 with name := some [0x41, 0x2f, 0x42, 0], nameSize := 4 },
      [0x41, 0x2f, 0x42, 0], by decide +kernel, rfl, by decide, by decide, ?_⟩
    exact .cons (by decide) rfl (.cons (by decide) rfl (.cons (by decide) rfl (.nil (by decide))))
  · refine ⟨{ separatorNamesEntry 1568 with name := some [0x41, 0x5c, 0x42, 0], nameSize := 4 },
      [0x41, 0x5c, 0x42, 0], by decide +kernel, rfl, by decide, by decide, ?_⟩
    exact .cons (by decide) rfl (.cons (by decide) rfl (.cons (by decide) rfl (.nil (by decide))))

/-- The path of the directory, and what it stands for. -/
theorem unescapes_separatorNamesPath :
    Unescapes separatorNamesPath [separatorCharacter, Char.ofNat 0x44] :=
  .cons .separator (.cons (.itself (by decide) (by decide)) .nil)

/-- The name with a slash, which is written as an escape sequence. -/
theorem leadsTo_filename_iff_slash :
    ∃ opened fs root,
      Volume.openFileIOHandle separatorNamesEnvironment accessFlagRead .create = (.ok (), opened) ∧
      opened.fileSystem = some ⟨some fs, some root⟩ ∧
      (LeadsTo wellFormedMountLibUna fs separatorNamesImage root
          (joinPath separatorNamesPath [0x41, 0x5c, 0x78, 0x32, 0x66, 0x42]) 1536 ↔
        (∀ c ∈ ascii [0x41, 0x2f, 0x42], isPathSeparator c = false) ∧
          ∀ c ∈ [separatorCharacter, Char.ofNat 0x44].getLast?, isPathSeparator c = false) := by
  obtain ⟨opened, fs, root, hopen, hfs, hmounted, hdirectory, _⟩ := open_separatorNames
  refine ⟨opened, fs, root, hopen, hfs, ?_⟩
  have hfilename : getFilenameFromFileEntry wellFormedMountLibUna
      (separatorNamesFile 1536 [0x41, 0x2f, 0x42, 0]) =
        .ok [0x41, 0x5c, 0x78, 0x32, 0x66, 0x42] := by decide +kernel
  have hpath : ∀ c ∈ separatorNamesPath, c.toNat ≠ 0 := by
    have hall : separatorNamesPath.all (fun c => c.toNat ≠ 0) = true := by decide
    simpa using hall
  have hname : ¬ ∃ c ∈ ascii [0x41, 0x2f, 0x42], isPathSeparator c = true := by
    have hany : (ascii [0x41, 0x2f, 0x42]).any isPathSeparator = false := by decide
    simpa using hany
  exact leadsTo_filename_iff isUnicode_wellFormedMountLibUna hpath unescapes_separatorNamesPath
    (Or.inr hmounted) hdirectory hasName_separatorNames (by decide) (by decide)
    (getSubFileEntryByIndex_separatorNames hdirectory).1 rfl hfilename (by decide)
    fun hseparator => absurd hseparator hname

/-- The name with a backslash is shown with two of them, and is not found. -/
theorem filename_of_backslash_not_found :
    ∃ opened fs root,
      Volume.openFileIOHandle separatorNamesEnvironment accessFlagRead .create = (.ok (), opened) ∧
      opened.fileSystem = some ⟨some fs, some root⟩ ∧
      getFileEntryByPath wellFormedMountLibUna fs separatorNamesImage root
        (utf8.encode separatorNamesPath) = .ok (true, separatorNamesFileEntry) ∧
      separatorNamesFileEntry.getDirectory fs separatorNamesImage =
        .ok (some separatorNamesDirectory) ∧
      List.Forall₂ (DirectoryEntry.HasName wellFormedLibUna) separatorNamesDirectory.fileEntries
        separatorNames ∧
      (∀ name ∈ separatorNames, upToNul name ≠ []) ∧
      (separatorNames.map wellFormedLibUna.foldName).Nodup ∧
      separatorNamesFileEntry.getSubFileEntryByIndex fs separatorNamesImage 1 =
        .ok (separatorNamesFile 1568 [0x41, 0x5c, 0x42, 0]) ∧
      getFilenameFromFileEntry wellFormedMountLibUna
        (separatorNamesFile 1568 [0x41, 0x5c, 0x42, 0]) = .ok [0x41, 0x5c, 0x5c, 0x42] ∧
      ¬ LeadsTo wellFormedMountLibUna fs separatorNamesImage root
        (joinPath separatorNamesPath [0x41, 0x5c, 0x5c, 0x42]) 1568 := by
  obtain ⟨opened, fs, root, hopen, hfs, hmounted, hdirectory, hmissing⟩ := open_separatorNames
  refine ⟨opened, fs, root, hopen, hfs, hmounted, hdirectory, hasName_separatorNames, by decide,
    by decide, (getSubFileEntryByIndex_separatorNames hdirectory).2, by decide +kernel, ?_⟩
  rintro ⟨found, hfound, _⟩
  rw [hfound] at hmissing
  cases hmissing

end MountFileSystem

end FsFat
