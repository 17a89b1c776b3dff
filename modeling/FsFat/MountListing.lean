import FsFat.MountFuse

/-!
A directory of the mounted volume and the paths in it: the file entry that
`mount_handle_get_file_entry_by_path` gets for a name that was listed is the one
that was listed, so that `mount_fuse_getattr` gives the same values for it as
`mount_fuse_readdir`.
-/

namespace FsFat.MountFuse

open MountFileSystem MountHandle MountPathString

section Listed

variable {mountHandle : MountHandle}

/-- The path in front of a name has its own end. -/
theorem endsWithName_joinPath (huna : mountHandle.una.IsUnicode) (path : List Char)
    {name : List Char} (hname : utf8.encode (escapeName name) ≠ []) :
    EndsWithName (joinPath path (utf8.encode (escapeName name)))
      (utf8.encode (escapeName name)) :=
  .name hname (separator_not_mem_escapeName huna name)

/-- A name without a separator leads to the file entry at its index. -/
theorem followPath_eq_subFileEntry {una : LibUna} {fs : FileSystem} {image : List UInt8}
    {root : Directory} {position : PathPosition} {directory : Directory}
    (hdirectory : position.getDirectory fs image root = .ok directory)
    {names : List (List Char)}
    (hnames : List.Forall₂ (DirectoryEntry.HasName una) directory.fileEntries names)
    (hdistinct : (names.map una.foldName).Nodup) {index : Nat} {entry copy : DirectoryEntry}
    (hentry : directory.fileEntries[index]? = some entry) (hcopy : entry.clone = .ok copy)
    {name : List Char} (hname : names[index]? = some name) (hne : name ≠ [])
    (hseparator : ∀ c ∈ name, isPathSeparator c = false) :
    (followPath una fs image root position (components isPathSeparator name) >>=
      PathPosition.getFileEntry fs) =
        .ok (true, .create entry.identifier (some copy) none) := by
  have hnul : ∀ c ∈ name, c.toNat ≠ 0 := by
    intro c hc hzero
    have hfalse := hseparator c hc
    simp [isPathSeparator, hzero] at hfalse
  obtain ⟨named, hfind, hnamedCopy, hidentifier⟩ := findName_of_hasName hentry hcopy hnames hname
    (foldName_ne_of_nodup hdistinct hname) hnul
  rw [components_of_forall hseparator hne, followPath_cons hne hdirectory hfind, ← hidentifier]
  have hget : (position.atEntry directory named).getFileEntry fs = .ok (true,
      .create named.identifier (some copy) none) := by
    rw [PathPosition.getFileEntry, PathPosition.atEntry]
    dsimp only
    rw [hnamedCopy]
    rfl
  exact hget

/-- What a sub file entry is made of. -/
theorem getSubFileEntryByIndex_ok {directory subFileEntry : MountFileEntry} {read : Directory}
    {index : Nat}
    (hread : directory.fileEntry.getDirectory mountHandle.fs mountHandle.image = .ok (some read))
    (h : directory.getSubFileEntryByIndex mountHandle index = .ok subFileEntry) :
    ∃ entry copy, read.fileEntries[index]? = some entry ∧ entry.clone = .ok copy ∧
      subFileEntry.fileEntry = .create entry.identifier (some copy) none ∧
      getFilenameFromFileEntry mountHandle.una (.create entry.identifier (some copy) none) =
        .ok subFileEntry.name := by
  obtain ⟨found, hfound, hrest⟩ := bind_eq_ok_iff.mp h
  obtain ⟨filename, hfilename, hsub⟩ := bind_eq_ok_iff.mp hrest
  injection hsub with hsub
  obtain ⟨read', entry, copy, hread', hindex, hcopy, hfound⟩ :=
    FileEntry.getSubFileEntryByIndex_eq_ok_iff.mp hfound
  obtain rfl : read = read' := Option.some.inj (Except.ok.inj (hread.symm.trans hread'))
  subst hsub hfound
  exact ⟨entry, copy, hindex, hcopy, rfl, hfilename⟩

/-- The path of a name that is listed leads to the file entry that is listed. -/
theorem getFileEntryByPath_listed (huna : mountHandle.una.IsUnicode)
    {path fileEntryPath : List Char} (hpath : ∀ c ∈ path, c.toNat ≠ 0)
    (hunescapes : Unescapes path fileEntryPath)
    (hend : ∀ c ∈ fileEntryPath.getLast?, isPathSeparator c = false)
    {directory : MountFileEntry}
    (hopened : mountHandle.getFileEntryByPath (utf8.encode path) = .ok (some directory))
    {read : Directory}
    (hread : directory.fileEntry.getDirectory mountHandle.fs mountHandle.image = .ok (some read))
    {names : List (List Char)}
    (hnames : List.Forall₂ (DirectoryEntry.HasName mountHandle.una.toLibUna) read.fileEntries names)
    (hdistinct : (names.map mountHandle.una.foldName).Nodup) {index : Nat}
    {subFileEntry : MountFileEntry}
    (hsub : directory.getSubFileEntryByIndex mountHandle index = .ok subFileEntry)
    {name : List Char} (hname : names[index]? = some name) (hne : name ≠ [])
    (hseparator : ∀ c ∈ name, isPathSeparator c = false)
    (hlength : (joinPath path subFileEntry.name).length ≤ ssizeMax - 1) :
    mountHandle.getFileEntryByPath (joinPath path subFileEntry.name) =
      .ok (some subFileEntry) := by
  obtain ⟨_, hfound⟩ := getFileEntryByPath_eq_ok_some_iff.mp hopened
  have hmounted : IsMountedAt mountHandle.una mountHandle.fs mountHandle.image
      mountHandle.rootDirectory path directory.fileEntry := Or.inr hfound
  obtain ⟨entry, copy, hentry, hcopy, hfileEntry, hfilename⟩ :=
    getSubFileEntryByIndex_ok hread hsub
  have hhas := DirectoryEntry.hasName_of_getElem hnames hentry hname
  have hwritten : subFileEntry.name = utf8.encode (escapeName name) :=
    getFilenameFromFileEntry_eq_ok huna hcopy hhas hne hfilename
  have hself : upToNul name = name := by
    apply upToNul_eq_self
    intro c hc hzero
    have hfalse := hseparator c hc
    simp [isPathSeparator, hzero] at hfalse
  have hnameLe := (unescapes_escapeName name).length_encode_le
  rw [hself] at hnameLe
  have hnameNe : utf8.encode (escapeName name) ≠ [] := by
    intro hnil
    rw [hnil] at hnameLe
    exact hne (utf8.encode_eq_nil_iff.mp (List.length_eq_zero_iff.mp (Nat.le_zero.mp hnameLe)))
  rw [hwritten] at hlength
  rw [getFileEntryByPath_eq_ok_some_iff, hwritten, hfileEntry]
  refine ⟨endsWithName_joinPath huna path hnameNe, ?_⟩
  have hpathLength : (utf8.encode path).length ≤ ssizeMax - 1 := by
    rw [joinPath, List.length_append] at hlength
    omega
  obtain ⟨position, hposition⟩ :=
    hmounted.exists_position huna hpath hunescapes hpathLength hread
  have hjoined : (utf8.encode (fileEntryPath ++ separatorCharacter :: name)).length ≤
      ssizeMax := by
    have hpathLe := hunescapes.length_encode_le
    have hone : (utf8.encodeSymbol separatorCharacter).length = 1 := rfl
    simp only [joinPath, List.length_append, List.length_cons] at hlength
    simp only [Encoding.encode_append, Encoding.encode_cons, List.length_append]
    omega
  rw [getFileEntryByPath_joinPath huna hpath hunescapes hmounted name hlength, hself,
    getFileEntryByUtf8Path, FsFat.getFileEntryByPath,
    hposition.resolvePath_name huna hend hne hjoined]
  exact followPath_eq_subFileEntry hposition.getDirectory hnames hdistinct hentry hcopy hname hne
    hseparator

/-- The values that are listed with a name are those of its path, for a name without a separator
in a directory whose path does not end with one. -/
theorem getattr_of_listed (huna : mountHandle.una.IsUnicode)
    {path fileEntryPath : List Char} (hpath : ∀ c ∈ path, c.toNat ≠ 0)
    (hunescapes : Unescapes path fileEntryPath)
    (hend : ∀ c ∈ fileEntryPath.getLast?, isPathSeparator c = false)
    {directory : MountFileEntry}
    (hopened : mountHandle.getFileEntryByPath (utf8.encode path) = .ok (some directory))
    {read : Directory}
    (hread : directory.fileEntry.getDirectory mountHandle.fs mountHandle.image = .ok (some read))
    {names : List (List Char)}
    (hnames : List.Forall₂ (DirectoryEntry.HasName mountHandle.una.toLibUna) read.fileEntries names)
    (hdistinct : (names.map mountHandle.una.foldName).Nodup) {isFilled : Nat → Bool} {index : Nat}
    {filename : List UInt8} {statInfo : StatInfo}
    (hlisted : (readdir mountHandle isFilled directory).1[index + 2]? = some (filename, statInfo))
    {name : List Char} (hname : names[index]? = some name) (hne : name ≠ [])
    (hseparator : ∀ c ∈ name, isPathSeparator c = false)
    (hlength : (joinPath path filename).length ≤ ssizeMax - 1) :
    getattr mountHandle (joinPath path filename) = .ok statInfo := by
  obtain ⟨hlists, _⟩ := readdir_spec mountHandle isFilled directory
  obtain ⟨subFileEntry, hsub, hfill⟩ := bind_eq_ok_iff.mp (hlists.calls _ _ hlisted).2
  obtain ⟨values, hvalues, hcall⟩ := bind_eq_ok_iff.mp hfill
  injection hcall with hcall
  injection hcall with hfilename hstatInfo
  subst hfilename hstatInfo
  have hfound := getFileEntryByPath_listed huna hpath hunescapes hend hopened hread hnames
    hdistinct hsub hname hne hseparator hlength
  have hvalues : fileEntryStatInfo mountHandle subFileEntry = .ok values := hvalues
  rw [getattr, hfound]
  dsimp only
  rw [hvalues]

end Listed

/-- The volume that has names with a separator, mounted. -/
def separatorNamesHandle (fs : FileSystem) (root : Directory) : MountHandle :=
  ⟨wellFormedMountLibUna, fs, separatorNamesImage, root, 0⟩

/-- The directory `D` of it. -/
def separatorNamesMounted : MountFileEntry := ⟨[0x44], separatorNamesFileEntry⟩

/-- The file whose name has a slash. -/
def slashNameMounted : MountFileEntry :=
  ⟨[0x41, 0x5c, 0x78, 0x32, 0x66, 0x42], separatorNamesFile 1536 [0x41, 0x2f, 0x42, 0]⟩

/-- What is listed for it. -/
def slashNameCall (fs : FileSystem) (root : Directory) : FillerCall :=
  (slashNameMounted.name,
    statInfoOf (separatorNamesHandle fs root)
      { separatorNamesEntry 1536 with name := some [0x41, 0x2f, 0x42, 0], nameSize := 4 }
      slashNameMounted.fileEntry.getSize)

theorem getSubFileEntryByIndex_mounted {mountHandle : MountHandle} {directory : MountFileEntry}
    {index : Nat} {subFileEntry : FileEntry} {filename : List UInt8}
    (hsub : directory.fileEntry.getSubFileEntryByIndex mountHandle.fs mountHandle.image index =
      .ok subFileEntry)
    (hfilename : getFilenameFromFileEntry mountHandle.una subFileEntry = .ok filename) :
    directory.getSubFileEntryByIndex mountHandle index = .ok ⟨filename, subFileEntry⟩ := by
  rw [MountFileEntry.getSubFileEntryByIndex, hsub]
  simp only [bind, Except.bind, hfilename]
  rfl

theorem readdir_separatorNames {fs : FileSystem} {root : Directory}
    (h : separatorNamesFileEntry.getDirectory fs separatorNamesImage =
      .ok (some separatorNamesDirectory)) :
    (readdir (separatorNamesHandle fs root) (fun _ => true) separatorNamesMounted).1[0 + 2]? =
      some (slashNameCall fs root) := by
  obtain ⟨hfirst, hsecond⟩ := getSubFileEntryByIndex_separatorNames h
  have hfilenames : getFilenameFromFileEntry wellFormedMountLibUna slashNameMounted.fileEntry =
        .ok slashNameMounted.name ∧
      getFilenameFromFileEntry wellFormedMountLibUna
        (separatorNamesFile 1568 [0x41, 0x5c, 0x42, 0]) = .ok [0x41, 0x5c, 0x5c, 0x42] := by
    decide +kernel
  have hslash : separatorNamesMounted.getSubFileEntryByIndex (separatorNamesHandle fs root) 0 =
      .ok slashNameMounted := getSubFileEntryByIndex_mounted hfirst hfilenames.1
  have hbackslash : separatorNamesMounted.getSubFileEntryByIndex (separatorNamesHandle fs root) 1 =
      .ok ⟨[0x41, 0x5c, 0x5c, 0x42], separatorNamesFile 1568 [0x41, 0x5c, 0x42, 0]⟩ :=
    getSubFileEntryByIndex_mounted hsecond hfilenames.2
  have hlistable : IsListable (separatorNamesHandle fs root) separatorNamesMounted 2 := by
    refine ⟨Option.some_ne_none _, by decide +kernel, ?_, ?_⟩
    · rw [MountFileEntry.getNumberOfSubFileEntries, FileEntry.getNumberOfSubFileEntries]
      exact congrArg (Except.map _) h
    · intro index hindex
      rcases Nat.le_one_iff_eq_zero_or_eq_one.mp (Nat.le_of_lt_succ hindex) with rfl | rfl
      · exact ⟨_, hslash, by decide +kernel⟩
      · exact ⟨_, hbackslash, by decide +kernel⟩
  have hlists := (readdir_spec (separatorNamesHandle fs root) (fun _ => true)
    separatorNamesMounted).1
  have hlength : (readdir (separatorNamesHandle fs root) (fun _ => true)
      separatorNamesMounted).1.length = 2 + 2 := (hlistable.readdir_ok fun _ _ => rfl).2
  have hlt : 0 + 2 < (readdir (separatorNamesHandle fs root) (fun _ => true)
      separatorNamesMounted).1.length := by omega
  have hcall := (hlists.calls _ _ (List.getElem?_eq_getElem hlt)).2
  rw [fillerCall, hslash] at hcall
  rw [List.getElem?_eq_getElem hlt]
  have hvalue : filldir (separatorNamesHandle fs root) true slashNameMounted.name
      (some slashNameMounted) = .ok (slashNameCall fs root) := by
    rcases fileEntryStatInfo_cases (separatorNamesHandle fs root) slashNameMounted with
      ⟨hnone | hlarge, _⟩ | ⟨entry, hentry, _, hok⟩
    · cases hnone
    · exact absurd hlarge (by decide +kernel)
    · have hsome : slashNameMounted.fileEntry.directoryEntry =
          some { separatorNamesEntry 1536 with
            name := some [0x41, 0x2f, 0x42, 0], nameSize := 4 } := rfl
      rw [hsome] at hentry
      rw [filldir, filldirStatInfo, hok, ← Option.some.inj hentry]
      rfl
  simp only [bind, Except.bind] at hcall
  rw [hvalue] at hcall
  rw [← Except.ok.inj hcall]

/-- The name with a slash, in the directory `D`. -/
theorem getattr_of_listed_slash :
    ∃ opened fs root,
      Volume.openFileIOHandle separatorNamesEnvironment accessFlagRead .create = (.ok (), opened) ∧
      opened.fileSystem = some ⟨some fs, some root⟩ ∧
      getattr (separatorNamesHandle fs root)
          (joinPath separatorNamesPath [0x41, 0x5c, 0x78, 0x32, 0x66, 0x42]) =
        .ok (slashNameCall fs root).2 := by
  obtain ⟨opened, fs, root, hopen, hfs, hmounted, hdirectory, _⟩ := open_separatorNames
  refine ⟨opened, fs, root, hopen, hfs, ?_⟩
  have hopened : (separatorNamesHandle fs root).getFileEntryByPath
      (utf8.encode separatorNamesPath) = .ok (some separatorNamesMounted) := by
    rw [getFileEntryByPath_eq_ok_some_iff]
    have hends : EndsWithName ([] ++ separatorByte :: [0x44]) [0x44] :=
      .name (by decide) (by decide)
    exact ⟨hends, hmounted⟩
  have hpath : ∀ c ∈ separatorNamesPath, c.toNat ≠ 0 := by
    have hall : separatorNamesPath.all (fun c => c.toNat ≠ 0) = true := by decide
    simpa using hall
  have hend : ∀ c ∈ [separatorCharacter, Char.ofNat 0x44].getLast?, isPathSeparator c = false := by
    intro c hc
    obtain rfl : Char.ofNat 0x44 = c := Option.some.inj hc
    rfl
  have hname : ∀ c ∈ ascii [0x41, 0x2f, 0x42], isPathSeparator c = false := by
    have hall : (ascii [0x41, 0x2f, 0x42]).all (fun c => !isPathSeparator c) = true := by decide
    simpa using hall
  have hdistinct : (separatorNames.map wellFormedLibUna.foldName).Nodup := by decide
  exact getattr_of_listed isUnicode_wellFormedMountLibUna hpath unescapes_separatorNamesPath hend
    hopened hdirectory hasName_separatorNames hdistinct (readdir_separatorNames hdirectory) rfl
    (by decide) hname (by decide)

end FsFat.MountFuse
