import FsFat.BodyFileHierarchy

/-!
A file entry that the information tool is asked for by its path: `info_handle.c`, with a body file.
What the hierarchy prints as the path of a file entry is looked up as that file entry, if it is the
first one with its name in its directory, and so are the directories above it.
-/

namespace FsFat.InfoTool

open InfoHandle MountPathString

variable {σ κ : Type}

/-- What is printed in front of the path. -/
def fileEntryHeader : List Char :=
  "File Allocation Table (FAT) file system information:\n\nFile entry:\n\tPath\t\t\t: ".toList

/-- The handle while a file entry is printed. -/
def ofPath (tool : InfoTool σ κ) : InfoTool σ κ :=
  { tool with
    infoHandle := { tool.infoHandle with fileSystemFormat := tool.fs.ioHandle.fileSystemFormat } }

/-- `info_handle_file_entry_fprint_by_path` with a body file: what is printed in the notify stream
and in the body file, and the result. -/
def fileEntryFprintByPath (tool : InfoTool σ κ) (path : List UInt8) :
    List UInt8 × List UInt8 × Except Error Unit :=
  match getFileEntryByUtf8Path tool.una.toLibUna tool.fs tool.image tool.rootDirectory path with
  | .error e => ([], [], .error e)
  | .ok (false, _) => ([], [], .error .getFailed)
  | .ok (true, fileEntry) =>
    match nameValueFprint tool.infoUna path with
    | .error e => (utf8.encode fileEntryHeader, [], .error e)
    | .ok printedPath =>
      let notify := utf8.encode fileEntryHeader ++ printedPath ++ utf8.encode ['\n']
      match fileEntryValueWithNameFprint tool.infoUna (tool.calls fileEntry) tool.ofPath.infoHandle
          fileEntry (some path) none with
      | (printed, .error e) => (notify, printed, .error e)
      | (printed, .ok ()) => (notify ++ utf8.encode ['\n'], printed, .ok ())

/-! ### Names that lead to a file entry -/

/-- A sub file entry is the first one with its name, which can be a component of a path. -/
structure IsFirstNamed (tool : InfoTool σ κ) (fileEntry : FileEntry) (index : Nat)
    (name : List Char) (subFileEntry : FileEntry) : Prop where
  sub : fileEntry.getSubFileEntryByIndex tool.fs tool.image index = .ok subFileEntry
  first : ∃ directory names, fileEntry.getDirectory tool.fs tool.image = .ok (some directory) ∧
    List.Forall₂ (DirectoryEntry.HasName tool.una.toLibUna) directory.fileEntries names ∧
    names[index]? = some name ∧ ∀ earlier < index, ∀ other, names[earlier]? = some other →
      tool.una.foldName other ≠ tool.una.foldName name
  nonempty : name ≠ []
  component : ∀ c ∈ name, isPathSeparator c = false

/-- The indices lead to a file entry, and the names do. -/
inductive NamedPlace (tool : InfoTool σ κ) :
    FileEntry → List Nat → List (List Char) → FileEntry → Prop
  | here (fileEntry : FileEntry) : NamedPlace tool fileEntry [] [] fileEntry
  | step {fileEntry subFileEntry last : FileEntry} {index : Nat} {indices : List Nat}
      {name : List Char} {names : List (List Char)} :
      tool.IsFirstNamed fileEntry index name subFileEntry →
      NamedPlace tool subFileEntry indices names last →
      NamedPlace tool fileEntry (index :: indices) (name :: names) last

/-- The path of names, each behind a separator. -/
def pathOf (names : List (List Char)) : List Char :=
  names.flatMap fun name => separatorCharacter :: name

section Place

variable {tool : InfoTool σ κ}

theorem IsFirstNamed.toNat_ne_zero {fileEntry subFileEntry : FileEntry} {index : Nat}
    {name : List Char} (h : tool.IsFirstNamed fileEntry index name subFileEntry) :
    ∀ c ∈ name, c.toNat ≠ 0 := by
  intro c hc hzero
  have hfalse := h.component c hc
  simp [isPathSeparator, hzero] at hfalse

/-- Its name is printed as it is. -/
theorem IsFirstNamed.fileEntryName (huna : tool.una.IsUnicode) (hstrings : tool.una.WritesStrings)
    {fileEntry subFileEntry : FileEntry} {index : Nat} {name : List Char}
    (h : tool.IsFirstNamed fileEntry index name subFileEntry) :
    tool.fileEntryName subFileEntry = .ok (some (utf8.encode name)) := by
  obtain ⟨directory, names, hdirectory, hnames, hname, _⟩ := h.first
  obtain ⟨read, entry, copy, hread, hentry, hcopy, hsub⟩ :=
    FileEntry.getSubFileEntryByIndex_eq_ok_iff.mp h.sub
  obtain rfl : directory = read := Option.some.inj (Except.ok.inj (hdirectory.symm.trans hread))
  obtain ⟨string, hstring, hget⟩ := MountFileSystem.getUtf8Name_of_hasName huna hcopy
    (DirectoryEntry.hasName_of_getElem hnames hentry hname) h.nonempty entry.identifier
  rw [← hsub] at hget
  have hprinted : tool.fileEntryName subFileEntry = .ok (some (utf8.encode string)) := by
    simp only [InfoTool.fileEntryName, hget, bind, Except.bind, List.dropLast_concat]
    exact if_pos (by simp)
  obtain ⟨s, hs, hnul⟩ := exists_encode_of_fileEntryName hstrings hprinted
  cases s with
  | none => cases hs
  | some s =>
    obtain rfl : string = s := huna.reads.encode_injective (fun _ _ => Char.toNat_inj.mp)
      (Option.some.inj hs)
    have hself : upToNul string = string := MountFileSystem.upToNul_eq_self hnul
    rw [hself, MountFileSystem.upToNul_eq_self h.toNat_ne_zero] at hstring
    rw [hprinted, hstring]

/-- The place is in the tree, below a node whose path is in front of the names. -/
theorem NamedPlace.exists_place (huna : tool.una.IsUnicode) (hstrings : tool.una.WritesStrings)
    {fileEntry last : FileEntry} {indices : List Nat} {names : List (List Char)}
    (h : tool.NamedPlace fileEntry indices names last) (hnames : names ≠ []) {path : List UInt8}
    {fileEntryName : Option (List UInt8)} (hname : tool.fileEntryName fileEntry = .ok fileEntryName)
    {above : List Char}
    (hpath : subPath path fileEntryName = utf8.encode (above ++ [separatorCharacter])) :
    ∃ before name, tool.tree.Place (path, fileEntry) indices (utf8.encode before, last) ∧
      tool.fileEntryName last = .ok (some (utf8.encode name)) ∧
      before ++ name = above ++ pathOf names := by
  induction h generalizing path fileEntryName above with
  | here => exact absurd rfl hnames
  | @step fileEntry subFileEntry last index indices name names hfirst hrest ih =>
    obtain ⟨directory, _, hdirectory, hhas, hindex, _⟩ := hfirst.first
    have hnumber : fileEntry.getNumberOfSubFileEntries tool.fs tool.image =
        .ok directory.fileEntries.length := by
      rw [FileEntry.getNumberOfSubFileEntries, hdirectory]
      rfl
    have hchild : tool.tree.child (path, fileEntry) index =
        .ok (utf8.encode (above ++ [separatorCharacter]), subFileEntry) :=
      child_eq_ok_iff.mpr ⟨fileEntryName, hname, hfirst.sub, hpath.symm⟩
    have hlt := lt_of_getSubFileEntryByIndex hnumber hfirst.sub
    have hsubName := hfirst.fileEntryName huna hstrings
    cases hrest with
    | here =>
      refine ⟨above ++ [separatorCharacter], name, .step hnumber hlt hchild (.here _), hsubName, ?_⟩
      simp [pathOf]
    | step hnext hrest =>
      have hsubPath : subPath (utf8.encode (above ++ [separatorCharacter]))
          (some (utf8.encode name)) =
            utf8.encode ((above ++ separatorCharacter :: name) ++ [separatorCharacter]) := by
        simp only [subPath, Encoding.encode_append, Encoding.encode_cons, Encoding.encode_nil,
          List.append_assoc, List.append_nil]
        rfl
      obtain ⟨before, last, hplace, hlast, hsplit⟩ :=
        ih (List.cons_ne_nil _ _) hsubName hsubPath
      refine ⟨before, last, .step hnumber hlt hchild hplace, hlast, ?_⟩
      rw [hsplit]
      simp [pathOf]

/-- From the directory of a file entry its names are followed to the last file entry. -/
theorem NamedPlace.followPath {root : Directory} {fileEntry last : FileEntry} {indices : List Nat}
    {names : List (List Char)} (h : tool.NamedPlace fileEntry indices names last)
    (hnames : names ≠ []) {position : PathPosition}
    (hposition : ∀ directory, fileEntry.getDirectory tool.fs tool.image = .ok (some directory) →
      position.getDirectory tool.fs tool.image root = .ok directory) :
    (FsFat.followPath tool.una.toLibUna tool.fs tool.image root position names >>=
      PathPosition.getFileEntry tool.fs) = .ok (true, last) := by
  induction h generalizing position with
  | here => exact absurd rfl hnames
  | @step fileEntry subFileEntry last index indices name names hfirst hrest ih =>
    obtain ⟨directory, siblings, hdirectory, hhas, hname, hbefore⟩ := hfirst.first
    obtain ⟨read, entry, copy, hread, hentry, hcopy, hsub⟩ :=
      FileEntry.getSubFileEntryByIndex_eq_ok_iff.mp hfirst.sub
    obtain rfl : directory = read := Option.some.inj (Except.ok.inj (hdirectory.symm.trans hread))
    obtain ⟨named, hfind, hnamedCopy, hidentifier⟩ :=
      findName_of_hasName hentry hcopy hhas hname hbefore hfirst.toNat_ne_zero
    rw [followPath_cons hfirst.nonempty (hposition directory hdirectory) hfind]
    cases hrest with
    | here =>
      have hget : (position.atEntry directory named).getFileEntry tool.fs =
          .ok (true, subFileEntry) := by
        rw [PathPosition.getFileEntry, PathPosition.atEntry]
        dsimp only
        rw [hnamedCopy, hsub, ← hidentifier]
        rfl
      exact hget
    | step hnext hrest =>
      apply ih (List.cons_ne_nil _ _)
      intro subDirectory hsubDirectory
      rw [hsub] at hsubDirectory
      have hcluster : copy.dataStartCluster = named.dataStartCluster :=
        (DirectoryEntry.sameEntry_of_clone hnamedCopy).2.1
      rw [PathPosition.getDirectory, PathPosition.atEntry, ← hcluster]
      exact readDirectory_of_getDirectory hsubDirectory

theorem NamedPlace.forall_component {fileEntry last : FileEntry} {indices : List Nat}
    {names : List (List Char)} (h : tool.NamedPlace fileEntry indices names last) :
    ∀ name ∈ names, name ≠ [] ∧ ∀ c ∈ name, isPathSeparator c = false := by
  induction h with
  | here => simp
  | step hfirst _ ih => exact List.forall_mem_cons.mpr ⟨⟨hfirst.nonempty, hfirst.component⟩, ih⟩

/-- The components of a path are its names. -/
theorem components_pathOf {name : List Char} {names : List (List Char)}
    (h : ∀ other ∈ name :: names, other ≠ [] ∧ ∀ c ∈ other, isPathSeparator c = false) :
    components isPathSeparator (name ++ pathOf names) = name :: names := by
  induction names generalizing name with
  | nil =>
    obtain ⟨hne, hcomponent⟩ := h name List.mem_cons_self
    have hnil : pathOf [] = [] := rfl
    rw [hnil, List.append_nil, components_of_forall hcomponent hne]
  | cons next names ih =>
    obtain ⟨⟨_, hcomponent⟩, hrest⟩ := List.forall_mem_cons.mp h
    have hcons : pathOf (next :: names) = separatorCharacter :: (next ++ pathOf names) := rfl
    rw [hcons, components_append_cons hcomponent isPathSeparator_separatorCharacter, ih hrest]

/-- The path of its names leads from the root directory to a file entry. -/
theorem NamedPlace.getFileEntryByPath (huna : tool.una.IsUnicode) {last : FileEntry}
    {indices : List Nat} {names : List (List Char)}
    (h : tool.NamedPlace (getRootDirectory tool.fs tool.rootDirectory) indices names last)
    (hnames : names ≠ []) (hlength : (utf8.encode (pathOf names)).length ≤ ssizeMax) :
    getFileEntryByUtf8Path tool.una.toLibUna tool.fs tool.image tool.rootDirectory
      (utf8.encode (pathOf names)) = .ok (true, last) := by
  obtain ⟨name, names, rfl⟩ := List.exists_cons_of_ne_nil hnames
  have hcons : pathOf (name :: names) = separatorCharacter :: (name ++ pathOf names) := rfl
  have hcomponents := h.forall_component
  have hne : name ++ pathOf names ≠ [] := by
    intro hnil
    exact (hcomponents name List.mem_cons_self).1 (List.append_eq_nil_iff.mp hnil).1
  rw [hcons] at hlength ⊢
  rw [getFileEntryByUtf8Path, FsFat.getFileEntryByPath,
    resolvePath_separator_cons (isStringEncoding_utf8 huna.reads) hne hlength,
    components_pathOf hcomponents]
  apply h.followPath hnames
  intro directory hdirectory
  injection hdirectory with hdirectory
  injection hdirectory with hdirectory
  exact congrArg Except.ok hdirectory

end Place

section Slash

open MountFileSystem

/-- The names that lead to the file whose name has a slash. -/
def slashNames : List (List Char) := [ascii [0x44], ascii [0x41, 0x2f, 0x42]]

theorem hasName_directoryAtRoot :
    List.Forall₂ (DirectoryEntry.HasName wellFormedLibUna) [separatorNamesEntry 1024]
      [ascii [0x44]] := by
  refine .cons ?_ .nil
  refine ⟨{ separatorNamesEntry 1024 with name := some [0x44, 0], nameSize := 2 }, [0x44, 0],
    by decide +kernel, rfl, by decide, by decide, ?_⟩
  exact .cons (by decide) rfl (.nil (by decide))

theorem namedPlace_slash {fs : FileSystem} {root : Directory}
    (hentries : root.fileEntries = [separatorNamesEntry 1024])
    (hsub : (getRootDirectory fs root).getSubFileEntryByIndex fs separatorNamesImage 0 =
      .ok separatorNamesFileEntry)
    (hdirectory : separatorNamesFileEntry.getDirectory fs separatorNamesImage =
      .ok (some separatorNamesDirectory)) :
    (separatorNamesTool fs root).NamedPlace (getRootDirectory fs root) [0, 0] slashNames
      (separatorNamesFile 1536 [0x41, 0x2f, 0x42, 0]) := by
  have hcomponent : ∀ name ∈ slashNames, name ≠ [] ∧ ∀ c ∈ name, isPathSeparator c = false := by
    have hall : slashNames.all (fun name => !name.isEmpty && name.all fun c => !isPathSeparator c) =
        true := by decide
    simpa using hall
  obtain ⟨⟨hneFirst, hfirst⟩, ⟨hneSecond, hsecond⟩, _⟩ := by
    simpa only [slashNames, List.forall_mem_cons] using hcomponent
  have hdirectoryNamed : (separatorNamesTool fs root).IsFirstNamed (getRootDirectory fs root) 0
      (ascii [0x44]) separatorNamesFileEntry := by
    refine ⟨hsub, ⟨root, [ascii [0x44]], rfl, ?_, rfl, by simp⟩, hneFirst, hfirst⟩
    rw [hentries]
    exact hasName_directoryAtRoot
  refine .step hdirectoryNamed (.step ?_ (.here _))
  exact ⟨(getSubFileEntryByIndex_separatorNames hdirectory).1,
    ⟨separatorNamesDirectory, separatorNames, hdirectory, hasName_separatorNames, rfl, by simp⟩,
    hneSecond, hsecond⟩

end Slash

end FsFat.InfoTool
