import FsFat.InfoHierarchy

/-!
The lines of the hierarchy in the body file. A reader who cuts the body file at the ends of its
lines gets the lines of the file entries, because an end of line in a name is written as an escape
sequence.
-/

namespace FsFat

open MountPathString

/-- The strings that libuna writes end with their only end of string character. -/
structure MountLibUna.WritesStrings (una : MountLibUna) : Prop where
  string : ∀ (isUnicode : Bool) (name string : List UInt8),
    una.utf8String isUnicode name = .ok string →
      ∃ s : List Char, (∀ c ∈ s, c.toNat ≠ 0) ∧ string = utf8.encode s ++ [0]

namespace InfoTool

open InfoHandle

variable {σ κ : Type}

/-- A text is the lines of the body file. -/
def lines (lines : List (List Char)) : List Char := lines.flatMap fun line => line ++ ['\n']

/-- A text that consists of lines is cut at their ends. -/
theorem splitOn_lines {texts : List (List Char)} (h : ∀ line ∈ texts, '\n' ∉ line) :
    (lines texts).splitOn '\n' = texts ++ [[]] := by
  induction texts with
  | nil => rfl
  | cons line texts ih =>
    obtain ⟨hline, hrest⟩ := List.forall_mem_cons.mp h
    rw [lines, List.flatMap_cons, List.append_assoc, List.singleton_append,
      List.splitOn_append_cons_self_of_not_mem hline, List.cons_append]
    exact congrArg _ (ih hrest)

section Lines

variable {tool : InfoTool σ κ}

theorem isUnicode_infoUna (huna : tool.una.IsUnicode) : tool.infoUna.IsUnicode :=
  ⟨huna.reads, huna.writes⟩

/-- A name is in UTF-8, and has no end of string character. -/
theorem exists_encode_of_fileEntryName (hstrings : tool.una.WritesStrings) {fileEntry : FileEntry}
    {name : Option (List UInt8)} (h : tool.fileEntryName fileEntry = .ok name) :
    ∃ s : Option (List Char), name = s.map utf8.encode ∧ ∀ c ∈ s.getD [], c.toNat ≠ 0 := by
  obtain ⟨found, hfound, h⟩ := bind_eq_ok_iff.mp h
  unfold FileEntry.getUtf8Name at hfound
  split at hfound
  · injection hfound with hfound
    subst hfound
    injection h with h
    exact ⟨none, h.symm, by simp⟩
  · next entry _ =>
    obtain ⟨string, hstring, rfl⟩ := map_eq_ok_iff.mp hfound
    obtain ⟨named, _, hstring⟩ := bind_eq_ok_iff.mp hstring
    split at hstring
    · cases hstring
    · obtain ⟨s, hnul, rfl⟩ := hstrings.string _ _ _ hstring
      refine ⟨some s, ?_, hnul⟩
      simpa [pure, Except.pure] using h.symm

variable (tool) in
/-- The paths of the tree are in UTF-8. -/
theorem exists_encode_of_place (hstrings : tool.una.WritesStrings)
    {node last : List UInt8 × FileEntry} {indices : List Nat}
    (hplace : tool.tree.Place node indices last) (hnode : ∃ s, node.1 = utf8.encode s) :
    ∃ s, last.1 = utf8.encode s := by
  induction hplace with
  | here => exact hnode
  | step _ _ hchild _ ih =>
    obtain ⟨name, hname, -, hpath⟩ := child_eq_ok_iff.mp hchild
    obtain ⟨s, hs, -⟩ := exists_encode_of_fileEntryName hstrings hname
    obtain ⟨path, hbefore⟩ := hnode
    apply ih
    rw [hpath, hs, hbefore]
    cases s with
    | none => exact ⟨path, rfl⟩
    | some s =>
      refine ⟨path ++ s ++ [separatorCharacter], ?_⟩
      simp only [Option.map_some, subPath, Encoding.encode_append]
      rfl

/-- The line of a file entry in the body file, with its path as the name. -/
def IsLineOf (tool : InfoTool σ κ) (node : List UInt8 × FileEntry) (line : List Char) : Prop :=
  ∃ md5 fileEntryName name, tool.infoHandle.md5String (tool.calls node.2) node.2 = .ok md5 ∧
    tool.fileEntryName node.2 = .ok fileEntryName ∧
    node.1 ++ fileEntryName.getD [] = utf8.encode name ∧
    line = lineOf tool.infoHandle node.2 md5 name

theorem IsLineOf.newline_not_mem {node : List UInt8 × FileEntry} {line : List Char}
    (h : IsLineOf tool node line) : '\n' ∉ line := by
  obtain ⟨md5, _, name, hmd5, _, _, rfl⟩ := h
  exact newline_not_mem_lineOf _ _ (isField_md5String hmd5) name

/-- With a body file, the line of a file entry is printed for it. -/
theorem exists_line_of_write (huna : tool.una.IsUnicode) (hstrings : tool.una.WritesStrings)
    (hbodyFile : tool.hasBodyFile = true) {node : List UInt8 × FileEntry} {path : List Char}
    (hpath : node.1 = utf8.encode path) (h : (tool.write node).2 = .ok ()) :
    ∃ line, IsLineOf tool node line ∧ (tool.write node).1 = utf8.encode (line ++ ['\n']) := by
  obtain ⟨fileEntryName, hname⟩ := exists_name_of_write h
  obtain ⟨name, rfl, _⟩ := exists_encode_of_fileEntryName hstrings hname
  have hinfo := isUnicode_infoUna huna
  have hwrite : tool.write node = fileEntryValueWithNameFprint tool.infoUna (tool.calls node.2)
      tool.infoHandle node.2 ((some path).map utf8.encode) (name.map utf8.encode) := by
    unfold write at h ⊢
    split_ifs at h ⊢
    simp only [hname, fileEntryFprint, if_pos hbodyFile, hpath, Option.map_some]
  rw [hwrite] at h ⊢
  cases hmd5 : tool.infoHandle.md5String (tool.calls node.2) node.2 with
  | error e =>
    rw [fileEntryValueWithNameFprint_of_error _ _ _ hmd5] at h
    cases h
  | ok md5 =>
    obtain ⟨hshort, hshortName⟩ :=
      isShort_of_fileEntryValueWithNameFprint _ _ _ hinfo hmd5 h
    refine ⟨lineOf tool.infoHandle node.2 md5 (path ++ name.getD []), ?_, ?_⟩
    · refine ⟨md5, _, _, hmd5, hname, ?_, rfl⟩
      rw [hpath, Encoding.encode_append]
      cases name <;> rfl
    · rw [fileEntryValueWithNameFprint_encode _ _ _ hinfo hmd5 hshort hshortName]
      rfl

variable (tool) in
/-- What is printed at places is their lines. -/
theorem exists_lines_of_text (huna : tool.una.IsUnicode) (hstrings : tool.una.WritesStrings)
    (hbodyFile : tool.hasBodyFile = true) {places : List (List Nat × (List UInt8 × FileEntry))}
    (hpaths : ∀ place ∈ places, ∃ path, place.2.1 = utf8.encode path)
    (h : ∀ place ∈ places, (tool.write place.2).2 = .ok ()) :
    ∃ texts, List.Forall₂ (fun place line => IsLineOf tool place.2 line) places texts ∧
      (∀ line ∈ texts, '\n' ∉ line) ∧ Tree.text tool.write places = utf8.encode (lines texts) := by
  induction places with
  | nil => exact ⟨[], .nil, by simp, rfl⟩
  | cons place places ih =>
    obtain ⟨⟨path, hpath⟩, hpaths⟩ := List.forall_mem_cons.mp hpaths
    obtain ⟨hwrite, hrest⟩ := List.forall_mem_cons.mp h
    obtain ⟨texts, htexts, hnewlines, htext⟩ := ih hpaths hrest
    obtain ⟨line, hline, hprinted⟩ := exists_line_of_write huna hstrings hbodyFile hpath hwrite
    refine ⟨line :: texts, .cons hline htexts,
      List.forall_mem_cons.mpr ⟨hline.newline_not_mem, hnewlines⟩, ?_⟩
    have hplaces : Tree.text tool.write (place :: places) =
        (tool.write place.2).1 ++ Tree.text tool.write places := List.flatMap_cons
    have hlines : lines (line :: texts) = line ++ ['\n'] ++ lines texts := List.flatMap_cons
    rw [hplaces, hprinted, htext, hlines, Encoding.encode_append _ (line ++ ['\n'])]

/-- In a body file there is nothing but the lines. -/
theorem fileSystemHierarchyFprint_of_body_file (hbodyFile : tool.hasBodyFile = true) (depth : Nat) :
    tool.fileSystemHierarchyFprint depth =
      tool.ofHierarchy.tree.traverse tool.ofHierarchy.write depth tool.root := by
  have hroot := hierarchyFprintFileEntry_eq tool.ofHierarchy depth [UInt8.ofNat separator]
    (getRootDirectory tool.fs tool.rootDirectory)
  simp only [fileSystemHierarchyFprint, hroot, hbodyFile, if_true, List.nil_append,
    List.append_nil]
  rw [root]
  rcases tool.ofHierarchy.tree.traverse tool.ofHierarchy.write depth
    ([UInt8.ofNat separator], getRootDirectory tool.fs tool.rootDirectory) with
    _ | ⟨written, e | _⟩ <;> rfl

end Lines

/-- The body file of a volume has one line for each file entry of the tree, in preorder, whatever
characters are in the names: cut at the ends of its lines it is the lines of the file entries. -/
theorem body_file_lines_are_file_entries (tool : InfoTool σ κ) (huna : tool.una.IsUnicode)
    (hstrings : tool.una.WritesStrings) (hbodyFile : tool.hasBodyFile = true) {depth : Nat}
    {printed : List UInt8}
    (h : tool.fileSystemHierarchyFprint depth = some (printed, .ok ())) :
    ∃ places texts text,
      Tree.Visits (tool.tree.Place tool.root) places (.ok () : Except Error Unit) ∧
      List.Forall₂ (fun place line => IsLineOf tool.ofHierarchy place.2 line) places texts ∧
      printed = utf8.encode text ∧ text.splitOn '\n' = texts ++ [[]] := by
  rw [fileSystemHierarchyFprint_of_body_file hbodyFile] at h
  obtain ⟨_, hknown⟩ := Tree.traverse_ok_iff.mp ⟨depth, printed, h⟩
  obtain ⟨places, hplaces, rfl⟩ := Tree.traverse_visits h
  have hpaths : ∀ place ∈ places, ∃ path, place.2.1 = utf8.encode path := by
    intro place hplace
    exact exists_encode_of_place tool.ofHierarchy hstrings (hplaces.isPlace place hplace)
      ⟨[separatorCharacter], rfl⟩
  obtain ⟨texts, htexts, hnewlines, htext⟩ := exists_lines_of_text tool.ofHierarchy huna hstrings
    hbodyFile hpaths fun place hplace => (hknown _ _ (hplaces.isPlace place hplace)).written
  exact ⟨places, texts, lines texts, hplaces, htexts, htext, splitOn_lines hnewlines⟩

/-! ### A volume with a directory -/

/-- libuna on well-formed strings, which end at their first end of string character. -/
def stringMountLibUna : MountLibUna where
  toLibUna := wellFormedLibUna
  copyToUtf8 := wellFormedMountLibUna.copyToUtf8
  utf8StringFromUtf16Stream name :=
    .ok (utf8.encode (upToNul (decodeUtf16 (utf16Units (Name.withoutTerminator true name)))) ++ [0])
  utf8StringFromByteStream name :=
    .ok (utf8.encode (upToNul ((Name.withoutTerminator false name).map byteCharacter)) ++ [0])

theorem isUnicode_stringMountLibUna : stringMountLibUna.IsUnicode := by
  refine ⟨isUnicode_wellFormedMountLibUna.reads, isUnicode_wellFormedMountLibUna.writes, ?_⟩
  intro isUnicode name s _ _ h
  have hself : upToNul (upToNul s) = upToNul s :=
    MountFileSystem.upToNul_eq_self fun c hc => toNat_of_mem_upToNul hc
  refine ⟨upToNul s, hself, ?_⟩
  cases isUnicode with
  | true => rw [← decodeUtf16_of_readsFrom h]; rfl
  | false => rw [← map_byteCharacter_of_readsFrom h]; rfl

theorem writesStrings_stringMountLibUna : stringMountLibUna.WritesStrings := by
  constructor
  intro isUnicode name string h
  cases isUnicode with
  | true =>
    injection h with h
    exact ⟨_, fun c hc => toNat_of_mem_upToNul hc, h.symm⟩
  | false =>
    injection h with h
    exact ⟨_, fun c hc => toNat_of_mem_upToNul hc, h.symm⟩

/-- The tool with a body file, on the volume that has names with a separator. -/
def separatorNamesTool (fs : FileSystem) (root : Directory) : InfoTool Unit Unit where
  una := stringMountLibUna
  calls _ := noMd5Calls
  fs := fs
  image := MountFileSystem.separatorNamesImage
  rootDirectory := root
  infoHandle := plainInfoHandle
  hasBodyFile := true

/-- What is read in this volume when it is open. -/
theorem exists_of_separatorNames {α : Type} {read : FileSystem → Directory → α} {value : α}
    (h : ((Volume.openFileIOHandle MountFileSystem.separatorNamesEnvironment accessFlagRead
      .create).2.fileSystem.bind fun fileSystem => fileSystem.tables.bind fun fs =>
        fileSystem.rootDirectory.map fun root => read fs root) = some value) :
    ∃ opened fs root,
      Volume.openFileIOHandle MountFileSystem.separatorNamesEnvironment accessFlagRead .create =
        (.ok (), opened) ∧
      opened.fileSystem = some ⟨some fs, some root⟩ ∧ read fs root = value := by
  have hresult : (Volume.openFileIOHandle MountFileSystem.separatorNamesEnvironment accessFlagRead
      .create).1 = .ok () := by decide +kernel
  have hopen : Volume.openFileIOHandle MountFileSystem.separatorNamesEnvironment accessFlagRead
      .create = (.ok (), (Volume.openFileIOHandle MountFileSystem.separatorNamesEnvironment
        accessFlagRead .create).2) := by
    rw [← hresult]
  obtain ⟨_, fs, root, _, _, hfs⟩ := Volume.openFileIOHandle_ok hopen
  rw [hfs] at h
  simp only [Option.bind_some, Option.map_some, Option.some.injEq] at h
  exact ⟨_, fs, root, hopen, hfs, h⟩

theorem body_file_lines_of_separatorNames :
    ∃ opened fs root printed places texts text,
      Volume.openFileIOHandle MountFileSystem.separatorNamesEnvironment accessFlagRead .create =
        (.ok (), opened) ∧
      opened.fileSystem = some ⟨some fs, some root⟩ ∧
      (separatorNamesTool fs root).fileSystemHierarchyFprint 3 = some (printed, .ok ()) ∧
      Tree.Visits ((separatorNamesTool fs root).tree.Place (separatorNamesTool fs root).root) places
        (.ok () : Except Error Unit) ∧
      List.Forall₂ (fun place line =>
        IsLineOf (separatorNamesTool fs root).ofHierarchy place.2 line) places texts ∧
      printed = utf8.encode text ∧ text.splitOn '\n' = texts ++ [[]] := by
  have hread : ((Volume.openFileIOHandle MountFileSystem.separatorNamesEnvironment accessFlagRead
      .create).2.fileSystem.bind fun fileSystem => fileSystem.tables.bind fun fs =>
        fileSystem.rootDirectory.map fun root =>
          ((separatorNamesTool fs root).fileSystemHierarchyFprint 3).map (·.2)) =
      some (some (.ok ())) := by
    decide +kernel
  obtain ⟨opened, fs, root, hopen, hfs, hprinted⟩ := exists_of_separatorNames hread
  obtain ⟨⟨printed, result⟩, hprinted, hok⟩ := Option.map_eq_some_iff.mp hprinted
  obtain rfl : result = .ok () := hok
  obtain ⟨places, texts, text, hplaces, htexts, htext, hsplit⟩ :=
    body_file_lines_are_file_entries (separatorNamesTool fs root) isUnicode_stringMountLibUna
      writesStrings_stringMountLibUna rfl hprinted
  exact ⟨opened, fs, root, printed, places, texts, text, hopen, hfs, hprinted, hplaces, htexts,
    htext, hsplit⟩

end InfoTool

end FsFat
