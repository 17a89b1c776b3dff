import FsFat.BodyFileHierarchy
import FsFat.FileContent

/-!
The MD5s of the body file. The body file with MD5s is printed exactly where the one without them is
and the image has the content of every regular file, and the two differ in nothing but the first
field of their lines. A file whose chain is too short is enough for the printing to fail.
-/

namespace FsFat

namespace InfoTool

open InfoHandle

/-- The file entries that an MD5 is calculated of. The root directory is one of them, since it has
no flags: it is a file without content then. -/
def HasMd5 (fileEntry : FileEntry) : Prop :=
  let flags := fileEntry.getFileAttributeFlags.getD 0
  flags &&& fileAttributeFlagVolumeLabel = 0 ∧ flags &&& fileAttributeFlagDirectory = 0 ∧
    flags &&& fileAttributeFlagDevice = 0

instance (fileEntry : FileEntry) : Decidable (HasMd5 fileEntry) :=
  inferInstanceAs (Decidable (_ ∧ _ ∧ _))

/-- The first field of a line, where MD5s are calculated. -/
def IsMd5Of (containers : Containers) (fs : FileSystem) (image : List UInt8)
    (md5 : List UInt8 → Vector UInt8 16) (fileEntry : FileEntry) (string : List Char) : Prop :=
  if HasMd5 fileEntry then
    ∃ segments content, FileContent containers fs image fileEntry segments content ∧
      string = digestHashString (md5 content).toList
  else string = List.replicate 32 '0'

section Write

variable {σ κ : Type} (tool : InfoTool σ κ)

/-- The tool, with MD5s or without them. -/
def withMd5 (calculateMd5 : Bool) : InfoTool σ κ :=
  { tool with infoHandle := { tool.infoHandle with calculateMd5 } }

/-- What is printed behind the MD5. -/
def behindMd5 (node : List UInt8 × FileEntry) : Except Error (List UInt8) :=
  if node.1.length > ssizeMax - 1 then .error .valueExceedsMaximum
  else do
    let fileEntryName ← tool.fileEntryName node.2
    let printedPath ← nameValueFprint tool.infoUna node.1
    let printedName ← optionalNameFprint tool.infoUna fileEntryName
    pure (utf8.encode ['|'] ++ printedPath ++ printedName ++
      utf8.encode (tool.infoHandle.fprintBehindName node.2))

variable {tool}

/-- A line is the MD5 and what is printed behind it. -/
theorem write_eq_ok_iff (hbodyFile : tool.hasBodyFile = true) {node : List UInt8 × FileEntry}
    {printed : List UInt8} :
    tool.write node = (printed, .ok ()) ↔
      ∃ string rest, tool.infoHandle.md5String (tool.calls node.2) node.2 = .ok string ∧
        tool.behindMd5 node = .ok rest ∧ printed = utf8.encode string ++ rest := by
  have hpath : optionalNameFprint tool.infoUna (some node.1) =
      nameValueFprint tool.infoUna node.1 := rfl
  unfold write behindMd5
  split_ifs with hlength
  · simp
  · cases tool.fileEntryName node.2 with
    | error e => simp [bind, Except.bind]
    | ok fileEntryName =>
      simp only [fileEntryFprint, if_pos hbodyFile, fileEntryValueWithNameFprint, hpath, bind,
        Except.bind, pure, Except.pure]
      cases tool.infoHandle.md5String (tool.calls node.2) node.2 with
      | error e => simp
      | ok string =>
        cases nameValueFprint tool.infoUna node.1 with
        | error e => simp
        | ok printedPath =>
          cases optionalNameFprint tool.infoUna fileEntryName with
          | error e => simp
          | ok printedName => simp [Encoding.encode_append, eq_comm]

theorem exists_write_iff {node : List UInt8 × FileEntry} :
    (tool.write node).2 = .ok () ↔ ∃ printed, tool.write node = (printed, .ok ()) := by
  constructor
  · intro h
    exact ⟨_, Prod.ext rfl h⟩
  · rintro ⟨_, h⟩
    exact congrArg Prod.snd h

/-- Without MD5s the first field is a zero. -/
theorem write_withMd5_false (hbodyFile : tool.hasBodyFile = true) {node : List UInt8 × FileEntry}
    {printed : List UInt8} :
    (tool.withMd5 false).write node = (printed, .ok ()) ↔
      ∃ rest, tool.behindMd5 node = .ok rest ∧ printed = utf8.encode ['0'] ++ rest := by
  have hstring : (tool.withMd5 false).infoHandle.md5String ((tool.withMd5 false).calls node.2)
      node.2 = .ok ['0'] := rfl
  have hrest : (tool.withMd5 false).behindMd5 node = tool.behindMd5 node := rfl
  have hbody : (tool.withMd5 false).hasBodyFile = true := hbodyFile
  rw [write_eq_ok_iff hbody]
  simp [hstring, hrest]

end Write

section Content

variable {κ : Type} {stream : StreamLib} {hash : Md5Lib κ} {containers : Containers}
  {tool : InfoTool (FileEntryData × Nat) κ} {absorbed : κ → List UInt8 → Prop}
  {md5 : List UInt8 → Vector UInt8 16}

/-- With MD5s the first field is the MD5 of the content. -/
theorem md5String_withMd5_true
    (hcalls : ∀ fileEntry, tool.calls fileEntry = md5Calls stream hash containers tool.fs fileEntry)
    (hreads : stream.Reads tool.image) (hhash : hash.Hashes absorbed md5) (fileEntry : FileEntry)
    (string : List Char) :
    (tool.withMd5 true).infoHandle.md5String (tool.calls fileEntry) fileEntry = .ok string ↔
      IsMd5Of containers tool.fs tool.image md5 fileEntry string := by
  have hstring : (tool.withMd5 true).infoHandle.md5String (tool.calls fileEntry) fileEntry =
      if HasMd5 fileEntry then fileEntryCalculateMd5 (tool.calls fileEntry) fileEntry
      else .ok (List.replicate 32 '0') := rfl
  rw [hstring, hcalls, IsMd5Of]
  split_ifs
  · constructor
    · exact content_of_fileEntryCalculateMd5 hreads hhash
    · rintro ⟨segments, content, hcontent, rfl⟩
      exact hcontent.calculateMd5 hreads hhash
  · rw [Except.ok.injEq, eq_comm]

theorem exists_isMd5Of_iff {fs : FileSystem} {image : List UInt8} {fileEntry : FileEntry} :
    (∃ string, IsMd5Of containers fs image md5 fileEntry string) ↔
      (HasMd5 fileEntry →
        ∃ segments content, FileContent containers fs image fileEntry segments content) := by
  unfold IsMd5Of
  split_ifs with hmd5
  · constructor
    · rintro ⟨_, segments, content, hcontent, _⟩ _
      exact ⟨segments, content, hcontent⟩
    · intro h
      obtain ⟨segments, content, hcontent⟩ := h hmd5
      exact ⟨_, segments, content, hcontent, rfl⟩
  · exact iff_of_true ⟨_, rfl⟩ fun h => absurd h hmd5

theorem write_withMd5_true
    (hcalls : ∀ fileEntry, tool.calls fileEntry = md5Calls stream hash containers tool.fs fileEntry)
    (hreads : stream.Reads tool.image) (hhash : hash.Hashes absorbed md5)
    (hbodyFile : tool.hasBodyFile = true) {node : List UInt8 × FileEntry} {printed : List UInt8} :
    (tool.withMd5 true).write node = (printed, .ok ()) ↔
      ∃ string rest, IsMd5Of containers tool.fs tool.image md5 node.2 string ∧
        tool.behindMd5 node = .ok rest ∧ printed = utf8.encode string ++ rest := by
  have hbody : (tool.withMd5 true).hasBodyFile = true := hbodyFile
  have hrest : (tool.withMd5 true).behindMd5 node = tool.behindMd5 node := rfl
  have hstring : (tool.withMd5 true).calls = tool.calls := rfl
  simp only [write_eq_ok_iff hbody, hrest, hstring, md5String_withMd5_true hcalls hreads hhash]

variable (tool) in
theorem isKnown_withMd5
    (hcalls : ∀ fileEntry, tool.calls fileEntry = md5Calls stream hash containers tool.fs fileEntry)
    (hreads : stream.Reads tool.image) (hhash : hash.Hashes absorbed md5)
    (hbodyFile : tool.hasBodyFile = true) {node : List UInt8 × FileEntry} :
    tool.tree.IsKnown (tool.withMd5 true).write node ↔
      tool.tree.IsKnown (tool.withMd5 false).write node ∧
        ∃ string, IsMd5Of containers tool.fs tool.image md5 node.2 string := by
  constructor
  · rintro ⟨hwritten, hchildren⟩
    obtain ⟨printed, hprinted⟩ := exists_write_iff.mp hwritten
    obtain ⟨string, rest, hstring, hrest, _⟩ :=
      (write_withMd5_true hcalls hreads hhash hbodyFile).mp hprinted
    exact ⟨⟨exists_write_iff.mpr ⟨_, (write_withMd5_false hbodyFile).mpr ⟨rest, hrest, rfl⟩⟩,
      hchildren⟩, string, hstring⟩
  · rintro ⟨⟨hwritten, hchildren⟩, string, hstring⟩
    obtain ⟨printed, hprinted⟩ := exists_write_iff.mp hwritten
    obtain ⟨rest, hrest, _⟩ := (write_withMd5_false hbodyFile).mp hprinted
    exact ⟨exists_write_iff.mpr ⟨_, (write_withMd5_true hcalls hreads hhash hbodyFile).mpr
      ⟨string, rest, hstring, hrest, rfl⟩⟩, hchildren⟩

variable (tool) in
/-- What is printed at places differs in the first fields only. -/
theorem exists_fields_of_text
    (hcalls : ∀ fileEntry, tool.calls fileEntry = md5Calls stream hash containers tool.fs fileEntry)
    (hreads : stream.Reads tool.image) (hhash : hash.Hashes absorbed md5)
    (hbodyFile : tool.hasBodyFile = true)
    {places : List (List Nat × (List UInt8 × FileEntry))}
    (h : ∀ place ∈ places, ((tool.withMd5 true).write place.2).2 = .ok ()) :
    ∃ fields : List (List Char × List UInt8),
      List.Forall₂ (fun place field =>
        IsMd5Of containers tool.fs tool.image md5 place.2.2 field.1) places fields ∧
      Tree.text (tool.withMd5 true).write places =
        fields.flatMap (fun field => utf8.encode field.1 ++ field.2) ∧
      Tree.text (tool.withMd5 false).write places =
        fields.flatMap (fun field => utf8.encode ['0'] ++ field.2) := by
  induction places with
  | nil => exact ⟨[], .nil, rfl, rfl⟩
  | cons place places ih =>
    obtain ⟨hwritten, hrest⟩ := List.forall_mem_cons.mp h
    obtain ⟨fields, hfields, htext, htext'⟩ := ih hrest
    obtain ⟨printed, hprinted⟩ := exists_write_iff.mp hwritten
    obtain ⟨string, rest, hstring, hbehind, rfl⟩ :=
      (write_withMd5_true hcalls hreads hhash hbodyFile).mp hprinted
    have hprinted' := (write_withMd5_false hbodyFile).mpr ⟨rest, hbehind, rfl⟩
    refine ⟨(string, rest) :: fields, .cons hstring hfields, ?_, ?_⟩
    · rw [Tree.text_cons, hprinted, htext, List.flatMap_cons]
    · rw [Tree.text_cons, hprinted', htext', List.flatMap_cons]

variable (tool) in
/-- A body file with MD5s is printed exactly if it is printed without them and the image has the
content of every file in the hierarchy. Then the two have the same lines but for the first field:
it is the MD5 of the content of a file. -/
theorem body_file_with_md5
    (hcalls : ∀ fileEntry, tool.calls fileEntry = md5Calls stream hash containers tool.fs fileEntry)
    (hreads : stream.Reads tool.image) (hhash : hash.Hashes absorbed md5)
    (hbodyFile : tool.hasBodyFile = true) :
    ((∃ depth printed,
        (tool.withMd5 true).fileSystemHierarchyFprint depth = some (printed, .ok ())) ↔
      (∃ depth printed,
        (tool.withMd5 false).fileSystemHierarchyFprint depth = some (printed, .ok ())) ∧
      ∀ indices node, tool.tree.Place tool.root indices node → HasMd5 node.2 →
        ∃ segments content,
          FileContent containers tool.fs tool.image node.2 segments content) ∧
    ∀ depth depth' printed printed',
      (tool.withMd5 true).fileSystemHierarchyFprint depth = some (printed, .ok ()) →
      (tool.withMd5 false).fileSystemHierarchyFprint depth' = some (printed', .ok ()) →
      ∃ places, ∃ fields : List (List Char × List UInt8),
        Tree.Visits (tool.tree.Place tool.root) places (.ok () : Except Error Unit) ∧
        List.Forall₂ (fun place field =>
          IsMd5Of containers tool.fs tool.image md5 place.2.2 field.1) places fields ∧
        printed = fields.flatMap (fun field => utf8.encode field.1 ++ field.2) ∧
        printed' = fields.flatMap (fun field => utf8.encode ['0'] ++ field.2) := by
  have hprint (calculateMd5 : Bool) (depth : Nat) :
      (tool.withMd5 calculateMd5).fileSystemHierarchyFprint depth =
        tool.tree.traverse (tool.ofHierarchy.withMd5 calculateMd5).write depth tool.root := by
    have hbody : (tool.withMd5 calculateMd5).hasBodyFile = true := hbodyFile
    exact fileSystemHierarchyFprint_of_body_file hbody depth
  have hknown (node : List UInt8 × FileEntry) :
      tool.tree.IsKnown (tool.ofHierarchy.withMd5 true).write node ↔
        tool.tree.IsKnown (tool.ofHierarchy.withMd5 false).write node ∧
          (HasMd5 node.2 → ∃ segments content,
            FileContent containers tool.fs tool.image node.2 segments content) := by
    rw [← exists_isMd5Of_iff]
    exact isKnown_withMd5 tool.ofHierarchy hcalls hreads hhash hbodyFile
  simp only [hprint]
  refine ⟨?_, ?_⟩
  · rw [Tree.traverse_ok_iff, Tree.traverse_ok_iff]
    simp only [hknown, imp_and, forall_and, and_assoc]
  · intro depth depth' printed printed' h h'
    obtain ⟨_, hwritten⟩ := Tree.traverse_ok_iff.mp ⟨depth, printed, h⟩
    obtain ⟨places, hplaces, rfl⟩ := Tree.traverse_visits h
    obtain ⟨others, hothers, rfl⟩ := Tree.traverse_visits h'
    obtain rfl := hplaces.unique hothers
    obtain ⟨fields, hfields, htext, htext'⟩ := exists_fields_of_text tool.ofHierarchy hcalls hreads
      hhash hbodyFile fun place hplace => (hwritten _ _ (hplaces.isPlace place hplace)).written
    exact ⟨places, fields, hplaces, hfields, htext, htext'⟩

end Content

/-! ### Files without content -/

/-- The MD5 of no bytes. -/
def emptyHash : Vector UInt8 16 :=
  #v[0xd4, 0x1d, 0x8c, 0xd9, 0x8f, 0x00, 0xb2, 0x04, 0xe9, 0x80, 0x09, 0x98, 0xec, 0xf8, 0x42, 0x7e]

/-- The tool that can read the files of the volume, which have no content. -/
def separatorNamesContentTool (fs : FileSystem) (root : Directory) :
    InfoTool (FileEntryData × Nat) (List UInt8) :=
  { separatorNamesTool fs root with
    calls := md5Calls (imageStreamLib MountFileSystem.separatorNamesImage) (contentMd5Lib emptyHash)
      .unlimited fs }

theorem body_file_with_md5_of_separatorNames :
    ∃ opened fs root printed depth printed' places, ∃ fields : List (List Char × List UInt8),
      Volume.openFileIOHandle MountFileSystem.separatorNamesEnvironment accessFlagRead .create =
        (.ok (), opened) ∧
      opened.fileSystem = some ⟨some fs, some root⟩ ∧
      ((separatorNamesContentTool fs root).withMd5 true).fileSystemHierarchyFprint 3 =
        some (printed, .ok ()) ∧
      ((separatorNamesContentTool fs root).withMd5 false).fileSystemHierarchyFprint depth =
        some (printed', .ok ()) ∧
      Tree.Visits ((separatorNamesContentTool fs root).tree.Place
        (separatorNamesContentTool fs root).root) places (.ok () : Except Error Unit) ∧
      List.Forall₂ (fun place field =>
        IsMd5Of .unlimited fs MountFileSystem.separatorNamesImage (fun _ => emptyHash) place.2.2
          field.1) places fields ∧
      printed = fields.flatMap (fun field => utf8.encode field.1 ++ field.2) ∧
      printed' = fields.flatMap (fun field => utf8.encode ['0'] ++ field.2) := by
  have hread : ((Volume.openFileIOHandle MountFileSystem.separatorNamesEnvironment accessFlagRead
      .create).2.fileSystem.bind fun fileSystem => fileSystem.tables.bind fun fs =>
        fileSystem.rootDirectory.map fun root =>
          (((separatorNamesContentTool fs root).withMd5 true).fileSystemHierarchyFprint 3).map
            (·.2)) =
      some (some (.ok ())) := by
    decide +kernel
  obtain ⟨opened, fs, root, hopen, hfs, hprinted⟩ := exists_of_separatorNames hread
  obtain ⟨⟨printed, result⟩, hprinted, hok⟩ := Option.map_eq_some_iff.mp hprinted
  obtain rfl : result = .ok () := hok
  obtain ⟨hsame, hfields⟩ := body_file_with_md5 (separatorNamesContentTool fs root)
    (fun _ => rfl) (reads_imageStreamLib _) (hashes_contentMd5Lib emptyHash) rfl
  obtain ⟨⟨depth, printed', hprinted'⟩, _⟩ := hsame.mp ⟨3, printed, hprinted⟩
  obtain ⟨places, fields, hplaces, hmd5, htext, htext'⟩ :=
    hfields 3 depth printed printed' hprinted hprinted'
  exact ⟨opened, fs, root, printed, depth, printed', places, fields, hopen, hfs, hprinted,
    hprinted', hplaces, hmd5, htext, htext'⟩

end InfoTool

end FsFat
