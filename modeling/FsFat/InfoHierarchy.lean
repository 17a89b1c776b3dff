import FsFat.BodyFileLine
import FsFat.DirectoryTree
import FsFat.Lib.Traversal

/-!
The hierarchy that the information tool prints: `info_handle.c`, on a system whose strings are in
UTF-8. A file entry has a line, in the body file if there is one, and the lines of the file entries
in a directory are behind its own. The path of a directory is put in front of the names in it.
-/

namespace FsFat

/-- What the functions of the hierarchy read: `info_handle_t` with its volume, whose files have
content to calculate an MD5 of. -/
structure InfoTool (σ κ : Type) where
  una : MountLibUna
  calls : FileEntry → InfoHandle.Md5Calls σ κ
  fs : FileSystem
  image : List UInt8
  rootDirectory : Directory
  infoHandle : InfoHandle
  hasBodyFile : Bool

namespace InfoTool

variable {σ κ : Type}

/-- The functions of libuna that names are printed with. -/
def infoUna (tool : InfoTool σ κ) : InfoLibUna := ⟨tool.una.copyFromUtf8, tool.una.copyToUtf8⟩

/-- The name of a file entry, without its end of string character. There is none for the root
directory. -/
def fileEntryName (tool : InfoTool σ κ) (fileEntry : FileEntry) :
    Except Error (Option (List UInt8)) := do
  match ← fileEntry.getUtf8Name tool.una with
  | none => pure none
  | some name => if 0 < name.length then pure (some name.dropLast) else pure none

/-- What is printed for a file entry: its line in the body file, or its path. -/
def fileEntryFprint (tool : InfoTool σ κ) (path : List UInt8) (fileEntryName : Option (List UInt8))
    (fileEntry : FileEntry) : List UInt8 × Except Error Unit :=
  if tool.hasBodyFile then
    InfoHandle.fileEntryValueWithNameFprint tool.infoUna (tool.calls fileEntry) tool.infoHandle
      fileEntry (some path) fileEntryName
  else
    match InfoHandle.nameValueFprint tool.infoUna path with
    | .error e => ([], .error e)
    | .ok printedPath =>
      match InfoHandle.optionalNameFprint tool.infoUna fileEntryName with
      | .error e => (printedPath, .error e)
      | .ok printedName => (printedPath ++ printedName ++ utf8.encode ['\n'], .ok ())

/-- The path of what is in a directory. -/
def subPath (path : List UInt8) : Option (List UInt8) → List UInt8
  | none => path
  | some fileEntryName => path ++ fileEntryName ++ [UInt8.ofNat separator]

/-- `info_handle_file_system_hierarchy_fprint_file_entry`: what is printed, and the result. The
recursion has the depth at most. -/
def hierarchyFprintFileEntry (tool : InfoTool σ κ) : Nat → List UInt8 → FileEntry →
    Option (List UInt8 × Except Error Unit)
  | 0, _, _ => none
  | depth + 1, path, fileEntry =>
    if path.length > ssizeMax - 1 then some ([], .error .valueExceedsMaximum)
    else
      match tool.fileEntryName fileEntry with
      | .error e => some ([], .error e)
      | .ok fileEntryName =>
        match tool.fileEntryFprint path fileEntryName fileEntry with
        | (printed, .error e) => some (printed, .error e)
        | (printed, .ok ()) =>
          match fileEntry.getNumberOfSubFileEntries tool.fs tool.image with
          | .error e => some (printed, .error e)
          | .ok numberOfSubFileEntries =>
            if 0 < numberOfSubFileEntries then
              (Tree.traverseChildren
                (tool.hierarchyFprintFileEntry depth (subPath path fileEntryName))
                (fileEntry.getSubFileEntryByIndex tool.fs tool.image)
                (List.range numberOfSubFileEntries)).map
                  fun rest => (printed ++ rest.1, rest.2)
            else some (printed, .ok ())

/-- What is printed in front of the hierarchy, unless it is printed in the body file. -/
def hierarchyHeader : List Char :=
  "File Allocation Table (FAT) file system information:\n\nFile system hierarchy:\n".toList

/-- The handle while the hierarchy is printed. -/
def ofHierarchy (tool : InfoTool σ κ) : InfoTool σ κ :=
  { tool with
    infoHandle :=
      { tool.infoHandle with
        fileSystemFormat := tool.fs.ioHandle.fileSystemFormat
        rootDirectoryIdentifier :=
          if tool.hasBodyFile then
            UInt64.ofNat (getRootDirectory tool.fs tool.rootDirectory).identifier
          else tool.infoHandle.rootDirectoryIdentifier } }

/-- `info_handle_file_system_hierarchy_fprint`. -/
def fileSystemHierarchyFprint (tool : InfoTool σ κ) (depth : Nat) :
    Option (List UInt8 × Except Error Unit) :=
  let header := if tool.hasBodyFile then [] else utf8.encode hierarchyHeader
  let footer := if tool.hasBodyFile then [] else utf8.encode ['\n']
  (tool.ofHierarchy.hierarchyFprintFileEntry depth [UInt8.ofNat separator]
    (getRootDirectory tool.fs tool.rootDirectory)).map fun printed =>
      match printed.2 with
      | .error e => (header ++ printed.1, .error e)
      | .ok () => (header ++ printed.1 ++ footer, .ok ())

/-! ### The tree -/

section Hierarchy

variable (tool : InfoTool σ κ)

/-- The file entries, each with the path in front of its name. -/
def tree : Tree Error (List UInt8 × FileEntry) where
  arity node := node.2.getNumberOfSubFileEntries tool.fs tool.image
  child node index := do
    let fileEntryName ← tool.fileEntryName node.2
    let subFileEntry ← node.2.getSubFileEntryByIndex tool.fs tool.image index
    pure (subPath node.1 fileEntryName, subFileEntry)

/-- What is printed at a place of the tree. -/
def write (node : List UInt8 × FileEntry) : List UInt8 × Except Error Unit :=
  if node.1.length > ssizeMax - 1 then ([], .error .valueExceedsMaximum)
  else
    match tool.fileEntryName node.2 with
    | .error e => ([], .error e)
    | .ok fileEntryName => tool.fileEntryFprint node.1 fileEntryName node.2

/-- The root directory has the separator in front of its name. -/
def root : List UInt8 × FileEntry :=
  ([UInt8.ofNat separator], getRootDirectory tool.fs tool.rootDirectory)

end Hierarchy

section Traversal

variable {tool : InfoTool σ κ}

/-- The loop over the sub file entries goes through the children in the tree. -/
theorem traverseChildren_tree {depth : Nat} {path : List UInt8} {fileEntry : FileEntry}
    (ih : ∀ path fileEntry, tool.hierarchyFprintFileEntry depth path fileEntry =
      tool.tree.traverse tool.write depth (path, fileEntry))
    {name : Option (List UInt8)} (hname : tool.fileEntryName fileEntry = .ok name)
    (indices : List Nat) :
    Tree.traverseChildren (tool.hierarchyFprintFileEntry depth (subPath path name))
        (fileEntry.getSubFileEntryByIndex tool.fs tool.image) indices =
      Tree.traverseChildren (tool.tree.traverse tool.write depth)
        (tool.tree.child (path, fileEntry)) indices := by
  induction indices with
  | nil => rfl
  | cons index indices ihIndices =>
    have hchild : tool.tree.child (path, fileEntry) index =
        (fileEntry.getSubFileEntryByIndex tool.fs tool.image index).map (subPath path name, ·) := by
      simp only [tree, hname, bind, Except.bind]
      cases fileEntry.getSubFileEntryByIndex tool.fs tool.image index <;> rfl
    rw [Tree.traverseChildren, Tree.traverseChildren, hchild, ihIndices]
    cases fileEntry.getSubFileEntryByIndex tool.fs tool.image index with
    | error e => rfl
    | ok subFileEntry =>
      simp only [Except.map, ih]

variable (tool) in
/-- The function goes through the tree. -/
theorem hierarchyFprintFileEntry_eq (depth : Nat) (path : List UInt8) (fileEntry : FileEntry) :
    tool.hierarchyFprintFileEntry depth path fileEntry =
      tool.tree.traverse tool.write depth (path, fileEntry) := by
  induction depth generalizing path fileEntry with
  | zero => rfl
  | succ depth ih =>
    have harity : tool.tree.arity (path, fileEntry) =
        fileEntry.getNumberOfSubFileEntries tool.fs tool.image := rfl
    rw [hierarchyFprintFileEntry, Tree.traverse, harity, write]
    by_cases hlength : path.length > ssizeMax - 1
    · rw [if_pos hlength, if_pos hlength]
    · rw [if_neg hlength, if_neg hlength]
      cases hname : tool.fileEntryName fileEntry with
      | error e => rfl
      | ok name =>
        dsimp only
        rcases tool.fileEntryFprint path name fileEntry with ⟨printed, e | _⟩
        · rfl
        · dsimp only
          cases hnumber : fileEntry.getNumberOfSubFileEntries tool.fs tool.image with
          | error e => rfl
          | ok number =>
            dsimp only
            rw [traverseChildren_tree ih hname]
            cases number with
            | zero => simp [Tree.traverseChildren]
            | succ number => simp

/-! ### Where the hierarchy is printed -/

/-- The index of a sub file entry is below the number of them. -/
theorem lt_of_getSubFileEntryByIndex {fs : FileSystem} {image : List UInt8}
    {fileEntry subFileEntry : FileEntry} {number index : Nat}
    (hnumber : fileEntry.getNumberOfSubFileEntries fs image = .ok number)
    (h : fileEntry.getSubFileEntryByIndex fs image index = .ok subFileEntry) : index < number := by
  obtain ⟨directory, _, _, hdirectory, hentry, _, _⟩ :=
    FileEntry.getSubFileEntryByIndex_eq_ok_iff.mp h
  obtain ⟨read, hread, hcount⟩ := map_eq_ok_iff.mp hnumber
  obtain rfl : some directory = read := Except.ok.inj (hdirectory.symm.trans hread)
  rw [← hcount]
  exact (List.getElem?_eq_some_iff.mp hentry).1

theorem child_eq_ok_iff {node child : List UInt8 × FileEntry} {index : Nat} :
    tool.tree.child node index = .ok child ↔ ∃ name, tool.fileEntryName node.2 = .ok name ∧
      node.2.getSubFileEntryByIndex tool.fs tool.image index = .ok child.2 ∧
      child.1 = subPath node.1 name := by
  constructor
  · intro h
    obtain ⟨name, hname, h⟩ := bind_eq_ok_iff.mp h
    obtain ⟨subFileEntry, hsub, h⟩ := bind_eq_ok_iff.mp h
    injection h with h
    subst h
    exact ⟨name, hname, hsub, rfl⟩
  · rintro ⟨name, hname, hsub, hpath⟩
    simp only [tree, hname, hsub, bind, Except.bind, pure, Except.pure, ← hpath]

theorem isSubFileEntry_of_isChild {node child : List UInt8 × FileEntry}
    (h : tool.tree.IsChild node child) : IsSubFileEntry tool.fs tool.image node.2 child.2 := by
  obtain ⟨_, index, _, _, hchild⟩ := h
  obtain ⟨_, _, hsub, _⟩ := child_eq_ok_iff.mp hchild
  exact ⟨index, hsub⟩

/-- What is printed has a name. -/
theorem exists_name_of_write {node : List UInt8 × FileEntry} (h : (tool.write node).2 = .ok ()) :
    ∃ name, tool.fileEntryName node.2 = .ok name := by
  unfold write at h
  split_ifs at h
  cases hname : tool.fileEntryName node.2 with
  | error e =>
    rw [hname] at h
    cases h
  | ok name => exact ⟨name, rfl⟩

/-- A known file entry has its sub file entries below it. -/
theorem exists_isChild {node : List UInt8 × FileEntry} (hknown : tool.tree.IsKnown tool.write node)
    {subFileEntry : FileEntry} (h : IsSubFileEntry tool.fs tool.image node.2 subFileEntry) :
    ∃ path, tool.tree.IsChild node (path, subFileEntry) := by
  obtain ⟨index, hsub⟩ := h
  obtain ⟨name, hname⟩ := exists_name_of_write hknown.written
  obtain ⟨number, hnumber, _⟩ := hknown.children
  exact ⟨subPath node.1 name, number, index, hnumber, lt_of_getSubFileEntryByIndex hnumber hsub,
    child_eq_ok_iff.mpr ⟨name, hname, hsub, rfl⟩⟩

variable (tool) in
/-- Below a node where no descent is endless, the tree is finite. -/
theorem acc_of_not_descent {node : List UInt8 × FileEntry}
    (h : ¬ ∃ fileEntries : Nat → FileEntry, fileEntries 0 = node.2 ∧
      ∀ n, IsSubFileEntry tool.fs tool.image (fileEntries n) (fileEntries (n + 1))) :
    Acc (fun child node => tool.tree.IsChild node child) node := by
  by_contra hnot
  obtain ⟨nodes, hfirst, hdescent⟩ := not_acc_iff_exists_descending_chain.mp hnot
  exact h ⟨fun n => (nodes n).2, congrArg Prod.snd hfirst,
    fun n => isSubFileEntry_of_isChild (hdescent n)⟩

variable (tool) in
/-- A descent in the file entries of a finite tree whose nodes are known ends: it is one in the
tree. -/
theorem not_descent_of_acc {node : List UInt8 × FileEntry}
    (hacc : Acc (fun child node => tool.tree.IsChild node child) node)
    (hknown : ∀ indices last, tool.tree.Place node indices last →
      tool.tree.IsKnown tool.write last) :
    ¬ ∃ fileEntries : Nat → FileEntry, fileEntries 0 = node.2 ∧
      ∀ n, IsSubFileEntry tool.fs tool.image (fileEntries n) (fileEntries (n + 1)) := by
  induction hacc with
  | intro node _ ih =>
    rintro ⟨fileEntries, hfirst, hdescent⟩
    obtain ⟨path, hchild⟩ := exists_isChild (hknown [] node (.here node)) (hfirst ▸ hdescent 0)
    obtain ⟨count, index, harity, hlt, hindex⟩ := id hchild
    apply ih _ hchild fun indices last hplace =>
      hknown _ last (.step harity hlt hindex hplace)
    exact ⟨fun n => fileEntries (n + 1), rfl, fun n => hdescent (n + 1)⟩

end Traversal

/-- The hierarchy is printed exactly if no directory below the root directory is its own ancestor
and everything in the tree is known. Whatever the result is, the lines of the first file entries
of the tree are printed, in preorder and each once, and with a success they are all of them. -/
theorem hierarchy_in_preorder (tool : InfoTool σ κ) :
    ((∃ depth printed, tool.fileSystemHierarchyFprint depth = some (printed, .ok ())) ↔
      ¬ HasDirectoryCycle tool.fs tool.image tool.rootDirectory ∧
        ∀ indices node, tool.tree.Place tool.root indices node →
          tool.tree.IsKnown tool.ofHierarchy.write node) ∧
    ∀ depth printed result, tool.fileSystemHierarchyFprint depth = some (printed, result) →
      ∃ places, Tree.Visits (tool.tree.Place tool.root) places result ∧
        printed = (if tool.hasBodyFile then [] else utf8.encode hierarchyHeader) ++
          Tree.text tool.ofHierarchy.write places ++
            (if tool.hasBodyFile ∨ result ≠ .ok () then [] else utf8.encode ['\n']) := by
  have hroot (depth : Nat) := hierarchyFprintFileEntry_eq tool.ofHierarchy depth
    [UInt8.ofNat separator] (getRootDirectory tool.fs tool.rootDirectory)
  constructor
  · rw [← hasInfiniteDescent_iff]
    constructor
    · rintro ⟨depth, printed, h⟩
      obtain ⟨⟨written, result⟩, hprinted, hmap⟩ := Option.map_eq_some_iff.mp h
      rw [hroot] at hprinted
      obtain rfl : result = .ok () := by
        cases result with
        | error e => cases congrArg Prod.snd hmap
        | ok _ => rfl
      obtain ⟨hacc, hknown⟩ := Tree.traverse_ok_iff.mp ⟨depth, written, hprinted⟩
      exact ⟨not_descent_of_acc tool.ofHierarchy hacc hknown, hknown⟩
    · rintro ⟨hfinite, hknown⟩
      have hacc : Acc (fun child node => tool.tree.IsChild node child) tool.root :=
        acc_of_not_descent tool.ofHierarchy hfinite
      obtain ⟨depth, written, h⟩ := Tree.traverse_ok_iff.mpr ⟨hacc, hknown⟩
      have hprinted := (hroot depth).trans h
      exact ⟨depth, _, Option.map_eq_some_iff.mpr ⟨(written, .ok ()), hprinted, rfl⟩⟩
  · intro depth printed result h
    obtain ⟨⟨written, result'⟩, hprinted, hmap⟩ := Option.map_eq_some_iff.mp h
    rw [hroot] at hprinted
    obtain ⟨places, hplaces, rfl⟩ := Tree.traverse_visits hprinted
    cases result' with
    | error e =>
      injection hmap with hwritten hresult
      subst hwritten hresult
      exact ⟨places, hplaces, by simp⟩
    | ok _ =>
      injection hmap with hwritten hresult
      subst hwritten hresult
      exact ⟨places, hplaces, by simp⟩

end InfoTool

end FsFat
