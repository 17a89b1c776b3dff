import FsFat.Lib.Cycle
import FsFat.PathNames
import Mathlib.Order.OrderIsoNat

/-!
The tree of file entries, and how fsfatinfo goes through it: the function of
`info_handle.c` that prints a file entry and then those in it. A directory is
read from the start cluster in its entry, whatever that cluster is, so the tree
is finite only if no directory lists itself further down.
-/

namespace FsFat

/-! ### The traversal -/

/-- What is done with the path to a file entry: the file entry is printed, and
its name is put behind the path. -/
structure HierarchyPrinter (π : Type) where
  print : π → FileEntry → Except Error Unit
  subPath : π → FileEntry → Except Error π

/-- The loop over the sub file entries. There is no result where printing one of
them has none. -/
def printSubFileEntries (print : FileEntry → Option (Except Error Unit))
    (getSubFileEntry : Nat → Except Error FileEntry) : List Nat → Option (Except Error Unit)
  | [] => some (.ok ())
  | index :: indices =>
    match getSubFileEntry index with
    | .error e => some (.error e)
    | .ok subFileEntry =>
      match print subFileEntry with
      | none => none
      | some (.error e) => some (.error e)
      | some (.ok ()) => printSubFileEntries print getSubFileEntry indices

/-- `info_handle_file_system_hierarchy_fprint_file_entry`, with the depth that
the recursion may have. There is no result where it is not enough. -/
def printFileEntry {π : Type} (printer : HierarchyPrinter π) (fs : FileSystem)
    (image : List UInt8) : Nat → π → FileEntry → Option (Except Error Unit)
  | 0, _, _ => none
  | depth + 1, path, fileEntry =>
    match printer.print path fileEntry with
    | .error e => some (.error e)
    | .ok () =>
      match fileEntry.getNumberOfSubFileEntries fs image with
      | .error e => some (.error e)
      | .ok numberOfSubFileEntries =>
        if 0 < numberOfSubFileEntries then
          match printer.subPath path fileEntry with
          | .error e => some (.error e)
          | .ok subPath =>
            printSubFileEntries (printFileEntry printer fs image depth subPath)
              (fileEntry.getSubFileEntryByIndex fs image) (List.range numberOfSubFileEntries)
        else some (.ok ())

section Tree

variable (fs : FileSystem) (image : List UInt8)

/-- The function ends, whatever is printed. -/
def PrintingEnds (fileEntry : FileEntry) : Prop :=
  ∀ (π : Type) (printer : HierarchyPrinter π) (path : π),
    ∃ depth result, printFileEntry printer fs image depth path fileEntry = some result

/-! ### The tree -/

def IsSubFileEntry (fileEntry subFileEntry : FileEntry) : Prop :=
  ∃ index, fileEntry.getSubFileEntryByIndex fs image index = .ok subFileEntry

/-- File entries without end, each a sub file entry of the one before it. -/
def HasInfiniteDescent (root : Directory) : Prop :=
  ∃ fileEntries : Nat → FileEntry, fileEntries 0 = getRootDirectory fs root ∧
    ∀ n, IsSubFileEntry fs image (fileEntries n) (fileEntries (n + 1))

/-- A directory has an entry for a directory at a start cluster. An entry whose
name cannot be determined is not copied to a file entry. -/
def ListsDirectory (directory : Directory) (clusterNumber : Nat) : Prop :=
  ∃ entry ∈ directory.fileEntries, (∃ copy, entry.clone = .ok copy) ∧
    entry.fileAttributeFlags &&& fileAttributeFlagDirectory ≠ 0 ∧
    entry.dataStartCluster = clusterNumber

/-- The directory at a start cluster lists one at another. -/
def IsParentOf (clusterNumber subClusterNumber : Nat) : Prop :=
  ∃ directory, readDirectory fs image clusterNumber = .ok directory ∧
    ListsDirectory directory subClusterNumber

/-- A directory below the root directory is its own ancestor. -/
def HasDirectoryCycle (root : Directory) : Prop :=
  ∃ clusterNumber, ListsDirectory root clusterNumber ∧
    ReachesCycle (IsParentOf fs image) clusterNumber

end Tree

section Descent

variable {fs : FileSystem} {image : List UInt8}

/-- The sub file entries are those of the entries that can be copied. -/
theorem isSubFileEntry_iff {fileEntry subFileEntry : FileEntry} :
    IsSubFileEntry fs image fileEntry subFileEntry ↔
      ∃ directory, fileEntry.getDirectory fs image = .ok (some directory) ∧
        ∃ entry ∈ directory.fileEntries, ∃ copy, entry.clone = .ok copy ∧
          subFileEntry = .create entry.identifier (some copy) none := by
  constructor
  · rintro ⟨index, h⟩
    obtain ⟨directory, hdirectory, h⟩ := bind_eq_ok_iff.mp h
    cases directory with
    | none => cases h
    | some directory =>
      obtain ⟨entry, hentry, h⟩ := bind_eq_ok_iff.mp h
      obtain ⟨copy, hcopy, h⟩ := bind_eq_ok_iff.mp h
      injection h with h
      refine ⟨directory, hdirectory, entry, ?_, copy, hcopy, h.symm⟩
      unfold Directory.getFileEntryByIndex at hentry
      split at hentry
      · next found hfound =>
        injection hentry with hentry
        exact hentry ▸ List.mem_of_getElem? hfound
      · cases hentry
  · rintro ⟨directory, hdirectory, entry, hentry, copy, hcopy, rfl⟩
    obtain ⟨index, hindex⟩ := List.mem_iff_getElem?.mp hentry
    refine ⟨index, ?_⟩
    simp only [FileEntry.getSubFileEntryByIndex, hdirectory, Directory.getFileEntryByIndex, hindex,
      hcopy, bind, Except.bind, pure, Except.pure]

/-- Only from a cluster of the volume a directory with entries is read. -/
theorem lt_of_mem_fileEntries {c : Nat} {directory : Directory} {entry : DirectoryEntry}
    (h : readDirectory fs image c = .ok directory) (hentry : entry ∈ directory.fileEntries) :
    ∃ last, lastClusterNumber fs.ioHandle.fileSystemFormat = .ok last ∧ c < last := by
  obtain ⟨last, hlast, h⟩ := bind_eq_ok_iff.mp h
  obtain ⟨tree, htree, h⟩ := bind_eq_ok_iff.mp h
  obtain ⟨value, hwalk, h⟩ := bind_eq_ok_iff.mp h
  injection h with h
  subst h
  refine ⟨last, hlast, ?_⟩
  by_contra hge
  obtain ⟨_, hempty⟩ := standsFor_of_create htree
  have hexit : chainStep fs last (readDirectoryVisitor fs image)
      ⟨c, tree, [], (.start, false)⟩ = .done ([], .ok (.start, false)) :=
    chainStep_exit fun hvisits => hge hvisits.2.1
  have hresult := Loop.Returns.unique ⟨_, walkChain_returns hempty⟩ (Loop.Returns.of_done hexit)
  rw [hresult] at hwalk
  injection hwalk with hwalk
  subst hwalk
  exact List.not_mem_nil hentry

/-- A sub file entry that has one itself is a directory, listed with its start
cluster. -/
theorem listsDirectory_of_descent {first second third : FileEntry}
    (hsecond : IsSubFileEntry fs image first second)
    (hthird : IsSubFileEntry fs image second third) :
    (∃ directory, first.getDirectory fs image = .ok (some directory) ∧
      ListsDirectory directory second.clusterNumber) ∧
    ∃ directory, second.getDirectory fs image = .ok (some directory) ∧
      readDirectory fs image second.clusterNumber = .ok directory := by
  obtain ⟨directory, hdirectory, entry, hentry, copy, hcopy, rfl⟩ := isSubFileEntry_iff.mp hsecond
  obtain ⟨subDirectory, hsub, _⟩ := isSubFileEntry_iff.mp hthird
  have hcluster : copy.dataStartCluster = entry.dataStartCluster :=
    (DirectoryEntry.sameEntry_of_clone hcopy).2.1
  have hget := getDirectory_create fs image hcopy entry.identifier
  rw [hsub] at hget
  split_ifs at hget with hflag
  · exact ⟨⟨directory, hdirectory, entry, hentry, ⟨copy, hcopy⟩, hflag, hcluster.symm⟩,
      subDirectory, hsub, readDirectory_of_getDirectory hsub⟩
  · cases hget

/-- A directory that is listed has a sub file entry wherever it lists a directory. -/
theorem exists_subFileEntry {fileEntry : FileEntry} {directory : Directory} {c d : Nat}
    (hdirectory : fileEntry.getDirectory fs image = .ok (some directory))
    (hlists : ListsDirectory directory c) (hparent : IsParentOf fs image c d) :
    ∃ subFileEntry, IsSubFileEntry fs image fileEntry subFileEntry ∧
      ∃ subDirectory, subFileEntry.getDirectory fs image = .ok (some subDirectory) ∧
        ListsDirectory subDirectory d := by
  obtain ⟨entry, hentry, ⟨copy, hcopy⟩, hflag, rfl⟩ := hlists
  obtain ⟨subDirectory, hread, hsub⟩ := hparent
  refine ⟨_, isSubFileEntry_iff.mpr ⟨directory, hdirectory, entry, hentry, copy, hcopy, rfl⟩,
    subDirectory, ?_, hsub⟩
  rw [getDirectory_create fs image hcopy, if_pos hflag, hread]
  rfl

/-- The file entry is that of a directory that leads into a cycle. -/
def AtCycle (fs : FileSystem) (image : List UInt8) (fileEntry : FileEntry) : Prop :=
  ∃ directory c, fileEntry.getDirectory fs image = .ok (some directory) ∧
    ListsDirectory directory c ∧ ReachesCycle (IsParentOf fs image) c

/-- The descent is endless exactly if it comes into a cycle. -/
theorem hasInfiniteDescent_iff {root : Directory} :
    HasInfiniteDescent fs image root ↔ HasDirectoryCycle fs image root := by
  constructor
  · rintro ⟨fileEntries, hroot, hdescent⟩
    have hlists (n : Nat) := listsDirectory_of_descent (hdescent n) (hdescent (n + 1))
    have hparent (n : Nat) : IsParentOf fs image (fileEntries (n + 1)).clusterNumber
        (fileEntries (n + 2)).clusterNumber := by
      obtain ⟨directory, hdirectory, hread⟩ := (hlists n).2
      obtain ⟨other, hother, hsub⟩ := (hlists (n + 1)).1
      have heq : other = directory :=
        Option.some.inj (Except.ok.inj (hother.symm.trans hdirectory))
      exact ⟨directory, hread, heq ▸ hsub⟩
    have hfirst : ListsDirectory root (fileEntries 1).clusterNumber := by
      obtain ⟨directory, hdirectory, hfirst⟩ := (hlists 0).1
      rw [hroot] at hdirectory
      injection hdirectory with hdirectory
      injection hdirectory with hdirectory
      exact hdirectory ▸ hfirst
    refine ⟨_, hfirst, ?_⟩
    obtain ⟨last, hlast⟩ : ∃ last, ∀ n, (fileEntries (n + 1)).clusterNumber < last := by
      have hbound (n : Nat) : ∃ last, lastClusterNumber fs.ioHandle.fileSystemFormat = .ok last ∧
          (fileEntries (n + 1)).clusterNumber < last := by
        obtain ⟨directory, hread, entry, hentry, _⟩ := hparent n
        exact lt_of_mem_fileEntries hread hentry
      obtain ⟨last, hlast, _⟩ := hbound 0
      refine ⟨last, fun n => ?_⟩
      obtain ⟨other, hother, hlt⟩ := hbound n
      exact Except.ok.inj (hother.symm.trans hlast) ▸ hlt
    exact ReachesCycle.of_sequence (f := fun n => (fileEntries (n + 1)).clusterNumber) hparent
      (Set.finite_lt_nat last) hlast
  · rintro ⟨c, hlists, hcycle⟩
    have hprogress (fileEntry : FileEntry) (h : AtCycle fs image fileEntry) :
        ∃ subFileEntry, IsSubFileEntry fs image fileEntry subFileEntry ∧
          AtCycle fs image subFileEntry := by
      obtain ⟨directory, c, hdirectory, hlists, hcycle⟩ := h
      obtain ⟨d, hparent, hcycle⟩ := hcycle.step
      obtain ⟨subFileEntry, hsub, subDirectory, hsubDirectory, hsubLists⟩ :=
        exists_subFileEntry hdirectory hlists hparent
      exact ⟨subFileEntry, hsub, subDirectory, d, hsubDirectory, hsubLists, hcycle⟩
    obtain ⟨fileEntries, hroot, hdescent⟩ :=
      Loop.exists_sequence hprogress (⟨root, c, rfl, hlists, hcycle⟩ :
        AtCycle fs image (getRootDirectory fs root))
    exact ⟨fileEntries, hroot, fun n => (hdescent n).2⟩

end Descent

/-! ### Where the tree is finite -/

section Printing

variable {π : Type} {printer : HierarchyPrinter π} {fs : FileSystem} {image : List UInt8}

theorem printSubFileEntries_mono {print print' : FileEntry → Option (Except Error Unit)}
    (h : ∀ fileEntry result, print fileEntry = some result → print' fileEntry = some result)
    {getSubFileEntry : Nat → Except Error FileEntry} {indices : List Nat}
    {result : Except Error Unit}
    (hresult : printSubFileEntries print getSubFileEntry indices = some result) :
    printSubFileEntries print' getSubFileEntry indices = some result := by
  induction indices with
  | nil => exact hresult
  | cons index indices ih =>
    rw [printSubFileEntries] at hresult ⊢
    cases hget : getSubFileEntry index with
    | error e => simpa only [hget] using hresult
    | ok subFileEntry =>
      simp only [hget] at hresult ⊢
      match hprint : print subFileEntry with
      | none =>
        rw [hprint] at hresult
        cases hresult
      | some (.error e) =>
        rw [h _ _ hprint]
        simpa only [hprint] using hresult
      | some (.ok ()) =>
        rw [h _ _ hprint]
        simp only [hprint] at hresult
        exact ih hresult

/-- With more depth the result is the same. -/
theorem printFileEntry_mono {depth depth' : Nat} (hle : depth ≤ depth') {path : π}
    {fileEntry : FileEntry} {result : Except Error Unit}
    (h : printFileEntry printer fs image depth path fileEntry = some result) :
    printFileEntry printer fs image depth' path fileEntry = some result := by
  induction depth generalizing depth' path fileEntry result with
  | zero => cases h
  | succ depth ih =>
    obtain ⟨depth', rfl⟩ : ∃ k, depth' = k + 1 := ⟨depth' - 1, by omega⟩
    rw [printFileEntry] at h ⊢
    cases hprint : printer.print path fileEntry with
    | error e => simpa only [hprint] using h
    | ok _ =>
      cases hnumber : fileEntry.getNumberOfSubFileEntries fs image with
      | error e => simpa only [hprint, hnumber] using h
      | ok numberOfSubFileEntries =>
        simp only [hprint, hnumber] at h ⊢
        split_ifs at h ⊢ with hpos
        · cases hpath : printer.subPath path fileEntry with
          | error e => simpa only [hpath] using h
          | ok subPath =>
            simp only [hpath] at h ⊢
            exact printSubFileEntries_mono
              (fun _ _ hsub => ih (Nat.le_of_succ_le_succ hle) hsub) h
        · exact h

/-- The loop ends if printing each sub file entry does. -/
theorem printSubFileEntries_ends (printer : HierarchyPrinter π) (path : π) {fileEntry : FileEntry}
    (h : ∀ subFileEntry, IsSubFileEntry fs image fileEntry subFileEntry →
      PrintingEnds fs image subFileEntry) (indices : List Nat) :
    ∃ depth result, printSubFileEntries (printFileEntry printer fs image depth path)
      (fileEntry.getSubFileEntryByIndex fs image) indices = some result := by
  induction indices with
  | nil => exact ⟨0, _, rfl⟩
  | cons index indices ih =>
    simp only [printSubFileEntries]
    cases hget : fileEntry.getSubFileEntryByIndex fs image index with
    | error e => exact ⟨0, _, rfl⟩
    | ok subFileEntry =>
      obtain ⟨depth, result, hprint⟩ := h subFileEntry ⟨index, hget⟩ π printer path
      obtain ⟨restDepth, restResult, hrest⟩ := ih
      have hprint' := printFileEntry_mono (Nat.le_max_left depth restDepth) hprint
      refine ⟨max depth restDepth, ?_⟩
      simp only [hprint']
      cases result with
      | error e => exact ⟨_, rfl⟩
      | ok _ =>
        exact ⟨restResult, printSubFileEntries_mono
          (fun _ _ hsub => printFileEntry_mono (Nat.le_max_right depth restDepth) hsub) hrest⟩

/-- Below a file entry from which no descent is endless printing ends: the
induction is on the file entries below it. -/
theorem printingEnds_of_acc {fileEntry : FileEntry}
    (h : Acc (fun subFileEntry fileEntry => IsSubFileEntry fs image fileEntry subFileEntry)
      fileEntry) : PrintingEnds fs image fileEntry := by
  induction h with
  | intro fileEntry _ ih =>
    intro π printer path
    cases hprint : printer.print path fileEntry with
    | error e => exact ⟨1, .error e, by simp only [printFileEntry, hprint]⟩
    | ok _ =>
      cases hnumber : fileEntry.getNumberOfSubFileEntries fs image with
      | error e => exact ⟨1, .error e, by simp only [printFileEntry, hprint, hnumber]⟩
      | ok numberOfSubFileEntries =>
        by_cases hpos : 0 < numberOfSubFileEntries
        · cases hpath : printer.subPath path fileEntry with
          | error e =>
            exact ⟨1, .error e, by simp only [printFileEntry, hprint, hnumber, if_pos hpos, hpath]⟩
          | ok subPath =>
            obtain ⟨depth, result, hsub⟩ := printSubFileEntries_ends printer subPath ih
              (List.range numberOfSubFileEntries)
            refine ⟨depth + 1, result, ?_⟩
            simp only [printFileEntry, hprint, hnumber, if_pos hpos, hpath, hsub]
        · exact ⟨1, .ok (), by simp only [printFileEntry, hprint, hnumber, if_neg hpos]⟩

/-- The tree is finite, and going through it ends, exactly if no directory below
the root directory is its own ancestor. -/
theorem tree_finite_iff {root : Directory} :
    (¬ HasInfiniteDescent fs image root ∧ PrintingEnds fs image (getRootDirectory fs root)) ↔
      ¬ HasDirectoryCycle fs image root := by
  rw [← hasInfiniteDescent_iff]
  refine ⟨And.left, fun hfinite => ⟨hfinite, ?_⟩⟩
  apply printingEnds_of_acc
  by_contra hnot
  obtain ⟨fileEntries, hroot, hdescent⟩ := not_acc_iff_exists_descending_chain.mp hnot
  exact hfinite ⟨fileEntries, hroot, hdescent⟩

end Printing

/-! ### A directory that lists itself -/

/-- The entry of a directory `D` at cluster 2. -/
def directoryAtTwo : List UInt8 :=
  (0x44 :: List.replicate 10 0x20) ++ (0x10 :: List.replicate 14 0) ++ (2 :: List.replicate 485 0)

/-- The root directory has an entry for the directory at cluster 2, and so has
this directory. -/
def selfListedImage : List UInt8 :=
  List.replicate 11 0 ++ [0, 2, 1, 1, 0, 1, 16, 0, 8, 0, 0xf8, 1, 0] ++ List.replicate 486 0 ++
    [0x55, 0xaa] ++ [0, 0, 0, 0xff, 0x0f] ++ List.replicate 507 0 ++ directoryAtTwo ++
    directoryAtTwo

def selfListedEnvironment : OpenEnvironment where
  file :=
    { data := selfListedImage
      isOpen := .ok true
      openResult := .error .openFailed
      getSize := .ok 2048 }
  createFileSystem := .ok ()
  freshMemory _ := 0

/-- The entry at an offset of this volume. -/
def selfListedEntry (offset : Nat) : DirectoryEntry :=
  { DirectoryEntry.readShortName (directoryAtTwo.take 32) with identifier := offset }

theorem listsDirectory_selfListed {directory : Directory} {offset : Nat}
    (h : directory.fileEntries = [selfListedEntry offset]) : ListsDirectory directory 2 := by
  have hflag : Bytes.byteAt (directoryAtTwo.take 32) 11 &&& fileAttributeFlagDirectory ≠ 0 := by
    decide
  exact ⟨selfListedEntry offset, h ▸ List.mem_singleton_self _, ⟨_, rfl⟩, hflag, rfl⟩

/-- The descent into this directory does not end. -/
theorem selfListed_descent_is_infinite :
    ∃ opened fs root,
      Volume.openFileIOHandle selfListedEnvironment accessFlagRead .create = (.ok (), opened) ∧
      opened.fileSystem = some ⟨some fs, some root⟩ ∧
      HasInfiniteDescent fs selfListedImage root := by
  have hresult : (Volume.openFileIOHandle selfListedEnvironment accessFlagRead .create).1 =
      .ok () := by decide +kernel
  have hopen : Volume.openFileIOHandle selfListedEnvironment accessFlagRead .create = (.ok (),
      (Volume.openFileIOHandle selfListedEnvironment accessFlagRead .create).2) := by
    rw [← hresult]
  have hread : ((Volume.openFileIOHandle selfListedEnvironment accessFlagRead
      .create).2.fileSystem.bind fun fileSystem => fileSystem.tables.bind fun fs =>
        fileSystem.rootDirectory.map fun root =>
          (root.fileEntries, (readDirectory fs selfListedImage 2).map (·.fileEntries))) =
      some ([selfListedEntry 1024], .ok [selfListedEntry 1536]) := by
    decide +kernel
  obtain ⟨bootRecord, fs, root, _, _, hfs⟩ := Volume.openFileIOHandle_ok hopen
  rw [hfs] at hread
  simp only [Option.bind_some, Option.map_some, Option.some.injEq, Prod.mk.injEq] at hread
  obtain ⟨hroot, hdirectory⟩ := hread
  obtain ⟨directory, hdirectory, hentries⟩ := map_eq_ok_iff.mp hdirectory
  have hparent : IsParentOf fs selfListedImage 2 2 :=
    ⟨directory, hdirectory, listsDirectory_selfListed hentries⟩
  refine ⟨_, fs, root, hopen, hfs, ?_⟩
  apply hasInfiniteDescent_iff.mpr
  exact ⟨2, listsDirectory_selfListed hroot, 2, .refl, .single hparent⟩

end FsFat
