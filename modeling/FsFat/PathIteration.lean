import FsFat.PathNames
import FsFat.UnicodePath

/-!
A path against its components. The function that looks a path up has its own
loop: it takes a path of one code unit for that of the root directory, reads the
directory before it looks at the next component, and reads it from the start
cluster of any entry. A file entry looks a name up only if it is a directory.
-/

namespace FsFat

namespace FileEntry

/-- `libfsfat_file_entry_get_file_attribute_flags`, with none for the result 0. -/
def getFileAttributeFlags (fileEntry : FileEntry) : Option Nat :=
  fileEntry.directoryEntry.map (·.fileAttributeFlags)

section SubFileEntry

variable {υ : Type} (una : LibUna) (units : CodeUnits υ) (fs : FileSystem) (image : List UInt8)

/-- `libfsfat_internal_file_entry_get_sub_file_entry_by_utf8_name` and
`libfsfat_internal_file_entry_get_sub_file_entry_by_utf16_name`. -/
def getSubFileEntryByName (fileEntry : FileEntry) (string : List υ) :
    Except Error (Option FileEntry) := do
  match ← fileEntry.getDirectory fs image with
  | none => .error .missingDirectory
  | some directory =>
    match ← directory.getFileEntryByName una units string with
    | none => pure none
    | some subDirectoryEntry =>
      let safeDirectoryEntry ← subDirectoryEntry.clone
      pure (some (create subDirectoryEntry.identifier (some safeDirectoryEntry) none))

/-- Names that are looked up one after the other, each in the file entry of the
name before it. An empty name is not found. -/
def getSubFileEntryByNames : FileEntry → List (List υ) → Except Error (Option FileEntry)
  | fileEntry, [] => .ok (some fileEntry)
  | fileEntry, string :: strings =>
    if string.isEmpty then .ok none
    else do
      match ← fileEntry.getSubFileEntryByName una units fs image string with
      | none => pure none
      | some subFileEntry => getSubFileEntryByNames subFileEntry strings

end SubFileEntry

def getSubFileEntryByUtf8Name (una : LibUna) : FileSystem → List UInt8 → FileEntry → List UInt8 →
    Except Error (Option FileEntry) := getSubFileEntryByName una una.utf8Units

/-- The file entries have the same identifier, attributes, size and start
cluster. -/
structure SameAttributes (first second : FileEntry) : Prop where
  identifier : first.identifier = second.identifier
  fileAttributeFlags : first.getFileAttributeFlags = second.getFileAttributeFlags
  dataSize : first.dataSize = second.dataSize
  clusterNumber : first.clusterNumber = second.clusterNumber

end FileEntry

/-- The lookup of a path and that of its components have the same result, -1, 0
or 1, and the same file entry when it is 1. -/
def IsIteration : Except Error (Bool × FileEntry) → Except Error (Option FileEntry) → Prop
  | .error _, .error _ => True
  | .ok (false, _), .ok none => True
  | .ok (true, first), .ok (some second) => first.SameAttributes second
  | _, _ => False

theorem isIteration_error_right {result : Except Error (Bool × FileEntry)} {error : Error} :
    IsIteration result (.error error) ↔ ∃ error, result = .error error := by
  match result with
  | .error error => exact iff_of_true trivial ⟨error, rfl⟩
  | .ok (true, _) | .ok (false, _) =>
    apply iff_of_false id
    rintro ⟨_, hresult⟩
    cases hresult

/-- The components of a path, in UTF-8. -/
def utf8Components (s : List Char) : List (List UInt8) :=
  (components isPathSeparator (withoutLeadingSeparator s)).map utf8.encode

section Iteration

variable (una : LibUna) (fs : FileSystem) (image : List UInt8)

/-- The components that are left cannot be followed from a start cluster: there
is an error on the way. -/
inductive FailsAt : Nat → List (List Char) → Prop where
  | read {c : Nat} {component : List Char} {rest : List (List Char)} {error : Error} :
      readDirectory fs image c = .error error → FailsAt c (component :: rest)
  | compare {c : Nat} {component : List Char} {rest : List (List Char)} {directory : Directory}
      {error : Error} :
      readDirectory fs image c = .ok directory → component ≠ [] →
      directory.findName una component = .error error → FailsAt c (component :: rest)
  | next {c : Nat} {component : List Char} {rest : List (List Char)} {directory : Directory}
      {entry : DirectoryEntry} :
      readDirectory fs image c = .ok directory → component ≠ [] →
      directory.findName una component = .ok (some entry) →
      FailsAt entry.dataStartCluster rest → FailsAt c (component :: rest)

/-- On the way from an entry along the components, a name is looked up in
directories only, unless there is an error behind the entry as well. An entry
that is followed by an empty component can be read like a directory. -/
def FollowsDirectories : DirectoryEntry → List (List Char) → Prop
  | _, [] => True
  | entry, component :: rest =>
    if component = [] then
      ∃ directory, readDirectory fs image entry.dataStartCluster = .ok directory
    else if entry.fileAttributeFlags &&& fileAttributeFlagDirectory ≠ 0 then
      ∀ directory, readDirectory fs image entry.dataStartCluster = .ok directory →
        ∀ found, directory.findName una component = .ok (some found) →
          FollowsDirectories found rest
    else FailsAt una fs image entry.dataStartCluster (component :: rest)

/-- A path of one byte is a separator, and a longer one is followed through
directories. -/
structure IsPathOfDirectories (root : Directory) (s : List Char) : Prop where
  separator : ∀ c : Char, s = [c] → c.toNat < 0x80 → c.toNat = separator
  follows : ∀ component rest entry,
    components isPathSeparator (withoutLeadingSeparator s) = component :: rest → component ≠ [] →
    root.findName una component = .ok (some entry) → FollowsDirectories una fs image entry rest

end Iteration

/-! ### Following the components behind an entry -/

section Follow

variable {una : LibUna} {fs : FileSystem} {image : List UInt8} {root : Directory}

/-- The entry that is found is one that is equal. -/
theorem compare_of_findFileEntry {compare : DirectoryEntry → Except Error Ordering}
    {entries : List DirectoryEntry} {entry : DirectoryEntry}
    (h : findFileEntry compare entries = .ok (some entry)) : compare entry = .ok .eq := by
  induction entries with
  | nil => cases h
  | cons first entries ih =>
    obtain ⟨named, _, h⟩ := bind_eq_ok_iff.mp h
    obtain ⟨ordering, hordering, h⟩ := bind_eq_ok_iff.mp h
    cases ordering with
    | lt => exact ih h
    | gt => exact ih h
    | eq =>
      injection h with h
      injection h with h
      exact h ▸ hordering

theorem name_of_findName {directory : Directory} {component : List Char} {entry : DirectoryEntry}
    (h : directory.findName una component = .ok (some entry)) : ∃ name, entry.name = some name := by
  have hequal := compare_of_findFileEntry h
  apply Option.ne_none_iff_exists'.mp
  intro hname
  rw [hname] at hequal
  cases hequal

theorem not_failsAt_empty {c : Nat} {rest : List (List Char)} {directory : Directory}
    (hread : readDirectory fs image c = .ok directory) : ¬ FailsAt una fs image c ([] :: rest) := by
  intro hfails
  cases hfails with
  | read hfailed =>
    rw [hread] at hfailed
    cases hfailed
  | compare _ hne _ => exact hne rfl
  | next _ hne _ _ => exact hne rfl

/-- In a directory that was read, looking the name up fails, or what is behind
the entry that is found. -/
theorem failsAt_cons_iff {c : Nat} {component : List Char} {rest : List (List Char)}
    {directory : Directory} (hread : readDirectory fs image c = .ok directory)
    (hcomponent : component ≠ []) :
    FailsAt una fs image c (component :: rest) ↔
      (∃ error, directory.findName una component = .error error) ∨
        ∃ entry, directory.findName una component = .ok (some entry) ∧
          FailsAt una fs image entry.dataStartCluster rest := by
  constructor
  · intro hfails
    have hsame {other : Directory} (hother : readDirectory fs image c = .ok other) :
        other = directory := Except.ok.inj (hother.symm.trans hread)
    cases hfails with
    | read hfailed =>
      rw [hread] at hfailed
      cases hfailed
    | compare hother _ hfailed => exact .inl ⟨_, hsame hother ▸ hfailed⟩
    | next hother _ hfound hfails => exact .inr ⟨_, hsame hother ▸ hfound, hfails⟩
  · rintro (⟨error, hfailed⟩ | ⟨entry, hfound, hfails⟩)
    · exact .compare hread hcomponent hfailed
    · exact .next hread hcomponent hfound hfails

/-- The loop has found an entry: its name was determined, and the directory of
the next component is at its start cluster. -/
structure PathPosition.HasFound (position : PathPosition) (entry : DirectoryEntry) : Prop where
  isRoot : position.isRoot = false
  clusterNumber : position.clusterNumber = entry.dataStartCluster
  directoryEntry : position.directoryEntry = some entry
  result : position.result = true
  name : ∃ name, entry.name = some name

theorem hasFound_atEntry (position : PathPosition) {directory : Directory}
    {component : List Char} {entry : DirectoryEntry}
    (h : directory.findName una component = .ok (some entry)) :
    (position.atEntry directory entry).HasFound entry :=
  ⟨rfl, rfl, rfl, rfl, name_of_findName h⟩

/-- The lookup of a path from a position on. -/
def lookupFrom (una : LibUna) (fs : FileSystem) (image : List UInt8) (root : Directory)
    (position : PathPosition) (rest : List (List Char)) : Except Error (Bool × FileEntry) :=
  followPath una fs image root position rest >>= PathPosition.getFileEntry fs

namespace PathPosition.HasFound

variable {position : PathPosition} {entry : DirectoryEntry}

theorem getDirectory (h : position.HasFound entry) :
    position.getDirectory fs image root = readDirectory fs image entry.dataStartCluster := by
  rw [PathPosition.getDirectory, h.isRoot, h.clusterNumber]
  rfl

/-- The file entry that was found. -/
theorem lookup_nil (h : position.HasFound entry) (una : LibUna) (fs : FileSystem)
    (image : List UInt8) (root : Directory) :
    ∃ copy, entry.clone = .ok copy ∧ lookupFrom una fs image root position [] =
      .ok (true, .create entry.identifier (some copy) none) := by
  obtain ⟨name, hname⟩ := h.name
  have hcopy := DirectoryEntry.clone_of_name hname
  refine ⟨_, hcopy, ?_⟩
  simp only [lookupFrom, followPath, bind, Except.bind, PathPosition.getFileEntry,
    h.directoryEntry, hcopy, h.result]
  rfl

variable (una root)

/-- The directory of the next component cannot be read. -/
theorem lookup_unreadable (h : position.HasFound entry) (component : List Char)
    (rest : List (List Char)) {error : Error}
    (hread : readDirectory fs image entry.dataStartCluster = .error error) :
    lookupFrom una fs image root position (component :: rest) = .error error := by
  simp only [lookupFrom, followPath, h.getDirectory, hread, bind, Except.bind]

/-- An empty component is not found. -/
theorem lookup_empty (h : position.HasFound entry) (rest : List (List Char))
    {directory : Directory} (hread : readDirectory fs image entry.dataStartCluster = .ok directory) :
    ∃ fileEntry, lookupFrom una fs image root position ([] :: rest) = .ok (false, fileEntry) := by
  obtain ⟨name, hname⟩ := h.name
  have hcopy := DirectoryEntry.clone_of_name hname
  simp only [lookupFrom, followPath, h.getDirectory, hread, bind, Except.bind, if_true, pure,
    Except.pure, PathPosition.getFileEntry, PathPosition.atEmptyComponent, h.directoryEntry, hcopy]
  exact ⟨_, rfl⟩

/-- What the next component comes to, in the directory that was read. -/
theorem lookup_cons (h : position.HasFound entry) {component : List Char}
    (hcomponent : component ≠ []) (rest : List (List Char)) {directory : Directory}
    (hread : readDirectory fs image entry.dataStartCluster = .ok directory) :
    (∃ error, directory.findName una component = .error error ∧
      lookupFrom una fs image root position (component :: rest) = .error error) ∨
    (directory.findName una component = .ok none ∧
      ∃ fileEntry, lookupFrom una fs image root position (component :: rest) =
        .ok (false, fileEntry)) ∨
    ∃ found, directory.findName una component = .ok (some found) ∧
      lookupFrom una fs image root position (component :: rest) =
        lookupFrom una fs image root (position.atEntry directory found) rest := by
  cases hfind : directory.findName una component with
  | error error =>
    refine .inl ⟨error, rfl, ?_⟩
    simp only [lookupFrom, followPath, h.getDirectory, hread, bind, Except.bind,
      if_neg hcomponent, hfind]
  | ok found =>
    cases found with
    | none =>
      refine .inr (.inl ⟨rfl, ?_⟩)
      simp only [lookupFrom, followPath, h.getDirectory, hread, bind, Except.bind,
        if_neg hcomponent, hfind]
      exact ⟨_, rfl⟩
    | some found =>
      refine .inr (.inr ⟨found, rfl, ?_⟩)
      simp only [lookupFrom, followPath, h.getDirectory, hread, bind, Except.bind,
        if_neg hcomponent, hfind]

variable {una root}

/-- The loop comes to an error behind an entry exactly if there is one on the
way. -/
theorem lookup_error_iff (h : position.HasFound entry) (rest : List (List Char)) :
    (∃ error, lookupFrom una fs image root position rest = .error error) ↔
      FailsAt una fs image entry.dataStartCluster rest := by
  induction rest generalizing position entry with
  | nil =>
    obtain ⟨copy, _, hlookup⟩ := h.lookup_nil una fs image root
    refine iff_of_false ?_ fun hfails => nomatch hfails
    simp [hlookup]
  | cons component rest ih =>
    cases hread : readDirectory fs image entry.dataStartCluster with
    | error error =>
      exact iff_of_true ⟨error, h.lookup_unreadable una root component rest hread⟩ (.read hread)
    | ok directory =>
      by_cases hcomponent : component = []
      · subst hcomponent
        obtain ⟨fileEntry, hlookup⟩ := h.lookup_empty una root rest hread
        refine iff_of_false ?_ (not_failsAt_empty hread)
        simp [hlookup]
      · rw [failsAt_cons_iff hread hcomponent]
        rcases h.lookup_cons una root hcomponent rest hread with
          ⟨error, hfind, hlookup⟩ | ⟨hfind, fileEntry, hlookup⟩ | ⟨found, hfind, hlookup⟩
        · exact iff_of_true ⟨error, hlookup⟩ (.inl ⟨error, hfind⟩)
        · simp [hlookup, hfind]
        · rw [hlookup, ih (hasFound_atEntry position hfind), hfind]
          simp

end PathPosition.HasFound

end Follow

section Encoded

variable {υ : Type} {e : Encoding Char υ} {units : CodeUnits υ} {una : LibUna} {fs : FileSystem}
  {image : List UInt8} {root : Directory}

/-- A name that is looked up in a directory. -/
theorem getSubFileEntryByNames_cons (h : IsStringEncoding e units) {fileEntry : FileEntry}
    {directory : Directory} (hdirectory : fileEntry.getDirectory fs image = .ok (some directory))
    {component : List Char} (hcomponent : component ≠ [])
    (hlength : (e.encode component).length ≤ ssizeMax) (rest : List (List υ)) :
    fileEntry.getSubFileEntryByNames una units fs image (e.encode component :: rest) =
      match directory.findName una component with
      | .error error => .error error
      | .ok none => .ok none
      | .ok (some found) => found.clone >>= fun copy =>
        (FileEntry.create found.identifier (some copy) none).getSubFileEntryByNames una units fs
          image rest := by
  have hne := e.isEmpty_encode_of_ne_nil hcomponent
  rw [FileEntry.getSubFileEntryByNames, FileEntry.getSubFileEntryByName, hdirectory]
  simp only [hne, bind, Except.bind, getFileEntryByName_encode h una directory component hlength]
  cases directory.findName una component with
  | error error => rfl
  | ok found =>
    cases found with
    | none => rfl
    | some found => cases hclone : found.clone <;> simp [hclone, pure, Except.pure]

/-- A name that is looked up where there is no directory. -/
theorem getSubFileEntryByNames_error (e : Encoding Char υ) (una : LibUna) (units : CodeUnits υ)
    {fileEntry : FileEntry}
    (hdirectory : ∀ directory, fileEntry.getDirectory fs image ≠ .ok (some directory))
    {component : List Char} (hcomponent : component ≠ []) (rest : List (List υ)) :
    ∃ error, fileEntry.getSubFileEntryByNames una units fs image (e.encode component :: rest) =
      .error error := by
  have hne := e.isEmpty_encode_of_ne_nil hcomponent
  rw [FileEntry.getSubFileEntryByNames, FileEntry.getSubFileEntryByName]
  simp only [hne, bind, Except.bind]
  cases hget : fileEntry.getDirectory fs image with
  | error error => exact ⟨error, rfl⟩
  | ok directory =>
    cases directory with
    | none => exact ⟨_, rfl⟩
    | some directory => exact absurd hget (hdirectory directory)

/-- Behind an entry that was found, the lookup of a path goes on as that of its
components does exactly if it follows directories. -/
theorem isIteration_iff_of_hasFound (h : IsStringEncoding e units) (una : LibUna)
    (fs : FileSystem) (image : List UInt8) (root : Directory) {position : PathPosition}
    {entry copy : DirectoryEntry} (hposition : position.HasFound entry)
    (hcopy : entry.clone = .ok copy) {rest : List (List Char)}
    (hrest : ∀ component ∈ rest, (e.encode component).length ≤ ssizeMax) :
    IsIteration (lookupFrom una fs image root position rest)
        ((FileEntry.create entry.identifier (some copy) none).getSubFileEntryByNames una units fs
          image (rest.map e.encode)) ↔
      FollowsDirectories una fs image entry rest := by
  induction rest generalizing position entry copy with
  | nil =>
    obtain ⟨copy', hcopy', hlookup⟩ := hposition.lookup_nil una fs image root
    obtain rfl : copy' = copy := Except.ok.inj (hcopy'.symm.trans hcopy)
    rw [hlookup]
    exact iff_of_true ⟨rfl, rfl, rfl, rfl⟩ trivial
  | cons component rest ih =>
    obtain ⟨hlength, hrest⟩ := List.forall_mem_cons.mp hrest
    rw [FollowsDirectories, List.map_cons]
    by_cases hcomponent : component = []
    · subst hcomponent
      rw [if_pos rfl, Encoding.encode_nil]
      cases hread : readDirectory fs image entry.dataStartCluster with
      | error error =>
        rw [hposition.lookup_unreadable una root [] rest hread]
        apply iff_of_false id
        rintro ⟨_, hdirectory⟩
        cases hdirectory
      | ok directory =>
        obtain ⟨fileEntry, hlookup⟩ := hposition.lookup_empty una root rest hread
        rw [hlookup]
        exact iff_of_true trivial ⟨directory, rfl⟩
    · rw [if_neg hcomponent]
      have hdirectory := getDirectory_create fs image hcopy entry.identifier
      split_ifs at hdirectory ⊢ with hflag
      · cases hread : readDirectory fs image entry.dataStartCluster with
        | error error =>
          rw [hread] at hdirectory
          obtain ⟨_, hnames⟩ := getSubFileEntryByNames_error e una units
            (fun directory hsome => by rw [hdirectory] at hsome; cases hsome) hcomponent
            (rest.map e.encode)
          rw [hnames, isIteration_error_right]
          refine iff_of_true ⟨error, hposition.lookup_unreadable una root component rest hread⟩ ?_
          intro directory hother
          cases hother
        | ok directory =>
          rw [hread] at hdirectory
          rw [getSubFileEntryByNames_cons h hdirectory hcomponent hlength]
          rcases hposition.lookup_cons una root hcomponent rest hread with
            ⟨error, hfind, hlookup⟩ | ⟨hfind, fileEntry, hlookup⟩ | ⟨found, hfind, hlookup⟩
          · simp [hfind, hlookup, IsIteration]
          · simp [hfind, hlookup, IsIteration]
          · obtain ⟨name, hname⟩ := name_of_findName hfind
            have hclone := DirectoryEntry.clone_of_name hname
            have hbehind := ih (hasFound_atEntry position hfind) hclone hrest
            simp only [hfind, hlookup, hclone, bind, Except.bind, hbehind, Except.ok.injEq,
              Option.some.injEq, forall_eq']
      · obtain ⟨_, hnames⟩ := getSubFileEntryByNames_error e una units
          (fun directory hsome => by rw [hdirectory] at hsome; cases hsome) hcomponent
          (rest.map e.encode)
        rw [hnames, isIteration_error_right]
        exact hposition.lookup_error_iff (component :: rest)

/-- A path that has a component is looked up as its components are exactly if it
follows directories behind the first one. -/
theorem isIteration_iff_of_start (h : IsStringEncoding e units) {component : List Char}
    {rest : List (List Char)}
    (hlength : ∀ other ∈ component :: rest, (e.encode other).length ≤ ssizeMax) :
    IsIteration (lookupFrom una fs image root (.start root) (component :: rest))
        ((getRootDirectory fs root).getSubFileEntryByNames una units fs image
          ((component :: rest).map e.encode)) ↔
      (component ≠ [] → ∀ entry, root.findName una component = .ok (some entry) →
        FollowsDirectories una fs image entry rest) := by
  obtain ⟨hcomponentLength, hrest⟩ := List.forall_mem_cons.mp hlength
  have hdirectory : (getRootDirectory fs root).getDirectory fs image = .ok (some root) := rfl
  have hstart : (PathPosition.start root).getDirectory fs image root = .ok root := rfl
  rw [List.map_cons]
  by_cases hcomponent : component = []
  · subst hcomponent
    exact iff_of_true trivial fun hne => absurd rfl hne
  · rw [getSubFileEntryByNames_cons h hdirectory hcomponent hcomponentLength]
    simp only [lookupFrom, followPath, hstart, bind, Except.bind, if_neg hcomponent]
    cases hfind : root.findName una component with
    | error error => simp [IsIteration]
    | ok found =>
      cases found with
      | none => simp [IsIteration, PathPosition.getFileEntry, PathPosition.atMissing, pure,
          Except.pure]
      | some found =>
        obtain ⟨name, hname⟩ := name_of_findName hfind
        have hclone := DirectoryEntry.clone_of_name hname
        have hbehind := isIteration_iff_of_hasFound h una fs image root
          (hasFound_atEntry (.start root) hfind) hclone hrest
        simp only [lookupFrom, bind, Except.bind] at hbehind
        simp only [hclone, hbehind, Except.ok.injEq, Option.some.injEq, forall_eq', hcomponent,
          not_false_eq_true, forall_const, ne_eq]

/-- Looking up one name does not lead to the root directory. -/
theorem getFileAttributeFlags_of_getSubFileEntryByNames {fileEntry found : FileEntry}
    {string : List υ}
    (h : fileEntry.getSubFileEntryByNames una units fs image [string] = .ok (some found)) :
    found.getFileAttributeFlags ≠ none := by
  rw [FileEntry.getSubFileEntryByNames] at h
  split at h
  · cases h
  · obtain ⟨sub, hsub, h⟩ := bind_eq_ok_iff.mp h
    cases sub with
    | none => cases h
    | some sub =>
      injection h with h
      injection h with h
      subst h
      obtain ⟨directory, _, hsub⟩ := bind_eq_ok_iff.mp hsub
      cases directory with
      | none => cases hsub
      | some directory =>
        obtain ⟨entry, _, hsub⟩ := bind_eq_ok_iff.mp hsub
        cases entry with
        | none => cases hsub
        | some entry =>
          obtain ⟨copy, _, hsub⟩ := bind_eq_ok_iff.mp hsub
          injection hsub with hsub
          injection hsub with hsub
          subst hsub
          exact Option.some_ne_none _

end Encoded

/-! ### The lookup of a path -/

section Path

variable {una : LibUna} {fs : FileSystem} {image : List UInt8} {root : Directory}

/-- Without its leading separator a path of at least two bytes is not empty. -/
theorem withoutLeadingSeparator_ne_nil {s : List Char} (h : ¬ (utf8.encode s).length ≤ 1) :
    withoutLeadingSeparator s ≠ [] := by
  intro hnil
  apply h
  apply length_encode_utf8_le_one_iff.mpr
  unfold withoutLeadingSeparator at hnil
  split at hnil
  · next hhead =>
    obtain ⟨c, hfirst, hc⟩ := Option.map_eq_some_iff.mp hhead
    refine .inr ⟨c, ?_, by rw [hc]; decide⟩
    rw [← List.cons_head?_tail hfirst, hnil]
  · exact .inl hnil

/-- A path of one character that is not a separator has one component. -/
theorem components_singleton {c : Char} (hc : c.toNat ≠ separator) :
    ∃ component, components isPathSeparator (withoutLeadingSeparator [c]) = [component] := by
  have hpath : withoutLeadingSeparator [c] = [c] := if_neg (by simpa using hc)
  rw [hpath, components, components]
  split
  · exact ⟨_, rfl⟩
  · exact ⟨_, rfl⟩

/-- A path of one byte is taken for that of the root directory. -/
theorem not_isIteration_of_singleton (huna : utf8.IsReadBy Char.toNat una.copyFromUtf8) {c : Char}
    (hlt : c.toNat < 0x80) (hc : c.toNat ≠ separator) :
    ¬ IsIteration (getFileEntryByUtf8Path una fs image root (utf8.encode [c]))
      ((getRootDirectory fs root).getSubFileEntryByNames una una.utf8Units fs image
        (utf8Components [c])) := by
  have hone : (utf8.encode [c]).length ≤ 1 := length_encode_utf8_le_one_iff.mpr (.inr ⟨c, rfl, hlt⟩)
  have hpath : getFileEntryByUtf8Path una fs image root (utf8.encode [c]) =
      .ok (true, .create (rootIdentifier fs.ioHandle) none (some root)) :=
    (getFileEntryByPath_encode (isStringEncoding_utf8 huna) (le_trans hone (by decide))).trans
      (if_pos hone)
  obtain ⟨component, hcomponent⟩ := components_singleton hc
  rw [hpath, utf8Components, hcomponent, List.map_singleton]
  intro hsame
  match hnames : (getRootDirectory fs root).getSubFileEntryByNames una una.utf8Units fs image
      [utf8.encode component] with
  | .error _ =>
    rw [hnames] at hsame
    exact hsame
  | .ok none =>
    rw [hnames] at hsame
    exact hsame
  | .ok (some found) =>
    rw [hnames] at hsame
    exact getFileAttributeFlags_of_getSubFileEntryByNames hnames hsame.fileAttributeFlags.symm

/-- The lookup of a path in UTF-8 comes to what looking up its components one by
one comes to exactly if it is a path of directories. -/
theorem isIteration_iff (huna : utf8.IsReadBy Char.toNat una.copyFromUtf8) (s : List Char)
    (hlength : (utf8.encode s).length ≤ ssizeMax) :
    IsIteration (getFileEntryByUtf8Path una fs image root (utf8.encode s))
        ((getRootDirectory fs root).getSubFileEntryByNames una una.utf8Units fs image
          (utf8Components s)) ↔
      IsPathOfDirectories una fs image root s := by
  have hencoding := isStringEncoding_utf8 huna
  have hpath : getFileEntryByUtf8Path una fs image root (utf8.encode s) = _ :=
    getFileEntryByPath_encode hencoding hlength
  by_cases hone : (utf8.encode s).length ≤ 1
  · rcases length_encode_utf8_le_one_iff.mp hone with rfl | ⟨c, rfl, hlt⟩
    · rw [hpath, if_pos hone]
      refine iff_of_true ⟨rfl, rfl, rfl, rfl⟩ ⟨?_, ?_⟩
      · intro c hs
        cases hs
      · intro component rest entry hcomponents
        cases hcomponents
    · by_cases hc : c.toNat = separator
      · have hnil : components isPathSeparator (withoutLeadingSeparator [c]) = [] := by
          rw [withoutLeadingSeparator, List.head?_cons, Option.map_some, if_pos (congrArg some hc)]
          rfl
        rw [hpath, if_pos hone, utf8Components, hnil]
        refine iff_of_true ⟨rfl, rfl, rfl, rfl⟩ ⟨?_, ?_⟩
        · intro d hd _
          injection hd with hd
          exact hd ▸ hc
        · intro component rest entry hcomponents
          rw [hnil] at hcomponents
          cases hcomponents
      · apply iff_of_false (not_isIteration_of_singleton huna hlt hc)
        intro hdirectories
        exact hc (hdirectories.separator c rfl hlt)
  · rw [hpath, if_neg hone, utf8Components]
    cases hcomponents : components isPathSeparator (withoutLeadingSeparator s) with
    | nil =>
      exact absurd hcomponents (components_ne_nil (withoutLeadingSeparator_ne_nil hone))
    | cons component rest =>
      have hle : ∀ other ∈ component :: rest, (utf8.encode other).length ≤ ssizeMax := by
        intro other hother
        rw [← hcomponents] at hother
        apply le_trans (utf8.length_encode_le_of_mem_components hother)
        refine le_trans ?_ hlength
        unfold withoutLeadingSeparator
        split
        · cases s with
          | nil => exact Nat.le_refl _
          | cons c s =>
            rw [List.tail_cons, Encoding.encode_cons, List.length_append]
            exact Nat.le_add_left _ _
        · exact Nat.le_refl _
      refine (isIteration_iff_of_start hencoding hle).trans ⟨fun hfollows => ⟨?_, ?_⟩, ?_⟩
      · intro c hs hlt
        exact absurd (length_encode_utf8_le_one_iff.mpr (.inr ⟨c, hs, hlt⟩)) hone
      · intro first others entry hfirst hne hfound
        obtain ⟨rfl, rfl⟩ := List.cons.inj (hcomponents.symm.trans hfirst)
        exact hfollows hne entry hfound
      · intro hdirectories hne entry hfound
        exact hdirectories.follows component rest entry hcomponents hne hfound

end Path

/-- The path of the file of this volume, with a leading separator. -/
theorem isIteration_iff_rootFile :
    ∃ opened fs root,
      Volume.openFileIOHandle rootFileEnvironment accessFlagRead .create = (.ok (), opened) ∧
      opened.fileSystem = some ⟨some fs, some root⟩ ∧
      (IsIteration
          (getFileEntryByUtf8Path wellFormedLibUna fs rootFileImage root
            (utf8.encode [separatorCharacter, 'A']))
          ((getRootDirectory fs root).getSubFileEntryByNames wellFormedLibUna
            wellFormedLibUna.utf8Units fs rootFileImage
            (utf8Components [separatorCharacter, 'A'])) ↔
        IsPathOfDirectories wellFormedLibUna fs rootFileImage root [separatorCharacter, 'A']) := by
  obtain ⟨opened, fs, root, hopen, hfs, _⟩ := open_rootFile
  exact ⟨opened, fs, root, hopen, hfs,
    isIteration_iff readsUnicode_wellFormedLibUna.utf8 _ (by decide)⟩

/-- The path of one byte that is the name of the file of this volume is that of
the root directory. -/
theorem one_byte_path_is_root :
    utf8.encode ['A'] = [0x41] ∧ utf8Components ['A'] = [[0x41]] ∧
    ∃ opened fs root,
      Volume.openFileIOHandle rootFileEnvironment accessFlagRead .create = (.ok (), opened) ∧
      opened.fileSystem = some ⟨some fs, some root⟩ ∧
      getFileEntryByUtf8Path wellFormedLibUna fs rootFileImage root [0x41] =
        .ok (true, getRootDirectory fs root) ∧
      ¬ IsIteration (getFileEntryByUtf8Path wellFormedLibUna fs rootFileImage root [0x41])
        ((getRootDirectory fs root).getSubFileEntryByNames wellFormedLibUna
          wellFormedLibUna.utf8Units fs rootFileImage [[0x41]]) := by
  refine ⟨by decide, by decide, ?_⟩
  obtain ⟨opened, fs, root, hopen, hfs, _⟩ := open_rootFile
  refine ⟨opened, fs, root, hopen, hfs, rfl, ?_⟩
  have hne : 'A'.toNat ≠ separator := by decide
  exact not_isIteration_of_singleton readsUnicode_wellFormedLibUna.utf8 (by decide) hne

end FsFat
