import FsFat.UnicodePath

/-!
Names whose characters libuna reads, and what a path made of such names leads
to. In a directory whose names differ, a name leads to its own entry.
-/

namespace FsFat

/-! ### The characters of a name -/

namespace Name

/-- The characters from an index to the end are read one by one. -/
inductive ReadsFrom (copy : Nat → Except Error (Nat × Nat)) (size : Nat) :
    Nat → List Char → Prop where
  | nil {index : Nat} : size ≤ index → ReadsFrom copy size index []
  | cons {index next : Nat} {c : Char} {s : List Char} : index < size →
      copy index = .ok (c.toNat, next) → ReadsFrom copy size next s →
      ReadsFrom copy size index (c :: s)

/-- The characters of a name with its size and its encoding are read. -/
def Reads (una : LibUna) (isUnicode : Bool) (name : List UInt8) (s : List Char) : Prop :=
  ReadsFrom (copyCharacter una isUnicode (withoutTerminator isUnicode name))
    (withoutTerminator isUnicode name).length 0 s

/-- The comparison of a string with a name that is read is that of their folded characters in
lexicographic order. -/
theorem compareFrom_of_readsFrom {copy : Nat → Except Error (Nat × Nat)} {size index : Nat}
    {name : List Char} (h : ReadsFrom copy size index name) (fold : Nat → Nat) (s : List Char) :
    ∃ result, compareFrom copy fold size index s = .ok result ∧
      result.Compares (s.map fun c => fold c.toNat) (name.map fun c => fold c.toNat) := by
  induction h generalizing s with
  | nil hend =>
    cases s with
    | nil => exact ⟨.eq, if_neg (Nat.not_lt.mpr hend), rfl⟩
    | cons d s => exact ⟨.gt, if_neg (Nat.not_lt.mpr hend), List.Lex.nil⟩
  | @cons index next c name hlt hcopy _ ih =>
    cases s with
    | nil => exact ⟨.lt, if_pos hlt, List.Lex.nil⟩
    | cons d s =>
      rw [compareFrom, if_pos hlt]
      simp only [hcopy, bind, Except.bind, List.map_cons]
      rcases lt_trichotomy (fold d.toNat) (fold c.toNat) with hless | heq | hmore
      · rw [if_pos hless]
        exact ⟨.lt, rfl, List.Lex.rel hless⟩
      · obtain ⟨result, hresult, hcompares⟩ := ih s
        rw [if_neg heq.not_lt, if_neg heq.not_gt, heq]
        refine ⟨result, hresult, ?_⟩
        cases result with
        | lt => exact List.Lex.cons hcompares
        | eq => exact congrArg _ hcompares
        | gt => exact List.Lex.cons hcompares
      · rw [if_neg hmore.not_gt, if_pos hmore]
        exact ⟨.gt, rfl, List.Lex.rel hmore⟩

end Name

/-- How the characters of a name are compared. -/
def LibUna.foldName (una : LibUna) (s : List Char) : List Nat := s.map fun c => una.towupper c.toNat

namespace DirectoryEntry

/-- The name of an entry has these characters. -/
def HasName (una : LibUna) (entry : DirectoryEntry) (characters : List Char) : Prop :=
  ∃ named name, entry.determineName = .ok named ∧ named.name = some name ∧ 0 < named.nameSize ∧
    named.nameSize ≤ ssizeMax ∧ Name.Reads una named.isUnicode (name.take named.nameSize) characters

variable {una : LibUna}

/-- The entry is that of the same file, whatever its name is. -/
def SameEntry (first second : DirectoryEntry) : Prop :=
  first.identifier = second.identifier ∧ first.dataStartCluster = second.dataStartCluster ∧
    first.fileAttributeFlags = second.fileAttributeFlags

theorem sameEntry_of_setNameFromSegments {maximum : Nat} {segments : List (List UInt8)}
    {entry named : DirectoryEntry} (h : entry.setNameFromSegments maximum segments = .ok named) :
    SameEntry named entry := by
  unfold setNameFromSegments at h
  split_ifs at h
  injection h with h
  subst h
  exact ⟨rfl, rfl, rfl⟩

theorem sameEntry_of_getName {entry named : DirectoryEntry} (h : entry.getName = .ok named) :
    SameEntry named entry := by
  unfold getName at h
  split at h
  · cases h
  · split at h
    · exact sameEntry_of_setNameFromSegments h
    · split at h <;> (injection h with h; subst h; exact ⟨rfl, rfl, rfl⟩)

theorem sameEntry_of_determineName {entry named : DirectoryEntry}
    (h : entry.determineName = .ok named) : SameEntry named entry := by
  unfold determineName at h
  split at h
  · exact sameEntry_of_getName h
  · injection h with h
    subst h
    exact ⟨rfl, rfl, rfl⟩

theorem sameEntry_of_clone {entry copy : DirectoryEntry} (h : entry.clone = .ok copy) :
    SameEntry copy entry := by
  obtain ⟨named, hnamed, heq⟩ := bind_eq_ok_iff.mp h
  injection heq with heq
  subst heq
  obtain ⟨hidentifier, hcluster, hflags⟩ := sameEntry_of_determineName hnamed
  exact ⟨hidentifier, hcluster, hflags⟩

/-- An entry whose name was determined is copied. -/
theorem clone_of_name {entry : DirectoryEntry} {name : List UInt8} (h : entry.name = some name) :
    entry.clone = .ok { entry with nameEntries := none } := by
  have hnamed : entry.determineName = .ok entry := if_neg (by simp [h])
  rw [clone, hnamed]
  rfl

theorem hasName_of_getElem {entries : List DirectoryEntry} {names : List (List Char)}
    (h : List.Forall₂ (HasName una) entries names) {index : Nat} {entry : DirectoryEntry}
    {name : List Char} (hentry : entries[index]? = some entry)
    (hname : names[index]? = some name) : entry.HasName una name := by
  obtain ⟨hentryIndex, rfl⟩ := List.getElem?_eq_some_iff.mp hentry
  obtain ⟨hnameIndex, rfl⟩ := List.getElem?_eq_some_iff.mp hname
  exact (List.forall₂_iff_get.mp h).2 index hentryIndex hnameIndex

/-- The comparison with an entry whose name has these characters. -/
theorem HasName.compare {entry : DirectoryEntry} {characters : List Char}
    (h : HasName una entry characters) :
    ∃ named, entry.determineName = .ok named ∧ named.name ≠ none ∧ ∀ s, ∃ result,
      Name.compareWithCharacters una named.name named.nameSize named.isUnicode s true =
        .ok result ∧
      (result = .eq ↔
        una.foldName (Name.charactersWithoutTerminator s) = una.foldName characters) := by
  obtain ⟨named, name, hnamed, hname, hpos, hmax, hreads⟩ := h
  refine ⟨named, hnamed, by rw [hname]; exact Option.some_ne_none name, fun s => ?_⟩
  rw [hname, Name.compareWithCharacters, if_neg (Nat.not_lt.mpr hmax), if_neg hpos.ne']
  obtain ⟨result, hresult, hcompares⟩ := Name.compareFrom_of_readsFrom hreads
    (Name.caseFolding una true) (Name.charactersWithoutTerminator s)
  exact ⟨result, hresult, hcompares.eq_eq⟩

end DirectoryEntry

/-! ### Names in a directory -/

section Names

variable {una : LibUna} {fs : FileSystem} {image : List UInt8} {root : Directory}

/-- What a sub file entry is made of. -/
theorem FileEntry.getSubFileEntryByIndex_eq_ok_iff {fileEntry subFileEntry : FileEntry}
    {index : Nat} :
    fileEntry.getSubFileEntryByIndex fs image index = .ok subFileEntry ↔
      ∃ directory entry copy, fileEntry.getDirectory fs image = .ok (some directory) ∧
        directory.fileEntries[index]? = some entry ∧ entry.clone = .ok copy ∧
        subFileEntry = .create entry.identifier (some copy) none := by
  constructor
  · intro h
    obtain ⟨read, hread, h⟩ := bind_eq_ok_iff.mp h
    cases read with
    | none => cases h
    | some directory =>
      obtain ⟨entry, hentry, h⟩ := bind_eq_ok_iff.mp h
      obtain ⟨copy, hcopy, h⟩ := bind_eq_ok_iff.mp h
      injection h with h
      refine ⟨directory, entry, copy, hread, ?_, hcopy, h.symm⟩
      unfold Directory.getFileEntryByIndex at hentry
      split at hentry
      · next hindex =>
        injection hentry with hentry
        rw [hindex, hentry]
      · cases hentry
  · rintro ⟨directory, entry, copy, hread, hindex, hcopy, rfl⟩
    simp only [FileEntry.getSubFileEntryByIndex, hread, Directory.getFileEntryByIndex, hindex,
      hcopy, bind, Except.bind, pure, Except.pure]

/-- Nothing is removed from a name without an end of string character. -/
theorem charactersWithoutTerminator_of_forall {s : List Char} (h : ∀ c ∈ s, c.toNat ≠ 0) :
    Name.charactersWithoutTerminator s = s := by
  rw [Name.charactersWithoutTerminator, if_neg]
  rintro hlast
  obtain ⟨c, hc, hzero⟩ := Option.map_eq_some_iff.mp hlast
  exact h c (List.mem_of_getLast? hc) hzero

theorem length_charactersWithoutTerminator_le (s : List Char) :
    (Name.charactersWithoutTerminator s).length ≤ s.length := by
  unfold Name.charactersWithoutTerminator
  split
  · rw [List.length_dropLast]
    exact Nat.sub_le _ _
  · exact Nat.le_refl _

/-- Names that are compared as equal have as many characters. -/
theorem length_eq_of_foldName {s t : List Char} (h : una.foldName s = una.foldName t) :
    s.length = t.length := by
  have hlength := congrArg List.length h
  rwa [LibUna.foldName, LibUna.foldName, List.length_map, List.length_map] at hlength

/-- A name leads to the first entry whose name folds to the same characters. -/
theorem findFileEntry_first {entries : List DirectoryEntry} {names : List (List Char)}
    (hnames : List.Forall₂ (DirectoryEntry.HasName una) entries names) {first : Nat}
    {entry : DirectoryEntry} {name s : List Char} (hentry : entries[first]? = some entry)
    (hname : names[first]? = some name)
    (hs : una.foldName (Name.charactersWithoutTerminator s) = una.foldName name)
    (hbefore : ∀ index < first, ∀ other, names[index]? = some other →
      una.foldName other ≠ una.foldName name) :
    ∃ named, entry.determineName = .ok named ∧ named.name ≠ none ∧
      findFileEntry (fun entry => Name.compareWithCharacters una entry.name entry.nameSize
        entry.isUnicode s true) entries = .ok (some named) := by
  induction hnames generalizing first with
  | nil => cases hentry
  | @cons head headName entries names hhead _ ih =>
    obtain ⟨named, hnamed, hne, hcompare⟩ := hhead.compare
    obtain ⟨result, hresult, hiff⟩ := hcompare s
    cases first with
    | zero =>
      injection hentry with hentry
      injection hname with hname
      subst hentry hname
      refine ⟨named, hnamed, hne, ?_⟩
      have heq := hiff.mpr hs
      subst heq
      rw [findFileEntry]
      simp only [hnamed, hresult, bind, Except.bind]
      rfl
    | succ first =>
      obtain ⟨found, hfound, hfoundName, hfind⟩ := ih hentry hname fun index hindex =>
        hbefore (index + 1) (Nat.succ_lt_succ hindex)
      refine ⟨found, hfound, hfoundName, ?_⟩
      have hother : result ≠ .eq := by
        intro heq
        exact hbefore 0 (Nat.succ_pos first) headName rfl ((hiff.mp heq).symm.trans hs)
      rw [findFileEntry]
      simp only [hnamed, hresult, hfind, bind, Except.bind]

theorem foldName_ne_of_nodup {names : List (List Char)} (hdistinct : (names.map una.foldName).Nodup)
    {index : Nat} {name : List Char} (hname : names[index]? = some name) :
    ∀ earlier < index, ∀ other, names[earlier]? = some other →
      una.foldName other ≠ una.foldName name := by
  intro earlier hearlier other hother heq
  have hlt : index < (names.map una.foldName).length := by
    rw [List.length_map]
    exact (List.getElem?_eq_some_iff.mp hname).1
  have hne := List.nodup_iff_getElem?_ne_getElem?.mp hdistinct earlier index hearlier hlt
  rw [List.getElem?_map, List.getElem?_map, hother, hname, Option.map_some, Option.map_some] at hne
  exact hne (congrArg some heq)

/-- Where the names differ, a name leads to the entry that has it. -/
theorem findFileEntry_of_hasName {entries : List DirectoryEntry} {names : List (List Char)}
    (hnames : List.Forall₂ (DirectoryEntry.HasName una) entries names)
    (hdistinct : (names.map una.foldName).Nodup) {index : Nat} {entry : DirectoryEntry}
    {name s : List Char} (hentry : entries[index]? = some entry)
    (hname : names[index]? = some name)
    (hs : una.foldName (Name.charactersWithoutTerminator s) = una.foldName name) :
    ∃ named, entry.determineName = .ok named ∧ named.name ≠ none ∧
      findFileEntry (fun entry => Name.compareWithCharacters una entry.name entry.nameSize
        entry.isUnicode s true) entries = .ok (some named) := by
  exact findFileEntry_first hnames hentry hname hs (foldName_ne_of_nodup hdistinct hname)

/-- A name leads to the entry at its index, if no entry before it has the same name. The copies of
the entry that is found are those of that entry. -/
theorem findName_of_hasName {directory : Directory} {index : Nat} {entry copy : DirectoryEntry}
    (hentry : directory.fileEntries[index]? = some entry) (hcopy : entry.clone = .ok copy)
    {names : List (List Char)}
    (hnames : List.Forall₂ (DirectoryEntry.HasName una) directory.fileEntries names)
    {name : List Char} (hname : names[index]? = some name)
    (hbefore : ∀ earlier < index, ∀ other, names[earlier]? = some other →
      una.foldName other ≠ una.foldName name) (hnul : ∀ c ∈ name, c.toNat ≠ 0) :
    ∃ named, directory.findName una name = .ok (some named) ∧ named.clone = .ok copy ∧
      named.identifier = entry.identifier := by
  obtain ⟨named, hnamed, hnamedName, hfind⟩ := findFileEntry_first hnames hentry hname (s := name)
    (by rw [charactersWithoutTerminator_of_forall hnul]) hbefore
  obtain ⟨bytes, hbytes⟩ := Option.ne_none_iff_exists'.mp hnamedName
  have hsame : copy = { named with nameEntries := none } := by
    rw [DirectoryEntry.clone, hnamed] at hcopy
    injection hcopy with hcopy
    exact hcopy.symm
  refine ⟨named, hfind, ?_, (DirectoryEntry.sameEntry_of_determineName hnamed).1⟩
  rw [DirectoryEntry.clone_of_name hbytes, hsame]

/-! ### Following a path in two parts -/

/-- A path with the result 1 found its first component. -/
theorem followPath_cons_of_result {component : List Char} {rest : List (List Char)}
    {position last : PathPosition}
    (h : followPath una fs image root position (component :: rest) = .ok last)
    (hlast : last.result = true) :
    component ≠ [] ∧ ∃ directory entry, position.getDirectory fs image root = .ok directory ∧
      directory.findName una component = .ok (some entry) ∧
      followPath una fs image root (position.atEntry directory entry) rest = .ok last := by
  obtain ⟨directory, hdirectory, h⟩ := bind_eq_ok_iff.mp h
  split at h
  · injection h with h
    subst h
    cases hlast
  · next hcomponent =>
    obtain ⟨found, hfound, h⟩ := bind_eq_ok_iff.mp h
    cases found with
    | none =>
      injection h with h
      subst h
      cases hlast
    | some entry => exact ⟨hcomponent, directory, entry, hdirectory, hfound, h⟩

/-- A component that is found is followed by the rest. -/
theorem followPath_cons {component : List Char} (hcomponent : component ≠ [])
    {position : PathPosition} {directory : Directory} {entry : DirectoryEntry}
    (hdirectory : position.getDirectory fs image root = .ok directory)
    (hfound : directory.findName una component = .ok (some entry)) (rest : List (List Char)) :
    followPath una fs image root position (component :: rest) =
      followPath una fs image root (position.atEntry directory entry) rest := by
  rw [followPath]
  simp only [hdirectory, bind, Except.bind, if_neg hcomponent, hfound]

/-- Behind components that were followed to an entry the rest is followed. -/
theorem followPath_append {first rest : List (List Char)} {position last : PathPosition}
    (h : followPath una fs image root position first = .ok last)
    (hlast : last.result = true ∨ first = []) :
    followPath una fs image root position (first ++ rest) =
      followPath una fs image root last rest := by
  induction first generalizing position with
  | nil =>
    injection h with h
    rw [h, List.nil_append]
  | cons component first ih =>
    have hresult : last.result = true := hlast.resolve_right (List.cons_ne_nil _ _)
    obtain ⟨hcomponent, directory, entry, hdirectory, hfound, hrest⟩ :=
      followPath_cons_of_result h hresult
    rw [List.cons_append, followPath_cons hcomponent hdirectory hfound]
    exact ih hrest (Or.inl hresult)

/-- At an entry, the next directory is that of the entry. -/
def PathPosition.IsAtEntry (position : PathPosition) : Prop :=
  ∀ entry, position.directoryEntry = some entry →
    position.isRoot = false ∧ position.clusterNumber = entry.dataStartCluster

theorem isAtEntry_of_followPath {components : List (List Char)} {position last : PathPosition}
    (hposition : position.IsAtEntry)
    (h : followPath una fs image root position components = .ok last) : last.IsAtEntry := by
  apply followPath_invariant _ _ _ hposition h
  · intro position directory hbefore
    exact hbefore
  · intro position directory entry hentry
    cases hentry
  · intro position directory entry other hother
    injection hother with hother
    subst hother
    exact ⟨rfl, rfl⟩

/-- Components lead from a directory to a directory entry. -/
inductive LeadsToEntry (una : LibUna) (fs : FileSystem) (image : List UInt8) :
    Directory → List (List Char) → DirectoryEntry → Prop where
  | found {directory : Directory} {component : List Char} {entry : DirectoryEntry} :
      directory.findName una component = .ok (some entry) →
      LeadsToEntry una fs image directory [component] entry
  | descend {directory subDirectory : Directory} {component : List Char}
      {rest : List (List Char)} {entry last : DirectoryEntry} :
      directory.findName una component = .ok (some entry) →
      readDirectory fs image entry.dataStartCluster = .ok subDirectory →
      LeadsToEntry una fs image subDirectory rest last →
      LeadsToEntry una fs image directory (component :: rest) last

/-- The entry that a path ends at is the one that its components lead to. -/
theorem leadsToEntry_of_followPath {component : List Char} {rest : List (List Char)}
    {position last : PathPosition} {directory : Directory}
    (hdirectory : position.getDirectory fs image root = .ok directory)
    (h : followPath una fs image root position (component :: rest) = .ok last)
    (hlast : last.result = true) :
    ∃ entry, last.directoryEntry = some entry ∧
      LeadsToEntry una fs image directory (component :: rest) entry := by
  induction rest generalizing component position directory with
  | nil =>
    obtain ⟨_, directory', entry, hdirectory', hfound, hrest⟩ := followPath_cons_of_result h hlast
    obtain rfl : directory' = directory := Except.ok.inj (hdirectory'.symm.trans hdirectory)
    injection hrest with hrest
    exact ⟨entry, by rw [← hrest]; rfl, .found hfound⟩
  | cons next rest ih =>
    obtain ⟨_, directory', entry, hdirectory', hfound, hrest⟩ := followPath_cons_of_result h hlast
    obtain rfl : directory' = directory := Except.ok.inj (hdirectory'.symm.trans hdirectory)
    obtain ⟨_, subDirectory, _, hsub, _, _⟩ := followPath_cons_of_result hrest hlast
    obtain ⟨found, hlastEntry, hleads⟩ := ih hsub hrest
    exact ⟨found, hlastEntry, .descend hfound hsub hleads⟩

theorem isAtEntry_start (root : Directory) : (PathPosition.start root).IsAtEntry := by
  intro entry hentry
  cases hentry

/-- The directory of a copy of an entry, if the entry is a directory. -/
theorem getDirectory_create (fs : FileSystem) (image : List UInt8) {entry copy : DirectoryEntry}
    (hcopy : entry.clone = .ok copy) (identifier : Nat) :
    (FileEntry.create identifier (some copy) none).getDirectory fs image =
      if entry.fileAttributeFlags &&& fileAttributeFlagDirectory ≠ 0 then
        (readDirectory fs image entry.dataStartCluster).map some
      else .ok none := by
  obtain ⟨_, hcluster, hflags⟩ := DirectoryEntry.sameEntry_of_clone hcopy
  rw [← hcluster, ← hflags]
  rfl

/-- The directory of a file entry is read from its start cluster. -/
theorem readDirectory_of_getDirectory {identifier : Nat} {entry : DirectoryEntry}
    {directory : Directory}
    (h : (FileEntry.create identifier (some entry) none).getDirectory fs image =
      .ok (some directory)) : readDirectory fs image entry.dataStartCluster = .ok directory := by
  have hcases : (if entry.fileAttributeFlags &&& fileAttributeFlagDirectory ≠ 0 then
      (readDirectory fs image entry.dataStartCluster).map some else .ok none) =
        .ok (some directory) := h
  split_ifs at hcases with hflag
  · obtain ⟨_, hread, hsome⟩ := map_eq_ok_iff.mp hcases
    injection hsome with hsome
    exact hsome ▸ hread
  · cases hcases

/-- The directory of the next component is that of the file entry of a path. -/
theorem getDirectory_of_resolvePath {υ : Type} {e : Encoding Char υ} {units : CodeUnits υ}
    (h : IsStringEncoding e units) {s : List Char} (hlength : (e.encode s).length ≤ ssizeMax)
    {position : PathPosition}
    (hresolve : resolvePath una units fs image root (e.encode s) = .ok position)
    (hresult : position.result = true) {result : Bool} {fileEntry : FileEntry}
    (hentry : position.getFileEntry fs = .ok (result, fileEntry)) {directory : Directory}
    (hdirectory : fileEntry.getDirectory fs image = .ok (some directory)) :
    position.getDirectory fs image root = .ok directory := by
  rw [resolvePath_encode h una fs image root s hlength] at hresolve
  split at hresolve
  · injection hresolve with hresolve
    subst hresolve
    injection hentry with hentry
    injection hentry with _ hentry
    subst hentry
    injection hdirectory with hdirectory
    injection hdirectory with hdirectory
    exact congrArg Except.ok hdirectory
  · have hne := followPath_result (fun hstart => Bool.noConfusion hstart) hresolve hresult
    obtain ⟨entry, hposition⟩ := Option.ne_none_iff_exists'.mp hne
    obtain ⟨hroot, hcluster⟩ := isAtEntry_of_followPath (isAtEntry_start root) hresolve entry
      hposition
    rw [PathPosition.getFileEntry, hposition] at hentry
    obtain ⟨copy, hcopy, heq⟩ := map_eq_ok_iff.mp hentry
    injection heq with _ heq
    subst heq
    rw [PathPosition.getDirectory, hroot, hcluster, ← (DirectoryEntry.sameEntry_of_clone hcopy).2.1]
    exact readDirectory_of_getDirectory hdirectory

end Names

/-! ### The path of a name in a directory -/

section Join

variable {υ : Type} {e : Encoding Char υ} {units : CodeUnits υ} {una : LibUna} {fs : FileSystem}
  {image : List UInt8} {root : Directory}

/-- The character that separates the components. -/
def separatorCharacter : Char := Char.ofNat separator

theorem isPathSeparator_separatorCharacter : isPathSeparator separatorCharacter = true := by decide

/-- A path with a leading separator and something behind it. -/
theorem resolvePath_separator_cons (h : IsStringEncoding e units) {s : List Char} (hs : s ≠ [])
    (hlength : (e.encode (separatorCharacter :: s)).length ≤ ssizeMax) :
    resolvePath una units fs image root (e.encode (separatorCharacter :: s)) =
      followPath una fs image root (.start root) (components isPathSeparator s) := by
  have hone := e.length_encodeSymbol_pos separatorCharacter
  have hpos := List.length_pos_iff.mpr fun hnil => hs (e.encode_eq_nil_iff.mp hnil)
  rw [resolvePath_encode h una fs image root _ hlength, if_neg]
  · rfl
  · rw [Encoding.encode_cons, List.length_append]
    omega

/-- The path of a name in the root directory. -/
theorem resolvePath_rootName (h : IsStringEncoding e units) {name : List Char} (hname : name ≠ [])
    (hlength : (e.encode (separatorCharacter :: name)).length ≤ ssizeMax) :
    resolvePath una units fs image root (e.encode ([] ++ separatorCharacter :: name)) =
      followPath una fs image root (.start root) (components isPathSeparator name) :=
  resolvePath_separator_cons h hname hlength

/-- The path of a name in a directory whose path does not end with a separator. -/
theorem resolvePath_join (h : IsStringEncoding e units) {s : List Char} {last : Char}
    (hlast : isPathSeparator last = false) {position : PathPosition}
    (hlength : (e.encode (separatorCharacter :: (s ++ [last]))).length ≤ ssizeMax)
    (hresolve : resolvePath una units fs image root
      (e.encode (separatorCharacter :: (s ++ [last]))) = .ok position)
    (hresult : position.result = true) (name : List Char)
    (hjoined : (e.encode (separatorCharacter :: (s ++ [last]) ++ separatorCharacter :: name)).length
      ≤ ssizeMax) :
    resolvePath una units fs image root
        (e.encode (separatorCharacter :: (s ++ [last]) ++ separatorCharacter :: name)) =
      followPath una fs image root position (components isPathSeparator name) := by
  rw [resolvePath_separator_cons h (by simp) hlength] at hresolve
  rw [List.cons_append] at hjoined ⊢
  rw [resolvePath_separator_cons h (by simp) hjoined,
    components_append_separator _ isPathSeparator_separatorCharacter,
    components_concat_separator s isPathSeparator_separatorCharacter hlast]
  exact followPath_append hresolve (Or.inl hresult)

theorem followPath_empty_cons {rest : List (List Char)} {position last : PathPosition}
    (h : followPath una fs image root position ([] :: rest) = .ok last) : last.result = false := by
  by_contra hresult
  rw [Bool.not_eq_false] at hresult
  exact (followPath_cons_of_result h hresult).1 rfl

/-- A path that ends with a separator is not that of a directory in front of a
name: there is an empty component between the two. -/
theorem resolvePath_join_of_separator (h : IsStringEncoding e units) {s : List Char}
    (hs : ∀ last ∈ s.getLast?, isPathSeparator last = true) {position : PathPosition}
    (hlength : (e.encode (separatorCharacter :: s)).length ≤ ssizeMax)
    (hresolve : resolvePath una units fs image root (e.encode (separatorCharacter :: s)) =
      .ok position)
    (hresult : position.result = true) (name : List Char)
    (hjoined : (e.encode (separatorCharacter :: s ++ separatorCharacter :: name)).length
      ≤ ssizeMax) {last : PathPosition}
    (hlast : resolvePath una units fs image root
      (e.encode (separatorCharacter :: s ++ separatorCharacter :: name)) = .ok last) :
    last.result = false := by
  have hempty : components isPathSeparator (separatorCharacter :: name) =
      [] :: components isPathSeparator name := components_append_cons
    (s := []) (fun _ hc => absurd hc List.not_mem_nil) isPathSeparator_separatorCharacter
  rw [List.cons_append] at hjoined hlast
  rw [resolvePath_separator_cons h (by simp) hjoined] at hlast
  rcases List.eq_nil_or_concat s with rfl | ⟨first, c, rfl⟩
  · rw [List.nil_append, hempty] at hlast
    exact followPath_empty_cons hlast
  · rw [List.concat_eq_append] at hs hlength hresolve hlast
    have hc : isPathSeparator c = true := hs c (by simp)
    rw [resolvePath_separator_cons h (by simp) hlength] at hresolve
    rw [List.append_assoc, List.singleton_append, components_append_separator first hc,
      followPath_append hresolve (Or.inl hresult), hempty] at hlast
    exact followPath_empty_cons hlast

end Join

end FsFat
