import FsFat.FileEntry
import FsFat.Name

/-!
File entries by path: the functions of `libfsfat_file_system.c` and
`libfsfat_directory.c` that look a path up. As for names there is a function for
UTF-8 and one for UTF-16, with the same body.

A path that libuna reads as it was encoded is followed component by component.
-/

namespace FsFat

/-! ### Names in a directory -/

/-- The loop over the file entries of a directory: the first one that is equal.
The name of an entry is determined when it is compared first. -/
def findFileEntry (compare : DirectoryEntry → Except Error Ordering) :
    List DirectoryEntry → Except Error (Option DirectoryEntry)
  | [] => .ok none
  | entry :: entries => do
    let entry ← entry.determineName
    match ← compare entry with
    | .eq => pure (some entry)
    | _ => findFileEntry compare entries

namespace Directory

/-- `libfsfat_directory_get_file_entry_by_utf8_name` and
`libfsfat_directory_get_file_entry_by_utf16_name`. -/
def getFileEntryByName {υ : Type} (una : LibUna) (units : CodeUnits υ) (directory : Directory)
    (string : List υ) : Except Error (Option DirectoryEntry) :=
  findFileEntry (·.compareWithString una units string) directory.fileEntries

def getFileEntryByUtf8Name (una : LibUna) : Directory → List UInt8 →
    Except Error (Option DirectoryEntry) := getFileEntryByName una una.utf8Units

def getFileEntryByUtf16Name (una : LibUna) : Directory → List UInt16 →
    Except Error (Option DirectoryEntry) := getFileEntryByName una una.utf16Units

end Directory

/-! ### Paths -/

/-- The variables of the loop over the components of a path, without the string
index. Whether the directory is the root directory of the file system is a
comparison of pointers in the source. -/
structure PathPosition where
  directory : Option Directory
  isRoot : Bool
  clusterNumber : Nat
  directoryEntry : Option DirectoryEntry
  result : Bool
  deriving DecidableEq

namespace PathPosition

def start (root : Directory) : PathPosition where
  directory := some root
  isRoot := true
  clusterNumber := 0
  directoryEntry := none
  result := false

/-- The directory of the next component. A directory in the cache is the one
that was read. -/
def getDirectory (fs : FileSystem) (image : List UInt8) (root : Directory)
    (position : PathPosition) : Except Error Directory :=
  if position.isRoot then .ok root else readDirectory fs image position.clusterNumber

/-- After an empty component. The directory entry is still that of the component
before it. -/
def atEmptyComponent (position : PathPosition) (directory : Directory) : PathPosition :=
  { position with directory := some directory, result := false }

/-- After a component that is not in the directory. -/
def atMissing (position : PathPosition) (directory : Directory) : PathPosition :=
  { position with directory := some directory, directoryEntry := none, result := false }

/-- After a component that is in the directory. -/
def atEntry (position : PathPosition) (directory : Directory) (entry : DirectoryEntry) :
    PathPosition where
  directory := if position.isRoot then none else some directory
  isRoot := false
  clusterNumber := entry.dataStartCluster
  directoryEntry := some entry
  result := true

/-- The file entry that is made at the end, also when the result is 0. -/
def getFileEntry (fs : FileSystem) (position : PathPosition) : Except Error (Bool × FileEntry) :=
  match position.directoryEntry with
  | none =>
    .ok (position.result, .create (rootIdentifier fs.ioHandle) none position.directory)
  | some entry =>
    entry.clone.map fun safeDirectoryEntry =>
      (position.result, .create entry.identifier (some safeDirectoryEntry) none)

end PathPosition

/-- The loop over the characters of a component: the index behind it, and
whether a separator was found there. -/
def scanComponent (copy : Nat → Except Error (Nat × Nat)) (stringLength : Nat) :
    Nat → Nat → Except Error (Nat × Bool)
  | 0, _ => .error .iterationLimit
  | count + 1, index =>
    if index < stringLength then do
      let (character, index) ← copy index
      if character = separator ∨ character = 0 then pure (index, true)
      else scanComponent copy stringLength count index
    else .ok (index, false)

section Path

variable {υ : Type} (una : LibUna) (units : CodeUnits υ) (fs : FileSystem) (image : List UInt8)
  (root : Directory)

/-- The loop over the components of a path. -/
def walkPath (string : List υ) : Nat → Nat → PathPosition → Except Error PathPosition
  | 0, _, _ => .error .iterationLimit
  | count + 1, index, position =>
    if index < string.length then do
      let directory ← position.getDirectory fs image root
      let (nextIndex, isEnded) ←
        scanComponent (units.copy string) string.length (string.length + 1) index
      let segmentLength := nextIndex - (if isEnded then index + 1 else index)
      if segmentLength = 0 then pure (position.atEmptyComponent directory)
      else
        match ← directory.getFileEntryByName una units
            ((string.drop index).take segmentLength) with
        | none => pure (position.atMissing directory)
        | some entry => walkPath string count nextIndex (position.atEntry directory entry)
    else .ok position

/-- The part of the function before the file entry is made: a leading separator
is ignored, and a path of at most one code unit is that of the root directory. -/
def resolvePath (string : List υ) : Except Error PathPosition :=
  if string.length > ssizeMax then .error .valueExceedsMaximum
  else
    let index := if string.head?.map units.value = some separator then 1 else 0
    if string.length = 0 ∨ string.length = 1 then .ok { PathPosition.start root with result := true }
    else walkPath una units fs image root string (string.length + 1) index (.start root)

/-- `libfsfat_file_system_get_file_entry_by_utf8_path` and
`libfsfat_file_system_get_file_entry_by_utf16_path`: the result, 0 or 1, and the
file entry. -/
def getFileEntryByPath (string : List υ) : Except Error (Bool × FileEntry) :=
  resolvePath una units fs image root string >>= PathPosition.getFileEntry fs

end Path

def getFileEntryByUtf8Path (una : LibUna) : FileSystem → List UInt8 → Directory → List UInt8 →
    Except Error (Bool × FileEntry) := getFileEntryByPath una una.utf8Units

def getFileEntryByUtf16Path (una : LibUna) : FileSystem → List UInt8 → Directory → List UInt16 →
    Except Error (Bool × FileEntry) := getFileEntryByPath una una.utf16Units

/-! ### Following the components of a path -/

/-- The characters that end a component. -/
def isPathSeparator (c : Char) : Bool := c.toNat = separator ∨ c.toNat = 0

/-- The characters of a path without a leading separator. -/
def withoutLeadingSeparator (s : List Char) : List Char :=
  if s.head?.map Char.toNat = some separator then s.tail else s

/-- What looking up a name comes to, whatever its encoding is. -/
def Directory.findName (una : LibUna) (directory : Directory) (name : List Char) :
    Except Error (Option DirectoryEntry) :=
  findFileEntry
    (fun entry => Name.compareWithCharacters una entry.name entry.nameSize entry.isUnicode name true)
    directory.fileEntries

/-- The components of a path are followed one by one. -/
def followPath (una : LibUna) (fs : FileSystem) (image : List UInt8) (root : Directory) :
    PathPosition → List (List Char) → Except Error PathPosition
  | position, [] => .ok position
  | position, component :: rest => do
    let directory ← position.getDirectory fs image root
    if component = [] then pure (position.atEmptyComponent directory)
    else
      match ← directory.findName una component with
      | none => pure (position.atMissing directory)
      | some entry => followPath una fs image root (position.atEntry directory entry) rest

/-- What holds of the first position, and of any position that a component gives, holds of the
last. -/
theorem followPath_invariant {una : LibUna} {fs : FileSystem} {image : List UInt8}
    {root : Directory} {P : PathPosition → Prop}
    (atEmpty : ∀ (position : PathPosition) directory, P position →
      P (position.atEmptyComponent directory))
    (atMissing : ∀ (position : PathPosition) directory, P (position.atMissing directory))
    (atEntry : ∀ (position : PathPosition) directory entry, P (position.atEntry directory entry))
    {components : List (List Char)} {position last : PathPosition} (hposition : P position)
    (h : followPath una fs image root position components = .ok last) : P last := by
  induction components generalizing position with
  | nil =>
    injection h with h
    exact h ▸ hposition
  | cons component components ih =>
    obtain ⟨directory, _, h⟩ := bind_eq_ok_iff.mp h
    split at h
    · injection h with h
      exact h ▸ atEmpty position directory hposition
    · obtain ⟨found, _, h⟩ := bind_eq_ok_iff.mp h
      cases found with
      | none =>
        injection h with h
        exact h ▸ atMissing position directory
      | some entry => exact ih (atEntry position directory entry) h

section Follow

variable {υ : Type} {e : Encoding Char υ} {units : CodeUnits υ}

/-- Two comparisons that agree find the same entry. -/
theorem getFileEntryByName_encode (h : IsStringEncoding e units) (una : LibUna)
    (directory : Directory) (name : List Char) (hlength : (e.encode name).length ≤ ssizeMax) :
    directory.getFileEntryByName una units (e.encode name) = directory.findName una name := by
  unfold Directory.getFileEntryByName Directory.findName
  congr 1
  funext entry
  exact Name.compareWithString_encode h una _ _ _ _ hlength _

/-- Without a separator the scan goes to the end of the string. -/
theorem scanComponent_of_forall (h : IsStringEncoding e units) (s t : List Char)
    (ht : ∀ c ∈ t, isPathSeparator c = false) {count : Nat} (hcount : t.length < count) :
    scanComponent (units.copy (e.encode (s ++ t))) (e.encode (s ++ t)).length count
      (e.encode s).length = .ok ((e.encode (s ++ t)).length, false) := by
  induction t generalizing s count with
  | nil =>
    obtain ⟨count, rfl⟩ : ∃ k, count = k + 1 := ⟨count - 1, by simp at hcount; omega⟩
    simp [scanComponent]
  | cons c t ih =>
    obtain ⟨count, rfl⟩ : ∃ k, count = k + 1 := ⟨count - 1, by simp at hcount; omega⟩
    obtain ⟨hc, hrest⟩ := List.forall_mem_cons.mp ht
    have hlt := (e.length_encode_lt_iff s (c :: t)).mpr (List.cons_ne_nil c t)
    have hstep := ih (s ++ [c]) hrest (Nat.lt_of_succ_lt_succ hcount)
    rw [List.append_assoc, List.singleton_append] at hstep
    rw [scanComponent, if_pos hlt]
    simp only [h.isReadBy s c t, bind, Except.bind]
    rw [if_neg (by simpa [isPathSeparator] using hc)]
    exact hstep

/-- The scan ends behind the first separator. -/
theorem scanComponent_of_separator (h : IsStringEncoding e units) (s t : List Char)
    (ht : ∀ c ∈ t, isPathSeparator c = false) {c : Char} (hc : isPathSeparator c = true)
    (u : List Char) {count : Nat} (hcount : t.length < count) :
    scanComponent (units.copy (e.encode (s ++ t ++ c :: u))) (e.encode (s ++ t ++ c :: u)).length
      count (e.encode s).length = .ok ((e.encode (s ++ t ++ [c])).length, true) := by
  induction t generalizing s count with
  | nil =>
    obtain ⟨count, rfl⟩ : ∃ k, count = k + 1 := ⟨count - 1, by simp at hcount; omega⟩
    have hlt := (e.length_encode_lt_iff s (c :: u)).mpr (List.cons_ne_nil c u)
    rw [List.append_nil, scanComponent, if_pos hlt]
    simp only [h.isReadBy s c u, bind, Except.bind]
    rw [if_pos (by simpa [isPathSeparator] using hc)]
    rfl
  | cons d t ih =>
    obtain ⟨count, rfl⟩ : ∃ k, count = k + 1 := ⟨count - 1, by simp at hcount; omega⟩
    obtain ⟨hd, hrest⟩ := List.forall_mem_cons.mp ht
    have hsplit : s ++ d :: t ++ c :: u = s ++ d :: (t ++ c :: u) := by simp
    have hstep := ih (s ++ [d]) hrest (Nat.lt_of_succ_lt_succ hcount)
    rw [List.append_assoc s [d] t, List.singleton_append] at hstep
    rw [hsplit] at hstep ⊢
    have hlt := (e.length_encode_lt_iff s (d :: (t ++ c :: u))).mpr (List.cons_ne_nil d _)
    rw [scanComponent, if_pos hlt]
    simp only [h.isReadBy s d (t ++ c :: u), bind, Except.bind]
    rw [if_neg (by simpa [isPathSeparator] using hd)]
    exact hstep

/-- A separator is one code unit. -/
theorem length_encodeSymbol_of_isPathSeparator (h : IsStringEncoding e units) {c : Char}
    (hc : isPathSeparator c = true) : (e.encodeSymbol c).length = 1 := by
  apply h.length_encodeSymbol
  have hseparator : separator = 0x5c := rfl
  have hc' : c.toNat = separator ∨ c.toNat = 0 := by simpa [isPathSeparator] using hc
  omega

/-- The loop follows a component, and from the index behind it the rest. -/
theorem walkPath_cons (h : IsStringEncoding e units) (una : LibUna) (fs : FileSystem)
    (image : List UInt8) (root : Directory) (s component t : List Char)
    (hlength : (e.encode (s ++ component ++ t)).length ≤ ssizeMax) (hmore : component ++ t ≠ [])
    {nextIndex : Nat} {isEnded : Bool}
    (hscan : scanComponent (units.copy (e.encode (s ++ component ++ t)))
      (e.encode (s ++ component ++ t)).length ((e.encode (s ++ component ++ t)).length + 1)
      (e.encode s).length = .ok (nextIndex, isEnded))
    (hnext : nextIndex =
      (e.encode s).length + (e.encode component).length + if isEnded then 1 else 0)
    {count : Nat} {rest : List (List Char)}
    (hrest : ∀ position, walkPath una units fs image root (e.encode (s ++ component ++ t)) count
      nextIndex position = followPath una fs image root position rest) (position : PathPosition) :
    walkPath una units fs image root (e.encode (s ++ component ++ t)) (count + 1)
        (e.encode s).length position =
      followPath una fs image root position (component :: rest) := by
  have hlt : (e.encode s).length < (e.encode (s ++ component ++ t)).length := by
    rw [List.append_assoc]
    exact (e.length_encode_lt_iff s (component ++ t)).mpr hmore
  have hsegment : nextIndex - (if isEnded then (e.encode s).length + 1 else (e.encode s).length) =
      (e.encode component).length := by
    rw [hnext]
    cases isEnded with
    | true =>
      simp only [if_true]
      omega
    | false => simp
  have hempty : (e.encode component).length = 0 ↔ component = [] := by
    rw [List.length_eq_zero_iff, e.encode_eq_nil_iff]
  have hle : (e.encode component).length ≤ ssizeMax := by
    simp only [Encoding.encode_append, List.length_append] at hlength
    omega
  rw [walkPath, if_pos hlt, followPath]
  cases position.getDirectory fs image root with
  | error error => rfl
  | ok directory =>
    simp only [bind, Except.bind, hscan, hsegment, e.take_drop_encode, hempty,
      getFileEntryByName_encode h una directory component hle, hrest]

/-- The loop follows the components of the path that is left. -/
theorem walkPath_encode (h : IsStringEncoding e units) (una : LibUna) (fs : FileSystem)
    (image : List UInt8) (root : Directory) (s t : List Char)
    (hlength : (e.encode (s ++ t)).length ≤ ssizeMax) {count : Nat} (hcount : t.length < count)
    (position : PathPosition) :
    walkPath una units fs image root (e.encode (s ++ t)) count (e.encode s).length position =
      followPath una fs image root position (components isPathSeparator t) := by
  induction hn : t.length using Nat.strongRecOn generalizing s t count position with
  | ind n ih =>
    obtain ⟨count, rfl⟩ : ∃ k, count = k + 1 := ⟨count - 1, by omega⟩
    have hunits {part : List Char} (hpart : part.length ≤ t.length) :
        part.length < (e.encode (s ++ t)).length + 1 := by
      have hle := e.length_le_length_encode (s ++ t)
      rw [List.length_append] at hle
      omega
    by_cases ht : t = []
    · subst ht
      rw [List.append_nil, walkPath, if_neg (Nat.lt_irrefl _)]
      rfl
    have hpos := List.length_pos_iff.mpr ht
    rcases forall_or_exists_separator isPathSeparator t with
      hall | ⟨first, c, rest, rfl, hfirst, hc⟩
    · -- the last component, with no separator behind it
      have hscan := scanComponent_of_forall h s t hall (hunits (Nat.le_refl _))
      have hrest (position : PathPosition) :
          walkPath una units fs image root (e.encode (s ++ t)) count (e.encode (s ++ t)).length
            position = followPath una fs image root position [] := by
        have hend := ih 0 (by omega) (s ++ t) [] (by rw [List.append_nil]; exact hlength)
          (show [].length < count by simp only [List.length_nil]; omega) position rfl
        rw [List.append_nil] at hend
        exact hend
      have happend : s ++ t ++ [] = s ++ t := List.append_nil _
      rw [components_of_forall hall ht]
      rw [← happend] at hlength ⊢
      refine walkPath_cons h una fs image root s t [] hlength (by rwa [List.append_nil])
        (by rw [happend]; exact hscan) (by simp) (by rw [happend]; exact hrest) position
    · have hscan := scanComponent_of_separator h s first hfirst hc rest
        (hunits (by rw [List.length_append]; omega))
      have hsplit : s ++ (first ++ c :: rest) = s ++ first ++ [c] ++ rest := by simp
      have hrest := ih rest.length (by simp at hn; omega) (s ++ first ++ [c]) rest
        (by rw [← hsplit]; exact hlength)
        (show rest.length < count by simp at hcount; omega)
      rw [components_append_cons hfirst hc]
      rw [← hsplit] at hrest
      rw [← List.append_assoc] at hlength hrest hscan ⊢
      refine walkPath_cons h una fs image root s first (c :: rest) hlength (by simp) hscan ?_
        (fun position => hrest position rfl) position
      simp [length_encodeSymbol_of_isPathSeparator h hc, Nat.add_assoc]

/-- A path is followed from the root directory, unless it has at most one code unit. -/
theorem resolvePath_encode (h : IsStringEncoding e units) (una : LibUna) (fs : FileSystem)
    (image : List UInt8) (root : Directory) (s : List Char)
    (hlength : (e.encode s).length ≤ ssizeMax) :
    resolvePath una units fs image root (e.encode s) =
      if (e.encode s).length ≤ 1 then .ok { PathPosition.start root with result := true }
      else
        followPath una fs image root (.start root)
          (components isPathSeparator (withoutLeadingSeparator s)) := by
  have hcases : ((e.encode s).length = 0 ∨ (e.encode s).length = 1) ↔ (e.encode s).length ≤ 1 := by
    omega
  have hunits := e.length_le_length_encode s
  rw [resolvePath, if_neg (Nat.not_lt.mpr hlength)]
  simp only [hcases]
  split
  · rfl
  · cases s with
    | nil => rfl
    | cons c s =>
      have hhead : (e.encode (c :: s)).head?.map units.value = some separator ↔
          c.toNat = separator := by
        rw [Encoding.encode_cons, List.head?_append_of_ne_nil _ (e.ne_nil c)]
        exact h.head_value_iff (by decide) c
      simp only [hhead, withoutLeadingSeparator, List.head?_cons, Option.map_some,
        Option.some.injEq, List.tail_cons]
      by_cases hc : c.toNat = separator
      · have hone : (e.encode [c]).length = 1 := by
          rw [Encoding.encode_cons, Encoding.encode_nil, List.append_nil]
          exact h.length_encodeSymbol (by rw [hc]; decide)
        have hwalk := walkPath_encode h una fs image root [c] s hlength
          (lt_trans (Nat.lt_succ_self _) (Nat.lt_succ_of_le hunits)) (.start root)
        rw [hone] at hwalk
        rw [if_pos hc, if_pos hc]
        exact hwalk
      · rw [if_neg hc, if_neg hc]
        exact walkPath_encode h una fs image root [] (c :: s) hlength (Nat.lt_succ_of_le hunits) _

end Follow

end FsFat
