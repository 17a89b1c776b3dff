import FsFat.PathIteration

/-!
Paths that are not found. The loop over the components of a path is left at a
component that is empty or that is not in its directory, with the variables of
that component, and what is behind the loop makes a file entry of them.
-/

namespace FsFat

section Components

variable {υ : Type} (una : LibUna) (units : CodeUnits υ) (fs : FileSystem) (image : List UInt8)
  (string : List υ)

/-- The component at the index, and the index behind it. -/
def componentAt (index : Nat) : Except Error (Nat × List υ) :=
  (scanComponent (units.copy string) string.length (string.length + 1) index).map fun scanned =>
    (scanned.1, (string.drop index).take
      (scanned.1 - if scanned.2 then index + 1 else index))

/-- From the index on, the components lead to one that is empty or that is not in the directory
that it is looked up in. -/
inductive LeadsNowhere : Nat → Directory → Prop where
  | empty {index next : Nat} {directory : Directory} :
      index < string.length → componentAt units string index = .ok (next, []) →
      LeadsNowhere index directory
  | missing {index next : Nat} {directory : Directory} {component : List υ} :
      index < string.length → componentAt units string index = .ok (next, component) →
      component ≠ [] → directory.getFileEntryByName una units component = .ok none →
      LeadsNowhere index directory
  | later {index next : Nat} {directory subDirectory : Directory} {component : List υ}
      {entry : DirectoryEntry} :
      index < string.length → componentAt units string index = .ok (next, component) →
      component ≠ [] → directory.getFileEntryByName una units component = .ok (some entry) →
      readDirectory fs image entry.dataStartCluster = .ok subDirectory →
      LeadsNowhere next subDirectory → LeadsNowhere index directory

/-- A path of more than one code unit leads nowhere from its first component on. -/
def PathLeadsNowhere (root : Directory) : Prop :=
  1 < string.length ∧ string.length ≤ ssizeMax ∧
    LeadsNowhere una units fs image string
      (if string.head?.map units.value = some separator then 1 else 0) root

/-- There is a file entry only with the result 1. -/
def GivesNoEntry : Except Error (Bool × FileEntry) → Prop
  | .ok (false, _) => False
  | .ok (true, _) | .error _ => True

/-- libuna goes on by at least one code unit with each character. -/
def CodeUnits.Advances : Prop :=
  ∀ (string : List υ) (index character next : Nat),
    units.copy string index = .ok (character, next) → index < next

end Components

section Walk

variable {υ : Type} {una : LibUna} {units : CodeUnits υ} {fs : FileSystem} {image : List UInt8}
  {root : Directory} {string : List υ}

/-- The loop takes one component after another. -/
theorem walkPath_succ {index : Nat} (h : index < string.length) (count : Nat)
    (position : PathPosition) :
    walkPath una units fs image root string (count + 1) index position =
      position.getDirectory fs image root >>= fun directory =>
        componentAt units string index >>= fun step =>
          if step.2.isEmpty then pure (position.atEmptyComponent directory)
          else directory.getFileEntryByName una units step.2 >>= fun found =>
            match found with
            | none => pure (position.atMissing directory)
            | some entry => walkPath una units fs image root string count step.1
                (position.atEntry directory entry) := by
  rw [walkPath, if_pos h, componentAt]
  cases position.getDirectory fs image root with
  | error error => rfl
  | ok directory =>
    cases scanComponent (units.copy string) string.length (string.length + 1) index with
    | error error => rfl
    | ok scanned =>
      obtain ⟨next, isEnded⟩ := scanned
      have hne : string.drop index ≠ [] := by simpa using h
      have hempty (count : Nat) : ((string.drop index).take count).isEmpty = true ↔ count = 0 := by
        rw [List.isEmpty_iff, List.take_eq_nil_iff, or_iff_left hne]
      exact (if_congr (hempty _) rfl rfl).symm

/-- The loop over a component goes on, unless it is at the end of the string. -/
theorem le_of_scanComponent (hunits : units.Advances) {count index next : Nat} {isEnded : Bool}
    (h : scanComponent (units.copy string) string.length count index = .ok (next, isEnded)) :
    index ≤ next ∧ (index < string.length → index < next) := by
  induction count generalizing index with
  | zero => cases h
  | succ count ih =>
    rw [scanComponent] at h
    split at h
    · next hlt =>
      obtain ⟨⟨character, behind⟩, hcopy, h⟩ := bind_eq_ok_iff.mp h
      have hbehind := hunits string index character behind hcopy
      dsimp only at h
      split at h
      · injection h with h
        injection h with h
        subst h
        exact ⟨hbehind.le, fun _ => hbehind⟩
      · obtain ⟨hle, _⟩ := ih h
        exact ⟨(hbehind.trans_le hle).le, fun _ => hbehind.trans_le hle⟩
    · next hnot =>
      injection h with h
      injection h with h
      subst h
      exact ⟨Nat.le_refl _, fun hlt => absurd hlt hnot⟩

theorem lt_of_componentAt (hunits : units.Advances) {index next : Nat} {component : List υ}
    (hlt : index < string.length) (h : componentAt units string index = .ok (next, component)) :
    index < next := by
  obtain ⟨⟨behind, isEnded⟩, hscan, heq⟩ := map_eq_ok_iff.mp h
  injection heq with heq
  subst heq
  exact (le_of_scanComponent hunits hscan).2 hlt

/-- The loop is left without the result 1, and what it leaves is made a file entry of. -/
structure PathPosition.IsLeft (position : PathPosition) : Prop where
  result : position.result = false
  name : ∀ entry, position.directoryEntry = some entry → ∃ name, entry.name = some name

theorem name_of_getFileEntryByName {directory : Directory} {component : List υ}
    {entry : DirectoryEntry}
    (h : directory.getFileEntryByName una units component = .ok (some entry)) :
    ∃ name, entry.name = some name := by
  have hequal := compare_of_findFileEntry h
  apply Option.ne_none_iff_exists'.mp
  intro hname
  rw [DirectoryEntry.compareWithString, hname] at hequal
  cases hequal

/-- A path that leads nowhere is walked up to the component that is empty or missing. -/
theorem walkPath_of_leadsNowhere (hunits : units.Advances) {index : Nat} {directory : Directory}
    (h : LeadsNowhere una units fs image string index directory) {position : PathPosition}
    (hdirectory : position.getDirectory fs image root = .ok directory)
    (hname : ∀ entry, position.directoryEntry = some entry → ∃ name, entry.name = some name)
    {count : Nat} (hcount : string.length < count + index) :
    ∃ last, walkPath una units fs image root string count index position = .ok last ∧
      last.IsLeft := by
  induction h generalizing position count with
  | @empty index next directory hlt hcomponent =>
    obtain ⟨count, rfl⟩ : ∃ k, count = k + 1 := ⟨count - 1, by omega⟩
    refine ⟨position.atEmptyComponent directory, ?_, rfl, hname⟩
    rw [walkPath_succ hlt, hdirectory]
    simp only [bind, Except.bind, hcomponent]
    rfl
  | @missing index next directory component hlt hcomponent hne hmissing =>
    obtain ⟨count, rfl⟩ : ∃ k, count = k + 1 := ⟨count - 1, by omega⟩
    refine ⟨position.atMissing directory, ?_, rfl, fun entry hentry => by cases hentry⟩
    rw [walkPath_succ hlt, hdirectory]
    simp only [bind, Except.bind, hcomponent, List.isEmpty_iff, if_neg hne, hmissing]
    rfl
  | @later index next directory subDirectory component entry hlt hcomponent hne hfound hread _ ih =>
    obtain ⟨count, rfl⟩ : ∃ k, count = k + 1 := ⟨count - 1, by omega⟩
    have hadvances := lt_of_componentAt hunits hlt hcomponent
    rw [walkPath_succ hlt, hdirectory]
    simp only [bind, Except.bind, hcomponent, List.isEmpty_iff, if_neg hne, hfound]
    have hdirectory : (position.atEntry directory entry).getDirectory fs image root =
        .ok subDirectory := hread
    refine ih hdirectory ?_ (by omega)
    intro other hother
    injection hother with hother
    exact hother ▸ name_of_getFileEntryByName hfound

/-- A walk that is left without the result 1 leads nowhere. -/
theorem leadsNowhere_of_walkPath {count index : Nat} {position last : PathPosition}
    (hlt : index < string.length)
    (h : walkPath una units fs image root string count index position = .ok last)
    (hlast : last.result = false) :
    ∃ directory, position.getDirectory fs image root = .ok directory ∧
      LeadsNowhere una units fs image string index directory := by
  induction count generalizing index position with
  | zero => cases h
  | succ count ih =>
    rw [walkPath_succ hlt] at h
    obtain ⟨directory, hdirectory, h⟩ := bind_eq_ok_iff.mp h
    obtain ⟨⟨next, component⟩, hcomponent, h⟩ := bind_eq_ok_iff.mp h
    refine ⟨directory, hdirectory, ?_⟩
    dsimp only at h
    simp only [List.isEmpty_iff] at h
    split at h
    · next hempty => exact .empty hlt (hempty ▸ hcomponent)
    · next hne =>
      obtain ⟨found, hfound, h⟩ := bind_eq_ok_iff.mp h
      cases found with
      | none => exact .missing hlt hcomponent hne hfound
      | some entry =>
        dsimp only at h
        by_cases hnext : next < string.length
        · obtain ⟨subDirectory, hread, hleads⟩ := ih hnext h
          exact .later hlt hcomponent hne hfound hread hleads
        · -- the last component was found, and the result is 1
          cases count with
          | zero => cases h
          | succ count =>
            rw [walkPath, if_neg hnext] at h
            injection h with h
            subst h
            cases hlast

end Walk

/-! ### What a path that is not found gives -/

section Path

variable {υ : Type} {una : LibUna} {units : CodeUnits υ} {fs : FileSystem} {image : List UInt8}
  {root : Directory} {string : List υ}

/-- The function makes a file entry of what is left. -/
theorem not_givesNoEntry_of_isLeft {position : PathPosition} (h : position.IsLeft) :
    ¬ GivesNoEntry (position.getFileEntry fs) := by
  rw [PathPosition.getFileEntry, h.result]
  cases hentry : position.directoryEntry with
  | none => exact id
  | some entry =>
    obtain ⟨name, hname⟩ := h.name entry hentry
    simp only [DirectoryEntry.clone_of_name hname]
    exact id

theorem givesNoEntry_of_result {position : PathPosition} (h : position.result = true) :
    GivesNoEntry (position.getFileEntry fs) := by
  cases hentry : position.getFileEntry fs with
  | error error => trivial
  | ok made =>
    obtain ⟨result, fileEntry⟩ := made
    have hresult := h.symm.trans (getFileEntry_result hentry)
    subst hresult
    trivial

/-- A path gives a file entry with the result 0 if and only if it leads nowhere. -/
theorem givesNoEntry_iff (hunits : units.Advances) :
    GivesNoEntry (getFileEntryByPath una units fs image root string) ↔
      ¬ PathLeadsNowhere una units fs image string root := by
  rw [getFileEntryByPath, resolvePath]
  split
  · next hlong =>
    apply iff_of_true trivial
    rintro ⟨_, hle, _⟩
    exact Nat.not_lt.mpr hle hlong
  · next hlength =>
    dsimp only
    split
    · next hshort =>
      apply iff_of_true trivial
      rintro ⟨hlt, _⟩
      omega
    · next hshort =>
      have hlt : 1 < string.length := by omega
      rw [PathLeadsNowhere]
      generalize hindex : (if string.head?.map units.value = some separator then 1 else 0) = index
      have hindexLt : index < string.length := by
        rw [← hindex]
        split <;> omega
      constructor
      · rintro hgives ⟨_, _, hleads⟩
        have hdirectory : (PathPosition.start root).getDirectory fs image root = .ok root := rfl
        have hcount : string.length < string.length + 1 + index := by omega
        obtain ⟨last, hlast, hleft⟩ := walkPath_of_leadsNowhere hunits hleads hdirectory
          (fun entry hentry => by cases hentry) hcount
        rw [hlast] at hgives
        exact not_givesNoEntry_of_isLeft hleft hgives
      · intro hnot
        cases hwalk : walkPath una units fs image root string (string.length + 1) index
          (.start root) with
        | error error => trivial
        | ok last =>
          apply givesNoEntry_of_result
          by_contra hresult
          obtain ⟨directory, hdirectory, hleads⟩ := leadsNowhere_of_walkPath hindexLt hwalk
            (Bool.eq_false_iff.mpr hresult)
          injection hdirectory with hdirectory
          exact hnot ⟨hlt, Nat.le_of_not_lt hlength, hdirectory ▸ hleads⟩

end Path

/-! ### A path that is not found -/

theorem advances_utf8_wellFormedLibUna : wellFormedLibUna.utf8Units.Advances := by
  intro string index character next h
  have hcopy : wellFormedLibUna.copyFromUtf8 string index = .ok (character, next) := h
  simp only [wellFormedLibUna] at hcopy
  split at hcopy
  · next c _ =>
    injection hcopy with hcopy
    injection hcopy with _ hnext
    have hpos := List.length_pos_iff.mpr (utf8.ne_nil c)
    have hsymbol : utf8.encodeSymbol c = String.utf8EncodeChar c := rfl
    rw [hsymbol] at hpos
    omega
  · cases hcopy

theorem advances_utf16_wellFormedLibUna : wellFormedLibUna.utf16Units.Advances := by
  intro string index character next h
  have hcopy : copyUtf16Character string index = .ok (character, next) := h
  unfold copyUtf16Character at hcopy
  split at hcopy
  · cases hcopy
  · split_ifs at hcopy
    · split at hcopy
      · cases hcopy
      · split_ifs at hcopy
        injection hcopy with hcopy
        injection hcopy with _ hnext
        omega
    · injection hcopy with hcopy
      injection hcopy with _ hnext
      omega

/-- A name that is not in the root directory of this volume. -/
def missingName : List Char := [Char.ofNat 0x42, Char.ofNat 0x42]

/-- A name that is not in the root directory gives a file entry of the root directory. -/
theorem getFileEntryByPath_missing {υ : Type} {e : Encoding Char υ} {units : CodeUnits υ}
    (h : IsStringEncoding e units) {una : LibUna} (fs : FileSystem) (image : List UInt8)
    {root : Directory} {name : List Char} (hlength : (e.encode name).length ≤ ssizeMax)
    (hlong : ¬ (e.encode name).length ≤ 1)
    (hpath : components isPathSeparator (withoutLeadingSeparator name) = [name])
    (hmissing : root.findName una name = .ok none) :
    getFileEntryByPath una units fs image root (e.encode name) =
      .ok (false, getRootDirectory fs root) := by
  have hne : name ≠ [] := by
    rintro rfl
    exact hlong (Nat.zero_le 1)
  rw [getFileEntryByPath_encode h hlength, if_neg hlong, hpath, followPath]
  simp only [PathPosition.getDirectory, PathPosition.start, bind, Except.bind, if_true, if_neg hne,
    hmissing]
  rfl

/-- The lookups of a path give no file entry without the result 1 if and only if the path does not
lead to an empty or a missing component. -/
theorem path_not_found_givesNoEntry_iff {una : LibUna} (hutf8 : una.utf8Units.Advances)
    (hutf16 : una.utf16Units.Advances) (fs : FileSystem) (image : List UInt8) (root : Directory)
    (utf8String : List UInt8) (utf16String : List UInt16) :
    (GivesNoEntry (getFileEntryByUtf8Path una fs image root utf8String) ↔
        ¬ PathLeadsNowhere una una.utf8Units fs image utf8String root) ∧
      (GivesNoEntry (getFileEntryByUtf16Path una fs image root utf16String) ↔
        ¬ PathLeadsNowhere una una.utf16Units fs image utf16String root) :=
  ⟨givesNoEntry_iff hutf8, givesNoEntry_iff hutf16⟩

/-- The path of a name that is not in this root directory. -/
theorem path_not_found_givesNoEntry_iff_missing :
    ∃ opened fs root,
      Volume.openFileIOHandle rootFileEnvironment accessFlagRead .create = (.ok (), opened) ∧
      opened.fileSystem = some ⟨some fs, some root⟩ ∧
      (GivesNoEntry (getFileEntryByUtf8Path wellFormedLibUna fs rootFileImage root
            (utf8.encode missingName)) ↔
          ¬ PathLeadsNowhere wellFormedLibUna wellFormedLibUna.utf8Units fs rootFileImage
            (utf8.encode missingName) root) ∧
        (GivesNoEntry (getFileEntryByUtf16Path wellFormedLibUna fs rootFileImage root
            (utf16.encode missingName)) ↔
          ¬ PathLeadsNowhere wellFormedLibUna wellFormedLibUna.utf16Units fs rootFileImage
            (utf16.encode missingName) root) := by
  obtain ⟨opened, fs, root, hopen, hfs, _⟩ := open_rootFile
  exact ⟨opened, fs, root, hopen, hfs, path_not_found_givesNoEntry_iff
    advances_utf8_wellFormedLibUna advances_utf16_wellFormedLibUna fs rootFileImage root _ _⟩

/-- The path "BB" is not found in a root directory that has the file "A" only, and the functions
give a file entry of the root directory with the result 0. -/
theorem missing_name_gives_root :
    utf8.encode missingName = [0x42, 0x42] ∧ utf16.encode missingName = [0x42, 0x42] ∧
    ∃ opened fs root,
      Volume.openFileIOHandle rootFileEnvironment accessFlagRead .create = (.ok (), opened) ∧
      opened.fileSystem = some ⟨some fs, some root⟩ ∧
      getFileEntryByUtf8Path wellFormedLibUna fs rootFileImage root (utf8.encode missingName) =
        .ok (false, getRootDirectory fs root) ∧
      ¬ GivesNoEntry
        (getFileEntryByUtf8Path wellFormedLibUna fs rootFileImage root (utf8.encode missingName)) ∧
      getFileEntryByUtf16Path wellFormedLibUna fs rootFileImage root (utf16.encode missingName) =
        .ok (false, getRootDirectory fs root) ∧
      ¬ GivesNoEntry
        (getFileEntryByUtf16Path wellFormedLibUna fs rootFileImage root
          (utf16.encode missingName)) := by
  refine ⟨by decide, by decide, ?_⟩
  obtain ⟨opened, fs, root, hopen, hfs, _⟩ := open_rootFile
  have hlisted : (Volume.openFileIOHandle rootFileEnvironment accessFlagRead
      .create).2.fileSystem.map (fun fileSystem => fileSystem.rootDirectory.map fun root =>
        (root.findName wellFormedLibUna missingName).toOption.map Option.isNone) =
      some (some (some true)) := by
    decide +kernel
  rw [hopen] at hlisted
  dsimp only at hlisted
  rw [hfs] at hlisted
  simp only [Option.map_some, Option.some.injEq] at hlisted
  have hmissing := eq_ok_none_of_isNone hlisted
  have hpath : components isPathSeparator (withoutLeadingSeparator missingName) =
      [missingName] := by decide
  have hutf8 : getFileEntryByUtf8Path wellFormedLibUna fs rootFileImage root
      (utf8.encode missingName) = .ok (false, getRootDirectory fs root) :=
    getFileEntryByPath_missing (isStringEncoding_utf8 readsUnicode_wellFormedLibUna.utf8) fs
      rootFileImage (by decide) (by decide) hpath hmissing
  have hutf16 : getFileEntryByUtf16Path wellFormedLibUna fs rootFileImage root
      (utf16.encode missingName) = .ok (false, getRootDirectory fs root) :=
    getFileEntryByPath_missing (isStringEncoding_utf16 readsUnicode_wellFormedLibUna.utf16) fs
      rootFileImage (by decide) (by decide) hpath hmissing
  exact ⟨opened, fs, root, hopen, hfs, hutf8, hutf8 ▸ id, hutf16, hutf16 ▸ id⟩

end FsFat
