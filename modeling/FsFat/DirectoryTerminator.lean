import FsFat.DirectoryReaders

/-!
What stands behind the end of a directory of FAT-12, FAT-16 and FAT-32. The
terminator is an entry of zero bytes only. Two contents that are the same up to
an entry that is zero in both are read alike, whatever follows; an entry that
starts with zero and goes on otherwise is read as a short name, and what follows
it as entries of the directory.
-/

namespace FsFat

open Bytes DirectoryEntry DirectoryReadState Outcome

/-- The walk along the chain from a cluster comes to the slot at an offset, after
slots with entries. -/
inductive ComesToSlot (fs : FileSystem) (image : List UInt8) (last : Nat) :
    Nat → List Nat → List Slot → Int → Prop where
  | here {c i : Nat} {slots : List Slot} : 2 ≤ c → c < last →
      RangeContent image fs.ioHandle.fileSystemFormat i (clusterOffset fs.ioHandle c) slots false →
      i < slotsPerCluster fs.ioHandle →
      ComesToSlot fs image last c [c] slots
        (clusterOffset fs.ioHandle c + (i * directoryEntrySize : Nat))
  | next {c next : Nat} {visited : List Nat} {slots rest : List Slot} {offset : Int} : 2 ≤ c →
      c < last →
      RangeContent image fs.ioHandle.fileSystemFormat (slotsPerCluster fs.ioHandle)
        (clusterOffset fs.ioHandle c) slots false →
      fs.allocationTable.getClusterNumberByIndex (toInt32 c) = .ok next →
      ComesToSlot fs image last next visited rest offset →
      ComesToSlot fs image last c (c :: visited) (slots ++ rest) offset

/-! ### The content up to a slot -/

section Content

variable {image : List UInt8} {format : FileSystemFormat} {count i : Nat} {offset : Int}
  {slots : List Slot} {data : List UInt8}

/-- A terminator behind the first slots of a range ends the content. -/
theorem RangeContent.terminated_at (h : RangeContent image format i offset slots false)
    (hi : i < count)
    (hdata : readAt image (offset + (i * directoryEntrySize : Nat)) directoryEntrySize = some data)
    (hnone : readData data format = .ok none) :
    RangeContent image format count offset slots true := by
  generalize hflag : false = terminated at h
  induction h generalizing count with
  | ended =>
    obtain ⟨count, rfl⟩ := Nat.exists_eq_succ_of_ne_zero (Nat.ne_of_gt hi)
    refine .terminated ?_ hnone
    simpa using hdata
  | terminated _ _ => cases hflag
  | @slot i offset data' entry slots _ hdata' hentry hrest ih =>
    obtain ⟨count, rfl⟩ := Nat.exists_eq_succ_of_ne_zero (show count ≠ 0 by omega)
    refine .slot hdata' hentry (ih (by omega) ?_ hflag)
    have hoffset : offset + ((i + 1) * directoryEntrySize : Nat) =
        offset + directoryEntrySize + (i * directoryEntrySize : Nat) := by
      push_cast
      ring
    rwa [hoffset] at hdata

/-- An entry behind the first slots of a range is the next slot of the content. -/
theorem RangeContent.continued_at (h : RangeContent image format i offset slots false)
    (hi : i < count)
    (hdata : readAt image (offset + (i * directoryEntrySize : Nat)) directoryEntrySize = some data)
    {entry : DirectoryEntry} (hentry : readData data format = .ok (some entry))
    {slots' : List Slot} {terminated : Bool}
    (h' : RangeContent image format count offset slots' terminated) :
    ∃ more, slots' = slots ++ (offset + (i * directoryEntrySize : Nat), data) :: more := by
  generalize hflag : false = terminated' at h
  induction h generalizing count slots' with
  | @ended offset =>
    rw [Nat.zero_mul, Nat.cast_zero, add_zero] at hdata ⊢
    cases h' with
    | ended => exact absurd hi (Nat.lt_irrefl 0)
    | terminated hdata' hnone =>
      rw [hdata] at hdata'
      injection hdata' with hdata'
      rw [← hdata', hentry] at hnone
      cases hnone
    | slot hdata' _ _ =>
      rw [hdata] at hdata'
      injection hdata' with hdata'
      exact ⟨_, by rw [hdata']; rfl⟩
  | terminated _ _ => cases hflag
  | @slot i offset first entry' slots _ hfirst hentry' hrest ih =>
    have hoffset : offset + ((i + 1) * directoryEntrySize : Nat) =
        offset + directoryEntrySize + (i * directoryEntrySize : Nat) := by
      push_cast
      ring
    rw [hoffset] at hdata ⊢
    cases h' with
    | ended => omega
    | terminated hfirst' hnone =>
      rw [hfirst] at hfirst'
      injection hfirst' with hfirst'
      rw [← hfirst', hentry'] at hnone
      cases hnone
    | slot hfirst' _ hrest' =>
      rw [hfirst] at hfirst'
      injection hfirst' with hfirst'
      obtain ⟨more, hmore⟩ := ih (by omega) hdata hrest' hflag
      exact ⟨more, by rw [hmore, hfirst']; rfl⟩

variable {fs : FileSystem} {last c : Nat} {visited : List Nat}

theorem ComesToSlot.terminated (h : ComesToSlot fs image last c visited slots offset)
    (hdata : readAt image offset directoryEntrySize = some data)
    (hnone : readData data fs.ioHandle.fileSystemFormat = .ok none) :
    DirectoryContent fs image last c visited slots := by
  induction h with
  | here h2 hlast hrange hi => exact .terminated h2 hlast (hrange.terminated_at hi hdata hnone)
  | next h2 hlast hrange hnext _ ih => exact .linked h2 hlast hrange hnext (ih hdata)

theorem ComesToSlot.continued (h : ComesToSlot fs image last c visited slots offset)
    (hdata : readAt image offset directoryEntrySize = some data) {entry : DirectoryEntry}
    (hentry : readData data fs.ioHandle.fileSystemFormat = .ok (some entry))
    {visited' : List Nat} {slots' : List Slot}
    (h' : DirectoryContent fs image last c visited' slots') :
    (∃ more, visited' = visited ++ more) ∧ ∃ more, slots' = slots ++ (offset, data) :: more := by
  induction h generalizing visited' slots' with
  | here h2 hlast hrange hi =>
    cases h' with
    | ended hout => omega
    | terminated _ _ hrange' =>
      exact ⟨⟨[], rfl⟩, hrange.continued_at hi hdata hentry hrange'⟩
    | linked _ _ hrange' _ hrest =>
      obtain ⟨more, hmore⟩ := hrange.continued_at hi hdata hentry hrange'
      exact ⟨⟨_, rfl⟩, ⟨_, by rw [hmore, List.append_assoc]; rfl⟩⟩
  | next h2 hlast hrange hnext _ ih =>
    cases h' with
    | ended hout => omega
    | terminated _ _ hrange' => exact absurd (hrange.unique hrange').2 (by decide)
    | linked _ _ hrange' hnext' hrest =>
      rw [hnext] at hnext'
      injection hnext' with hnext'
      subst hnext'
      obtain ⟨rfl, _⟩ := hrange.unique hrange'
      obtain ⟨⟨moreVisited, rfl⟩, more, rfl⟩ := ih hdata hrest
      exact ⟨⟨moreVisited, rfl⟩, more, by rw [List.append_assoc]⟩

end Content

/-! ### What an entry adds to the listing -/

/-- No file entry and no volume label is taken away. -/
structure Grows (directory directory' : Directory) : Prop where
  fileEntries : directory.fileEntries.length ≤ directory'.fileEntries.length
  volumeLabelEntry : directory.volumeLabelEntry.isSome → directory'.volumeLabelEntry.isSome

/-- A file entry or a volume label is added. -/
def Adds (directory directory' : Directory) : Prop :=
  directory.fileEntries.length < directory'.fileEntries.length ∨
    (directory.volumeLabelEntry = none ∧ directory'.volumeLabelEntry.isSome)

theorem Grows.refl (directory : Directory) : Grows directory directory := ⟨le_rfl, id⟩

theorem Grows.trans {d d' d'' : Directory} (h : Grows d d') (h' : Grows d' d'') : Grows d d'' :=
  ⟨h.fileEntries.trans h'.fileEntries, fun hsome => h'.volumeLabelEntry (h.volumeLabelEntry hsome)⟩

/-- What is added stays in the listing, which is not that of the directory before. -/
theorem Adds.not_sameListing {d d' d'' : Directory} (h : Adds d d') (h' : Grows d' d'') :
    ¬ SameListing d d'' := by
  intro hsame
  rcases h with hlength | ⟨hnone, hsome⟩
  · have hfiles := hsame.fileEntries.length_eq
    have hgrows := h'.fileEntries
    omega
  · have hlabel := hsame.volumeLabelEntry
    obtain ⟨label, hlabel'⟩ := Option.isSome_iff_exists.mp (h'.volumeLabelEntry hsome)
    rw [hnone, hlabel'] at hlabel
    cases hlabel

/-- The functions that treat an entry: none takes anything from the listing, and
a short name whose first byte is zero adds to it. -/
structure IsReader
    (process : DirectoryReadState → DirectoryEntry → Int → Except Error DirectoryReadState) :
    Prop where
  grows : ∀ {s s' : DirectoryReadState} {entry : DirectoryEntry} {offset : Int},
    entry.entryType = .shortName ∨ entry.entryType = .vfatLongName →
    process s entry offset = .ok s' → Grows s.directory s'.directory
  adds : ∀ {s s' : DirectoryReadState} {data : List UInt8} {offset : Int},
    data.length = directoryEntrySize → byteAt data 0 = 0 →
    process s (readShortName data) offset = .ok s' → Adds s.directory s'.directory

section Reader

variable {s s' : DirectoryReadState} {entry : DirectoryEntry} {offset : Int}

theorem setVolumeLabelEntry_eq_ok (h : s.setVolumeLabelEntry entry = .ok s') :
    s.directory.volumeLabelEntry = none ∧
      s'.directory = { s.directory with volumeLabelEntry := some entry } := by
  unfold setVolumeLabelEntry at h
  split at h
  · cases h
  · next hnone =>
    injection h with h
    subst h
    exact ⟨by simpa using hnone, rfl⟩

theorem setVolumeLabelEntry_adds (h : s.setVolumeLabelEntry entry = .ok s') :
    Grows s.directory s'.directory ∧ Adds s.directory s'.directory := by
  obtain ⟨hnone, hdirectory⟩ := setVolumeLabelEntry_eq_ok h
  rw [hdirectory]
  exact ⟨⟨le_rfl, fun _ => rfl⟩, Or.inr ⟨hnone, rfl⟩⟩

theorem addShortName_adds (h : s.addShortName entry offset = .ok s') :
    Grows s.directory s'.directory ∧ Adds s.directory s'.directory := by
  obtain ⟨named, _, rfl⟩ := addShortName_eq_ok h
  have hlength : s.directory.fileEntries.length < (s.directory.fileEntries ++ [named]).length := by
    simp
  exact ⟨⟨hlength.le, id⟩, Or.inl hlength⟩

theorem not_hasDotName_of_zero {data : List UInt8} (h : byteAt data 0 = 0) : ¬ HasDotName data := by
  have hfirst : byteAt (data.take 11) 0 = 0 := by rw [byteAt_take_of_lt _ (by decide), h]
  rintro (hself | hparent)
  · rw [hself] at hfirst
    exact absurd hfirst (by decide)
  · rw [hparent] at hfirst
    exact absurd hfirst (by decide)

theorem isReader_processEntry : IsReader processEntry where
  grows htype h := by
    unfold processEntry at h
    split at h
    · unfold setSelfEntry at h
      split at h
      · cases h
      · injection h with h
        subst h
        exact ⟨le_rfl, id⟩
    split at h
    · unfold setParentEntry at h
      split at h
      · cases h
      · injection h with h
        subst h
        exact ⟨le_rfl, id⟩
    · rcases htype with htype | htype
      · rw [htype] at h
        dsimp only at h
        split at h
        · exact (setVolumeLabelEntry_adds h).1
        · exact (addShortName_adds h).1
      · rw [htype] at h
        rw [addVfatLongName_directory h]
        exact .refl _
  adds hlength hzero h := by
    have hdot := not_hasDotName_of_zero hzero
    rw [processEntry_shortName hlength, if_neg fun hself => hdot (Or.inl hself),
      if_neg fun hparent => hdot (Or.inr hparent)] at h
    split at h
    · exact (setVolumeLabelEntry_adds h).2
    · exact (addShortName_adds h).2

theorem isReader_processEntryByRange : IsReader processEntryByRange where
  grows htype h := by
    rcases htype with htype | htype
    · simp only [processEntryByRange, htype] at h
      split at h
      · exact (setVolumeLabelEntry_adds h).1
      · exact (addShortName_adds h).1
    · simp only [processEntryByRange, htype] at h
      rw [addVfatLongName_directory h]
      exact .refl _
  adds _ _ h := by
    have htype (data : List UInt8) : (readShortName data).entryType = .shortName := rfl
    simp only [processEntryByRange, htype] at h
    split at h
    · exact (setVolumeLabelEntry_adds h).2
    · exact (addShortName_adds h).2

end Reader

/-! ### Contents that differ behind a slot -/

section Contents

variable {process : DirectoryReadState → DirectoryEntry → Int → Except Error DirectoryReadState}
  {format : FileSystemFormat}

theorem processEntries_grows (hprocess : IsReader process) (hformat : format ≠ .exfat)
    (slots : List Slot) {s s' : DirectoryReadState}
    (h : processEntries process (entriesOf format slots) s = .ok s') :
    Grows s.directory s'.directory := by
  induction slots generalizing s with
  | nil =>
    injection h with h
    subst h
    exact .refl _
  | cons slot slots ih =>
    rw [entriesOf, List.filterMap_cons] at h
    unfold entryOf at h
    split at h
    · next e hnone => exact ih h
    · next first hsome =>
      split at hsome
      · next entry hentry =>
        split at hsome
        · cases hsome
        · next hun =>
          injection hsome with hsome
          subst hsome
          simp only [processEntries] at h
          split at h
          · cases h
          · next s₁ hstep =>
            have htype : entry.entryType = .shortName ∨ entry.entryType = .vfatLongName := by
              rcases readData_eq_some hformat hentry with ⟨_, rfl⟩ | ⟨_, rfl⟩ | ⟨_, rfl⟩
              · exact Or.inl rfl
              · exact Or.inr rfl
              · exact absurd rfl hun
            exact (hprocess.grows htype hstep).trans
              ((⟨le_rfl, id⟩ : Grows s₁.directory (s₁.appendEntry slot.1).directory).trans (ih h))
      · cases hsome

/-- An entry that starts with zero and is not the terminator is a short name. -/
theorem readData_of_zero (hformat : format ≠ .exfat) {data : List UInt8}
    (hzero : byteAt data 0 = 0) (hne : data ≠ DirectoryEntry.empty) :
    readData data format = .ok (some (readShortName data)) := by
  rw [readData, entryTypeOf_fat hformat]
  simp [entryTypeOf, hne, hzero]

/-- The listing of a content that goes on with an entry that starts with zero is
not that of the content without it. -/
theorem processEntries_zero_ne (hprocess : IsReader process) (hformat : format ≠ .exfat)
    {slots more : List Slot} {offset : Int} {data : List UInt8}
    (hlength : data.length = directoryEntrySize) (hzero : byteAt data 0 = 0)
    (hne : data ≠ DirectoryEntry.empty) {s s₁ s₂ : DirectoryReadState}
    (h₁ : processEntries process (entriesOf format slots) s = .ok s₁)
    (h₂ : processEntries process (entriesOf format (slots ++ (offset, data) :: more)) s = .ok s₂) :
    ¬ SameListing s₁.directory s₂.directory := by
  have hcons : entriesOf format ((offset, data) :: more) =
      (offset, readShortName data) :: entriesOf format more := by
    rw [entriesOf, List.filterMap_cons, entryOf, readData_of_zero hformat hzero hne]
    rfl
  rw [entriesOf_append, processEntries_append, h₁, hcons] at h₂
  simp only [processEntries] at h₂
  split at h₂
  · cases h₂
  · next s' hstep =>
    have hadds := hprocess.adds hlength hzero hstep
    have hgrows : Grows s'.directory s₂.directory :=
      (⟨le_rfl, id⟩ : Grows s'.directory (s'.appendEntry offset).directory).trans
        (processEntries_grows hprocess hformat more h₂)
    exact hadds.not_sameListing hgrows

theorem processEntries_prefix {xs ys : List (Int × DirectoryEntry)} {s s' : DirectoryReadState}
    (h : processEntries process (xs ++ ys) s = .ok s') :
    ∃ s₁, processEntries process xs s = .ok s₁ := by
  rw [processEntries_append] at h
  split at h
  · cases h
  · next s₁ hs₁ => exact ⟨s₁, hs₁⟩

end Contents

/-! ### The two functions -/

/-- How the results for two contents compare that are the same up to an entry
whose first byte is zero in both: they are equal when the rest of the entry is
zero in both, and when it is zero in the first only they agree exactly when the
first content cannot be read. -/
def TerminatorDecides (data₁ data₂ : List UInt8) (result₁ result₂ : Except Error Directory) : Prop :=
  (data₁ = DirectoryEntry.empty → data₂ = DirectoryEntry.empty → Agree Eq result₁ result₂) ∧
    (data₁ = DirectoryEntry.empty → data₂ ≠ DirectoryEntry.empty →
      (Agree SameListing result₁ result₂ ↔ ∀ directory, result₁ ≠ .ok directory))

/-- Results of which the first succeeds, with another listing, whenever the second does. -/
theorem agree_iff_not_ok {result₁ result₂ : Except Error Directory}
    (h : ∀ {directory₂}, result₂ = .ok directory₂ →
      ∃ directory₁, result₁ = .ok directory₁ ∧ ¬ SameListing directory₁ directory₂) :
    Agree SameListing result₁ result₂ ↔ ∀ directory, result₁ ≠ .ok directory := by
  constructor
  · intro hagree directory h₁
    obtain ⟨directory₂, h₂, hsame⟩ := hagree.of_ok h₁
    obtain ⟨directory₁, h₁', hnot⟩ := h h₂
    rw [h₁] at h₁'
    injection h₁' with h₁'
    exact hnot (h₁' ▸ hsame)
  · intro hnone
    rw [agree_iff]
    refine ⟨fun directory h₁ => absurd h₁ (hnone directory), fun directory h₂ => ?_⟩
    obtain ⟨directory₁, h₁, _⟩ := h h₂
    exact absurd h₁ (hnone directory₁)

section Read

variable {fs : FileSystem} {image₁ image₂ : List UInt8} {data₁ data₂ : List UInt8}

/-- Along a chain of clusters. -/
theorem terminator_decides_chain (hformat : fs.ioHandle.fileSystemFormat ≠ .exfat)
    (hgeometry : BlockGeometry fs.ioHandle) {last c : Nat} {visited : List Nat} {slots : List Slot}
    {offset : Int} (hlast : lastClusterNumber fs.ioHandle.fileSystemFormat = .ok last)
    (hcomes₁ : ComesToSlot fs image₁ last c visited slots offset)
    (hcomes₂ : ComesToSlot fs image₂ last c visited slots offset)
    (hdata₁ : readAt image₁ offset directoryEntrySize = some data₁)
    (hdata₂ : readAt image₂ offset directoryEntrySize = some data₂)
    (hzero₂ : byteAt data₂ 0 = 0) :
    TerminatorDecides data₁ data₂ (readDirectory fs image₁ c) (readDirectory fs image₂ c) := by
  have hempty {data : List UInt8} (h : data = DirectoryEntry.empty) :
      readData data fs.ioHandle.fileSystemFormat = .ok none := h ▸ readData_terminator hformat
  constructor
  · intro h₁ h₂
    have hread₁ {directory : Directory} : readDirectory fs image₁ c = .ok directory ↔ _ :=
      readDirectory_eq_ok_iff_of_content hgeometry hlast (hcomes₁.terminated hdata₁ (hempty h₁))
    have hread₂ {directory : Directory} : readDirectory fs image₂ c = .ok directory ↔ _ :=
      readDirectory_eq_ok_iff_of_content hgeometry hlast (hcomes₂.terminated hdata₂ (hempty h₂))
    exact agree_eq_of_forall fun directory => hread₁.trans hread₂.symm
  · intro h₁ h₂
    have hentry₂ := readData_of_zero hformat hzero₂ h₂
    have hread₁ {directory : Directory} : readDirectory fs image₁ c = .ok directory ↔ _ :=
      readDirectory_eq_ok_iff_of_content hgeometry hlast (hcomes₁.terminated hdata₁ (hempty h₁))
    have hcontinued {directory₂ : Directory} (h : readDirectory fs image₂ c = .ok directory₂) :
        ∃ directory₁, readDirectory fs image₁ c = .ok directory₁ ∧
          ¬ SameListing directory₁ directory₂ := by
      obtain ⟨last', visited', slots', hlast', hvolume, hcontent, hmay, s₂, hs₂, rfl⟩ :=
        (readDirectory_eq_ok_iff_content hgeometry).mp h
      rw [hlast] at hlast'
      injection hlast' with hlast'
      subst hlast'
      obtain ⟨⟨moreVisited, rfl⟩, more, rfl⟩ := hcomes₂.continued hdata₂ hentry₂ hcontent
      have hmay₁ : MayVisit fs.ioHandle [] visited :=
        ⟨fun d hd => hmay.covers d (List.mem_append_left _ hd), by
          have hnodup := hmay.nodup
          rw [List.nil_append, List.map_append] at hnodup
          exact (List.nodup_append.mp hnodup).1⟩
      obtain ⟨s₁, hs₁⟩ := processEntries_prefix (by rw [← entriesOf_append]; exact hs₂)
      exact ⟨s₁.directory, hread₁.mpr ⟨hvolume, hmay₁, s₁, hs₁, rfl⟩,
        processEntries_zero_ne isReader_processEntry hformat (length_of_readAt hdata₂) hzero₂ h₂
          hs₁ hs₂⟩
    exact agree_iff_not_ok hcontinued

/-- In a range. -/
theorem terminator_decides_range (hformat : fs.ioHandle.fileSystemFormat ≠ .exfat)
    {fileOffset : Int} {size i : Nat} {slots : List Slot}
    (hi : i < numberOfEntriesBetween fileOffset (toOff64 (fileOffset + size)))
    (hrange₁ : RangeContent image₁ fs.ioHandle.fileSystemFormat i fileOffset slots false)
    (hrange₂ : RangeContent image₂ fs.ioHandle.fileSystemFormat i fileOffset slots false)
    (hdata₁ : readAt image₁ (fileOffset + (i * directoryEntrySize : Nat)) directoryEntrySize =
      some data₁)
    (hdata₂ : readAt image₂ (fileOffset + (i * directoryEntrySize : Nat)) directoryEntrySize =
      some data₂)
    (hzero₂ : byteAt data₂ 0 = 0) :
    TerminatorDecides data₁ data₂ (readDirectoryByRange fs image₁ fileOffset size)
      (readDirectoryByRange fs image₂ fileOffset size) := by
  have hempty {data : List UInt8} (h : data = DirectoryEntry.empty) :
      readData data fs.ioHandle.fileSystemFormat = .ok none := h ▸ readData_terminator hformat
  constructor
  · intro h₁ h₂
    have hread₁ {directory : Directory} :
        readDirectoryByRange fs image₁ fileOffset size = .ok directory ↔ _ :=
      readDirectoryByRange_eq_ok_iff_of_content (hrange₁.terminated_at hi hdata₁ (hempty h₁))
    have hread₂ {directory : Directory} :
        readDirectoryByRange fs image₂ fileOffset size = .ok directory ↔ _ :=
      readDirectoryByRange_eq_ok_iff_of_content (hrange₂.terminated_at hi hdata₂ (hempty h₂))
    exact agree_eq_of_forall fun directory => hread₁.trans hread₂.symm
  · intro h₁ h₂
    have hentry₂ := readData_of_zero hformat hzero₂ h₂
    have hread₁ {directory : Directory} :
        readDirectoryByRange fs image₁ fileOffset size = .ok directory ↔ _ :=
      readDirectoryByRange_eq_ok_iff_of_content (hrange₁.terminated_at hi hdata₁ (hempty h₁))
    refine agree_iff_not_ok fun {directory₂} h => ?_
    obtain ⟨slots', terminated, hcontent, s₂, hs₂, rfl⟩ :=
      readDirectoryByRange_eq_ok_iff_content.mp h
    obtain ⟨more, rfl⟩ := hrange₂.continued_at hi hdata₂ hentry₂ hcontent
    obtain ⟨s₁, hs₁⟩ := processEntries_prefix (by rw [← entriesOf_append]; exact hs₂)
    exact ⟨s₁.directory, hread₁.mpr ⟨s₁, hs₁, rfl⟩,
      processEntries_zero_ne isReader_processEntryByRange hformat (length_of_readAt hdata₂) hzero₂
        h₂ hs₁ hs₂⟩

end Read

/-- The volume of `vfatFileSystem` with an empty directory. -/
def emptyDirectoryImage : List UInt8 := List.replicate 1024 0

/-- The same with the remains of an entry behind the zero byte that ends the directory. -/
def staleDirectoryImage : List UInt8 := List.replicate 513 0 ++ 0x41 :: List.replicate 510 0

/-- The first slot of the directory. -/
theorem comesToSlot_first (image : List UInt8) :
    ComesToSlot vfatFileSystem image 0xfff0 2 [2] [] 512 :=
  .here (i := 0) (by decide) (by decide) .ended (by decide)

end FsFat
